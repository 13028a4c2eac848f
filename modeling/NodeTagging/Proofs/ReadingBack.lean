import NodeTagging.Proofs.Agreement
import NodeTagging.Proofs.FileLines

/-!
# The generated texts hold their plans

The two texts that agree on type names can be read back without the taxonomy that they were written
from. The dispatcher for type names gives back its arms, and so the table of the taxonomy; the
script gives back its clauses, and so the plan of the classifier (`generated_texts_read_back`). This
asks for names that are identifiers, as in every dump of the engine, and for settings of the target
without line feeds. As the plans are about the same names, so are the texts: the arms that the one
has are for the answers that the other can give.

* `WellFormed.ofText?_nameDispatcherText`, `WellFormed.ofText?_classifierText`: the two texts of a
  taxonomy are read as they were written;
* `ClassifierScript.answers_ofTaxonomy`: the answers in a script are those of its plan.
-/

namespace NodeTagging

/-! ### Answers of a script -/

/-- The names that a clause answers. -/
def ScriptClause.answers : ScriptClause → List String
  | .branch _ probes answer => probes.map (·.answer) ++ [answer]
  | .direct probe => [probe.answer]

/-- The names that a script answers. -/
def ClassifierScript.answers (s : ClassifierScript) : List String :=
  s.clauses.flatMap ScriptClause.answers ++ [s.fallback]

theorem ClassifierScript.answers_ofTaxonomy (t : Taxonomy) :
    (ofTaxonomy t).answers = (TestPlan.ofTaxonomy t).returnNames := by
  simp [answers, ofTaxonomy, TestPlan.returnNames, ScriptClause.answers, branchClause, probeOf,
    List.flatMap_map, Function.comp_def]

/-! ### Reading the texts of a taxonomy -/

namespace Taxonomy.WellFormed

variable {t : Taxonomy} (wf : t.WellFormed) {target : Target} {entry : EntryPoints}
  (named : t.Named entry) (htarget : ∀ s ∈ target.settings, Unbroken s)

include wf named htarget

/-- The dispatcher for type names is read from its text. -/
theorem ofText?_nameDispatcherText :
    NameDispatcher.ofText? target (GeneratedFile.nameDispatcherText target entry t) =
      some (NameDispatcher.ofTaxonomy t) := by
  refine NameDispatcher.ofText?_unlines (wf.unbroken_nameDispatcher named htarget)
    fun arm harm => quoted_of_identifier ?_
  rcases arm_cases harm with rfl | ⟨c, hc, rfl⟩
  · exact named.className t.root List.mem_cons_self
  · exact named.className c (List.mem_cons_of_mem _ hc)

/-- The script is read from its text. -/
theorem ofText?_classifierText :
    ClassifierScript.ofText? entry (GeneratedFile.classifierText target entry t) =
      some (ScriptReading.chainKeywords (ClassifierScript.ofTaxonomy t).clauses.length,
        ClassifierScript.ofTaxonomy t) := by
  refine ClassifierScript.ofText?_fileOfLines (wf.unbroken_script named htarget)
    (fun clause hclause c hc => ?_) (named.className t.root List.mem_cons_self)
  exact named.className c (List.mem_cons_of_mem _ (wf.mem_members_of_clause hclause hc))

end Taxonomy.WellFormed

/-! ### Under a configuration -/

/-- The dispatcher for type names is the last part of its file. -/
theorem exists_dispatcherText_eq (target : Target) (entry : EntryPoints) (t : Taxonomy) :
    ∃ before, GeneratedFile.dispatcherText target entry t =
      before ++ (GeneratedFile.nameDispatcherText target entry t ++ "\n") := by
  refine ⟨Text.fileOfLines (target.noticeLines "//" ++ ["", "use " ++ target.commandsImport ++ ";",
    "use " ++ target.handleImport ++ ";", ""] ++
    (ProbeDispatcher.ofTaxonomy t).lines target entry ++ [""]), ?_⟩
  rw [GeneratedFile.dispatcherText, GeneratedFile.dispatcherLines, GeneratedFile.nameDispatcherText,
    Text.fileOfLines, Text.fileOfLines, Text.unlines, Text.unlines, Text.unlines,
    String.intercalate_append_of_ne_nil (by simp) (by simp [NameDispatcher.lines])]
  simp only [String.append_assoc]

/-- From the text of the dispatcher for type names, its arms are read with their gates and
    insertions, and they are the arms of the table. From the text of the script, the clauses of the
    classifier are read with their tests and answers, and they are those of its plan. Of the words
    that begin a test at the top, the first is `if`, and all others are `elif`. So the names that
    have an arm in the one text are the names that are answered in the other. -/
theorem generated_texts_read_back {workingDirectory path : String} {document : Json}
    {config : Config} (accepted : Config.ofJson workingDirectory path document = .ok config)
    (unbroken : ∀ s ∈ config.target.settings, Unbroken s) {entries : List ClassEntry}
    (identifiers : ∀ e ∈ entries, Json.NamePattern.identifier.matches? e.name)
    {plan : RunPlan} (made : RunPlan.make (.ofEntries entries) config = .ok plan) :
    let t := plan.taxonomy
    let dispatcher := GeneratedFile.nameDispatcherText config.target config.entryPoints t
    let script := GeneratedFile.classifierText config.target config.entryPoints t
    ((∃ before, before ++ (dispatcher ++ "\n") ∈ plan.files.map (·.content)) ∧
      script ∈ plan.files.map (·.content)) ∧
    ∃ d keywords s,
      NameDispatcher.ofText? config.target dispatcher = some d ∧
      ClassifierScript.ofText? config.entryPoints script = some (keywords, s) ∧
      d = NameDispatcher.ofTaxonomy t ∧ d.table = NameTable.ofTaxonomy t ∧
      s = ClassifierScript.ofTaxonomy t ∧ s.plan? = some (TestPlan.ofTaxonomy t) ∧
      keywords = ScriptReading.chainKeywords s.clauses.length ∧
      ∀ name, name ∈ d.arms.map (·.item.typeName) ↔ name ∈ s.answers := by
  intro t dispatcher script
  have named : t.Named config.entryPoints := RunPlan.named identifiers made accepted
  obtain ⟨taxonomy, built, rfl⟩ := RunPlan.exists_taxonomy_of_make made
  have wf : t.WellFormed := Taxonomy.wellFormed_of_build (Config.fit_of_ofJson accepted) built
  have htable : (NameDispatcher.ofTaxonomy t).table = NameTable.ofTaxonomy t :=
    NameDispatcher.table_ofTable t.gates (NameTable.ofTaxonomy t)
  have harms : (NameDispatcher.ofTaxonomy t).arms.map (·.item.typeName) =
      (NameTable.ofTaxonomy t).names := by
    rw [← htable]
    simp [NameDispatcher.table, NameTable.names]
  obtain ⟨before, hbefore⟩ := exists_dispatcherText_eq config.target config.entryPoints t
  refine ⟨⟨⟨before, ?_⟩, ?_⟩, _, _, _,
    wf.ofText?_nameDispatcherText named unbroken, wf.ofText?_classifierText named unbroken, rfl,
    htable, rfl, ClassifierScript.plan?_ofTaxonomy t, rfl, fun name => ?_⟩
  · rw [← hbefore]
    exact List.mem_cons_of_mem _ List.mem_cons_self
  · exact List.mem_cons_of_mem _ (List.mem_cons_of_mem _ List.mem_cons_self)
  · rw [harms, ClassifierScript.answers_ofTaxonomy, Taxonomy.mem_names_iff,
      wf.mem_returnNames_iff]

/-- The texts for sprites and buttons are read back: the chain has two branches and a direct test,
    and the link button has an arm under its gate with a button under another one inside. -/
theorem generated_texts_read_back_of_link_button :
    Config.ofJson "/work" "/work/generator.config.json" Sample.document = .ok Sample.config ∧
      (∀ s ∈ Sample.config.target.settings, Unbroken s) ∧
      (∀ e ∈ Sample.dump, Json.NamePattern.identifier.matches? e.name) ∧
      RunPlan.make (.ofEntries Sample.dump) Sample.config = .ok Sample.plan ∧
      ∃ d s,
        NameDispatcher.ofText? {} (GeneratedFile.nameDispatcherText {} {} Sample.taxonomy) =
          some d ∧
        ClassifierScript.ofText? {} (GeneratedFile.classifierText {} {} Sample.taxonomy) =
          some (["if", "elif", "elif"], s) ∧
        ⟨some "4-5", ⟨"LinkButton",
          [⟨none, "CanvasItem"⟩, ⟨some "4-4", "Button"⟩, ⟨none, "LinkButton"⟩]⟩⟩ ∈ d.arms ∧
        ∀ name, name ∈ d.arms.map (·.item.typeName) ↔ name ∈ s.answers := by
  have unbroken : ∀ s ∈ Sample.config.target.settings, Unbroken s := by decide +kernel
  obtain ⟨-, d, keywords, s, hd, hs, rfl, -, rfl, -, rfl, hsame⟩ := generated_texts_read_back
    Sample.ofJson_document unbroken Sample.identifiers_dump Sample.make_dump
  refine ⟨Sample.ofJson_document, unbroken, Sample.identifiers_dump, Sample.make_dump, _, _, hd,
    hs.trans ?_, ?_, hsame⟩
  · have hkeywords : ScriptReading.chainKeywords
        (ClassifierScript.ofTaxonomy Sample.plan.taxonomy).clauses.length =
        ["if", "elif", "elif"] := by decide +kernel
    rw [hkeywords]
  · decide +kernel

end NodeTagging
