import NodeTagging.Proofs.Dependence

/-!
# Stale entries do nothing

The audit reports the entries of the configuration that name a class which is not tagged. It reports
all of them (`audit_eq`), and none that does anything: without them the generated files are the
same, and the audit has nothing left to report (`stale_entries_do_nothing`).

* `TaxonomyRules.without`: the rules without the entries that some warnings report;
* `agrees_without`, `audit_without`: what becomes of the taxonomy without them.
-/

namespace NodeTagging

/-- The rules without the entries that the warnings report: the names in the bindings and the gates
    of the classes reported as stale. -/
def TaxonomyRules.without (rules : TaxonomyRules) (warnings : List Problem) : TaxonomyRules :=
  { rules with
    gateTable := rules.gateTable.mapValues fun classes =>
      classes.filter fun c => .staleGate c ∉ warnings
    bindingNames := rules.bindingNames.filterKeys fun c => .staleBindingName c ∉ warnings }

namespace TaxonomyRules

variable {rules : TaxonomyRules} {warnings : List Problem}

theorem mem_listing_without_iff {c tag : String} :
    (c, tag) ∈ Gates.listing (rules.without warnings).gateTable ↔
      (c, tag) ∈ Gates.listing rules.gateTable ∧ .staleGate c ∉ warnings := by
  simp only [Gates.mem_listing_iff, without, Table.get?_mapValues, Option.map_eq_some_iff]
  constructor
  · rintro ⟨-, ⟨classes, hclasses, rfl⟩, hc⟩
    obtain ⟨hc, hkept⟩ := List.mem_filter.1 hc
    exact ⟨⟨classes, hclasses, hc⟩, of_decide_eq_true hkept⟩
  · rintro ⟨⟨classes, hclasses, hc⟩, hkept⟩
    exact ⟨_, ⟨classes, hclasses, rfl⟩, List.mem_filter.2 ⟨hc, decide_eq_true hkept⟩⟩

/-- The gates left are those of the classes not reported. -/
theorem exists_gates_without {gates : Gates} (h : Gates.ofTable rules.gateTable = .ok gates)
    (warnings : List Problem) :
    ∃ gates', Gates.ofTable (rules.without warnings).gateTable = .ok gates' ∧
      ∀ c, gates'.gate? c = if .staleGate c ∉ warnings then gates.gate? c else none :=
  Gates.exists_ofTable_of_listed h fun _ _ => mem_listing_without_iff

theorem get?_bindingNames_without (c : String) :
    (rules.without warnings).bindingNames.get? c =
      if .staleBindingName c ∉ warnings then rules.bindingNames.get? c else none := by
  simp [without, Table.get?_filterKeys]

/-- Rules stay fit for dispatch without some of their entries. -/
theorem Fit.without (fit : rules.Fit) (warnings : List Problem) : (rules.without warnings).Fit where
  id_ne_catchAll := fit.id_ne_catchAll
  apart := fit.apart
  root_not_gated := by
    intro category hcategory hgated
    refine fit.root_not_gated category hcategory ?_
    simp only [TaxonomyRules.without, List.mem_flatten, Table.mem_values_iff, Table.get?_mapValues,
      Option.map_eq_some_iff] at hgated ⊢
    obtain ⟨-, ⟨tag, classes, hclasses, rfl⟩, hc⟩ := hgated
    exact ⟨classes, ⟨tag, hclasses⟩, (List.mem_filter.1 hc).1⟩

end TaxonomyRules

namespace Taxonomy

/-! ### What is reported -/

theorem staleBindingName_mem_audit_iff {t : Taxonomy} {c : String} :
    .staleBindingName c ∈ t.audit ↔
      (∃ name, t.bindingNames.get? c = some name) ∧ ¬ t.isTagged c := by
  simp [audit, staleBindingNames, renamedClasses, Table.mem_keys_iff]

theorem staleGate_mem_audit_iff {t : Taxonomy} {c : String} :
    .staleGate c ∈ t.audit ↔ (∃ tag, t.gates.gate? c = some tag) ∧ ¬ t.isTagged c := by
  simp [audit, staleGates, Gates.mem_classes_iff]

/-- There are no warnings exactly if all classes with a name in the bindings or a gate are
    tagged. -/
theorem audit_eq_nil_iff {t : Taxonomy} :
    t.audit = [] ↔ (∀ c name, t.bindingNames.get? c = some name → t.isTagged c) ∧
      ∀ c tag, t.gates.gate? c = some tag → t.isTagged c := by
  simp [audit, staleBindingNames, renamedClasses, staleGates, Table.mem_keys_iff,
    Gates.mem_classes_iff]

section Build

variable {graph : Inheritance} {rules : TaxonomyRules} {gates : Gates}

/-- The warnings are about the classes of the tables that are not members, in order, first those
    with a name in the bindings and then those with a gate. -/
theorem audit_eq (hgates : Gates.ofTable rules.gateTable = .ok gates) :
    (assemble graph rules gates).audit =
      (Text.ordered (rules.bindingNames.keys.filter fun c => c ∉ selectMembers graph rules)).map
          .staleBindingName ++
        (Text.ordered (rules.gateTable.values.flatten.filter
          fun c => c ∉ selectMembers graph rules)).map .staleGate := by
  have htagged (c : String) :
      (!(assemble graph rules gates).isTagged c) = decide (c ∉ selectMembers graph rules) := by
    rw [Bool.eq_iff_iff, Bool.not_eq_true', ← Bool.not_eq_true, isTagged_assemble,
      decide_eq_true_eq]
    rfl
  rw [audit, staleBindingNames, staleGates, funext htagged, renamedClasses, Text.filter_ordered]
  exact congrArg (_ ++ List.map Problem.staleGate ·)
    ((congrArg _ (Gates.classes_eq hgates)).trans (Text.filter_ordered _ _))

/-! ### Without what is reported -/

/-- No member is reported, so that the members keep their gates and their names in the bindings. -/
theorem agrees_without {gates' : Gates}
    (hgates' : ∀ c, gates'.gate? c =
      if .staleGate c ∉ (assemble graph rules gates).audit then gates.gate? c else none) :
    (assemble graph rules gates).Agrees
      (assemble graph (rules.without (assemble graph rules gates).audit) gates') where
  root := rfl
  members := rfl
  parentOf := rfl
  categoryOf := rfl
  branches := rfl
  catchAll := rfl
  gate? c hc := by
    have hkept : .staleGate c ∉ (assemble graph rules gates).audit := fun hreported =>
      (staleGate_mem_audit_iff.1 hreported).2 ((isTagged_assemble graph rules gates c).2 hc)
    exact (hgates' c).trans (if_pos hkept)
  nameInBindings c hc := by
    have hkept : .staleBindingName c ∉ (assemble graph rules gates).audit := fun hreported =>
      (staleBindingName_mem_audit_iff.1 hreported).2 ((isTagged_assemble graph rules gates c).2 hc)
    exact congrArg (·.getD c) ((TaxonomyRules.get?_bindingNames_without c).trans (if_pos hkept))

/-- Without the entries reported, there is nothing left to report. -/
theorem audit_without {gates' : Gates}
    (hgates' : ∀ c, gates'.gate? c =
      if .staleGate c ∉ (assemble graph rules gates).audit then gates.gate? c else none) :
    (assemble graph (rules.without (assemble graph rules gates).audit) gates').audit = [] := by
  rw [audit_eq_nil_iff]
  constructor
  · intro c name hname
    obtain ⟨hkept, hname⟩ := Option.ite_none_right_eq_some.1
      ((TaxonomyRules.get?_bindingNames_without c).symm.trans hname)
    rw [(agrees_without hgates').isTagged]
    by_contra hstale
    exact hkept (staleBindingName_mem_audit_iff.2 ⟨⟨name, hname⟩, hstale⟩)
  · intro c tag htag
    obtain ⟨hkept, htag⟩ := Option.ite_none_right_eq_some.1 ((hgates' c).symm.trans htag)
    rw [(agrees_without hgates').isTagged]
    by_contra hstale
    exact hkept (staleGate_mem_audit_iff.2 ⟨⟨tag, htag⟩, hstale⟩)

end Build

end Taxonomy

/-! ### Under a configuration -/

/-- The warnings are about the classes with a name in the bindings that are not members, in order,
    and then about the gated classes that are not, in order. Without the entries for these classes
    the configuration is still fit and makes for the same files, without a warning. -/
theorem stale_entries_do_nothing {workingDirectory path : String} {document : Json}
    {config : Config} (accepted : Config.ofJson workingDirectory path document = .ok config)
    {entries : List ClassEntry} {plan : RunPlan}
    (made : RunPlan.make (.ofEntries entries) config = .ok plan) :
    let rules := config.taxonomy
    let members := plan.taxonomy.members
    plan.warnings =
      (Text.ordered (rules.bindingNames.keys.filter fun c => c ∉ members)).map .staleBindingName ++
        (Text.ordered (rules.gateTable.values.flatten.filter fun c => c ∉ members)).map
          .staleGate ∧
    (rules.without plan.warnings).Fit ∧
    ∃ plan', RunPlan.make (.ofEntries entries)
        { config with taxonomy := rules.without plan.warnings } = .ok plan' ∧
      plan'.files = plan.files ∧ plan'.warnings = [] := by
  intro rules members
  obtain ⟨t, built, rfl⟩ := RunPlan.exists_taxonomy_of_make made
  have fit := Config.fit_of_ofJson accepted
  have wf := Taxonomy.wellFormed_of_build fit built
  obtain ⟨declared, gates, hgates, rfl⟩ := Taxonomy.build_eq_ok_iff.1 built
  obtain ⟨gates', hgates', hkept⟩ := TaxonomyRules.exists_gates_without hgates
    (Taxonomy.assemble (.ofEntries entries) config.taxonomy gates).audit
  have built' : Taxonomy.build (.ofEntries entries) (rules.without _) = .ok _ :=
    Taxonomy.build_eq_ok_iff.2 ⟨declared, gates', hgates', rfl⟩
  exact ⟨Taxonomy.audit_eq hgates, fit.without _, _, RunPlan.make_of_build built',
    (Taxonomy.agrees_without hkept).render wf _ _ _, Taxonomy.audit_without hkept⟩

namespace Sample

/-- A configuration that has names in the bindings and gates for a class that no dump declares, for
    one that is excluded although members are below it, and for the root. -/
def outdatedDocument : Json :=
  .object
    [("paths", .object
      [("schema", .string "api.json"), ("markers", .string "markers.rs"),
        ("dispatcher", .string "dispatcher.rs"), ("classifier", .string "classifier.gd"),
        ("consumer", .string "main.rs")]),
      ("categories", .array [.object [("id", .string "canvas"), ("root", .string "CanvasItem")]]),
      ("unavailable", .array [.string "Node2D"]),
      ("nameOverrides", .object
        [("Timer", .string "Clock"), ("Spatial", .string "Node3D"), ("Node2D", .string "Planar")]),
      ("versionGates", .object
        [("4-4", .array [.string "Spatial", .string "Button", .string "Node2D"]),
          ("4-5", .array [.string "Node"])])]

/-- What the document says. -/
def outdatedConfig : Config :=
  { config with
    taxonomy :=
      { exclusions := { unavailable := ["Node2D"] }
        categories := [⟨"canvas", "CanvasItem"⟩]
        bindingNames := .ofList [("Timer", "Clock"), ("Spatial", "Node3D"), ("Node2D", "Planar")]
        gateTable := .ofList [("4-4", ["Spatial", "Button", "Node2D"]), ("4-5", ["Node"])] } }

/-- The taxonomy of the engine under that configuration. -/
def outdatedTaxonomy : Taxonomy :=
  Taxonomy.assemble (.ofEntries dump) outdatedConfig.taxonomy
    ⟨.ofList [("Spatial", "4-4"), ("Button", "4-4"), ("Node2D", "4-4"), ("Node", "4-5")]⟩

theorem ofJson_outdatedDocument :
    Config.ofJson "/work" "/work/generator.config.json" outdatedDocument = .ok outdatedConfig := by
  decide +kernel

theorem build_outdatedConfig :
    Taxonomy.build (.ofEntries dump) outdatedConfig.taxonomy = .ok outdatedTaxonomy := by
  decide +kernel

end Sample

/-- Two names in the bindings and three gates are reported, that of the root among them, and the run
    without them writes the same files and reports nothing. -/
theorem stale_entries_do_nothing_of_outdated :
    Config.ofJson "/work" "/work/generator.config.json" Sample.outdatedDocument =
        .ok Sample.outdatedConfig ∧
      ∃ plan plan', RunPlan.make (.ofEntries Sample.dump) Sample.outdatedConfig = .ok plan ∧
        plan.warnings =
          [.staleBindingName "Node2D", .staleBindingName "Spatial", .staleGate "Node",
            .staleGate "Node2D", .staleGate "Spatial"] ∧
        RunPlan.make (.ofEntries Sample.dump)
            { Sample.outdatedConfig with
              taxonomy := Sample.outdatedConfig.taxonomy.without plan.warnings } = .ok plan' ∧
        plan'.files = plan.files ∧ plan'.warnings = [] := by
  have hmade := RunPlan.make_of_build Sample.build_outdatedConfig
  obtain ⟨-, -, plan', hmade', hfiles, hsilent⟩ :=
    stale_entries_do_nothing Sample.ofJson_outdatedDocument hmade
  exact ⟨Sample.ofJson_outdatedDocument, _, plan', hmade, by decide +kernel, hmade', hfiles,
    hsilent⟩

end NodeTagging
