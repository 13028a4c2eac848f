import NodeTagging.Proofs.Dependence

/-!
# The order of the input does not matter

A dump lists its classes in any order, may list one several times, and lists many that are not
below the root. A configuration lists the excluded classes, the gated classes and the names in the
bindings in any order. None of it shows in the generated files: whatever comes from a list or a
table is put into the order of names first.

* `Inheritance.SameBelow` and `Config.Reordered`: what two dumps and two configurations have to have
  in common;
* `Reordered.ofTable_cases`: both tables of gates have a conflict, or they gate alike;
* `agrees_of_reordered`, `Agrees.audit`: the taxonomies have the same files and warnings.
-/

namespace NodeTagging

open Hierarchy

/-! ### Reordering -/

/-- Two graphs have the same subtree below a root: the same classes with the same parents. Where the
    root hangs does not matter. -/
structure Inheritance.SameBelow (root : String) (g g' : Inheritance) : Prop where
  mem_descendants : ∀ c, c ∈ descendants root g'.childrenOf ↔ c ∈ descendants root g.childrenOf
  parent : ∀ c ∈ descendants root g.childrenOf, c ≠ root →
    g'.parentOf.get? c = g.parentOf.get? c

/-- Two sets of rules differ only in the order and repetition of the excluded and the gated classes
    and in the order of the tables. -/
structure TaxonomyRules.Reordered (rules rules' : TaxonomyRules) : Prop where
  root : rules'.root = rules.root
  categories : rules'.categories = rules.categories
  catchAll : rules'.catchAll = rules.catchAll
  prefixes : ∀ p, p ∈ rules'.exclusions.prefixes ↔ p ∈ rules.exclusions.prefixes
  names : ∀ c, c ∈ rules'.exclusions.names ↔ c ∈ rules.exclusions.names
  unavailable : ∀ c, c ∈ rules'.exclusions.unavailable ↔ c ∈ rules.exclusions.unavailable
  gateTable : ∀ tag, Option.Rel (fun classes classes' => ∀ c, c ∈ classes' ↔ c ∈ classes)
    (rules.gateTable.get? tag) (rules'.gateTable.get? tag)
  bindingNames : ∀ c, rules'.bindingNames.get? c = rules.bindingNames.get? c

/-- Two configurations generate for the same target, by rules that are reordered. -/
structure Config.Reordered (config config' : Config) : Prop where
  taxonomy : config.taxonomy.Reordered config'.taxonomy
  target : config'.target = config.target
  entryPoints : config'.entryPoints = config.entryPoints

/-! ### Gates -/

namespace TaxonomyRules.Reordered

variable {rules rules' : TaxonomyRules} (reordered : rules.Reordered rules')

include reordered

theorem mem_listing_iff (c tag : String) :
    (c, tag) ∈ Gates.listing rules'.gateTable ↔ (c, tag) ∈ Gates.listing rules.gateTable := by
  rw [Gates.mem_listing_iff, Gates.mem_listing_iff]
  have hclasses := reordered.gateTable tag
  generalize rules.gateTable.get? tag = classes? at hclasses ⊢
  generalize rules'.gateTable.get? tag = classes?' at hclasses ⊢
  cases hclasses with
  | some hmem => simp [hmem]
  | none => rfl

/-- Both tables of gates have a conflict, or they gate every class alike. -/
theorem ofTable_cases :
    (∃ problem problem', Gates.ofTable rules.gateTable = .error problem ∧
      Gates.ofTable rules'.gateTable = .error problem') ∨
    ∃ gates gates', Gates.ofTable rules.gateTable = .ok gates ∧
      Gates.ofTable rules'.gateTable = .ok gates' ∧ ∀ c, gates'.gate? c = gates.gate? c := by
  have hsame : (∃ gates, Gates.ofTable rules.gateTable = .ok gates) ↔
      ∃ gates, Gates.ofTable rules'.gateTable = .ok gates := by
    rw [Gates.exists_ofTable_iff, Gates.exists_ofTable_iff]
    simp only [reordered.mem_listing_iff]
  cases hgates : Gates.ofTable rules.gateTable with
  | error problem =>
    cases hgates' : Gates.ofTable rules'.gateTable with
    | error problem' => exact .inl ⟨problem, problem', rfl, rfl⟩
    | ok gates' =>
      obtain ⟨gates, h⟩ := hsame.2 ⟨gates', hgates'⟩
      rw [hgates] at h
      cases h
  | ok gates =>
    obtain ⟨gates', hgates', hsame⟩ := Gates.exists_ofTable_of_listed (P := fun _ => True) hgates
      fun c tag => by rw [reordered.mem_listing_iff, and_true]
    exact .inr ⟨gates, gates', rfl, hgates', by simpa using hsame⟩

theorem ground?_eq_none_iff (c : String) :
    rules'.exclusions.ground? c = none ↔ rules.exclusions.ground? c = none := by
  rw [Exclusions.ground?_eq_none_iff, Exclusions.ground?_eq_none_iff, reordered.names,
    reordered.unavailable]
  simp only [reordered.prefixes]

end TaxonomyRules.Reordered

/-! ### Taxonomies -/

namespace Taxonomy

section Parts

variable {graph graph' : Inheritance} {rules rules' : TaxonomyRules}
  (reordered : rules.Reordered rules') (same : graph.SameBelow rules.root graph')

include reordered same

theorem mem_subtree_of_reordered (c : String) :
    c ∈ subtree graph' rules' ↔ c ∈ subtree graph rules := by
  rw [subtree, subtree, reordered.root]
  exact same.mem_descendants c

theorem selectMembers_of_reordered : selectMembers graph' rules' = selectMembers graph rules := by
  refine List.Pairwise.eq_of_mem_iff (Text.pairwise_ordered _) (Text.pairwise_ordered _)
    fun c => ?_
  rw [mem_selectMembers_iff, mem_selectMembers_iff, mem_subtree_of_reordered reordered same,
    reordered.ground?_eq_none_iff, reordered.root]

theorem subtreeParents_of_reordered :
    subtreeParents graph' rules' = subtreeParents graph rules := by
  rw [subtreeParents, subtreeParents, restrictParents, restrictParents, Table.erase_tabulate,
    Table.erase_tabulate, reordered.root]
  refine Table.tabulate_congr
    (Text.ordered_congr (mem_subtree_of_reordered reordered same)) fun c hc => ?_
  have hc : c ∈ subtree graph rules :=
    (mem_subtree_of_reordered reordered same c).1 (Text.mem_ordered.1 hc)
  split
  · rfl
  · next hroot => exact same.parent c hc hroot

theorem agrees_of_reordered {gates gates' : Gates} (hgates : ∀ c, gates'.gate? c = gates.gate? c) :
    (assemble graph rules gates).Agrees (assemble graph' rules' gates') := by
  have hmembers := selectMembers_of_reordered reordered same
  have hparents := subtreeParents_of_reordered reordered same
  have heligible : eligibleCategories graph' rules' = eligibleCategories graph rules := by
    rw [eligibleCategories, eligibleCategories, reordered.categories, hmembers]
  have hcategories : assignCategories graph' rules' = assignCategories graph rules := by
    rw [assignCategories, assignCategories, hparents, heligible, reordered.catchAll, hmembers]
  exact
    { root := reordered.root
      members := hmembers
      parentOf := hparents
      categoryOf := hcategories
      branches := by simp only [assemble, heligible, hcategories]
      catchAll := reordered.catchAll
      gate? := fun c _ => hgates c
      nameInBindings := fun c _ => congrArg (·.getD c) (reordered.bindingNames c) }

end Parts

/-- Taxonomies that agree and know the same gates and binding names of all classes, tagged or not,
    have the same warnings. -/
theorem Agrees.audit {t t' : Taxonomy} (h : t.Agrees t')
    (hgates : ∀ c, t'.gates.gate? c = t.gates.gate? c)
    (hnames : ∀ c, t'.bindingNames.get? c = t.bindingNames.get? c) : t'.audit = t.audit := by
  have hrenamed : t'.renamedClasses = t.renamedClasses :=
    Text.ordered_congr fun c => by rw [Table.mem_keys_iff, Table.mem_keys_iff, hnames]
  have hgated : t'.gates.classes = t.gates.classes :=
    List.Pairwise.eq_of_mem_iff (Text.pairwise_ordered _) (Text.pairwise_ordered _) fun c => by
      rw [Gates.mem_classes_iff, Gates.mem_classes_iff, hgates]
  rw [Taxonomy.audit, Taxonomy.audit, staleBindingNames, staleBindingNames, staleGates, staleGates,
    hrenamed, hgated, funext h.isTagged]

end Taxonomy

/-! ### Under a configuration -/

/-- Two dumps with the same subtree below the root, and two configurations that differ only in the
    order and repetition of their lists and in the order of their tables, of which one was read from
    a document: either neither can be used, since the gates of both have a conflict, or they make
    for the same files, to the letter, and the same warnings. -/
theorem output_ignores_order {workingDirectory path : String} {document : Json} {config : Config}
    (accepted : Config.ofJson workingDirectory path document = .ok config) {config' : Config}
    (reordered : config.Reordered config') {entries entries' : List ClassEntry}
    (declared : config.taxonomy.root ∈ (Inheritance.ofEntries entries).names)
    (declared' : config.taxonomy.root ∈ (Inheritance.ofEntries entries').names)
    (same : (Inheritance.ofEntries entries).SameBelow config.taxonomy.root (.ofEntries entries')) :
    (∃ problem problem', RunPlan.make (.ofEntries entries) config = .error problem ∧
      RunPlan.make (.ofEntries entries') config' = .error problem' ∧
      problem.diagnostic.kind = .invalidConfig ∧ problem'.diagnostic.kind = .invalidConfig) ∨
    ∃ plan plan', RunPlan.make (.ofEntries entries) config = .ok plan ∧
      RunPlan.make (.ofEntries entries') config' = .ok plan' ∧
      plan'.files.map (fun file => (file.kind, file.content)) =
        plan.files.map (fun file => (file.kind, file.content)) ∧
      plan'.warnings = plan.warnings := by
  rw [← reordered.taxonomy.root] at declared'
  rw [RunPlan.make, RunPlan.make, Taxonomy.build, Taxonomy.build, if_pos declared, if_pos declared']
  obtain ⟨problem, problem', hgates, hgates'⟩ | ⟨gates, gates', hgates, hgates', hsame⟩ :=
    reordered.taxonomy.ofTable_cases
  · obtain ⟨c, first, second, rfl⟩ := Gates.exists_conflict_of_error hgates
    obtain ⟨c', first', second', rfl⟩ := Gates.exists_conflict_of_error hgates'
    rw [hgates, hgates']
    exact .inl ⟨_, _, rfl, rfl, rfl, rfl⟩
  · have wf : (Taxonomy.assemble (.ofEntries entries) config.taxonomy gates).WellFormed :=
      Taxonomy.wellFormed_assemble (Config.fit_of_ofJson accepted) hgates
    have hagrees := Taxonomy.agrees_of_reordered reordered.taxonomy same hsame
    rw [hgates, hgates']
    refine .inr ⟨_, _, rfl, rfl, ?_, hagrees.audit hsame reordered.taxonomy.bindingNames⟩
    simp only [reordered.target, reordered.entryPoints, hagrees.render wf]
    rfl

namespace Sample

/-- The classes of the engine from the leaves to the root, one of them first without its parent, and
    a class of another part of the engine. -/
def shuffledDump : List ClassEntry :=
  [⟨"OptionButton", some "Button"⟩, ⟨"LinkButton", some "Button"⟩, ⟨"Sprite2D", none⟩,
    ⟨"AnimatedSprite2D", some "Sprite2D"⟩, ⟨"Button", some "CanvasItem"⟩,
    ⟨"Sprite2D", some "Node2D"⟩, ⟨"Node2D", some "CanvasItem"⟩, ⟨"CanvasItem", some "Node"⟩,
    ⟨"Timer", some "Node"⟩, ⟨"Node", none⟩, ⟨"Resource", some "Object"⟩]

/-- The configuration with its gates the other way round and some classes listed twice. -/
def shuffledConfig : Config :=
  { config with
    taxonomy :=
      { config.taxonomy with
        exclusions := { unavailable := ["Node2D", "Node2D"] }
        gateTable := .ofList [("4-5", ["LinkButton", "LinkButton"]), ("4-4", ["Button"])] } }

theorem reordered_shuffledConfig : config.Reordered shuffledConfig where
  taxonomy :=
    { root := rfl
      categories := rfl
      catchAll := rfl
      prefixes := fun _ => Iff.rfl
      names := fun _ => Iff.rfl
      unavailable := fun c => by simp [config, shuffledConfig]
      gateTable := fun tag => by
        have hget : config.taxonomy.gateTable.get? tag =
            if tag = "4-5" then some ["LinkButton"] else if tag = "4-4" then some ["Button"]
            else none := by
          simp [config, Table.ofList, Table.get?_insert]
        have hget' : shuffledConfig.taxonomy.gateTable.get? tag =
            if tag = "4-4" then some ["Button"]
            else if tag = "4-5" then some ["LinkButton", "LinkButton"] else none := by
          simp [shuffledConfig, Table.ofList, Table.get?_insert]
        rw [hget, hget']
        by_cases h5 : tag = "4-5"
        · subst h5
          exact .some (by simp)
        · by_cases h4 : tag = "4-4"
          · subst h4
            exact .some (by simp)
          · rw [if_neg h5, if_neg h4, if_neg h4, if_neg h5]
            exact .none
      bindingNames := fun _ => rfl }
  target := rfl
  entryPoints := rfl

theorem sameBelow_shuffledDump :
    (Inheritance.ofEntries dump).SameBelow "Node" (.ofEntries shuffledDump) where
  mem_descendants := by
    have hsubset : ∀ c ∈ descendants "Node" (Inheritance.ofEntries shuffledDump).childrenOf,
        c ∈ descendants "Node" (Inheritance.ofEntries dump).childrenOf := by
      decide +kernel
    have hsupset : ∀ c ∈ descendants "Node" (Inheritance.ofEntries dump).childrenOf,
        c ∈ descendants "Node" (Inheritance.ofEntries shuffledDump).childrenOf := by
      decide +kernel
    exact fun c => ⟨hsubset c, hsupset c⟩
  parent := by decide +kernel

end Sample

/-- Shuffled and with entries that do not matter, the input makes for the same files. -/
theorem output_ignores_order_of_shuffled :
    Config.ofJson "/work" "/work/generator.config.json" Sample.document = .ok Sample.config ∧
      Sample.config.Reordered Sample.shuffledConfig ∧
      "Node" ∈ (Inheritance.ofEntries Sample.dump).names ∧
      "Node" ∈ (Inheritance.ofEntries Sample.shuffledDump).names ∧
      (Inheritance.ofEntries Sample.dump).SameBelow "Node" (.ofEntries Sample.shuffledDump) ∧
      ∃ plan plan', RunPlan.make (.ofEntries Sample.dump) Sample.config = .ok plan ∧
        RunPlan.make (.ofEntries Sample.shuffledDump) Sample.shuffledConfig = .ok plan' ∧
        plan'.files.map (fun file => (file.kind, file.content)) =
          plan.files.map (fun file => (file.kind, file.content)) := by
  have hdeclared : "Node" ∈ (Inheritance.ofEntries Sample.dump).names := by decide +kernel
  have hdeclared' : "Node" ∈ (Inheritance.ofEntries Sample.shuffledDump).names := by
    decide +kernel
  refine ⟨Sample.ofJson_document, Sample.reordered_shuffledConfig, hdeclared, hdeclared',
    Sample.sameBelow_shuffledDump, ?_⟩
  obtain ⟨problem, -, hfailed, -⟩ | ⟨plan, plan', hmade, hmade', hfiles, -⟩ :=
    output_ignores_order Sample.ofJson_document Sample.reordered_shuffledConfig hdeclared hdeclared'
      Sample.sameBelow_shuffledDump
  · rw [RunPlan.make, Sample.build_dump] at hfailed
    cases hfailed
  · exact ⟨plan, plan', hmade, hmade', hfiles⟩

end NodeTagging
