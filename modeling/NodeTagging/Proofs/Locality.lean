import NodeTagging.Proofs.Agreement
import NodeTagging.Proofs.Rooted

/-!
# A class is tagged by its ancestors

Which members there are, and which categories have a branch, depends on the whole dump. How one
class is tagged does not: it depends on the chain of parents from the class up to the root, and on
the rules. Two dumps with the same chain above a class tag it alike, whatever else they hold.

* `chainAbove_of_sameLinks`: where two dumps link the classes of a chain alike, both have the chain;
* `idOf_congr`: of the categories, only those with a root in the lineage matter;
* `taggedAlike_assemble`: the same chain makes for the same tags.
-/

namespace NodeTagging

open Hierarchy

namespace Taxonomy

/-- A class is tagged alike in two taxonomies. -/
structure TaggedAlike (t t' : Taxonomy) (c : String) : Prop where
  /-- It is a member of both or of neither. -/
  mem_members : c ∈ t'.members ↔ c ∈ t.members
  /-- It has the same tagged ancestors, in the same order. -/
  taggedAncestors : t'.taggedAncestors c = t.taggedAncestors c
  /-- It has the same number of ancestors. -/
  depth : t'.depth c = t.depth c
  /-- It has the same gate. -/
  gate? : t'.gates.gate? c = t.gates.gate? c
  /-- It has the same name in the bindings. -/
  nameInBindings : t'.nameInBindings c = t.nameInBindings c
  /-- It is in the same category. -/
  category : t'.categoryOf.get? c = t.categoryOf.get? c
  /-- Its name has the same arm in the dispatcher for type names. -/
  arm : (NameTable.ofTaxonomy t').arms.find? (fun arm => arm.typeName = c) =
    (NameTable.ofTaxonomy t).arms.find? fun arm => arm.typeName = c

/-! ### Chains -/

section Chains

variable {graph graph' : Inheritance} {rules : TaxonomyRules} {c : String}

/-- Where two graphs link the classes of a chain alike, the chain leads up to the root in both. The
    link of the root does not matter: it is the end of every chain. -/
theorem chainAbove_of_sameLinks {chain : List String}
    (hchain : ChainAbove (subtreeParents graph rules) c chain) (hc : c ∈ subtree graph rules)
    (same : ∀ a ∈ c :: chain, a ≠ rules.root → graph'.parentOf.get? a = graph.parentOf.get? a) :
    c ∈ subtree graph' rules ∧ ChainAbove (subtreeParents graph' rules) c chain := by
  induction hchain with
  | top hnone =>
    obtain rfl := eq_root_of_no_parent hc hnone
    exact ⟨root_mem_subtree, .top (by simp [get?_subtreeParents])⟩
  | @step c parent chain hparent _ ih =>
    obtain ⟨⟨-, hroot⟩, hlink⟩ := get?_subtreeParents_eq_some_iff.1 hparent
    have hlink' : graph'.parentOf.get? c = some parent :=
      (same c List.mem_cons_self hroot).trans hlink
    obtain ⟨habove, hrest⟩ := ih (mem_subtree_of_parent hparent) fun a ha =>
      same a (List.mem_cons_of_mem c ha)
    have hc' : c ∈ subtree graph' rules := mem_subtree_iff.2 (.inr ⟨parent, habove, hlink'⟩)
    exact ⟨hc', .step (get?_subtreeParents_eq_some_iff.2 ⟨⟨hc', hroot⟩, hlink'⟩) hrest⟩

end Chains

/-! ### Tags -/

section Tags

variable {graph graph' : Inheritance} {rules : TaxonomyRules} {c : String}

/-- Whether a class of both subtrees is a member depends on its name alone. -/
theorem mem_selectMembers_congr (hc : c ∈ subtree graph rules) (hc' : c ∈ subtree graph' rules) :
    c ∈ selectMembers graph' rules ↔ c ∈ selectMembers graph rules := by
  simp [mem_selectMembers_iff, hc, hc']

variable (hc : c ∈ subtree graph rules) (hc' : c ∈ subtree graph' rules)
  (same : ancestors (subtreeParents graph' rules) c = ancestors (subtreeParents graph rules) c)

include hc hc' same

theorem mem_selectMembers_congr_of_mem_lineage {a : String}
    (ha : a ∈ lineage (subtreeParents graph rules) c) :
    a ∈ selectMembers graph' rules ↔ a ∈ selectMembers graph rules := by
  refine mem_selectMembers_congr (mem_subtree_of_mem_lineage hc ha)
    (mem_subtree_of_mem_lineage hc' ?_)
  rwa [lineage, same]

/-- The categories with a root outside the lineage have no say, whether they are left out for their
    roots or not. -/
theorem idOf_congr :
    Category.idOf (subtreeParents graph' rules) (eligibleCategories graph' rules) rules.catchAll c =
      Category.idOf (subtreeParents graph rules) (eligibleCategories graph rules)
        rules.catchAll c := by
  have hlineage :
      lineage (subtreeParents graph' rules) c = lineage (subtreeParents graph rules) c :=
    congrArg (c :: ·) same
  have hfirst : Category.ofLineage? (eligibleCategories graph' rules)
        (lineage (subtreeParents graph rules) c) =
      Category.ofLineage? (eligibleCategories graph rules)
        (lineage (subtreeParents graph rules) c) := by
    rw [Category.ofLineage?, Category.ofLineage?, eligibleCategories, eligibleCategories,
      List.find?_filter, List.find?_filter]
    refine List.find?_congr fun category _ => ?_
    by_cases hroot : category.root ∈ lineage (subtreeParents graph rules) c
    · simp [hroot, mem_selectMembers_congr_of_mem_lineage hc hc' same hroot]
    · simp [hroot]
  rw [Category.idOf, Category.idOf, hlineage, hfirst]

/-- The same chain of ancestors makes for the same tags. -/
theorem taggedAlike_assemble (gates : Gates) :
    (assemble graph rules gates).TaggedAlike (assemble graph' rules gates) c := by
  have hmember : c ∈ selectMembers graph' rules ↔ c ∈ selectMembers graph rules :=
    mem_selectMembers_congr hc hc'
  have htagged : (assemble graph' rules gates).taggedAncestors c =
      (assemble graph rules gates).taggedAncestors c := by
    rw [taggedAncestors, taggedAncestors]
    refine congrArg List.reverse ((congrArg _ same).trans (List.filter_congr fun a ha => ?_))
    refine Bool.eq_iff_iff.2 ?_
    rw [isTagged_assemble, isTagged_assemble]
    exact mem_selectMembers_congr_of_mem_lineage hc hc' same (List.mem_cons_of_mem c ha)
  exact
    { mem_members := hmember
      taggedAncestors := htagged
      depth := congrArg List.length same
      gate? := rfl
      nameInBindings := rfl
      category := by
        simp only [assemble, get?_assignCategories, hmember, idOf_congr hc hc' same]
      arm := by
        have harm : NameTable.armOf (assemble graph' rules gates) c =
            NameTable.armOf (assemble graph rules gates) c := by
          rw [NameTable.armOf, NameTable.armOf, htagged]
          rfl
        rw [find?_arms, find?_arms, harm]
        exact if_congr Iff.rfl rfl (if_congr hmember rfl rfl) }

end Tags

end Taxonomy

/-! ### Under the rules -/

/-- A class below the root is tagged by the chain of its ancestors up to the root and by the rules.
    Any other dump in which it is below the root with the same chain tags it alike. A dump that
    declares the root and links the classes of the chain below the root as before has such a
    taxonomy, so that no class off the chain, be it added, removed or put under another parent,
    changes how the class is tagged. -/
theorem tagging_depends_on_ancestors {rules : TaxonomyRules} {entries : List ClassEntry}
    {t : Taxonomy} (built : Taxonomy.build (.ofEntries entries) rules = .ok t) {c : String}
    (hc : c ∈ Taxonomy.subtree (.ofEntries entries) rules) (others : List ClassEntry) :
    (∀ t', Taxonomy.build (.ofEntries others) rules = .ok t' →
      c ∈ Taxonomy.subtree (.ofEntries others) rules →
      ancestors t'.parentOf c = ancestors t.parentOf c → t.TaggedAlike t' c) ∧
    (rules.root ∈ (Inheritance.ofEntries others).names →
      (∀ a ∈ lineage t.parentOf c, a ≠ rules.root →
        (Inheritance.ofEntries others).parentOf.get? a =
          (Inheritance.ofEntries entries).parentOf.get? a) →
      ∃ t', Taxonomy.build (.ofEntries others) rules = .ok t' ∧
        c ∈ Taxonomy.subtree (.ofEntries others) rules ∧
        ancestors t'.parentOf c = ancestors t.parentOf c ∧ t.TaggedAlike t' c) := by
  obtain ⟨-, gates, hgates, rfl⟩ := Taxonomy.build_eq_ok_iff.1 built
  constructor
  · intro t' built' hc' same
    obtain ⟨-, gates', hgates', rfl⟩ := Taxonomy.build_eq_ok_iff.1 built'
    -- The gates come from the rules alone.
    obtain rfl := Except.ok.inj (hgates.symm.trans hgates')
    exact Taxonomy.taggedAlike_assemble hc hc' same gates
  · intro declared sameLinks
    obtain ⟨hc', hchain⟩ :=
      Taxonomy.chainAbove_of_sameLinks (Taxonomy.grounded_of_mem_subtree hc) hc sameLinks
    refine ⟨_, Taxonomy.build_eq_ok_iff.2 ⟨declared, gates, hgates, rfl⟩, hc',
      hchain.ancestors_eq, ?_⟩
    exact Taxonomy.taggedAlike_assemble hc hc' hchain.ancestors_eq gates

namespace Sample

/-- The engine of another version: the sprites are gone, there is a button more, the timer is now a
    class of the canvas, and the cycle leads to the root. -/
def laterDump : List ClassEntry :=
  [⟨"CheckButton", some "LinkButton"⟩, ⟨"LinkButton", some "Button"⟩, ⟨"Button", some "Timer"⟩,
    ⟨"Timer", some "CanvasItem"⟩, ⟨"CanvasItem", some "Node"⟩, ⟨"Node", some "Loop"⟩,
    ⟨"Loop", some "Node"⟩, ⟨"Button", some "CanvasItem"⟩]

end Sample

/-- The link button keeps its tags although everything off the chain above it has changed, and the
    category of the sprites has lost its root. -/
theorem tagging_depends_on_ancestors_of_link_button :
    Taxonomy.build (.ofEntries Sample.dump) Sample.config.taxonomy = .ok Sample.taxonomy ∧
      "LinkButton" ∈ Taxonomy.subtree (.ofEntries Sample.dump) Sample.config.taxonomy ∧
      "Node" ∈ (Inheritance.ofEntries Sample.laterDump).names ∧
      (∀ a ∈ lineage Sample.taxonomy.parentOf "LinkButton", a ≠ "Node" →
        (Inheritance.ofEntries Sample.laterDump).parentOf.get? a =
          (Inheritance.ofEntries Sample.dump).parentOf.get? a) ∧
      ∃ t', Taxonomy.build (.ofEntries Sample.laterDump) Sample.config.taxonomy = .ok t' ∧
        t'.members = ["Button", "CanvasItem", "CheckButton", "LinkButton", "Loop", "Timer"] ∧
        t'.categoryOf.get? "LinkButton" = some "canvas" ∧
        t'.taggedAncestors "LinkButton" = ["CanvasItem", "Button"] := by
  have hbelow : "LinkButton" ∈
      Taxonomy.subtree (.ofEntries Sample.dump) Sample.config.taxonomy := by
    decide +kernel
  have hdeclared : "Node" ∈ (Inheritance.ofEntries Sample.laterDump).names := by decide +kernel
  have hlinks : ∀ a ∈ lineage Sample.taxonomy.parentOf "LinkButton", a ≠ "Node" →
      (Inheritance.ofEntries Sample.laterDump).parentOf.get? a =
        (Inheritance.ofEntries Sample.dump).parentOf.get? a := by
    decide +kernel
  obtain ⟨t', built', -, -, halike⟩ :=
    (tagging_depends_on_ancestors Sample.build_dump hbelow Sample.laterDump).2 hdeclared hlinks
  refine ⟨Sample.build_dump, hbelow, hdeclared, hlinks, t', built', ?_, ?_, ?_⟩
  · obtain ⟨-, gates, -, rfl⟩ := Taxonomy.build_eq_ok_iff.1 built'
    have hmembers : Taxonomy.selectMembers (.ofEntries Sample.laterDump) Sample.config.taxonomy =
        ["Button", "CanvasItem", "CheckButton", "LinkButton", "Loop", "Timer"] := by
      decide +kernel
    exact hmembers
  · rw [halike.category]
    decide +kernel
  · rw [halike.taggedAncestors]
    decide +kernel

end NodeTagging
