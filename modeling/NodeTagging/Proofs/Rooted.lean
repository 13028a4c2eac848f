import NodeTagging.Proofs.Indices
import NodeTagging.Proofs.WellFormed

/-!
# The subtree is a tree

A dump may hold cycles, classes that are their own parents, and parents that are never declared, and
the root itself may be below other classes or on a cycle. Of all this nothing is left in the parent
links of a taxonomy. They are those of the classes found by walking down from the root, without the
link of the root, and make a tree: walking up from any of its classes ends with the root.

* `mem_subtree_iff_root_above`: the classes found by walking down are those from which walking up
  along all links finds the root;
* `lineage_eq_append_root`: along the links of the taxonomy, every lineage ends with the root, which
  is in it nowhere else;
* `depth_eq_of_parent`: a class is one deeper than its parent;
* `Rooted`: what that means for the members of a taxonomy, whatever its categories are.
-/

namespace NodeTagging

open Hierarchy

namespace Taxonomy

variable {graph : Inheritance} {rules : TaxonomyRules} {c : String}

/-! ### Parents inside the subtree -/

theorem get?_subtreeParents_eq_some_iff {parent : String} :
    (subtreeParents graph rules).get? c = some parent ↔
      (c ∈ subtree graph rules ∧ c ≠ rules.root) ∧ graph.parentOf.get? c = some parent := by
  rw [get?_subtreeParents, Option.ite_none_right_eq_some]

/-- The parents inside the subtree are in the subtree. -/
theorem mem_subtree_of_parent {parent : String}
    (h : (subtreeParents graph rules).get? c = some parent) : parent ∈ subtree graph rules := by
  obtain ⟨⟨hc, hroot⟩, hparent⟩ := get?_subtreeParents_eq_some_iff.1 h
  obtain ⟨parent', hmem, hparent'⟩ := (mem_subtree_iff.1 hc).resolve_left hroot
  rwa [Option.some.inj (hparent.symm.trans hparent')]

/-- A class of the subtree besides the root keeps its parent. -/
theorem exists_subtreeParent (hc : c ∈ subtree graph rules) (hroot : c ≠ rules.root) :
    ∃ parent, graph.parentOf.get? c = some parent ∧
      (subtreeParents graph rules).get? c = some parent := by
  obtain ⟨parent, -, hparent⟩ := (mem_subtree_iff.1 hc).resolve_left hroot
  exact ⟨parent, hparent, get?_subtreeParents_eq_some_iff.2 ⟨⟨hc, hroot⟩, hparent⟩⟩

/-- A class of the subtree without a parent inside it is the root. -/
theorem eq_root_of_no_parent (hc : c ∈ subtree graph rules)
    (h : (subtreeParents graph rules).get? c = none) : c = rules.root := by
  by_contra hroot
  obtain ⟨parent, -, hparent⟩ := exists_subtreeParent hc hroot
  rw [h] at hparent
  cases hparent

theorem mem_subtree_of_mem_lineage (hc : c ∈ subtree graph rules) {a : String}
    (ha : a ∈ lineage (subtreeParents graph rules) c) : a ∈ subtree graph rules := by
  have hreached := mem_lineage_iff_reached.1 ha
  cases hreached with
  | refl => exact hc
  | tail _ hparent => exact mem_subtree_of_parent hparent

/-- The classes below a declared root are declared. -/
theorem mem_names_of_mem_subtree {entries : List ClassEntry}
    (hroot : rules.root ∈ (Inheritance.ofEntries entries).names)
    (h : c ∈ subtree (.ofEntries entries) rules) : ∃ e ∈ entries, e.name = c := by
  refine Inheritance.mem_names_ofEntries.1 ?_
  rcases mem_subtree_iff.1 h with rfl | ⟨parent, -, hparent⟩
  · exact hroot
  · exact Inheritance.mem_names_of_get?_parentOf hparent

/-! ### Down and up -/

/-- A child link is a parent link turned round. -/
theorem childLink_eq_swap :
    ChildLink graph.childrenOf = Function.swap (ParentLink graph.parentOf) := by
  funext parent child
  exact propext childLink_childrenOf_iff

/-- Walking down from the root finds a class exactly if walking up from the class finds the root. -/
theorem mem_subtree_iff_root_above :
    c ∈ subtree graph rules ↔ c = rules.root ∨ rules.root ∈ ancestors graph.parentOf c := by
  rw [subtree, mem_descendants_iff, childLink_eq_swap, Relation.reflTransGen_swap,
    ← mem_lineage_iff_reached, mem_lineage_iff, eq_comm]

/-! ### The end of every lineage -/

/-- Along the links of the taxonomy, every lineage ends with the root, which is in it nowhere
    else. -/
theorem lineage_eq_append_root (hc : c ∈ subtree graph rules) :
    ∃ below, lineage (subtreeParents graph rules) c = below ++ [rules.root] ∧
      rules.root ∉ below := by
  have hgrounded := grounded_of_mem_subtree hc
  obtain ⟨below, top, hlineage, htop⟩ := ChainAbove.exists_top hgrounded
  -- The last class has no parent, and in the subtree only the root has none.
  have hmem : top ∈ lineage (subtreeParents graph rules) c := by simp [lineage, hlineage]
  obtain rfl := eq_root_of_no_parent (mem_subtree_of_mem_lineage hc hmem) htop
  refine ⟨below, hlineage, fun hbelow => ?_⟩
  have hnodup := hgrounded.nodup_lineage
  rw [lineage, hlineage, List.nodup_append] at hnodup
  exact hnodup.2.2 _ hbelow _ (List.mem_singleton_self _) rfl

/-- The root is the last of the ancestors of every other class. -/
theorem ancestors_eq_append_root (hc : c ∈ subtree graph rules) (hroot : c ≠ rules.root) :
    ∃ between, ancestors (subtreeParents graph rules) c = between ++ [rules.root] ∧
      rules.root ∉ between := by
  obtain ⟨below, hlineage, hnot⟩ := lineage_eq_append_root hc
  cases below with
  | nil => exact absurd (List.cons.inj hlineage).1 hroot
  | cons first between =>
    exact ⟨between, (List.cons.inj hlineage).2, fun h => hnot (List.mem_cons_of_mem first h)⟩

theorem root_mem_ancestors (hc : c ∈ subtree graph rules) (hroot : c ≠ rules.root) :
    rules.root ∈ ancestors (subtreeParents graph rules) c := by
  obtain ⟨between, hancestors, -⟩ := ancestors_eq_append_root hc hroot
  simp [hancestors]

/-- A class is one deeper than its parent. -/
theorem depth_eq_of_parent {gates : Gates} {parent : String}
    (h : (subtreeParents graph rules).get? c = some parent) :
    (assemble graph rules gates).depth c = (assemble graph rules gates).depth parent + 1 := by
  have hgrounded := grounded_of_mem_subtree (mem_subtree_of_parent h)
  rw [depth, assemble, ancestors_eq_cons h hgrounded, List.length_cons]
  rfl

/-! ### Members in the tree -/

/-- What holds of the members of every taxonomy, whatever its categories are. -/
structure Rooted (t : Taxonomy) : Prop where
  /-- The tagged classes are the members. -/
  isTagged_iff : ∀ c, t.isTagged c ↔ c ∈ t.members
  /-- The root is not among the members. -/
  root_not_mem : t.root ∉ t.members
  /-- The chain of parents above a member ends. -/
  grounded : ∀ c ∈ t.members, Grounded t.parentOf c
  /-- The root is above every member. -/
  root_above : ∀ c ∈ t.members, t.root ∈ ancestors t.parentOf c

theorem rooted_of_build {graph : Inheritance} {rules : TaxonomyRules} {t : Taxonomy}
    (built : build graph rules = .ok t) : t.Rooted := by
  obtain ⟨-, gates, -, rfl⟩ := build_eq_ok_iff.1 built
  exact
    { isTagged_iff := isTagged_assemble graph rules gates
      root_not_mem := fun h => (mem_selectMembers_iff.1 h).2.2 rfl
      grounded := fun c hc => grounded_of_mem_subtree (mem_subtree_of_mem_selectMembers hc)
      root_above := fun c hc =>
        root_mem_ancestors (mem_subtree_of_mem_selectMembers hc) (mem_selectMembers_iff.1 hc).2.2 }

end Taxonomy

/-! ### Of every dump -/

/-- Whatever a dump holds, a class is found by walking down from the root exactly if it is the root
    or has the root above it, and then it is declared. The parent links of the taxonomy are those of
    the classes found, but for the root, to classes found. Walking up along them from any class but
    the root follows parents until one has none; that one is the root, which is met nowhere else.
    Every class is one deeper than its parent. -/
theorem subtree_is_tree {entries : List ClassEntry} {rules : TaxonomyRules} {t : Taxonomy}
    (built : Taxonomy.build (.ofEntries entries) rules = .ok t) :
    let graph := Inheritance.ofEntries entries
    let found := Taxonomy.subtree graph rules
    (∀ c, c ∈ found ↔ c = rules.root ∨ rules.root ∈ ancestors graph.parentOf c) ∧
    (∀ c ∈ found, c ∈ graph.names) ∧
    (∀ c, c ∈ t.parentOf.keys ↔ c ∈ found ∧ c ≠ rules.root) ∧
    (∀ p ∈ t.parentOf.values, p ∈ found) ∧
    t.parentOf.get? rules.root = none ∧
    (∀ c ∈ found, c ≠ rules.root →
      ChainAbove t.parentOf c (ancestors t.parentOf c) ∧
      (∃ between, ancestors t.parentOf c = between ++ [rules.root] ∧ rules.root ∉ between) ∧
      ∃ p, graph.parentOf.get? c = some p ∧ t.parentOf.get? c = some p ∧
        t.depth c = t.depth p + 1) := by
  intro graph found
  obtain ⟨hroot, gates, -, rfl⟩ := Taxonomy.build_eq_ok_iff.1 built
  refine ⟨fun c => Taxonomy.mem_subtree_iff_root_above, fun c hc => ?_, fun c => ?_, fun p hp => ?_,
    ?_, fun c hc hne => ⟨Taxonomy.grounded_of_mem_subtree hc, ?_, ?_⟩⟩
  · exact Inheritance.mem_names_ofEntries.2 (Taxonomy.mem_names_of_mem_subtree hroot hc)
  · rw [Table.mem_keys_iff]
    constructor
    · rintro ⟨p, hp⟩
      exact (Taxonomy.get?_subtreeParents_eq_some_iff.1 hp).1
    · rintro ⟨hc, hne⟩
      obtain ⟨p, -, hp⟩ := Taxonomy.exists_subtreeParent hc hne
      exact ⟨p, hp⟩
  · obtain ⟨c, hc⟩ := Table.mem_values_iff.1 hp
    exact Taxonomy.mem_subtree_of_parent hc
  · exact (Taxonomy.get?_subtreeParents _).trans (if_neg fun h => h.2 rfl)
  · exact Taxonomy.ancestors_eq_append_root hc hne
  · obtain ⟨p, hparent, hp⟩ := Taxonomy.exists_subtreeParent hc hne
    exact ⟨p, hparent, hp, Taxonomy.depth_eq_of_parent hp⟩

namespace Sample

/-- A dump whose root is on a cycle, with a class that is listed twice, one that is its own parent,
    and one whose parent is not declared. -/
def cyclicDump : List ClassEntry :=
  [⟨"Node", some "Sprite2D"⟩, ⟨"Sprite2D", some "Tool"⟩, ⟨"CanvasItem", some "Node"⟩,
    ⟨"Sprite2D", some "CanvasItem"⟩, ⟨"Tool", some "Tool"⟩, ⟨"Plugin", some "Editor"⟩]

/-- Its taxonomy under the default rules. -/
def cyclicTaxonomy : Taxonomy :=
  Taxonomy.assemble (.ofEntries cyclicDump) {} .empty

theorem build_cyclicDump :
    Taxonomy.build (.ofEntries cyclicDump) {} = .ok cyclicTaxonomy := by
  decide +kernel

end Sample

/-- Where the root is on a cycle, a class of the cycle has the root above it, and the chain of its
    parents ends there. -/
theorem subtree_is_tree_on_cycle :
    Taxonomy.build (.ofEntries Sample.cyclicDump) {} = .ok Sample.cyclicTaxonomy ∧
      "Sprite2D" ∈ Taxonomy.subtree (.ofEntries Sample.cyclicDump) {} ∧
      ("Node" ∈ ancestors (Inheritance.ofEntries Sample.cyclicDump).parentOf "Sprite2D") ∧
      (∃ between, ancestors Sample.cyclicTaxonomy.parentOf "Sprite2D" = between ++ ["Node"] ∧
        "Node" ∉ between) ∧
      Sample.cyclicTaxonomy.parentOf.get? "Node" = none := by
  have htree := subtree_is_tree Sample.build_cyclicDump
  have hfound : "Sprite2D" ∈ Taxonomy.subtree (.ofEntries Sample.cyclicDump) {} := by
    decide +kernel
  have hne : "Sprite2D" ≠ "Node" := by decide
  refine ⟨Sample.build_cyclicDump, hfound, ?_, ?_, htree.2.2.2.2.1⟩
  · exact ((htree.1 "Sprite2D").1 hfound).resolve_left hne
  · exact (htree.2.2.2.2.2 "Sprite2D" hfound hne).2.1

end NodeTagging
