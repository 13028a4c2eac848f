import NodeTagging.Proofs.Fitness
import NodeTagging.Proofs.Gates
import NodeTagging.Proofs.Walks
import NodeTagging.Run

/-!
# What holds of every taxonomy

A taxonomy is built from a dump that may hold anything: cycles, classes repeated with other parents,
parents that are never declared. Below the root it is a tree all the same: following parents from a
class of the subtree leads to the root (`grounded_of_mem_subtree`), since the root has lost its own
parent and every other class was found through its one parent.

`WellFormed` collects what the generated files rely on. It holds of every taxonomy built from rules
that are fit for dispatch (`wellFormed_of_build`). The main point is that nothing is lost by leaving
out the categories without a branch: the first category whose root is in a lineage always has one
(`find?_branches`).
-/

namespace NodeTagging

/-! ### First elements -/

section First

variable {α : Type} {l : List α} {p q : α → Bool} {x : α}

/-- The first element with a property is also the first with a narrower property that it has. -/
theorem find?_eq_some_of_imp (h : l.find? p = some x) (hq : q x) (imp : ∀ a ∈ l, q a → p a) :
    l.find? q = some x := by
  obtain ⟨-, before, after, rfl, hbefore⟩ := List.find?_eq_some_iff_append.1 h
  refine List.find?_eq_some_iff_append.2 ⟨hq, before, after, rfl, fun a ha => ?_⟩
  have hp : p a = false := by simpa using hbefore a ha
  cases hqa : q a with
  | false => rfl
  | true => simp [imp a (List.mem_append_left _ ha) hqa] at hp

/-- A filter that keeps the first element with a property does not change which one is first. -/
theorem find?_filter_eq (h : ∀ a, l.find? q = some a → p a) :
    (l.filter p).find? q = l.find? q := by
  induction l with
  | nil => rfl
  | cons y ys ih =>
    by_cases hq : q y
    · rw [List.filter_cons_of_pos (h y (List.find?_cons_of_pos hq)), List.find?_cons_of_pos hq,
        List.find?_cons_of_pos hq]
    · rw [List.find?_cons_of_neg hq] at h ⊢
      by_cases hp : p y
      · rw [List.filter_cons_of_pos hp, List.find?_cons_of_neg hq, ih h]
      · rw [List.filter_cons_of_neg hp, ih h]

theorem find?_eq_self [DecidableEq α] (hx : x ∈ l) : l.find? (fun a => a = x) = some x := by
  cases hfirst : l.find? fun a => a = x with
  | none => simpa using List.find?_eq_none.1 hfirst x hx
  | some a => rw [show a = x by simpa using List.find?_some hfirst]

/-- In an arranged list the first element with a property is the one that no other such element
    may precede. -/
theorem find?_eq_some_of_pairwise {r : α → α → Prop} (arranged : l.Pairwise r) (hx : x ∈ l)
    (hp : p x) (best : ∀ y ∈ l, p y → r y x → y = x) : l.find? p = some x := by
  induction l with
  | nil => simp at hx
  | cons y ys ih =>
    obtain ⟨hy, hys⟩ := List.pairwise_cons.1 arranged
    rcases List.mem_cons.1 hx with rfl | hx
    · exact List.find?_cons_of_pos hp
    · by_cases hpy : p y
      · rw [List.find?_cons_of_pos hpy, best y List.mem_cons_self hpy (hy x hx)]
      · rw [List.find?_cons_of_neg hpy]
        exact ih hys hx fun z hz => best z (List.mem_cons_of_mem y hz)

end First

namespace Taxonomy

open Hierarchy

/-! ### The tree below the root -/

section Subtree

variable {graph : Inheritance} {rules : TaxonomyRules}

theorem childLink_childrenOf_iff {parent child : String} :
    ChildLink graph.childrenOf parent child ↔ graph.parentOf.get? child = some parent := by
  rw [ChildLink, Inheritance.get?_childrenOf]
  split
  · rw [Option.getD_some, Inheritance.mem_children_iff]
  · next h =>
    refine ⟨fun hchild => by simp at hchild, fun hparent => ?_⟩
    exact absurd (Table.mem_values_of_get? hparent) h

theorem root_mem_subtree : rules.root ∈ subtree graph rules :=
  mem_descendants_iff.2 .refl

/-- A class is in the subtree exactly if it is the root or its parent is in the subtree. -/
theorem mem_subtree_iff {c : String} :
    c ∈ subtree graph rules ↔
      c = rules.root ∨ ∃ parent ∈ subtree graph rules, graph.parentOf.get? c = some parent := by
  rw [subtree, mem_descendants_iff, Relation.ReflTransGen.cases_tail_iff]
  simp only [mem_descendants_iff, childLink_childrenOf_iff]

theorem get?_subtreeParents (c : String) :
    (subtreeParents graph rules).get? c =
      if c ∈ subtree graph rules ∧ c ≠ rules.root then graph.parentOf.get? c else none := by
  rw [subtreeParents, Table.get?_erase, restrictParents, Table.get?_tabulate]
  by_cases hroot : c = rules.root
  · simp [hroot]
  · simp [hroot]

/-- From every class of the subtree, the chain of parents leads to a class without a parent. -/
theorem grounded_of_mem_subtree {c : String} (h : c ∈ subtree graph rules) :
    Grounded (subtreeParents graph rules) c := by
  have hreached := mem_descendants_iff.1 h
  induction hreached with
  | refl => exact grounded_of_root (by simp [get?_subtreeParents])
  | @tail parent child hparent hlink ih =>
    have hparent : parent ∈ subtree graph rules := mem_descendants_iff.2 hparent
    -- A cycle may lead back to the root, but there the chain is cut off.
    by_cases hroot : child = rules.root
    · exact grounded_of_root (by simp [get?_subtreeParents, hroot])
    · refine grounded_of_parent (p := parent) ?_ (ih hparent)
      rw [get?_subtreeParents, if_pos ⟨h, hroot⟩]
      exact childLink_childrenOf_iff.1 hlink

theorem mem_subtree_of_mem_selectMembers {c : String} (h : c ∈ selectMembers graph rules) :
    c ∈ subtree graph rules :=
  (mem_selectMembers_iff.1 h).1

end Subtree

/-! ### Well-formed taxonomies -/

/-- The category that decides on a lineage: the first branch whose root is in it. -/
def branchIn? (t : Taxonomy) (lineage : List String) : Option Category :=
  t.branches.find? fun category => category.root ∈ lineage

/-- What the generated files rely on in a taxonomy. -/
structure WellFormed (t : Taxonomy) : Prop where
  /-- No member is listed twice. -/
  nodup_members : t.members.Nodup
  /-- The root is not among the members. -/
  root_not_mem : t.root ∉ t.members
  /-- The chain of parents above a member ends. -/
  grounded : ∀ c ∈ t.members, Grounded t.parentOf c
  /-- A member is in the category of the branch that decides on its lineage, or in the
      catch-all. -/
  get?_categoryOf : ∀ c, t.categoryOf.get? c =
    if c ∈ t.members then
      some (((t.branchIn? (lineage t.parentOf c)).map (·.id)).getD t.catchAll)
    else none
  /-- The root of a branch is a member. -/
  root_mem : ∀ branch ∈ t.branches, branch.root ∈ t.members
  /-- No branch has the name of the catch-all. -/
  id_ne_catchAll : ∀ branch ∈ t.branches, branch.id ≠ t.catchAll
  /-- No two branches share a name or a root. -/
  apart : t.branches.Pairwise Category.Apart
  /-- No root of a branch is gated. -/
  root_not_gated : ∀ branch ∈ t.branches, t.gates.gate? branch.root = none

section Build

variable {graph : Inheritance} {rules : TaxonomyRules}

/-- The first category whose root is in a lineage is also the first one for its own root, so that it
    has a branch. -/
theorem find?_branches (gates : Gates) {c : String} (h : c ∈ subtree graph rules) :
    (assemble graph rules gates).branchIn? (lineage (subtreeParents graph rules) c) =
      (eligibleCategories graph rules).find? fun category =>
        category.root ∈ lineage (subtreeParents graph rules) c := by
  refine find?_filter_eq fun category hfirst => ?_
  have hroot : category.root ∈ lineage (subtreeParents graph rules) c := by
    simpa using List.find?_some hfirst
  have hmember : category.root ∈ selectMembers graph rules := by
    simpa using (List.mem_filter.1 (List.mem_of_find?_eq_some hfirst)).2
  -- A category with its root above this one's has it in the longer lineage too.
  have hown : (eligibleCategories graph rules).find? (fun category' =>
      category'.root ∈ lineage (subtreeParents graph rules) category.root) = some category := by
    refine find?_eq_some_of_imp hfirst (by simpa using mem_lineage_self _ _) fun a _ ha => ?_
    simpa using (grounded_of_mem_subtree h).lineage_trans hroot (by simpa using ha)
  rw [get?_assignCategories, if_pos hmember, Category.idOf, Category.ofLineage?, hown]
  simp

/-- Every taxonomy built from rules that are fit for dispatch is well-formed. -/
theorem wellFormed_assemble (fit : rules.Fit) {gates : Gates}
    (hgates : Gates.ofTable rules.gateTable = .ok gates) :
    (assemble graph rules gates).WellFormed := by
  have mem_categories {category : Category}
      (h : category ∈ (assemble graph rules gates).branches) : category ∈ rules.categories :=
    (List.mem_filter.1 (List.mem_filter.1 h).1).1
  exact
    { nodup_members := Text.nodup_ordered _
      root_not_mem := fun h => (mem_selectMembers_iff.1 h).2.2 rfl
      grounded := fun c hc => grounded_of_mem_subtree (mem_subtree_of_mem_selectMembers hc)
      get?_categoryOf := fun c => by
        rw [assemble, get?_assignCategories]
        split
        · next hc =>
          exact congrArg (fun first => some ((first.map (·.id)).getD rules.catchAll))
            (find?_branches gates (mem_subtree_of_mem_selectMembers hc)).symm
        · rfl
      root_mem := fun branch hbranch =>
        of_decide_eq_true (List.mem_filter.1 (List.mem_filter.1 hbranch).1).2
      id_ne_catchAll := fun branch hbranch => fit.id_ne_catchAll branch (mem_categories hbranch)
      apart := (fit.apart.filter _).filter _
      root_not_gated := fun branch hbranch => Gates.gate?_eq_none_of_not_listed hgates
        (fit.root_not_gated branch (mem_categories hbranch)) }

theorem wellFormed_of_build (fit : rules.Fit) {t : Taxonomy} (h : build graph rules = .ok t) :
    t.WellFormed := by
  obtain ⟨-, gates, hgates, rfl⟩ := build_eq_ok_iff.1 h
  exact wellFormed_assemble fit hgates

theorem grounded_of_build {t : Taxonomy} (h : build graph rules = .ok t) {c : String}
    (hc : c ∈ subtree graph rules) : Grounded t.parentOf c := by
  obtain ⟨-, gates, -, rfl⟩ := build_eq_ok_iff.1 h
  exact grounded_of_mem_subtree hc

end Build

end Taxonomy

/-! ### Plans -/

/-- A plan is made from a taxonomy that could be built. -/
theorem RunPlan.exists_taxonomy_of_make {graph : Inheritance} {config : Config} {plan : RunPlan}
    (h : make graph config = .ok plan) : ∃ taxonomy,
      Taxonomy.build graph config.taxonomy = .ok taxonomy ∧ plan =
        { taxonomy := taxonomy
          files := GeneratedFile.render config.target config.entryPoints taxonomy
            config.paths.generated
          warnings := taxonomy.audit } := by
  rw [make] at h
  cases hbuild : Taxonomy.build graph config.taxonomy with
  | error problem => simp [hbuild, Except.map] at h
  | ok taxonomy =>
    rw [hbuild] at h
    exact ⟨taxonomy, rfl, (Except.ok.inj h).symm⟩

theorem RunPlan.make_of_build {graph : Inheritance} {config : Config} {taxonomy : Taxonomy}
    (h : Taxonomy.build graph config.taxonomy = .ok taxonomy) :
    make graph config = .ok
      { taxonomy := taxonomy
        files := GeneratedFile.render config.target config.entryPoints taxonomy
          config.paths.generated
        warnings := taxonomy.audit } := by
  rw [make, h]
  rfl

/-! ### A small engine -/

namespace Sample

/-- The classes of an engine: below the node sprites, buttons and a timer, beside it a cycle. -/
def dump : List ClassEntry :=
  [⟨"Object", none⟩, ⟨"Node", some "Object"⟩, ⟨"Timer", some "Node"⟩,
    ⟨"CanvasItem", some "Node"⟩, ⟨"Node2D", some "CanvasItem"⟩, ⟨"Sprite2D", some "Node2D"⟩,
    ⟨"AnimatedSprite2D", some "Sprite2D"⟩, ⟨"Button", some "CanvasItem"⟩,
    ⟨"LinkButton", some "Button"⟩, ⟨"OptionButton", some "Button"⟩,
    ⟨"Loop", some "Pool"⟩, ⟨"Pool", some "Loop"⟩]

/-- The gates of the configuration. -/
def gates : Gates :=
  ⟨.ofList [("Button", "4-4"), ("LinkButton", "4-5")]⟩

/-- The taxonomy of the engine under the configuration. -/
def taxonomy : Taxonomy :=
  Taxonomy.assemble (.ofEntries dump) config.taxonomy gates

theorem build_dump : Taxonomy.build (.ofEntries dump) config.taxonomy = .ok taxonomy := by
  decide +kernel

end Sample

end NodeTagging
