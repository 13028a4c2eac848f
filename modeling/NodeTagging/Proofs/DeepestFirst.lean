import NodeTagging.Proofs.Rooted
import NodeTagging.Proofs.Specificity

/-!
# Deepest first

Classes are tested in an order that is made for any list of class names: members, classes that are
excluded, names that the dump does not know, each any number of times. The parent links of a
taxonomy lead upwards without a cycle, so the depth of a class falls along them
(`depth_lt_of_below`), and putting deep classes first puts every class before those above it.

* `not_below_of_testedBefore`: of two classes, the one that may be tested first is not above the
  other;
* `bySpecificity_eq_of_perm`: the order of the input does not matter;
* `deepest_classes_come_first`: what holds of the order for every list.
-/

namespace NodeTagging

open Hierarchy

namespace Taxonomy

variable {graph : Inheritance} {rules : TaxonomyRules} {t : Taxonomy}

/-- A class is deeper than every class above it. -/
theorem depth_lt_of_below (built : build graph rules = .ok t) {c a : String}
    (h : Relation.TransGen (ParentLink t.parentOf) c a) : t.depth a < t.depth c := by
  obtain ⟨-, gates, -, rfl⟩ := build_eq_ok_iff.1 built
  have step {x p : String} (hp : ParentLink (subtreeParents graph rules) x p) :
      (assemble graph rules gates).depth p < (assemble graph rules gates).depth x := by
    rw [depth_eq_of_parent hp]
    exact Nat.lt_succ_self _
  induction h with
  | single hp => exact step hp
  | tail _ hp ih => exact Nat.lt_trans (step hp) ih

/-- A class that may be tested before another one is not above it. -/
theorem not_below_of_testedBefore (built : build graph rules = .ok t) {a b : String}
    (h : testedBefore (t.specificity a) (t.specificity b)) :
    ¬ Relation.TransGen (ParentLink t.parentOf) b a := by
  intro hbelow
  have hlt := depth_lt_of_below built hbelow
  rcases testedBefore_iff.1 h with hdeeper | ⟨hequal, -⟩
  · exact Nat.lt_asymm hlt hdeeper
  · exact Nat.ne_of_lt hlt hequal

theorem depth_le_of_testedBefore {a b : String}
    (h : testedBefore (t.specificity a) (t.specificity b)) : t.depth b ≤ t.depth a := by
  rcases testedBefore_iff.1 h with hdeeper | ⟨hequal, -⟩
  · exact Nat.le_of_lt hdeeper
  · exact Nat.le_of_eq hequal.symm

/-- Between classes of one depth, names decide. -/
theorem precedes_of_testedBefore {a b : String}
    (h : testedBefore (t.specificity a) (t.specificity b)) (hdepth : t.depth a = t.depth b) :
    Text.Precedes a b ∨ a = b := by
  rcases testedBefore_iff.1 h with hdeeper | ⟨-, hle⟩
  · exact absurd hdepth.symm (Nat.ne_of_lt hdeeper)
  · exact Text.le_iff_precedes_or_eq.1 hle

/-- The order of specificity depends on which classes are given how often, not on their order. -/
theorem bySpecificity_eq_of_perm {classes classes' : List String} (h : classes.Perm classes') :
    t.bySpecificity classes = t.bySpecificity classes' :=
  congrArg (List.map Prod.snd) (Sorting.sortBy_eq_of_perm testedBefore_total testedBefore_trans
    testedBefore_antisymm (h.map t.specificity))

end Taxonomy

/-- In a taxonomy that was built, any list of class names is only rearranged: no class comes before
    one that lies below it, depths never increase, and names of one depth are in order. Of every
    rearrangement of the list the result is the same. -/
theorem deepest_classes_come_first {graph : Inheritance} {rules : TaxonomyRules} {t : Taxonomy}
    (built : Taxonomy.build graph rules = .ok t) (classes : List String) :
    let order := t.bySpecificity classes
    order.Perm classes ∧
    order.Pairwise (fun a b => ¬ Relation.TransGen (ParentLink t.parentOf) b a) ∧
    order.Pairwise (fun a b => t.depth b ≤ t.depth a) ∧
    order.Pairwise (fun a b => t.depth a = t.depth b → Text.Precedes a b ∨ a = b) ∧
    ∀ classes', classes'.Perm classes → t.bySpecificity classes' = order := by
  intro order
  have hpairwise := Taxonomy.pairwise_bySpecificity (t := t) classes
  exact ⟨Taxonomy.perm_bySpecificity classes,
    hpairwise.imp fun h => Taxonomy.not_below_of_testedBefore built h,
    hpairwise.imp fun h => Taxonomy.depth_le_of_testedBefore h,
    hpairwise.imp fun h => Taxonomy.precedes_of_testedBefore h,
    fun _ hperm => Taxonomy.bySpecificity_eq_of_perm hperm⟩

/-- A list with a class given twice, one that is excluded and two on a cycle outside the subtree,
    and the same list the other way round. -/
theorem deepest_classes_come_first_of_mixed :
    let classes := ["Pool", "Timer", "Button", "LinkButton", "Loop", "Node2D", "Button"]
    let order := ["LinkButton", "Button", "Button", "Node2D", "Timer", "Loop", "Pool"]
    Taxonomy.build (.ofEntries Sample.dump) Sample.config.taxonomy = .ok Sample.taxonomy ∧
      Sample.taxonomy.bySpecificity classes = order ∧
      Sample.taxonomy.bySpecificity classes.reverse = order ∧
      order.Pairwise
        (fun a b => ¬ Relation.TransGen (ParentLink Sample.taxonomy.parentOf) b a) := by
  intro classes order
  have hfirst := deepest_classes_come_first Sample.build_dump classes
  have horder : Sample.taxonomy.bySpecificity classes = order := by decide +kernel
  refine ⟨Sample.build_dump, horder, ?_, horder ▸ hfirst.2.1⟩
  exact (hfirst.2.2.2.2 classes.reverse classes.reverse_perm).trans horder

end NodeTagging
