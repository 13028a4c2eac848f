import Mathlib.Data.List.Sort
import NodeTagging.Text.Order

/-!
# Sorted lists

The sorting of this library is insertion sort (`sortBy_eq_insertionSort`), with the insertion
written as a cut of the list, so what is known of insertion sort holds of it. Names are sorted by a
total order, so an ordered list of names is strictly increasing and depends only on which names it
holds.

* `pairwise_sortBy`: every element of a sorted list may precede all later ones;
* `sortBy_eq_of_perm`: under an antisymmetric comparison the result does not depend on the order of
  the input;
* `filter_sortBy`: what is left of a sorted list is what is left of the input, sorted;
* `pairwise_ordered`: an ordered list of names is strictly increasing;
* `ordered_congr`: it depends only on which names are given, not on their order or repetition.
-/

namespace NodeTagging

namespace Sorting

variable {α : Type} {le : α → α → Bool}

theorem sortBy_eq_insertionSort (xs : List α) :
    sortBy le xs = xs.insertionSort fun a b => le a b := by
  induction xs with
  | nil => rfl
  | cons x xs ih =>
    rw [List.insertionSort_cons_eq_take_drop, ← ih]
    simp [sortBy, insertBy]

section Comparison

variable (total : ∀ a b, le a b || le b a) (trans : ∀ a b c, le a b → le b c → le a c)

include total trans

/-- In a sorted list every element may precede all later ones. -/
theorem pairwise_sortBy (xs : List α) : (sortBy le xs).Pairwise (fun a b => le a b) := by
  have : Std.Total fun a b => le a b = true := ⟨fun a b => Bool.or_eq_true _ _ ▸ total a b⟩
  have : IsTrans α fun a b => le a b = true := ⟨trans⟩
  rw [sortBy_eq_insertionSort]
  exact List.pairwise_insertionSort _ xs

variable (antisymm : ∀ a b, le a b → le b a → a = b)

include antisymm

/-- Under an antisymmetric comparison the sorted list depends on the elements only. -/
theorem sortBy_eq_of_perm {xs ys : List α} (h : xs.Perm ys) : sortBy le xs = sortBy le ys :=
  ((perm_sortBy le xs).trans (h.trans (perm_sortBy le ys).symm)).eq_of_pairwise
    (fun a b _ _ => antisymm a b) (pairwise_sortBy total trans xs) (pairwise_sortBy total trans ys)

/-- What is left of a sorted list is what is left of the input, sorted. -/
theorem filter_sortBy (p : α → Bool) (xs : List α) :
    (sortBy le xs).filter p = sortBy le (xs.filter p) :=
  (((perm_sortBy le xs).filter p).trans (perm_sortBy le (xs.filter p)).symm).eq_of_pairwise
    (fun a b _ _ => antisymm a b) ((pairwise_sortBy total trans xs).filter p)
    (pairwise_sortBy total trans (xs.filter p))

end Comparison

end Sorting

namespace Text

instance : Std.Irrefl Precedes := ⟨not_precedes_self⟩

instance : Std.Antisymm Precedes :=
  ⟨fun a _ hab hba => absurd (hab.trans hba) (not_precedes_self a)⟩

/-- An ordered list is strictly increasing. -/
theorem pairwise_ordered (names : List String) : (ordered names).Pairwise Precedes := by
  have h := Sorting.pairwise_sortBy le_total le_trans names.eraseDups
  refine (List.pairwise_and_iff.2 ⟨h, nodup_ordered names⟩).imp fun {a b} hab => ?_
  exact (le_iff_precedes_or_eq.1 hab.1).resolve_right hab.2

/-- Only which names are given matters, not their order or repetition. -/
theorem ordered_congr {xs ys : List String} (h : ∀ a, a ∈ xs ↔ a ∈ ys) :
    ordered xs = ordered ys :=
  (pairwise_ordered xs).eq_of_mem_iff (pairwise_ordered ys) (by simpa using h)

/-- What is left of an ordered list is ordered. -/
theorem filter_ordered (names : List String) (p : String → Bool) :
    (ordered names).filter p = ordered (names.filter p) :=
  ((pairwise_ordered names).filter p).eq_of_mem_iff (pairwise_ordered _) (by simp)

end Text

end NodeTagging
