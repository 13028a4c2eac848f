/-!
# Sorting by insertion

Sorting a list by a comparison `le`, one insertion per element. The lists of this library are the
names of a class hierarchy, a few hundred at most.

Sorting only rearranges (`perm_sortBy`). Mathlib has the same sort as `List.insertionSort`, but the
program does without Mathlib. That the two agree is shown in `NodeTagging.Proofs.Sorted`, and so
that the result is in order.
-/

namespace NodeTagging.Sorting

variable {α : Type} (le : α → α → Bool)

/-- The list `ys` with `x` put before the first element that it may precede. -/
def insertBy (x : α) (ys : List α) : List α :=
  ys.takeWhile (fun y => !le x y) ++ x :: ys.dropWhile fun y => !le x y

/-- The elements of `xs`, each before those that it strictly precedes; equal ones keep their
    order. -/
def sortBy (xs : List α) : List α :=
  xs.foldr (insertBy le) []

theorem perm_insertBy (x : α) (ys : List α) : (insertBy le x ys).Perm (x :: ys) := by
  have hmiddle : (insertBy le x ys).Perm (x :: (ys.takeWhile (fun y => !le x y) ++
      ys.dropWhile fun y => !le x y)) :=
    List.perm_middle
  rwa [List.takeWhile_append_dropWhile] at hmiddle

/-- Sorting only rearranges. -/
theorem perm_sortBy (xs : List α) : (sortBy le xs).Perm xs := by
  induction xs with
  | nil => exact .refl _
  | cons x xs ih => exact (perm_insertBy le x _).trans (ih.cons x)

@[simp] theorem mem_sortBy {x : α} {xs : List α} : x ∈ sortBy le xs ↔ x ∈ xs :=
  (perm_sortBy le xs).mem_iff

end NodeTagging.Sorting
