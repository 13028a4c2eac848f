import NodeTagging.Table
import NodeTagging.Text.Order

/-!
# Walks along a hierarchy

A hierarchy is a finite map, either from a node to its children or from a node to its parent. It is
read from outside, so it may hold cycles and links to nodes that are not its own. Two walks are
taken along it.

* `descendants`: everything below a root, by a work list. Each child list is opened at most once,
  so the links of the unopened ones and the pending nodes bound the walk.
* `ancestors`: the chain above a node, nearest first. It stops at the first node without a parent
  and before the first node that would be repeated, so it takes at most one step per link.
-/

namespace NodeTagging.Hierarchy

variable {α : Type} [DecidableEq α]

/-! ### Downwards -/

/-- The number of links out of the nodes that are not among `found`. -/
def unopenedLinks (childrenOf : Table α (List α)) (found : List α) : Nat :=
  ((childrenOf.entries.filter fun e => e.1 ∉ found).flatMap Prod.snd).length

theorem length_flatMap_filter_add_le (es : List (α × List α)) {found : List α} {x : α}
    (h : x ∉ found) :
    ((es.filter fun e => e.1 ∉ x :: found).flatMap Prod.snd).length +
        ((es.lookup x).getD []).length ≤
      ((es.filter fun e => e.1 ∉ found).flatMap Prod.snd).length := by
  induction es with
  | nil => simp
  | cons e es ih =>
    obtain ⟨k, cs⟩ := e
    by_cases hk : k = x
    · subst hk
      have le : ((es.filter fun e => e.1 ∉ k :: found).flatMap Prod.snd).length ≤
          ((es.filter fun e => e.1 ∉ found).flatMap Prod.snd).length := by omega
      rw [List.filter_cons_of_neg (by simp), List.filter_cons_of_pos (by simpa using h),
        List.flatMap_cons, List.length_append]
      simp only [List.lookup_cons, beq_self_eq_true, Option.getD_some]
      omega
    · have hkx : (x == k) = false := beq_false_of_ne fun e => hk e.symm
      simp only [List.lookup_cons, hkx]
      by_cases hf : k ∈ found
      · rw [List.filter_cons_of_neg (by simp [hf]), List.filter_cons_of_neg (by simp [hf])]
        exact ih
      · rw [List.filter_cons_of_pos (by simp [hf, hk]), List.filter_cons_of_pos (by simp [hf]),
          List.flatMap_cons, List.flatMap_cons, List.length_append, List.length_append]
        omega

/-- Opening the child list of a new node uses up its links. -/
theorem unopenedLinks_cons_add_length_le (childrenOf : Table α (List α)) {found : List α} {x : α}
    (h : x ∉ found) :
    unopenedLinks childrenOf (x :: found) + ((childrenOf.get? x).getD []).length ≤
      unopenedLinks childrenOf found :=
  length_flatMap_filter_add_le childrenOf.entries h

/-- The nodes of `found` with everything reached from `pending` along child links that lead through
    no node of `found`. -/
def walkDown (childrenOf : Table α (List α)) (found pending : List α) : List α :=
  match pending with
  | [] => found
  | x :: rest =>
    -- The children of a node of `found` are in `found` or pending already.
    if _h : x ∈ found then walkDown childrenOf found rest
    else walkDown childrenOf (x :: found) ((childrenOf.get? x).getD [] ++ rest)
termination_by unopenedLinks childrenOf found + pending.length
decreasing_by
  · simp
  · have := unopenedLinks_cons_add_length_le childrenOf _h
    simp only [List.length_append, List.length_cons]
    omega

/-- The root and everything below it, each once. -/
def descendants (root : α) (childrenOf : Table α (List α)) : List α :=
  walkDown childrenOf [] [root]

theorem nodup_walkDown (childrenOf : Table α (List α)) (found pending : List α)
    (h : found.Nodup) : (walkDown childrenOf found pending).Nodup := by
  fun_induction walkDown childrenOf found pending with
  | case1 => exact h
  | case2 _ _ _ _ ih => exact ih h
  | case3 _ _ _ hx ih => exact ih (List.nodup_cons.2 ⟨hx, h⟩)

theorem nodup_descendants (root : α) (childrenOf : Table α (List α)) :
    (descendants root childrenOf).Nodup :=
  nodup_walkDown childrenOf [] [root] .nil

/-! ### Upwards -/

/-- The number of parent links to nodes that are not among `seen`. -/
def unseenParents (parentOf : Table α α) (seen : List α) : Nat :=
  (parentOf.values.filter fun p => p ∉ seen).length

theorem unseenParents_cons_lt (parentOf : Table α α) {seen : List α} {p : α}
    (hp : p ∈ parentOf.values) (h : p ∉ seen) :
    unseenParents parentOf (p :: seen) < unseenParents parentOf seen := by
  -- Among the parents outside `seen`, `p` is one of those that drop out.
  have split : (parentOf.values.filter fun q => q ∉ p :: seen) =
      (parentOf.values.filter fun q => q ∉ seen).filter fun q => q ≠ p := by
    rw [List.filter_filter]
    exact List.filter_congr fun q _ => by simp
  rw [unseenParents, split]
  exact List.length_filter_lt_length_iff_exists.2 ⟨p, by simp [hp, h]⟩

/-- The chain of parents above `x`, up to the first node that is among `seen`. -/
def climb (parentOf : Table α α) (seen : List α) (x : α) : List α :=
  match _h : parentOf.get? x with
  | none => []
  | some p => if _hp : p ∈ seen then [] else p :: climb parentOf (p :: seen) p
termination_by unseenParents parentOf seen
decreasing_by exact unseenParents_cons_lt parentOf (Table.mem_values_of_get? _h) _hp

/-- The ancestors of `x`, nearest first, without `x` and without repetition. -/
def ancestors (parentOf : Table α α) (x : α) : List α :=
  climb parentOf [x] x

/-- The node itself followed by its ancestors. -/
def lineage (parentOf : Table α α) (x : α) : List α :=
  x :: ancestors parentOf x

end NodeTagging.Hierarchy
