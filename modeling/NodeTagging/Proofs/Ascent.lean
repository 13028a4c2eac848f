import Mathlib.Data.List.Chain
import Mathlib.Data.List.Nodup
import Mathlib.Data.List.Perm.Subperm
import NodeTagging.Proofs.Walks

/-!
# The walk upwards, turn by turn

A walk up a hierarchy looks at one node at a time. If there is one to look at and it was not seen,
it is put at the end of the chain and the walk goes on with its parent; otherwise the walk is over.
The parents come from outside and may lead round in a circle, so nothing but the nodes seen keeps
the walk from going on for ever.

* `Invariant`: what every turn preserves. The chain holds no node twice, each node of it is the
  parent of the one before, and seen are the node that the walk began with and the chain;
* `exists_turns_to_end`: from any parent on, the walk ends, and adds to the chain what `climb`
  finds;
* `ascent_finds_maximal_chain`: so a walk ends with the ancestors of the node that it began with, a
  chain of parents that cannot be prolonged without coming back to a node of it.
-/

namespace NodeTagging.Hierarchy

variable {α : Type}

/-- How far a walk upwards has come. -/
structure Ascent (α : Type) where
  /-- The chain of parents so far, the nearest first. -/
  chain : List α
  /-- The nodes that the walk does not go to any more, the last one first. -/
  seen : List α
  /-- The node to look at, if there is one. -/
  next? : Option α
deriving DecidableEq, Repr

namespace Ascent

variable [DecidableEq α] (parentOf : Table α α)

/-- The start of a walk: only the first node is seen, and its parent is looked at. -/
def start (x : α) : Ascent α :=
  ⟨[], [x], parentOf.get? x⟩

/-- One turn of the walk; none if there is no node to look at or it was seen before. -/
def turn? : Ascent α → Option (Ascent α)
  | ⟨_, _, none⟩ => none
  | ⟨chain, seen, some p⟩ =>
    if p ∈ seen then none else some ⟨chain ++ [p], p :: seen, parentOf.get? p⟩

/-- One turn leads from one point of a walk to another. -/
def Turn (s s' : Ascent α) : Prop :=
  turn? parentOf s = some s'

variable {parentOf} {s s' : Ascent α} {x : α}

/-! ### What every turn preserves -/

/-- What a turn does. -/
theorem turn_cases (h : Turn parentOf s s') :
    ∃ p, s.next? = some p ∧ p ∉ s.seen ∧
      s' = ⟨s.chain ++ [p], p :: s.seen, parentOf.get? p⟩ := by
  obtain ⟨chain, seen, next?⟩ := s
  cases next? with
  | none => simp [Turn, turn?] at h
  | some p =>
    rw [Turn, turn?] at h
    split at h
    · cases h
    · next hp => exact ⟨p, rfl, hp, (Option.some.inj h).symm⟩

/-- A walk goes on as long as there is a node to look at that was not seen. -/
theorem turn?_eq_none_iff : turn? parentOf s = none ↔ ∀ p, s.next? = some p → p ∈ s.seen := by
  obtain ⟨chain, seen, next?⟩ := s
  cases next? with
  | none => simp [turn?]
  | some p => simp [turn?]

/-- What holds at every point of a walk that began with a node. -/
structure Invariant (parentOf : Table α α) (x : α) (s : Ascent α) : Prop where
  /-- Seen are the first node and those of the chain. -/
  seen_eq : s.seen = (x :: s.chain).reverse
  /-- No node is among them twice. -/
  nodup : (x :: s.chain).Nodup
  /-- Each is the parent of the one before. -/
  linked : (x :: s.chain).IsChain (ParentLink parentOf)
  /-- The parent of the last one is looked at. -/
  next?_eq : s.next? = parentOf.get? ((x :: s.chain).getLast (List.cons_ne_nil x s.chain))

namespace Invariant

theorem start (parentOf : Table α α) (x : α) : Invariant parentOf x (.start parentOf x) where
  seen_eq := rfl
  nodup := List.nodup_singleton x
  linked := .singleton x
  next?_eq := rfl

/-- A turn preserves the invariant. -/
theorem turn (h : Invariant parentOf x s) (hturn : Turn parentOf s s') :
    Invariant parentOf x s' := by
  obtain ⟨p, hnext, hp, rfl⟩ := turn_cases hturn
  have hnew : p ∉ x :: s.chain := by rwa [h.seen_eq, List.mem_reverse] at hp
  have hlink : parentOf.get? ((x :: s.chain).getLast (List.cons_ne_nil x s.chain)) = some p := by
    rw [← h.next?_eq, hnext]
  exact
    { seen_eq := by simp [h.seen_eq]
      nodup := by
        rw [← List.cons_append]
        exact h.nodup.append (List.nodup_singleton p) (List.disjoint_singleton.2 hnew)
      linked := by
        rw [← List.cons_append]
        refine List.isChain_append.2 ⟨h.linked, .singleton p, fun y hy q hq => ?_⟩
        rw [List.getLast?_eq_some_getLast (List.cons_ne_nil x s.chain)] at hy
        obtain rfl := Option.some.inj hy
        obtain rfl := Option.some.inj hq
        exact hlink
      next?_eq := by simp }

/-- Any number of turns preserve the invariant. -/
theorem turns (h : Invariant parentOf x s) (hturns : Relation.ReflTransGen (Turn parentOf) s s') :
    Invariant parentOf x s' := by
  induction hturns with
  | refl => exact h
  | tail _ hturn ih => exact ih.turn hturn

/-- The chain is not longer than the table: it holds different nodes that are parents in it. -/
theorem length_le (h : Invariant parentOf x s) : s.chain.length ≤ parentOf.size := by
  have hvalues : s.chain ⊆ parentOf.values := by
    intro p hp
    -- What stands before a node of the chain has it as its parent.
    obtain ⟨front, back, hchain⟩ := List.append_of_mem hp
    have hlinked := h.linked
    rw [hchain, ← List.cons_append] at hlinked
    have hlink := (List.isChain_append.1 hlinked).2.2 _
      (List.getLast?_eq_some_getLast (List.cons_ne_nil x front)) p rfl
    exact Table.mem_values_of_get? hlink
  have hsize : parentOf.values.length = parentOf.size := List.length_map _
  rw [← hsize]
  exact (List.subperm_of_subset (List.nodup_cons.1 h.nodup).2 hvalues).length_le

end Invariant

/-! ### The whole walk -/

/-- A walk ends, with the chain prolonged by what is above the node whose parent it looks at. -/
theorem exists_turns_to_end (parentOf : Table α α) (chain seen : List α) (x : α) :
    ∃ s, Relation.ReflTransGen (Turn parentOf) ⟨chain, seen, parentOf.get? x⟩ s ∧
      turn? parentOf s = none ∧ s.chain = chain ++ climb parentOf seen x := by
  fun_induction climb parentOf seen x generalizing chain with
  | case1 seen x hnone =>
    refine ⟨_, .refl, ?_, (List.append_nil chain).symm⟩
    rw [hnone]
    rfl
  | case2 seen x p hp hseen =>
    refine ⟨_, .refl, ?_, (List.append_nil chain).symm⟩
    rw [hp]
    exact if_pos hseen
  | case3 seen x p hp hseen ih =>
    obtain ⟨s, hturns, hend, hchain⟩ := ih (chain ++ [p])
    have hturn : Turn parentOf ⟨chain, seen, parentOf.get? x⟩
        ⟨chain ++ [p], p :: seen, parentOf.get? p⟩ := by
      rw [Turn, hp]
      exact if_neg hseen
    exact ⟨s, hturns.head hturn, hend, by rw [hchain, List.append_assoc, List.singleton_append]⟩

end Ascent

/-- A walk upwards ends. Each turn makes the chain longer by one node, and at the end it has no more
    nodes than the table has links. It is the chain of the ancestors: it holds no node twice and not
    the one that the walk began with, each node of it is the parent of the one before, and its last
    node has no parent or one that the walk has been at. -/
theorem ascent_finds_maximal_chain [DecidableEq α] (parentOf : Table α α) (x : α) :
    ∃ s, Relation.ReflTransGen (Ascent.Turn parentOf) (.start parentOf x) s ∧
      Ascent.turn? parentOf s = none ∧ s.chain = ancestors parentOf x ∧
      s.chain.length ≤ parentOf.size ∧ s.chain.Nodup ∧ x ∉ s.chain ∧
      (x :: s.chain).IsChain (ParentLink parentOf) ∧
      (parentOf.get? ((x :: s.chain).getLast (List.cons_ne_nil x s.chain)) = none ∨
        ∃ p, parentOf.get? ((x :: s.chain).getLast (List.cons_ne_nil x s.chain)) = some p ∧
          (p = x ∨ p ∈ s.chain)) := by
  obtain ⟨s, hturns, hend, hchain⟩ := Ascent.exists_turns_to_end parentOf [] [x] x
  have hinv := (Ascent.Invariant.start parentOf x).turns hturns
  obtain ⟨hx, hnodup⟩ := List.nodup_cons.1 hinv.nodup
  refine ⟨s, hturns, hend, hchain, hinv.length_le, hnodup, hx, hinv.linked, ?_⟩
  rw [← hinv.next?_eq]
  cases hnext : s.next? with
  | none => exact .inl rfl
  | some p =>
    have hseen := Ascent.turn?_eq_none_iff.1 hend p hnext
    rw [hinv.seen_eq, List.mem_reverse, List.mem_cons] at hseen
    exact .inr ⟨p, rfl, hseen⟩

/-- A circle is gone round once, also if it does not lead back to the beginning. -/
example : ancestors (.ofList [("Button", "Control"), ("Control", "Node"), ("Node", "Control")])
    "Button" = ["Control", "Node"] := by
  decide +kernel

end NodeTagging.Hierarchy
