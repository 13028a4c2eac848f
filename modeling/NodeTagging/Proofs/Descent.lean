import NodeTagging.Proofs.Walks

/-!
# The walk downwards, turn by turn

A walk down a hierarchy keeps a stack of pending nodes. Each turn takes off the topmost one. If it
is found already, nothing else happens; otherwise it is found, and those of its children that are
not are put on the stack, the last one on top. The lists of children come from outside: they may
repeat a node or lead back to one, so a node can be pending many times.

* `weight_lt_of_turn?`: every turn makes the walk lighter, where the links out of the nodes that are
  not found and the pending nodes weigh one each. A walk therefore ends;
* `Invariant`: what every turn preserves. Nothing is found but what child links reach, and a child
  of a node that is found is found or pending;
* `descent_finds_closure`: the walk ends after at most one turn more than there are links, with
  exactly the nodes that child links reach from the root, which are those of `descendants`.
-/

namespace NodeTagging.Hierarchy

variable {α : Type}

/-- How far a walk downwards has come. -/
structure Descent (α : Type) where
  /-- The nodes found so far, the last one first. -/
  found : List α
  /-- The stack of the nodes still to be looked at, the topmost first. -/
  pending : List α
deriving DecidableEq, Repr

namespace Descent

/-- The start of a walk: nothing is found, and the root is pending. -/
def start (root : α) : Descent α :=
  ⟨[], [root]⟩

variable [DecidableEq α] (childrenOf : Table α (List α))

/-- The children of a node that are not found. -/
def newChildren (found : List α) (x : α) : List α :=
  ((childrenOf.get? x).getD []).filter fun y => y ∉ found

/-- One turn of the walk; none if no node is pending. -/
def turn? : Descent α → Option (Descent α)
  | ⟨_, []⟩ => none
  | ⟨found, x :: rest⟩ =>
    if x ∈ found then some ⟨found, rest⟩
    else some ⟨x :: found, (newChildren childrenOf (x :: found) x).reverse ++ rest⟩

/-- A number of turns lead from one point of a walk to another. -/
inductive Turns : Nat → Descent α → Descent α → Prop
  /-- No turn. -/
  | none (s : Descent α) : Turns 0 s s
  /-- A turn, and those after it. -/
  | turn {n : Nat} {s s' s'' : Descent α} :
      turn? childrenOf s = some s' → Turns n s' s'' → Turns (n + 1) s s''

/-- What a walk can still take up: the links out of the nodes that are not found, and the pending
    nodes. -/
def weight (s : Descent α) : Nat :=
  unopenedLinks childrenOf s.found + s.pending.length

variable {childrenOf} {s s' : Descent α} {x y : α}

/-! ### One turn -/

/-- What a turn does. -/
theorem turn?_cases (h : turn? childrenOf s = some s') :
    ∃ x rest, s.pending = x :: rest ∧
      (x ∈ s.found ∧ s' = ⟨s.found, rest⟩ ∨
        x ∉ s.found ∧
          s' = ⟨x :: s.found, (newChildren childrenOf (x :: s.found) x).reverse ++ rest⟩) := by
  obtain ⟨found, pending⟩ := s
  cases pending with
  | nil => simp [turn?] at h
  | cons x rest =>
    refine ⟨x, rest, rfl, ?_⟩
    rw [turn?] at h
    split at h
    · next hx => exact .inl ⟨hx, (Option.some.inj h).symm⟩
    · next hx => exact .inr ⟨hx, (Option.some.inj h).symm⟩

/-- A walk goes on as long as a node is pending. -/
theorem turn?_eq_none_iff : turn? childrenOf s = none ↔ s.pending = [] := by
  obtain ⟨found, pending⟩ := s
  cases pending with
  | nil => simp [turn?]
  | cons x rest =>
    rw [turn?]
    split <;> simp

theorem mem_newChildren_iff {found : List α} :
    y ∈ newChildren childrenOf found x ↔ ChildLink childrenOf x y ∧ y ∉ found := by
  simp [newChildren, ChildLink]

/-- Every turn makes the walk lighter. -/
theorem weight_lt_of_turn? (h : turn? childrenOf s = some s') :
    weight childrenOf s' < weight childrenOf s := by
  obtain ⟨x, rest, hpending, ⟨hx, rfl⟩ | ⟨hx, rfl⟩⟩ := turn?_cases h
  · simp [weight, hpending]
  · -- The links of the node that was found pay for the children that are pending now.
    have hlinks := unopenedLinks_cons_add_length_le childrenOf hx
    have hnew : (newChildren childrenOf (x :: s.found) x).length ≤
        ((childrenOf.get? x).getD []).length := List.length_filter_le _ _
    simp only [weight, hpending, List.length_append, List.length_reverse, List.length_cons]
    omega

/-! ### What every turn preserves -/

/-- What holds at every point of a walk from a root. -/
structure Invariant (childrenOf : Table α (List α)) (root : α) (s : Descent α) : Prop where
  /-- No node is found twice. -/
  nodup : s.found.Nodup
  /-- The root is not lost. -/
  root_mem : root ∈ s.found ∨ root ∈ s.pending
  /-- Child links lead to every node at hand. -/
  reached : ∀ x, x ∈ s.found ∨ x ∈ s.pending → Relation.ReflTransGen (ChildLink childrenOf) root x
  /-- Of a node that is found, no child is lost. -/
  closed : ∀ x ∈ s.found, ∀ y, ChildLink childrenOf x y → y ∈ s.found ∨ y ∈ s.pending

namespace Invariant

variable {root : α}

theorem start (childrenOf : Table α (List α)) (root : α) :
    Invariant childrenOf root (.start root) where
  nodup := .nil
  root_mem := .inr (List.mem_singleton_self root)
  reached x hx := by
    obtain rfl : x = root := by simpa [Descent.start] using hx
    exact .refl
  closed x hx := absurd hx List.not_mem_nil

/-- A turn that takes off a node found before changes nothing. -/
theorem dropped {found rest : List α} (h : Invariant childrenOf root ⟨found, x :: rest⟩)
    (hx : x ∈ found) : Invariant childrenOf root ⟨found, rest⟩ := by
  have keep (y : α) (hy : y ∈ found ∨ y ∈ x :: rest) : y ∈ found ∨ y ∈ rest := by
    rcases hy with hy | hy
    · exact .inl hy
    · rcases List.mem_cons.1 hy with rfl | hy
      · exact .inl hx
      · exact .inr hy
  exact
    { nodup := h.nodup
      root_mem := keep root h.root_mem
      reached := fun y hy => h.reached y (hy.imp_right (List.mem_cons_of_mem x))
      closed := fun y hy z hz => keep z (h.closed y hy z hz) }

/-- A turn that finds a node leaves no child of it behind. -/
theorem opened {found rest : List α} (h : Invariant childrenOf root ⟨found, x :: rest⟩)
    (hx : x ∉ found) :
    Invariant childrenOf root
      ⟨x :: found, (newChildren childrenOf (x :: found) x).reverse ++ rest⟩ := by
  have keep (y : α) (hy : y ∈ found ∨ y ∈ x :: rest) :
      y ∈ x :: found ∨ y ∈ (newChildren childrenOf (x :: found) x).reverse ++ rest := by
    rcases hy with hy | hy
    · exact .inl (List.mem_cons_of_mem x hy)
    · rcases List.mem_cons.1 hy with rfl | hy
      · exact .inl List.mem_cons_self
      · exact .inr (List.mem_append_right _ hy)
  refine
    { nodup := List.nodup_cons.2 ⟨hx, h.nodup⟩
      root_mem := keep root h.root_mem
      reached := fun y hy => ?_
      closed := fun y hy z hz => ?_ }
  · have hroot := h.reached x (.inr List.mem_cons_self)
    simp only [List.mem_cons, List.mem_append, List.mem_reverse, mem_newChildren_iff] at hy
    rcases hy with (rfl | hy) | ⟨hlink, -⟩ | hy
    · exact hroot
    · exact h.reached y (.inl hy)
    · exact hroot.tail hlink
    · exact h.reached y (.inr (List.mem_cons_of_mem x hy))
  · rcases List.mem_cons.1 hy with rfl | hy
    · -- The children of the node are on the stack, but for those that are found.
      by_cases hfound : z ∈ y :: found
      · exact .inl hfound
      · exact .inr (List.mem_append_left rest
          (List.mem_reverse.2 (mem_newChildren_iff.2 ⟨hz, hfound⟩)))
    · exact keep z (h.closed y hy z hz)

/-- A turn preserves the invariant. -/
theorem turn? (h : Invariant childrenOf root s) (hturn : turn? childrenOf s = some s') :
    Invariant childrenOf root s' := by
  obtain ⟨x, rest, hpending, hcases⟩ := turn?_cases hturn
  obtain ⟨found, pending⟩ := s
  obtain rfl : pending = x :: rest := hpending
  rcases hcases with ⟨hx, rfl⟩ | ⟨hx, rfl⟩
  · exact h.dropped hx
  · exact h.opened hx

/-- Any number of turns preserve the invariant. -/
theorem turns {n : Nat} (h : Invariant childrenOf root s) (hturns : Turns childrenOf n s s') :
    Invariant childrenOf root s' := by
  induction hturns with
  | none => exact h
  | turn hturn _ ih => exact ih (h.turn? hturn)

/-- At the end of a walk, the nodes found are those that child links reach from the root. -/
theorem mem_found_iff (h : Invariant childrenOf root s) (hend : s.pending = []) :
    x ∈ s.found ↔ Relation.ReflTransGen (ChildLink childrenOf) root x := by
  have hfound (y : α) (hy : y ∈ s.found ∨ y ∈ s.pending) : y ∈ s.found := by
    simpa [hend] using hy
  refine ⟨fun hx => h.reached x (.inl hx), fun hreach => ?_⟩
  induction hreach with
  | refl => exact hfound root h.root_mem
  | tail _ hlink ih => exact hfound _ (h.closed _ ih _ hlink)

end Invariant

/-! ### The whole walk -/

/-- A walk ends, after no more turns than it weighs. -/
theorem exists_turns_to_end (childrenOf : Table α (List α)) (s : Descent α) :
    ∃ n ≤ weight childrenOf s, ∃ s', Turns childrenOf n s s' ∧ s'.pending = [] := by
  induction hw : weight childrenOf s using Nat.strongRecOn generalizing s with
  | ind w ih =>
    cases hturn : turn? childrenOf s with
    | none => exact ⟨0, Nat.zero_le w, s, .none s, turn?_eq_none_iff.1 hturn⟩
    | some s₁ =>
      have hlt : weight childrenOf s₁ < w := hw ▸ weight_lt_of_turn? hturn
      obtain ⟨n, hn, s', hturns, hend⟩ := ih _ hlt s₁ rfl
      exact ⟨n + 1, by omega, s', .turn hturn hturns, hend⟩

theorem weight_start (childrenOf : Table α (List α)) (root : α) :
    weight childrenOf (start root) = childrenOf.values.flatten.length + 1 := by
  have hall : (childrenOf.entries.filter fun e => e.1 ∉ ([] : List α)) = childrenOf.entries :=
    List.filter_eq_self.2 (by simp)
  rw [weight, start, unopenedLinks, hall, List.flatMap_def]
  rfl

end Descent

/-- A walk downwards ends, after at most one turn more than there are links, and then it has found
    exactly the nodes that child links reach from the root, each once. They are the descendants of
    the root. -/
theorem descent_finds_closure [DecidableEq α] (root : α) (childrenOf : Table α (List α)) :
    ∃ turns ≤ childrenOf.values.flatten.length + 1, ∃ s,
      Descent.Turns childrenOf turns (.start root) s ∧ Descent.turn? childrenOf s = none ∧
      s.found.Nodup ∧
      (∀ x, x ∈ s.found ↔ Relation.ReflTransGen (ChildLink childrenOf) root x) ∧
      (descendants root childrenOf).Perm s.found := by
  obtain ⟨turns, hle, s, hturns, hend⟩ :=
    Descent.exists_turns_to_end childrenOf (.start root)
  rw [Descent.weight_start] at hle
  have hinv := (Descent.Invariant.start childrenOf root).turns hturns
  have hmem (x : α) : x ∈ s.found ↔ Relation.ReflTransGen (ChildLink childrenOf) root x :=
    hinv.mem_found_iff hend
  refine ⟨turns, hle, s, hturns, Descent.turn?_eq_none_iff.2 hend, hinv.nodup, hmem, ?_⟩
  refine (List.perm_ext_iff_of_nodup (nodup_descendants root childrenOf) hinv.nodup).2 fun x => ?_
  rw [hmem, mem_descendants_iff]

end NodeTagging.Hierarchy
