import Mathlib.Logic.Relation
import NodeTagging.Hierarchy

/-!
# What the walks find

The two walks along a hierarchy, against the links themselves.

* `mem_descendants_iff`: the walk downwards finds exactly the nodes that child links reach from the
  root, whatever the lists hold: repetitions, missing nodes, cycles.
* `mem_lineage_iff_reached`: the walk upwards finds exactly the nodes that parent links reach, even
  where it stops for a node that would be repeated.
* A node is *grounded* if the chain of parents above it ends at a node without a parent. Of a
  grounded node the walk upwards returns the whole chain (`ChainAbove.ancestors_eq`), so that
  lineages are ordered like a tree: the lineage of a node of a lineage is its end
  (`Grounded.lineage_suffix`), two nodes of one lineage are comparable (`Grounded.comparable`), and
  ancestors are strictly less deep (`Grounded.length_ancestors_lt`).
-/

namespace NodeTagging.Hierarchy

variable {α : Type} [DecidableEq α]

/-! ### Downwards -/

section Down

variable (childrenOf : Table α (List α))

/-- The node `y` is listed as a child of `x`. -/
def ChildLink (x y : α) : Prop :=
  y ∈ (childrenOf.get? x).getD []

variable {childrenOf}

/-- What holds of the nodes at hand and passes on to children holds of all nodes found. -/
theorem forall_mem_walkDown {P : α → Prop} (pass : ∀ x y, P x → ChildLink childrenOf x y → P y)
    {found pending : List α} (hf : ∀ x ∈ found, P x) (hp : ∀ x ∈ pending, P x) :
    ∀ x ∈ walkDown childrenOf found pending, P x := by
  fun_induction walkDown childrenOf found pending with
  | case1 => exact hf
  | case2 found x rest _ ih => exact ih hf fun y hy => hp y (List.mem_cons_of_mem x hy)
  | case3 found x rest _ ih =>
    have hx : P x := hp x List.mem_cons_self
    refine ih (fun y hy => ?_) fun y hy => ?_
    · rcases List.mem_cons.1 hy with rfl | hy
      · exact hx
      · exact hf y hy
    · rcases List.mem_append.1 hy with hy | hy
      · exact pass x y hx hy
      · exact hp y (List.mem_cons_of_mem x hy)

theorem mem_walkDown {found pending : List α} {x : α} (h : x ∈ found ∨ x ∈ pending) :
    x ∈ walkDown childrenOf found pending := by
  -- No step loses a node, and at the end none is pending.
  fun_induction walkDown childrenOf found pending with
  | case1 => simpa using h
  | case2 found y rest hy ih =>
    refine ih ?_
    rcases h with h | h
    · exact .inl h
    · rcases List.mem_cons.1 h with rfl | h
      · exact .inl hy
      · exact .inr h
  | case3 found y rest _ ih =>
    refine ih ?_
    rcases h with h | h
    · exact .inl (List.mem_cons_of_mem y h)
    · rcases List.mem_cons.1 h with rfl | h
      · exact .inl List.mem_cons_self
      · exact .inr (List.mem_append_right _ h)

/-- If the children of each node found so far are found or pending, the walk ends with a list that
    no child link leads out of. -/
theorem walkDown_closed {found pending : List α}
    (h : ∀ x ∈ found, ∀ y, ChildLink childrenOf x y → y ∈ found ∨ y ∈ pending) {x y : α}
    (hx : x ∈ walkDown childrenOf found pending) (hxy : ChildLink childrenOf x y) :
    y ∈ walkDown childrenOf found pending := by
  fun_induction walkDown childrenOf found pending with
  | case1 found => simpa using h x hx y hxy
  | case2 found z rest hz ih =>
    refine ih (fun u hu v huv => ?_) hx
    rcases h u hu v huv with hv | hv
    · exact .inl hv
    · rcases List.mem_cons.1 hv with rfl | hv
      · exact .inl hz
      · exact .inr hv
  | case3 found z rest _ ih =>
    refine ih (fun u hu v huv => ?_) hx
    -- The children of the node just opened are now pending.
    rcases List.mem_cons.1 hu with rfl | hu
    · exact .inr (List.mem_append_left _ huv)
    · rcases h u hu v huv with hv | hv
      · exact .inl (List.mem_cons_of_mem z hv)
      · rcases List.mem_cons.1 hv with rfl | hv
        · exact .inl List.mem_cons_self
        · exact .inr (List.mem_append_right _ hv)

/-- The walk downwards finds exactly the nodes that child links reach from the root. -/
theorem mem_descendants_iff {root x : α} :
    x ∈ descendants root childrenOf ↔ Relation.ReflTransGen (ChildLink childrenOf) root x := by
  constructor
  · refine forall_mem_walkDown (fun x y hx hxy => hx.tail hxy) (by simp) (fun y hy => ?_) x
    rw [List.mem_singleton.1 hy]
  · intro h
    induction h with
    | refl => exact mem_walkDown (.inr (List.mem_singleton_self root))
    | tail _ hxy ih => exact walkDown_closed (by simp) ih hxy

end Down

/-! ### Upwards -/

section Up

section Reached

variable (parentOf : Table α α)

/-- The node `p` is the parent of `x`. -/
def ParentLink (x p : α) : Prop :=
  parentOf.get? x = some p

variable {parentOf}

/-- What passes on to parents holds of all nodes above one of which it holds. -/
theorem forall_mem_climb {P : α → Prop} (pass : ∀ x p, P x → ParentLink parentOf x p → P p)
    {seen : List α} {x : α} (hx : P x) : ∀ y ∈ climb parentOf seen x, P y := by
  fun_induction climb parentOf seen x with
  | case1 => simp
  | case2 => simp
  | case3 seen x p hp _ ih => exact List.forall_mem_cons.2 ⟨pass x p hx hp, ih (pass x p hx hp)⟩

/-- If the parent of each node seen so far is seen too, but for the node at hand, the walk ends with
    nodes that no parent link leads out of. -/
theorem climb_closed {seen : List α} {x y p : α} (hx : x ∈ seen)
    (h : ∀ u ∈ seen, u ≠ x → ∀ v, ParentLink parentOf u v → v ∈ seen)
    (hy : y ∈ seen ∨ y ∈ climb parentOf seen x) (hyp : ParentLink parentOf y p) :
    p ∈ seen ∨ p ∈ climb parentOf seen x := by
  fun_induction climb parentOf seen x with
  | case1 seen x hnone =>
    have hyseen : y ∈ seen := by simpa using hy
    have hne : y ≠ x := by
      rintro rfl
      exact absurd (hnone.symm.trans hyp) (by simp)
    exact .inl (h y hyseen hne p hyp)
  | case2 seen x q hq hqseen =>
    have hyseen : y ∈ seen := by simpa using hy
    by_cases hyx : y = x
    · subst hyx
      obtain rfl : q = p := Option.some.inj (hq.symm.trans hyp)
      exact .inl hqseen
    · exact .inl (h y hyseen hyx p hyp)
  | case3 seen x q hq _ ih =>
    -- The node at hand has a parent that is now seen, and of which nothing is required.
    have hclosed : ∀ u ∈ q :: seen, u ≠ q → ∀ v, ParentLink parentOf u v → v ∈ q :: seen := by
      intro u hu huq v huv
      have huseen : u ∈ seen := (List.mem_cons.1 hu).resolve_left huq
      by_cases hux : u = x
      · subst hux
        obtain rfl : q = v := Option.some.inj (hq.symm.trans huv)
        exact List.mem_cons_self
      · exact List.mem_cons_of_mem q (h u huseen hux v huv)
    have hstep := ih List.mem_cons_self hclosed
    simp only [List.mem_cons] at hstep hy ⊢
    grind

/-- The walk upwards finds exactly the nodes that parent links reach. -/
theorem mem_lineage_iff_reached {x y : α} :
    y ∈ lineage parentOf x ↔ Relation.ReflTransGen (ParentLink parentOf) x y := by
  rw [lineage, ancestors, List.mem_cons]
  constructor
  · rintro (rfl | hy)
    · exact .refl
    · exact forall_mem_climb (fun u v hu huv => hu.tail huv) .refl y hy
  · intro h
    induction h with
    | refl => exact .inl rfl
    | tail _ huv ih =>
      have hfound := climb_closed (List.mem_singleton_self x) (by simp)
        (ih.imp_left List.mem_singleton.2) huv
      exact hfound.imp_left List.mem_singleton.1

end Reached

/-- The chain of parents above a node, up to a node without a parent. -/
inductive ChainAbove (parentOf : Table α α) : α → List α → Prop
  | top {x : α} : parentOf.get? x = none → ChainAbove parentOf x []
  | step {x p : α} {chain : List α} :
      parentOf.get? x = some p → ChainAbove parentOf p chain → ChainAbove parentOf x (p :: chain)

variable {parentOf : Table α α}

namespace ChainAbove

theorem unique {x : α} {chain chain' : List α} (h : ChainAbove parentOf x chain)
    (h' : ChainAbove parentOf x chain') : chain = chain' := by
  induction h generalizing chain' with
  | top hx =>
    cases h' with
    | top => rfl
    | step hx' _ => simp [hx] at hx'
  | step hx _ ih =>
    cases h' with
    | top hx' => simp [hx] at hx'
    | step hx' hp' =>
      obtain rfl : _ = _ := Option.some.inj (hx.symm.trans hx')
      rw [ih hp']

/-- What follows a node in a lineage is the chain above it. -/
theorem of_append {x y : α} {chain above : List α} (h : ChainAbove parentOf x chain)
    (front : List α) (hsplit : x :: chain = front ++ y :: above) :
    ChainAbove parentOf y above := by
  induction h generalizing front with
  | @top x hx =>
    cases front with
    | nil =>
      obtain ⟨rfl, rfl⟩ := List.cons.inj hsplit
      exact .top hx
    | cons z front => simp at hsplit
  | @step x p chain hx hp ih =>
    cases front with
    | nil =>
      obtain ⟨rfl, rfl⟩ := List.cons.inj hsplit
      exact .step hx hp
    | cons z front => exact ih front (List.cons.inj hsplit).2

/-- The chain above a node of the chain is what follows it there. -/
theorem of_mem {x y : α} {chain : List α} (h : ChainAbove parentOf x chain) (hy : y ∈ chain) :
    ∃ above, ChainAbove parentOf y above ∧ y :: above <:+ chain := by
  obtain ⟨front, above, rfl⟩ := List.append_of_mem hy
  exact ⟨above, h.of_append (x :: front) rfl, List.suffix_append front _⟩

/-- A lineage ends with a node without a parent. -/
theorem exists_top {x : α} {chain : List α} (h : ChainAbove parentOf x chain) :
    ∃ below top, x :: chain = below ++ [top] ∧ parentOf.get? top = none := by
  induction h with
  | @top x hx => exact ⟨[], x, rfl, hx⟩
  | @step x p chain hx _ ih =>
    obtain ⟨below, top, hchain, htop⟩ := ih
    exact ⟨x :: below, top, congrArg (x :: ·) hchain, htop⟩

/-- No node is above itself: the chain would be longer than itself. -/
theorem not_mem_self {x : α} {chain : List α} (h : ChainAbove parentOf x chain) : x ∉ chain := by
  intro hx
  obtain ⟨above, habove, hsuffix⟩ := h.of_mem hx
  have hlength := hsuffix.length_le
  rw [h.unique habove, List.length_cons] at hlength
  omega

theorem nodup {x : α} {chain : List α} (h : ChainAbove parentOf x chain) : chain.Nodup := by
  induction h with
  | top => exact .nil
  | step _ hp ih => exact List.nodup_cons.2 ⟨hp.not_mem_self, ih⟩

theorem climb_eq {x : α} {chain seen : List α} (h : ChainAbove parentOf x chain)
    (hseen : ∀ y ∈ chain, y ∉ seen) : climb parentOf seen x = chain := by
  induction h generalizing seen with
  | top hx =>
    unfold climb
    split
    · rfl
    · next hp => simp [hx] at hp
  | @step x p chain hx hp ih =>
    unfold climb
    split
    · next hnone => simp [hx] at hnone
    · next q hq =>
      obtain rfl : p = q := Option.some.inj (hx.symm.trans hq)
      rw [dif_neg (hseen p List.mem_cons_self), ih]
      -- What is seen now is the next node too, which the rest of the chain does not come back to.
      intro y hy hmem
      rcases List.mem_cons.1 hmem with rfl | hmem
      · exact hp.not_mem_self hy
      · exact hseen y (List.mem_cons_of_mem p hy) hmem

/-- A chain that ends is what the walk upwards returns. -/
theorem ancestors_eq {x : α} {chain : List α} (h : ChainAbove parentOf x chain) :
    ancestors parentOf x = chain :=
  h.climb_eq fun y hy => by
    rw [List.mem_singleton]
    rintro rfl
    exact h.not_mem_self hy

/-- In a lineage, every node is above all those before it. -/
theorem pairwise {x : α} {chain : List α} (h : ChainAbove parentOf x chain) :
    (x :: chain).Pairwise fun a b => b ∈ ancestors parentOf a := by
  induction h with
  | top => exact List.pairwise_singleton _ _
  | step hx hp ih =>
    refine List.pairwise_cons.2 ⟨fun b hb => ?_, ih⟩
    rwa [(step hx hp).ancestors_eq]

end ChainAbove

/-- The chain of parents above a node ends at a node without a parent. -/
def Grounded (parentOf : Table α α) (x : α) : Prop :=
  ChainAbove parentOf x (ancestors parentOf x)

theorem ChainAbove.grounded {x : α} {chain : List α} (h : ChainAbove parentOf x chain) :
    Grounded parentOf x := by
  rw [Grounded, h.ancestors_eq]
  exact h

theorem grounded_of_root {x : α} (h : parentOf.get? x = none) : Grounded parentOf x :=
  (ChainAbove.top h).grounded

theorem grounded_of_parent {x p : α} (h : parentOf.get? x = some p) (hp : Grounded parentOf p) :
    Grounded parentOf x :=
  (ChainAbove.step h hp).grounded

/-- Above a node come its parent and what is above that. -/
theorem ancestors_eq_cons {x p : α} (h : parentOf.get? x = some p) (hp : Grounded parentOf p) :
    ancestors parentOf x = p :: ancestors parentOf p :=
  (ChainAbove.step h hp).ancestors_eq

theorem mem_lineage_self (parentOf : Table α α) (x : α) : x ∈ lineage parentOf x :=
  List.mem_cons_self

theorem mem_lineage_iff {x y : α} : y ∈ lineage parentOf x ↔ y = x ∨ y ∈ ancestors parentOf x :=
  List.mem_cons

namespace Grounded

variable {x y z : α}

/-- The lineage of an ancestor is the end of the chain that begins with it. -/
theorem suffix_ancestors (h : Grounded parentOf x) (hy : y ∈ ancestors parentOf x) :
    lineage parentOf y <:+ ancestors parentOf x := by
  obtain ⟨above, habove, hsuffix⟩ := h.of_mem hy
  rwa [lineage, habove.ancestors_eq]

/-- The lineage of a node of a lineage is its end. -/
theorem lineage_suffix (h : Grounded parentOf x) (hy : y ∈ lineage parentOf x) :
    lineage parentOf y <:+ lineage parentOf x := by
  rcases mem_lineage_iff.1 hy with rfl | hy
  · exact List.suffix_refl _
  · exact (h.suffix_ancestors hy).trans (List.suffix_cons x _)

theorem of_mem_lineage (h : Grounded parentOf x) (hy : y ∈ lineage parentOf x) :
    Grounded parentOf y := by
  rcases mem_lineage_iff.1 hy with rfl | hy
  · exact h
  · obtain ⟨above, habove, _⟩ := h.of_mem hy
    exact habove.grounded

theorem lineage_trans (h : Grounded parentOf x) (hy : y ∈ lineage parentOf x)
    (hz : z ∈ lineage parentOf y) : z ∈ lineage parentOf x :=
  (h.lineage_suffix hy).subset hz

theorem length_ancestors_lt (h : Grounded parentOf x) (hy : y ∈ ancestors parentOf x) :
    (ancestors parentOf y).length < (ancestors parentOf x).length := by
  have hlength := (h.suffix_ancestors hy).length_le
  rwa [lineage, List.length_cons] at hlength

/-- Of two nodes of a lineage, one is in the lineage of the other. -/
theorem comparable (h : Grounded parentOf x) (hy : y ∈ lineage parentOf x)
    (hz : z ∈ lineage parentOf x) : y ∈ lineage parentOf z ∨ z ∈ lineage parentOf y := by
  rcases List.suffix_or_suffix_of_suffix (h.lineage_suffix hy) (h.lineage_suffix hz) with hs | hs
  · exact .inl (hs.subset (mem_lineage_self parentOf y))
  · exact .inr (hs.subset (mem_lineage_self parentOf z))

theorem nodup_lineage (h : Grounded parentOf x) : (lineage parentOf x).Nodup :=
  List.nodup_cons.2 ⟨h.not_mem_self, h.nodup⟩

/-- What has a property in a lineage is in the lineage of the nearest node that has it. -/
theorem mem_lineage_of_find? {P : α → Bool} (h : Grounded parentOf x)
    (hy : (lineage parentOf x).find? P = some y) (hz : z ∈ lineage parentOf x) (hP : P z) :
    z ∈ lineage parentOf y := by
  rcases h.comparable hz (List.mem_of_find?_eq_some hy) with hzy | hyz
  · exact hzy
  · -- In front of the lineage of `z`, which `y` is in, nothing has the property.
    obtain ⟨front, hfront⟩ := h.lineage_suffix hz
    have hnodup := h.nodup_lineage
    rw [← hfront] at hy hnodup
    rw [List.find?_append] at hy
    cases hfirst : front.find? P with
    | none =>
      rw [hfirst, lineage, List.find?_cons_of_pos hP] at hy
      obtain rfl := Option.some.inj hy
      exact mem_lineage_self parentOf z
    | some w =>
      rw [hfirst] at hy
      obtain rfl := Option.some.inj hy
      have hw : w ∈ front := List.mem_of_find?_eq_some hfirst
      exact absurd rfl ((List.nodup_append.1 hnodup).2.2 w hw w hyz)

theorem lineage_antisymm (h : Grounded parentOf x) (hy : y ∈ lineage parentOf x)
    (hx : x ∈ lineage parentOf y) : x = y := by
  rcases mem_lineage_iff.1 hy with rfl | hy'
  · rfl
  · rcases mem_lineage_iff.1 hx with rfl | hx'
    · rfl
    · -- Each of the two would have the longer chain above it.
      have hlt := h.length_ancestors_lt hy'
      have hgt := (h.of_mem_lineage hy).length_ancestors_lt hx'
      omega

end Grounded

end Up

end NodeTagging.Hierarchy
