import NodeTagging.Proofs.Gates

/-!
# Classes under two tags

A table of gates is refused if it lists a class under two different tags, wherever the two lists
stand; a class that is repeated under one tag does no harm. The tags are gone through in order and
the classes of each as they are listed, so that of several conflicts the table is refused for the
one that is come upon first.

* `FirstConflict`: the class and the two tags that the problem names, said of the table alone;
* `firstConflict_of_error`, `FirstConflict.unique`: these are named, and there are no others;
* `gates_are_as_listed_unless_conflicting`: which tables have gates, what the gates are, and how
  the other tables are refused.
-/

namespace NodeTagging.Gates

/-- A table lists a class under a tag. -/
def Lists (table : Table String (List String)) (tag c : String) : Prop :=
  ∃ classes, table.get? tag = some classes ∧ c ∈ classes

/-- A table lists a class under two different tags. -/
def Conflicting (table : Table String (List String)) : Prop :=
  ∃ c first second, first ≠ second ∧ Lists table first c ∧ Lists table second c

/-- The first class that is come upon under a second tag, where the tags are gone through in order
    and the classes of each as they are listed. -/
structure FirstConflict (table : Table String (List String)) (c first second : String) : Prop where
  /-- The first tag precedes the second. -/
  precedes : Text.Precedes first second
  /-- The class is listed under the first tag. -/
  listed : Lists table first c
  /-- No class is listed under two of the tags that precede the second. -/
  apart : ∀ c' tag tag', Text.Precedes tag second → Text.Precedes tag' second →
    Lists table tag c' → Lists table tag' c' → tag = tag'
  /-- The class is listed under the second tag, after classes that are under no tag that precedes
      it. -/
  earliest : ∃ earlier later, table.get? second = some (earlier ++ c :: later) ∧
    ∀ c' ∈ earlier, ∀ tag, Text.Precedes tag second → ¬ Lists table tag c'

/-- The gates are those that a table lists. -/
structure AsListed (table : Table String (List String)) (gates : Gates) : Prop where
  /-- The tag of a class is the only one that it is listed under. -/
  gate?_eq_some_iff : ∀ c tag, gates.gate? c = some tag ↔
    Lists table tag c ∧ ∀ tag', Lists table tag' c → tag' = tag
  /-- A class has no tag exactly if it is listed under none. -/
  gate?_eq_none_iff : ∀ c, gates.gate? c = none ↔ ∀ tag, ¬ Lists table tag c
  /-- The gated classes are in order, each once. -/
  increasing : gates.classes.Pairwise Text.Precedes
  /-- They are the classes that have a tag. -/
  mem_classes_iff : ∀ c, c ∈ gates.classes ↔ ∃ tag, gates.gate? c = some tag

variable {table : Table String (List String)} {c first second : String}

/-! ### Where a table is split -/

/-- A list made in pieces is split within one of them. -/
theorem exists_split_of_flatMap_eq {α β : Type} {f : α → List β} {xs : List α} {front back : List β}
    {b : β} (h : xs.flatMap f = front ++ b :: back) :
    ∃ before x after earlier later, xs = before ++ x :: after ∧ f x = earlier ++ b :: later ∧
      front = before.flatMap f ++ earlier := by
  induction xs generalizing front with
  | nil => simp at h
  | cons x xs ih =>
    rw [List.flatMap_cons] at h
    -- The piece of `x` holds the element, or ends before it.
    have hcases : (∃ later, f x = front ++ b :: later) ∨
        ∃ front', front = f x ++ front' ∧ xs.flatMap f = front' ++ b :: back := by
      rcases List.append_eq_append_iff.1 h with ⟨front', hfront, hrest⟩ | ⟨piece, hpiece, hback⟩
      · exact .inr ⟨front', hfront, hrest⟩
      · cases piece with
        | nil => exact .inr ⟨[], by simpa using hpiece.symm, hback.symm⟩
        | cons b' later =>
          obtain ⟨rfl, -⟩ := List.cons.inj hback
          exact .inl ⟨later, hpiece⟩
    rcases hcases with ⟨later, hpiece⟩ | ⟨front', rfl, hrest⟩
    · exact ⟨[], x, xs, front, later, rfl, hpiece, rfl⟩
    · obtain ⟨before, y, after, earlier, later, rfl, hpiece, rfl⟩ := ih hrest
      exact ⟨x :: before, y, after, earlier, later, rfl, hpiece, by simp⟩

/-- Two elements at which a list is split are the same if each is not before the other. -/
theorem eq_of_split_eq {α : Type} {x y : α} {xs ys xs' ys' : List α}
    (h : xs ++ x :: ys = xs' ++ y :: ys') (hx : x ∉ xs') (hy : y ∉ xs) : x = y := by
  rcases List.append_eq_append_iff.1 h with ⟨between, rfl, hrest⟩ | ⟨between, rfl, hrest⟩
  · cases between with
    | nil => exact (List.cons.inj hrest).1
    | cons z between =>
      obtain ⟨rfl, -⟩ := List.cons.inj hrest
      exact absurd (List.mem_append_right xs List.mem_cons_self) hx
  · cases between with
    | nil => exact (List.cons.inj hrest).1.symm
    | cons z between =>
      obtain ⟨rfl, -⟩ := List.cons.inj hrest
      exact absurd (List.mem_append_right xs' List.mem_cons_self) hy

/-- In an ordered list, the names before a given one are those that precede it. -/
theorem mem_before_iff_of_ordered_eq {names before after : List String} {x y : String}
    (h : Text.ordered names = before ++ x :: after) :
    y ∈ before ↔ y ∈ names ∧ Text.Precedes y x := by
  have hordered := Text.pairwise_ordered names
  rw [h] at hordered
  obtain ⟨-, hfrom, hbetween⟩ := List.pairwise_append.1 hordered
  have hafter := (List.pairwise_cons.1 hfrom).1
  have hmem : y ∈ names ↔ y ∈ before ∨ y = x ∨ y ∈ after := by
    rw [← Text.mem_ordered, h, List.mem_append, List.mem_cons]
  rw [hmem]
  constructor
  · exact fun hy => ⟨.inl hy, hbetween y hy x List.mem_cons_self⟩
  · rintro ⟨hy | rfl | hy, hprecedes⟩
    · exact hy
    · exact absurd hprecedes (Text.not_precedes_self y)
    · exact absurd (hprecedes.trans (hafter y hy)) (Text.not_precedes_self y)

/-- What stands before an entry in the listing of a table: the classes under the tags that precede
    its tag, and those before it in the list of its tag. -/
theorem exists_split_of_listing_eq {front back : List (String × String)}
    (h : listing table = front ++ (c, second) :: back) :
    ∃ earlier later, table.get? second = some (earlier ++ c :: later) ∧
      ∀ c' tag, (c', tag) ∈ front ↔
        Text.Precedes tag second ∧ Lists table tag c' ∨ tag = second ∧ c' ∈ earlier := by
  obtain ⟨before, tag₀, after, _, _, hkeys, hpiece, rfl⟩ := exists_split_of_flatMap_eq h
  obtain ⟨earlier, rest, hclasses, rfl, hrest⟩ := List.map_eq_append_iff.1 hpiece
  obtain ⟨c₀, later, rfl, hentry, -⟩ := List.map_eq_cons_iff.1 hrest
  obtain ⟨rfl, rfl⟩ := Prod.mk.inj hentry
  refine ⟨earlier, later, ?_, fun c' tag => ?_⟩
  · cases hget : table.get? tag₀ with
    | none => simp [hget] at hclasses
    | some classes => simpa [hget] using hclasses
  · rw [List.mem_append, List.mem_flatMap]
    refine or_congr ⟨?_, ?_⟩ ?_
    · rintro ⟨tag', htag', hentry⟩
      obtain ⟨c'', hc'', hpair⟩ := List.mem_map.1 hentry
      obtain ⟨rfl, rfl⟩ := Prod.mk.inj hpair
      obtain ⟨hkey, hprecedes⟩ := (mem_before_iff_of_ordered_eq hkeys).1 htag'
      obtain ⟨classes, hget⟩ := Table.mem_keys_iff.1 hkey
      exact ⟨hprecedes, classes, hget, by simpa [hget] using hc''⟩
    · rintro ⟨hprecedes, classes, hget, hc'⟩
      refine ⟨tag, (mem_before_iff_of_ordered_eq hkeys).2
        ⟨Table.mem_keys_iff.2 ⟨classes, hget⟩, hprecedes⟩, ?_⟩
      exact List.mem_map.2 ⟨c', by simpa [hget] using hc', rfl⟩
    · rw [List.mem_map]
      constructor
      · rintro ⟨c'', hc'', hpair⟩
        obtain ⟨rfl, rfl⟩ := Prod.mk.inj hpair
        exact ⟨rfl, hc''⟩
      · rintro ⟨rfl, hc'⟩
        exact ⟨c', hc', rfl⟩

/-! ### The first conflict -/

/-- The problem of a table names the first conflict in it. -/
theorem firstConflict_of_error {problem : Problem} (h : ofTable table = .error problem) :
    ∃ c first second, problem = .gateConflict c first second ∧
      FirstConflict table c first second := by
  obtain ⟨front, ⟨c, second⟩, back, added, hsplit, hfront, hrefused⟩ := exists_split_of_error h
  obtain ⟨first, hfirst, hne, rfl⟩ := add_eq_error_iff.1 hrefused
  obtain ⟨earlier, later, hclasses, hmem⟩ := exists_split_of_listing_eq hsplit
  -- The entries before the refused one have been gone through, so they do not conflict.
  have happart (c' tag tag' : String) (htag : (c', tag) ∈ front) (htag' : (c', tag') ∈ front) :
      tag = tag' :=
    exists_foldlM_add_iff.1 ⟨added, hfront⟩ c' tag tag' (.inr htag) (.inr htag')
  have hfirst : (c, first) ∈ front := by
    rw [get?_of_foldlM_add hfront] at hfirst
    exact hfirst.resolve_left (by simp)
  obtain ⟨hprecedes, hlisted⟩ := ((hmem c first).1 hfirst).resolve_right fun h => hne h.1
  exact ⟨c, first, second, rfl,
    { precedes := hprecedes
      listed := hlisted
      apart := fun c' tag tag' hbefore hbefore' htag htag' =>
        happart c' tag tag' ((hmem c' tag).2 (.inl ⟨hbefore, htag⟩))
          ((hmem c' tag').2 (.inl ⟨hbefore', htag'⟩))
      earliest := by
        refine ⟨earlier, later, hclasses, fun c' hc' tag hbefore htag => ?_⟩
        obtain rfl := happart c' tag second ((hmem c' tag).2 (.inl ⟨hbefore, htag⟩))
          ((hmem c' second).2 (.inr ⟨rfl, hc'⟩))
        exact Text.not_precedes_self tag hbefore }⟩

namespace FirstConflict

theorem conflicting (h : FirstConflict table c first second) : Conflicting table := by
  obtain ⟨earlier, later, hclasses, -⟩ := h.earliest
  refine ⟨c, first, second, ?_, h.listed, earlier ++ c :: later, hclasses, by simp⟩
  rintro rfl
  exact Text.not_precedes_self first h.precedes

variable {c' first' second' : String}

/-- The second tag of a first conflict does not come after that of another one. -/
theorem not_precedes (h : FirstConflict table c first second)
    (h' : FirstConflict table c' first' second') : ¬ Text.Precedes second second' := by
  intro hbefore
  obtain ⟨earlier, later, hclasses, -⟩ := h.earliest
  obtain rfl := h'.apart c first second (h.precedes.trans hbefore) hbefore h.listed
    ⟨_, hclasses, by simp⟩
  exact Text.not_precedes_self first h.precedes

/-- There is no more than one first conflict. -/
theorem unique (h : FirstConflict table c first second)
    (h' : FirstConflict table c' first' second') : c = c' ∧ first = first' ∧ second = second' := by
  obtain rfl : second = second' :=
    ((Text.precedes_trichotomy second second').resolve_left (h.not_precedes h')).resolve_right
      (h'.not_precedes h)
  obtain ⟨earlier, later, hclasses, hearlier⟩ := h.earliest
  obtain ⟨earlier', later', hclasses', hearlier'⟩ := h'.earliest
  -- Neither class stands before the other one in the list of the second tag.
  obtain rfl : c = c' :=
    eq_of_split_eq (Option.some.inj (hclasses.symm.trans hclasses'))
      (fun hc => hearlier' c hc first h.precedes h.listed)
      (fun hc' => hearlier c' hc' first' h'.precedes h'.listed)
  exact ⟨rfl, h.apart c first first' h.precedes h'.precedes h.listed h'.listed, rfl⟩

end FirstConflict

/-! ### Which tables have gates -/

/-- A table has gates exactly if it has no conflict. -/
theorem exists_gates_iff_not_conflicting :
    (∃ gates, ofTable table = .ok gates) ↔ ¬ Conflicting table := by
  rw [exists_ofTable_iff]
  simp only [mem_listing_iff]
  constructor
  · rintro consistent ⟨c, first, second, hne, hfirst, hsecond⟩
    exact hne (consistent c first second hfirst hsecond)
  · exact fun hnot c first second hfirst hsecond => Decidable.byContradiction fun hne =>
      hnot ⟨c, first, second, hne, hfirst, hsecond⟩

/-- A table is refused exactly if it has a conflict. -/
theorem exists_error_iff_conflicting :
    (∃ problem, ofTable table = .error problem) ↔ Conflicting table := by
  constructor
  · rintro ⟨problem, h⟩
    obtain ⟨c, first, second, -, hfirst⟩ := firstConflict_of_error h
    exact hfirst.conflicting
  · intro hconflicting
    cases h : ofTable table with
    | error problem => exact ⟨problem, rfl⟩
    | ok gates => exact absurd hconflicting (exists_gates_iff_not_conflicting.1 ⟨gates, h⟩)

/-- The gates of a table are as listed. -/
theorem asListed_of_ok {gates : Gates} (h : ofTable table = .ok gates) : gates.AsListed table where
  gate?_eq_some_iff c tag := by
    rw [gate?_eq_some_iff_listed h]
    refine ⟨fun htag => ⟨htag, fun tag' htag' => ?_⟩, fun htag => htag.1⟩
    exact exists_ofTable_iff.1 ⟨gates, h⟩ c tag' tag (mem_listing_iff.2 htag')
      (mem_listing_iff.2 htag)
  gate?_eq_none_iff c := by
    rw [Option.eq_none_iff_forall_ne_some]
    exact forall_congr' fun tag => not_congr (gate?_eq_some_iff_listed h)
  increasing := Text.pairwise_ordered _
  mem_classes_iff _ := gates.mem_classes_iff

/-- A table is refused exactly if it lists a class under two different tags. The problem is one of
    the configuration, and names the first such class with its two tags. Any other table has gates,
    and they are as listed: the tag of a class is the only one whose list holds it, a class has none
    exactly if no list does, and the gated classes are those with a tag, strictly increasing. -/
theorem gates_are_as_listed_unless_conflicting (table : Table String (List String)) :
    ((∃ problem, ofTable table = .error problem ∧ problem.diagnostic.kind = .invalidConfig) ↔
        Conflicting table) ∧
      (∀ problem, ofTable table = .error problem ↔ ∃ c first second,
        problem = .gateConflict c first second ∧ FirstConflict table c first second) ∧
      ((∃ gates, ofTable table = .ok gates ∧ gates.AsListed table) ↔ ¬ Conflicting table) := by
  refine ⟨⟨?_, fun hconflicting => ?_⟩, fun problem => ⟨firstConflict_of_error, ?_⟩,
    ?_, fun hnot => ?_⟩
  · rintro ⟨problem, hproblem, -⟩
    exact exists_error_iff_conflicting.1 ⟨problem, hproblem⟩
  · obtain ⟨problem, hproblem⟩ := exists_error_iff_conflicting.2 hconflicting
    obtain ⟨c, first, second, rfl, -⟩ := firstConflict_of_error hproblem
    exact ⟨_, hproblem, rfl⟩
  · rintro ⟨c, first, second, rfl, hfirst⟩
    -- The table is refused for some first conflict, and there is only this one.
    obtain ⟨problem, hproblem⟩ := exists_error_iff_conflicting.2 hfirst.conflicting
    obtain ⟨c', first', second', rfl, hfirst'⟩ := firstConflict_of_error hproblem
    obtain ⟨rfl, rfl, rfl⟩ := hfirst.unique hfirst'
    exact hproblem
  · rintro ⟨gates, hgates, -⟩
    exact exists_gates_iff_not_conflicting.1 ⟨gates, hgates⟩
  · obtain ⟨gates, hgates⟩ := exists_gates_iff_not_conflicting.2 hnot
    exact ⟨gates, hgates, asListed_of_ok hgates⟩

/-- Of two conflicts, the one whose second tag comes first counts. -/
example : ofTable (.ofList [("4-5", ["Timer", "Timer", "Node2D"]), ("4-3", ["Node2D", "Node2D"]),
      ("4-4", ["Skeleton2D", "Node2D", "Timer"])]) =
    .error (.gateConflict "Node2D" "4-3" "4-4") :=
  rfl

end NodeTagging.Gates
