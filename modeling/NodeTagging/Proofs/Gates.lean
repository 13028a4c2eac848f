import NodeTagging.Proofs.Sorted
import NodeTagging.Taxonomy.Gate

/-!
# What a table of gates says

The gates of a table are worked out class by class, and a class listed under two tags breaks the
work off. If it comes to its end, a class has exactly the gates that it is listed under
(`gate?_eq_some_iff_listed`), and it does unless a class is listed under two tags
(`exists_ofTable_iff`). If it does not, the first entry that is refused is the reason
(`exists_split_of_error`). A table that lists only some of the classes of another one has the gates
of those (`exists_ofTable_of_listed`), in whatever order it lists them.
-/

namespace NodeTagging.Gates

/-- One more class under a gate adds that gate and changes no other. -/
theorem get?_of_add {tagOf added : Table String String} {entry : String × String}
    (h : add tagOf entry = .ok added) {c tag : String} :
    added.get? c = some tag ↔ tagOf.get? c = some tag ∨ entry = (c, tag) := by
  obtain ⟨c', tag'⟩ := entry
  -- A class that has a gate already has it under the same tag, or there is no result.
  have hadded : added = tagOf.insert c' tag' ∧ ∀ old, tagOf.get? c' = some old → old = tag' := by
    unfold add at h
    split at h
    · next old hold =>
      split at h
      · next htag => exact ⟨(Except.ok.inj h).symm, fun old' hold' => by simp_all⟩
      · simp at h
    · next hnone => exact ⟨(Except.ok.inj h).symm, fun old hold => by simp_all⟩
  obtain ⟨rfl, hsame⟩ := hadded
  rw [Table.get?_insert]
  by_cases hc : c = c'
  · subst hc
    rw [if_pos rfl, Option.some.injEq, Prod.mk.injEq]
    exact ⟨fun htag => .inr ⟨rfl, htag⟩, fun h => h.elim (fun hold => (hsame tag hold).symm) (·.2)⟩
  · rw [if_neg hc, Prod.mk.injEq]
    exact ⟨.inl, fun h => h.resolve_right fun hentry => hc hentry.1.symm⟩

theorem get?_of_foldlM_add {entries : List (String × String)} {tagOf added : Table String String}
    (h : entries.foldlM add tagOf = .ok added) {c tag : String} :
    added.get? c = some tag ↔ tagOf.get? c = some tag ∨ (c, tag) ∈ entries := by
  induction entries generalizing tagOf with
  | nil =>
    obtain rfl := Except.ok.inj h
    simp
  | cons entry entries ih =>
    rw [List.foldlM_cons] at h
    cases hadd : add tagOf entry with
    | error problem => simp [hadd, bind, Except.bind] at h
    | ok next =>
      rw [hadd] at h
      rw [ih h, get?_of_add hadd, List.mem_cons, or_assoc, eq_comm (a := entry)]

theorem mem_listing_iff {table : Table String (List String)} {c tag : String} :
    (c, tag) ∈ listing table ↔ ∃ classes, table.get? tag = some classes ∧ c ∈ classes := by
  simp only [listing, List.mem_flatMap, Text.mem_ordered, Table.mem_keys_iff, List.mem_map,
    Prod.mk.injEq]
  constructor
  · rintro ⟨tag', ⟨classes, hclasses⟩, c', hc', rfl, rfl⟩
    exact ⟨classes, hclasses, by simpa [hclasses] using hc'⟩
  · rintro ⟨classes, hclasses, hc⟩
    exact ⟨tag, ⟨classes, hclasses⟩, c, by simpa [hclasses] using hc, rfl, rfl⟩

/-- A class has exactly the gates that it is listed under. -/
theorem gate?_eq_some_iff_listed {table : Table String (List String)} {gates : Gates}
    (h : ofTable table = .ok gates) {c tag : String} :
    gates.gate? c = some tag ↔ ∃ classes, table.get? tag = some classes ∧ c ∈ classes := by
  unfold ofTable at h
  cases hfold : (listing table).foldlM add .empty with
  | error problem => simp [hfold, Except.map] at h
  | ok tagOf =>
    rw [hfold] at h
    obtain rfl := Except.ok.inj h
    rw [gate?, get?_of_foldlM_add hfold, mem_listing_iff]
    simp

/-- A class that is under no tag of the table has no gate. -/
theorem gate?_eq_none_of_not_listed {table : Table String (List String)} {gates : Gates}
    (h : ofTable table = .ok gates) {c : String} (hc : c ∉ table.values.flatten) :
    gates.gate? c = none := by
  refine Option.eq_none_iff_forall_ne_some.2 fun tag htag => hc ?_
  obtain ⟨classes, hclasses, hmem⟩ := (gate?_eq_some_iff_listed h).1 htag
  exact List.mem_flatten.2 ⟨classes, Table.mem_values_of_get? hclasses, hmem⟩

/-- The gated classes are those that the table lists. -/
theorem classes_eq {table : Table String (List String)} {gates : Gates}
    (h : ofTable table = .ok gates) : gates.classes = Text.ordered table.values.flatten := by
  refine List.Pairwise.eq_of_mem_iff (Text.pairwise_ordered _) (Text.pairwise_ordered _)
    fun c => ?_
  simp only [mem_classes_iff, gate?_eq_some_iff_listed h, Text.mem_ordered, List.mem_flatten,
    Table.mem_values_iff]
  constructor
  · rintro ⟨tag, classes, hclasses, hc⟩
    exact ⟨classes, ⟨tag, hclasses⟩, hc⟩
  · rintro ⟨classes, ⟨tag, hclasses⟩, hc⟩
    exact ⟨tag, classes, hclasses, hc⟩

/-! ### Conflicts -/

theorem exists_add_iff {tagOf : Table String String} {c tag : String} :
    (∃ added, add tagOf (c, tag) = .ok added) ↔ ∀ old, tagOf.get? c = some old → old = tag := by
  cases hold : tagOf.get? c with
  | none => simp [add, hold]
  | some old => by_cases htag : old = tag <;> simp [add, hold, htag]

/-- The work comes to an end exactly if no class is given two tags, by the entries or by the gates
    that were there before. -/
theorem exists_foldlM_add_iff {entries : List (String × String)} {tagOf : Table String String} :
    (∃ added, entries.foldlM add tagOf = .ok added) ↔
      ∀ c tag tag', (tagOf.get? c = some tag ∨ (c, tag) ∈ entries) →
        (tagOf.get? c = some tag' ∨ (c, tag') ∈ entries) → tag = tag' := by
  constructor
  · rintro ⟨added, hadded⟩ c tag tag' htag htag'
    rw [← get?_of_foldlM_add hadded] at htag htag'
    exact Option.some.inj (htag.symm.trans htag')
  · intro consistent
    induction entries generalizing tagOf with
    | nil => exact ⟨tagOf, rfl⟩
    | cons entry entries ih =>
      obtain ⟨c, tag⟩ := entry
      obtain ⟨next, hnext⟩ := exists_add_iff.2 fun old hold =>
        consistent c old tag (.inl hold) (.inr List.mem_cons_self)
      -- The gates after the first entry and the other entries say no more than what was there.
      have hsame (c' tag' : String) : next.get? c' = some tag' ∨ (c', tag') ∈ entries ↔
          tagOf.get? c' = some tag' ∨ (c', tag') ∈ (c, tag) :: entries := by
        rw [get?_of_add hnext, List.mem_cons, or_assoc, eq_comm (a := (c, tag))]
      rw [List.foldlM_cons, hnext]
      exact ih fun c' tag₁ tag₂ h₁ h₂ =>
        consistent c' tag₁ tag₂ ((hsame c' tag₁).1 h₁) ((hsame c' tag₂).1 h₂)

/-- A table has gates exactly if it lists no class under two tags. -/
theorem exists_ofTable_iff {table : Table String (List String)} :
    (∃ gates, ofTable table = .ok gates) ↔
      ∀ c tag tag', (c, tag) ∈ listing table → (c, tag') ∈ listing table → tag = tag' := by
  have hfold : (∃ gates, ofTable table = .ok gates) ↔
      ∃ added, (listing table).foldlM add .empty = .ok added := by
    unfold ofTable
    cases (listing table).foldlM add .empty <;> simp [Except.map]
  rw [hfold, exists_foldlM_add_iff]
  simp

/-- An entry is refused exactly if its class is under another tag already, and the problem names
    both. -/
theorem add_eq_error_iff {tagOf : Table String String} {c tag : String} {problem : Problem} :
    add tagOf (c, tag) = .error problem ↔
      ∃ old, tagOf.get? c = some old ∧ old ≠ tag ∧ problem = .gateConflict c old tag := by
  cases hold : tagOf.get? c with
  | none => simp [add, hold]
  | some old =>
    by_cases htag : old = tag
    · simp [add, hold, htag]
    · simp [add, hold, htag, eq_comm (a := problem)]

/-- The work is broken off at the first entry that is refused. -/
theorem exists_split_of_foldlM_add_error {entries : List (String × String)}
    {tagOf : Table String String} {problem : Problem}
    (h : entries.foldlM add tagOf = .error problem) :
    ∃ before entry after added, entries = before ++ entry :: after ∧
      before.foldlM add tagOf = .ok added ∧ add added entry = .error problem := by
  induction entries generalizing tagOf with
  | nil => cases h
  | cons entry entries ih =>
    rw [List.foldlM_cons] at h
    cases hadd : add tagOf entry with
    | error problem' =>
      rw [hadd] at h
      obtain rfl := Except.error.inj h
      exact ⟨[], entry, entries, tagOf, rfl, rfl, hadd⟩
    | ok next =>
      rw [hadd] at h
      obtain ⟨before, entry', after, added, rfl, hbefore, hentry'⟩ := ih h
      refine ⟨entry :: before, entry', after, added, rfl, ?_, hentry'⟩
      rw [List.foldlM_cons, hadd]
      exact hbefore

/-- A table has no gates because an entry of it was refused. -/
theorem exists_split_of_error {table : Table String (List String)} {problem : Problem}
    (h : ofTable table = .error problem) :
    ∃ before entry after added, listing table = before ++ entry :: after ∧
      before.foldlM add .empty = .ok added ∧ add added entry = .error problem := by
  unfold ofTable at h
  cases hlisting : (listing table).foldlM add .empty with
  | error problem' =>
    rw [hlisting] at h
    obtain rfl := Except.error.inj h
    exact exists_split_of_foldlM_add_error hlisting
  | ok tagOf =>
    rw [hlisting] at h
    cases h

/-- The only reason why a table has no gates is a class under two tags. -/
theorem exists_conflict_of_error {table : Table String (List String)} {problem : Problem}
    (h : ofTable table = .error problem) :
    ∃ c first second, problem = .gateConflict c first second := by
  obtain ⟨-, ⟨c, second⟩, -, added, -, -, hrefused⟩ := exists_split_of_error h
  obtain ⟨first, -, -, rfl⟩ := add_eq_error_iff.1 hrefused
  exact ⟨c, first, second, rfl⟩

theorem gate?_eq_some_iff_mem_listing {table : Table String (List String)} {gates : Gates}
    (h : ofTable table = .ok gates) {c tag : String} :
    gates.gate? c = some tag ↔ (c, tag) ∈ listing table :=
  (gate?_eq_some_iff_listed h).trans mem_listing_iff.symm

/-- A table that lists those classes of another one that have a property, each under the same tag,
    has gates, which are those of the other table for the classes with the property. -/
theorem exists_ofTable_of_listed {table table' : Table String (List String)} {gates : Gates}
    (h : ofTable table = .ok gates) {P : String → Prop} [DecidablePred P]
    (listed : ∀ c tag, (c, tag) ∈ listing table' ↔ (c, tag) ∈ listing table ∧ P c) :
    ∃ gates', ofTable table' = .ok gates' ∧
      ∀ c, gates'.gate? c = if P c then gates.gate? c else none := by
  have consistent := exists_ofTable_iff.1 ⟨gates, h⟩
  obtain ⟨gates', h'⟩ := exists_ofTable_iff.2 fun c tag tag' htag htag' =>
    consistent c tag tag' ((listed c tag).1 htag).1 ((listed c tag').1 htag').1
  refine ⟨gates', h', fun c => Option.ext fun tag => ?_⟩
  rw [gate?_eq_some_iff_mem_listing h', listed, ← gate?_eq_some_iff_mem_listing h]
  by_cases hP : P c <;> simp [hP]

end NodeTagging.Gates
