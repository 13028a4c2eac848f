import NodeTagging.Sorting

/-!
# The order of names

Names are compared by their UTF-16 code units: a character beyond the basic plane counts as its
two surrogates, so that `U+1F600` comes before `U+E000`. A list of names that is called *ordered* is
sorted by this order and has no name twice.

* `codeUnits_injective`: no two texts have the same code units, so the order is a total one;
* `mem_ordered`, `nodup_ordered`: an ordered list holds the given names, each once.
-/

namespace NodeTagging.Text

/-! ### Code units -/

/-- The UTF-16 code units of a character: itself, or a high and a low surrogate. -/
def unitsOf (c : Char) : List Nat :=
  if c.toNat < 0x10000 then [c.toNat]
  else [0xD800 + (c.toNat - 0x10000) / 0x400, 0xDC00 + (c.toNat - 0x10000) % 0x400]

/-- The UTF-16 code units of a text. -/
def codeUnits (s : String) : List Nat :=
  s.toList.flatMap unitsOf

theorem not_surrogate (c : Char) : c.toNat < 0xD800 ∨ 0xDFFF < c.toNat ∧ c.toNat < 0x110000 :=
  c.valid

theorem unitsOf_append_inj {c d : Char} {xs ys : List Nat}
    (h : unitsOf c ++ xs = unitsOf d ++ ys) : c = d ∧ xs = ys := by
  have hc := not_surrogate c
  have hd := not_surrogate d
  have key : c.toNat = d.toNat ∧ xs = ys := by
    unfold unitsOf at h
    -- No character has the code of a surrogate, so the first unit tells how many there are.
    split at h <;> split at h <;>
      simp only [List.cons_append, List.nil_append, List.cons.injEq] at h
    · exact h
    · omega
    · omega
    · exact ⟨by omega, h.2.2⟩
  exact ⟨Char.toNat_inj.1 key.1, key.2⟩

theorem unitsOf_ne_nil (c : Char) : unitsOf c ≠ [] := by
  unfold unitsOf
  split <;> simp

theorem flatMap_unitsOf_inj {cs ds : List Char} (h : cs.flatMap unitsOf = ds.flatMap unitsOf) :
    cs = ds := by
  induction cs generalizing ds with
  | nil =>
    cases ds with
    | nil => rfl
    | cons d ds =>
      simp only [List.flatMap_nil, List.flatMap_cons] at h
      exact absurd (List.append_eq_nil_iff.1 h.symm).1 (unitsOf_ne_nil d)
  | cons c cs ih =>
    cases ds with
    | nil =>
      simp only [List.flatMap_nil, List.flatMap_cons] at h
      exact absurd (List.append_eq_nil_iff.1 h).1 (unitsOf_ne_nil c)
    | cons d ds =>
      simp only [List.flatMap_cons] at h
      obtain ⟨hcd, hrest⟩ := unitsOf_append_inj h
      rw [hcd, ih hrest]

/-- No two texts have the same code units. -/
theorem codeUnits_injective {a b : String} (h : codeUnits a = codeUnits b) : a = b :=
  String.toList_inj.1 (flatMap_unitsOf_inj h)

/-! ### Comparison -/

/-- Whether `a` comes strictly before `b`. -/
def Precedes (a b : String) : Prop :=
  codeUnits a < codeUnits b

instance (a b : String) : Decidable (Precedes a b) :=
  inferInstanceAs (Decidable (codeUnits a < codeUnits b))

/-- Whether `a` comes before `b` or equals it. -/
def le (a b : String) : Bool :=
  !decide (Precedes b a)

theorem le_iff_not_precedes {a b : String} : le a b ↔ ¬ Precedes b a := by
  simp [le]

theorem not_precedes_self (a : String) : ¬ Precedes a a :=
  List.lt_irrefl _

theorem Precedes.trans {a b c : String} (hab : Precedes a b) (hbc : Precedes b c) :
    Precedes a c :=
  List.lt_trans hab hbc

/-- Of two texts, one comes before the other or they are equal. -/
theorem precedes_trichotomy (a b : String) : Precedes a b ∨ a = b ∨ Precedes b a := by
  by_cases hab : Precedes a b
  · exact .inl hab
  · by_cases hba : Precedes b a
    · exact .inr (.inr hba)
    · exact .inr (.inl (codeUnits_injective
        (Std.Trichotomous.trichotomous (r := fun x y : List Nat => x < y) _ _ hab hba)))

theorem le_iff_precedes_or_eq {a b : String} : le a b ↔ Precedes a b ∨ a = b := by
  rw [le_iff_not_precedes]
  constructor
  · intro h
    rcases precedes_trichotomy a b with hab | hab | hba
    · exact .inl hab
    · exact .inr hab
    · exact absurd hba h
  · rintro (hab | rfl) hba
    · exact not_precedes_self a (hab.trans hba)
    · exact not_precedes_self a hba

theorem le_total (a b : String) : le a b || le b a := by
  rcases precedes_trichotomy a b with h | h | h <;>
    simp [le_iff_precedes_or_eq, h]

theorem le_trans (a b c : String) (hab : le a b) (hbc : le b c) : le a c := by
  rw [le_iff_precedes_or_eq] at *
  rcases hab with hab | rfl
  · rcases hbc with hbc | rfl
    · exact .inl (hab.trans hbc)
    · exact .inl hab
  · exact hbc

theorem le_antisymm (a b : String) (hab : le a b) (hba : le b a) : a = b := by
  rw [le_iff_precedes_or_eq] at hab
  exact hab.resolve_left (le_iff_not_precedes.1 hba)

/-! ### Ordered lists of names -/

/-- The given names in increasing order, each once. -/
def ordered (names : List String) : List String :=
  Sorting.sortBy le names.eraseDups

theorem nodup_eraseDups (names : List String) : names.eraseDups.Nodup := by
  induction h : names.length using Nat.strongRecOn generalizing names with
  | ind n ih =>
    cases names with
    | nil => simp
    | cons x xs =>
      -- What is left to clear has lost at least the first name.
      rw [List.eraseDups_cons, List.nodup_cons]
      refine ⟨by simp, ih _ ?_ _ rfl⟩
      have := List.length_filter_le (fun b => !b == x) xs
      simp only [List.length_cons] at h
      omega

@[simp] theorem mem_ordered {x : String} {names : List String} : x ∈ ordered names ↔ x ∈ names := by
  simp [ordered]

theorem nodup_ordered (names : List String) : (ordered names).Nodup :=
  (Sorting.perm_sortBy le _).nodup_iff.2 (nodup_eraseDups names)

end NodeTagging.Text
