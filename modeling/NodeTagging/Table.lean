/-!
# Tables

Finite maps that remember the order in which their keys were first given. A key occurs once, which
the type guarantees; assigning to a key that is present keeps its place.

* `get?_eq_some_iff`: looking up a key finds exactly the entry that the table lists for it;
* `get?_insert`, `get?_filterKeys`, `get?_erase`, `get?_assign`, `get?_mapValues`,
  `get?_tabulate`: what each operation does to look-ups;
* `mem_keys_iff`, `mem_values_iff`: the keys are those with a value, and the values those of a key;
* `tabulate_congr`: a table made from a function knows it at the keys only.
-/

namespace NodeTagging

/-- A finite map as the list of its entries, in the order of their first insertion. -/
structure Table (α β : Type) where
  /-- The keys with their values. -/
  entries : List (α × β)
  /-- No key has two entries. -/
  nodup_keys : (entries.map Prod.fst).Nodup
deriving DecidableEq, Repr

namespace Table

variable {α β γ : Type}

/-! ### Operations -/

/-- The table without entries. -/
def empty : Table α β := ⟨[], .nil⟩

instance : Inhabited (Table α β) := ⟨empty⟩

/-- The keys in the order of their first insertion. -/
def keys (t : Table α β) : List α := t.entries.map Prod.fst

/-- The values in the order of their keys. -/
def values (t : Table α β) : List β := t.entries.map Prod.snd

/-- The number of entries. -/
def size (t : Table α β) : Nat := t.entries.length

/-- The table whose keys are those of `keys` to which `f` gives a value, in the same order. -/
def tabulate (keys : List α) (nodup : keys.Nodup) (f : α → Option β) : Table α β where
  entries := keys.filterMap fun k => (f k).map (k, ·)
  nodup_keys := by
    have h : (keys.filterMap fun k => (f k).map (k, ·)).map Prod.fst =
        keys.filter fun k => (f k).isSome := by
      clear nodup
      induction keys with
      | nil => rfl
      | cons k ks ih => cases hk : f k <;> simp [hk, ih]
    exact h ▸ nodup.filter _

/-- The entries whose keys satisfy `p`. -/
def filterKeys (t : Table α β) (p : α → Bool) : Table α β where
  entries := t.entries.filter fun e => p e.1
  nodup_keys := t.nodup_keys.sublist (List.Sublist.map _ List.filter_sublist)

theorem ext {t t' : Table α β} (h : t.entries = t'.entries) : t = t' := by
  cases t
  cases t'
  cases h
  rfl

/-- The table with every value replaced by what `f` makes of it. -/
def mapValues (t : Table α β) (f : β → γ) : Table α γ where
  entries := t.entries.map fun e => (e.1, f e.2)
  nodup_keys := by
    rw [List.map_map]
    exact t.nodup_keys

variable [DecidableEq α]

/-- The value of a key, if it has one. -/
def get? (t : Table α β) (k : α) : Option β := t.entries.lookup k

/-- Whether a key has a value. -/
def contains (t : Table α β) (k : α) : Bool := (t.get? k).isSome

/-- The entries with the value of `k` set to `v`: in place, or at the end for a new key. -/
def insertEntry (k : α) (v : β) : List (α × β) → List (α × β)
  | [] => [(k, v)]
  | e :: es => if e.1 = k then (k, v) :: es else e :: insertEntry k v es

theorem map_fst_insertEntry (k : α) (v : β) (es : List (α × β)) :
    (insertEntry k v es).map Prod.fst =
      if k ∈ es.map Prod.fst then es.map Prod.fst else es.map Prod.fst ++ [k] := by
  induction es with
  | nil => simp [insertEntry]
  | cons e es ih =>
    by_cases h : e.1 = k
    · simp [insertEntry, h]
    · have h' : ¬ k = e.1 := fun hk => h hk.symm
      simp only [insertEntry, h, if_false, List.map_cons, ih, List.mem_cons, h', false_or]
      split <;> simp

/-- The table with the value of `k` set to `v`. -/
def insert (t : Table α β) (k : α) (v : β) : Table α β where
  entries := insertEntry k v t.entries
  nodup_keys := by
    rw [map_fst_insertEntry]
    split
    · exact t.nodup_keys
    · next h =>
      -- A new key differs from all those before it.
      refine List.nodup_append.2 ⟨t.nodup_keys, by simp, fun a ha b hb => ?_⟩
      rintro rfl
      exact h (List.mem_singleton.1 hb ▸ ha)

/-- The table without `k`. -/
def erase (t : Table α β) (k : α) : Table α β :=
  t.filterKeys fun k' => k' ≠ k

/-- The table with the value of `k` set to that of `v?`, or without `k` if there is none. -/
def assign (t : Table α β) (k : α) : Option β → Table α β
  | some v => t.insert k v
  | none => t.erase k

/-- The table of a list of entries; a later value of a key replaces the earlier one. -/
def ofList (entries : List (α × β)) : Table α β :=
  entries.foldl (fun t e => t.insert e.1 e.2) empty

/-! ### Look-ups -/

theorem lookup_eq_some_iff_mem {es : List (α × β)} (h : (es.map Prod.fst).Nodup) {k : α} {v : β} :
    es.lookup k = some v ↔ (k, v) ∈ es := by
  induction es with
  | nil => simp
  | cons e es ih =>
    obtain ⟨k', v'⟩ := e
    obtain ⟨hk', hes⟩ := List.nodup_cons.1 h
    simp only [List.lookup_cons, List.mem_cons, Prod.mk.injEq]
    by_cases hk : k = k'
    · subst hk
      have : (k, v) ∉ es := fun hm => hk' (List.mem_map.2 ⟨_, hm, rfl⟩)
      simp [this, eq_comm]
    · simp only [beq_false_of_ne hk, hk, false_and, false_or]
      exact ih hes

/-- A look-up finds exactly the entry listed for the key. -/
theorem get?_eq_some_iff {t : Table α β} {k : α} {v : β} :
    t.get? k = some v ↔ (k, v) ∈ t.entries :=
  lookup_eq_some_iff_mem t.nodup_keys

theorem mem_keys_iff {t : Table α β} {k : α} : k ∈ t.keys ↔ ∃ v, t.get? k = some v := by
  simp [keys, get?_eq_some_iff]

theorem get?_eq_none_iff {t : Table α β} {k : α} : t.get? k = none ↔ k ∉ t.keys := by
  rw [mem_keys_iff, Option.eq_none_iff_forall_ne_some, not_exists]

theorem contains_iff {t : Table α β} {k : α} : t.contains k = true ↔ k ∈ t.keys := by
  rw [contains, Option.isSome_iff_exists, mem_keys_iff]

theorem mem_values_iff {t : Table α β} {v : β} : v ∈ t.values ↔ ∃ k, t.get? k = some v := by
  simp [values, get?_eq_some_iff]

theorem mem_values_of_get? {t : Table α β} {k : α} {v : β} (h : t.get? k = some v) :
    v ∈ t.values :=
  mem_values_iff.2 ⟨k, h⟩

@[simp] theorem get?_empty (k : α) : (empty : Table α β).get? k = none := rfl

theorem lookup_insertEntry (k : α) (v : β) (es : List (α × β)) (k' : α) :
    (insertEntry k v es).lookup k' = if k' = k then some v else es.lookup k' := by
  induction es with
  | nil =>
    by_cases h : k' = k
    · simp [insertEntry, h]
    · simp [insertEntry, List.lookup_cons, h, beq_false_of_ne h]
  | cons e es ih =>
    obtain ⟨a, b⟩ := e
    by_cases ha : a = k
    · subst ha
      by_cases h : k' = a
      · simp [insertEntry, h]
      · simp [insertEntry, List.lookup_cons, h, beq_false_of_ne h]
    · by_cases h : k' = a
      · subst h
        simp [insertEntry, ha]
      · simp [insertEntry, List.lookup_cons, ha, beq_false_of_ne h, ih]

theorem get?_insert (t : Table α β) (k : α) (v : β) (k' : α) :
    (t.insert k v).get? k' = if k' = k then some v else t.get? k' :=
  lookup_insertEntry k v t.entries k'

theorem get?_filterKeys (t : Table α β) (p : α → Bool) (k : α) :
    (t.filterKeys p).get? k = if p k then t.get? k else none := by
  apply Option.ext
  intro v
  rw [get?_eq_some_iff]
  by_cases h : p k <;> simp [filterKeys, h, get?_eq_some_iff]

theorem get?_erase (t : Table α β) (k k' : α) :
    (t.erase k).get? k' = if k' = k then none else t.get? k' := by
  rw [erase, get?_filterKeys]
  by_cases h : k' = k <;> simp [h]

theorem get?_assign (t : Table α β) (k : α) (v? : Option β) (k' : α) :
    (t.assign k v?).get? k' = if k' = k then v? else t.get? k' := by
  cases v? with
  | none => exact get?_erase t k k'
  | some v => exact get?_insert t k v k'

theorem get?_mapValues (t : Table α β) (f : β → γ) (k : α) :
    (t.mapValues f).get? k = (t.get? k).map f := by
  apply Option.ext
  intro v
  simp only [get?_eq_some_iff, mapValues, List.mem_map, Prod.mk.injEq, Option.map_eq_some_iff]
  constructor
  · rintro ⟨⟨k', a⟩, hmem, rfl, rfl⟩
    exact ⟨a, hmem, rfl⟩
  · rintro ⟨a, hmem, rfl⟩
    exact ⟨(k, a), hmem, rfl, rfl⟩

theorem get?_tabulate {keys : List α} (nodup : keys.Nodup) (f : α → Option β) (k : α) :
    (tabulate keys nodup f).get? k = if k ∈ keys then f k else none := by
  apply Option.ext
  intro v
  rw [get?_eq_some_iff]
  by_cases h : k ∈ keys <;> simp [tabulate, h]

omit [DecidableEq α] in
/-- Only the values of the given keys matter. -/
theorem tabulate_congr {keys keys' : List α} {nodup : keys.Nodup} {nodup' : keys'.Nodup}
    {f g : α → Option β} (hkeys : keys = keys') (h : ∀ k ∈ keys, f k = g k) :
    tabulate keys nodup f = tabulate keys' nodup' g := by
  subst hkeys
  refine ext ?_
  simp only [tabulate]
  clear nodup nodup'
  induction keys with
  | nil => rfl
  | cons k ks ih =>
    rw [List.filterMap_cons, List.filterMap_cons, h k List.mem_cons_self,
      ih fun k' hk' => h k' (List.mem_cons_of_mem k hk')]

theorem erase_tabulate {keys : List α} (nodup : keys.Nodup) (f : α → Option β) (k : α) :
    (tabulate keys nodup f).erase k =
      tabulate keys nodup fun k' => if k' = k then none else f k' := by
  refine ext ?_
  simp only [tabulate, erase, filterKeys, List.filter_filterMap]
  congr
  funext k'
  by_cases hk : k' = k <;> cases f k' <;> simp [hk]

end Table

end NodeTagging
