import NodeTagging.Table

/-!
# Tables filled from lists

Tables are made by going through a list and setting the value of a key at each element.

* `get?_foldl_assign`, `get?_ofList`: of several elements with one key, the last one counts;
* `entries_ofList`: a list without repeated keys is kept as it is;
* `keys_foldl_tally`, `get?_foldl_tally`: counting keys of a table adds to its numbers and leaves
  its keys as they are.
-/

namespace NodeTagging.Table

variable {α β : Type} [DecidableEq α]

/-- A table is determined by its keys and their values. -/
theorem entries_eq_map {t : Table α β} {f : α → β} (h : ∀ k ∈ t.keys, t.get? k = some (f k)) :
    t.entries = t.keys.map fun k => (k, f k) := by
  have hself : t.entries.map (fun e => (e.1, f e.1)) = t.entries.map id := by
    refine List.map_congr_left fun e he => ?_
    have hvalue := h e.1 (List.mem_map_of_mem he)
    rw [get?_eq_some_iff.2 he] at hvalue
    rw [← Option.some.inj hvalue, id_eq]
  rw [List.map_id] at hself
  rw [keys, List.map_map]
  exact hself.symm

/-! ### Assigning -/

/-- Of several assignments to a key, the last one counts, whether it gives a value or takes it
    away. -/
theorem get?_foldl_assign {ι : Type} (key : ι → α) (value? : ι → Option β) (xs : List ι)
    (t : Table α β) (k : α) :
    (xs.foldl (fun t x => t.assign (key x) (value? x)) t).get? k =
      ((xs.filter fun x => key x = k).getLast?.map value?).getD (t.get? k) := by
  induction xs generalizing t with
  | nil => rfl
  | cons x xs ih =>
    rw [List.foldl_cons, ih, get?_assign]
    by_cases hkey : key x = k
    · rw [if_pos hkey.symm, List.filter_cons_of_pos (by simpa using hkey), List.getLast?_cons]
      cases (xs.filter fun x => key x = k).getLast? with
      | none => rfl
      | some last => rfl
    · rw [if_neg fun h => hkey h.symm, List.filter_cons_of_neg (by simpa using hkey)]

/-- The value of a key is that of its last entry. -/
theorem get?_ofList (es : List (α × β)) (k : α) :
    (ofList es).get? k = (es.filter fun e => e.1 = k).getLast?.map Prod.snd := by
  refine (get?_foldl_assign Prod.fst (fun e => some e.2) es empty k).trans ?_
  cases (es.filter fun e => e.1 = k).getLast? with
  | none => rfl
  | some last => rfl

/-- Values may be replaced before a table is made. -/
theorem get?_ofList_map {γ : Type} (f : β → γ) (es : List (α × β)) (k : α) :
    (ofList (es.map fun e => (e.1, f e.2))).get? k = ((ofList es).get? k).map f := by
  rw [get?_ofList, get?_ofList, List.filter_map, List.getLast?_map, Option.map_map, Option.map_map]
  rfl

/-- A table holds entries that it is made from. -/
theorem mem_of_get?_ofList {es : List (α × β)} {k : α} {v : β}
    (h : (ofList es).get? k = some v) : (k, v) ∈ es := by
  rw [get?_ofList] at h
  obtain ⟨last, hlast, rfl⟩ := Option.map_eq_some_iff.1 h
  obtain ⟨hmem, hkey⟩ := List.mem_filter.1 (List.mem_of_getLast? hlast)
  rwa [← of_decide_eq_true hkey]

/-- The keys of a table are those of the entries that it is made from. -/
theorem exists_of_mem_keys_ofList {es : List (α × β)} {k : α} (h : k ∈ (ofList es).keys) :
    ∃ e ∈ es, e.1 = k := by
  obtain ⟨v, hv⟩ := mem_keys_iff.1 h
  exact ⟨(k, v), mem_of_get?_ofList hv, rfl⟩

theorem insertEntry_of_not_mem {k : α} {v : β} {es : List (α × β)}
    (h : k ∉ es.map Prod.fst) : insertEntry k v es = es ++ [(k, v)] := by
  induction es with
  | nil => rfl
  | cons e es ih =>
    rw [List.map_cons, List.mem_cons, not_or] at h
    rw [insertEntry, if_neg (Ne.symm h.1), ih h.2, List.cons_append]

/-- A list without repeated keys is the list of entries of its table. -/
theorem entries_ofList {es : List (α × β)} (h : (es.map Prod.fst).Nodup) :
    (ofList es).entries = es := by
  -- Each entry in turn has a new key and goes to the end.
  have step (es : List (α × β)) (t : Table α β) (h : (t.keys ++ es.map Prod.fst).Nodup) :
      (es.foldl (fun t e => t.insert e.1 e.2) t).entries = t.entries ++ es := by
    induction es generalizing t with
    | nil => simp
    | cons e es ih =>
      have hnew : e.1 ∉ t.keys := fun hmem =>
        (List.nodup_append.1 h).2.2 _ hmem _ List.mem_cons_self rfl
      have hentries : (t.insert e.1 e.2).entries = t.entries ++ [e] :=
        insertEntry_of_not_mem hnew
      rw [List.foldl_cons, ih, hentries, List.append_assoc, List.singleton_append]
      rw [keys, hentries]
      simpa [keys] using h
  exact step es empty h

/-! ### Counting -/

section Tally

variable {counts : Table α Nat}

theorem keys_insert_of_mem {k : α} {n : Nat} (h : k ∈ counts.keys) :
    (counts.insert k n).keys = counts.keys :=
  (map_fst_insertEntry k n counts.entries).trans (if_pos h)

/-- Counting keys of a table leaves its keys as they are. -/
theorem keys_foldl_tally {xs : List α} (h : ∀ x ∈ xs, x ∈ counts.keys) :
    (xs.foldl (fun counts x => counts.insert x ((counts.get? x).getD 0 + 1)) counts).keys =
      counts.keys := by
  induction xs generalizing counts with
  | nil => rfl
  | cons x xs ih =>
    obtain ⟨hx, hxs⟩ := List.forall_mem_cons.1 h
    rw [List.foldl_cons, ih, keys_insert_of_mem hx]
    rwa [keys_insert_of_mem hx]

/-- Counting adds to the number of a key how often it occurs. -/
theorem get?_foldl_tally {k : α} {n : Nat} (h : counts.get? k = some n) (xs : List α) :
    (xs.foldl (fun counts x => counts.insert x ((counts.get? x).getD 0 + 1)) counts).get? k =
      some (n + xs.count k) := by
  induction xs generalizing counts n with
  | nil => simpa using h
  | cons x xs ih =>
    rw [List.foldl_cons]
    by_cases hx : x = k
    · subst hx
      have hnext : (counts.insert x ((counts.get? x).getD 0 + 1)).get? x = some (n + 1) := by
        rw [get?_insert, if_pos rfl, h, Option.getD_some]
      rw [ih hnext, List.count_cons_self, Nat.add_right_comm, Nat.add_assoc]
    · have hsame : (counts.insert x ((counts.get? x).getD 0 + 1)).get? k = some n := by
        rw [get?_insert, if_neg (Ne.symm hx), h]
      rw [ih hsame, List.count_cons_of_ne hx]

end Tally

end NodeTagging.Table
