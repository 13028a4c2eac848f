import NodeTagging.Proofs.WellFormed

/-!
# The order of specificity

Classes are tested deepest first and then by name. The order is a total one, so sorting by it
rearranges a list of classes without loss, and among the classes of a lineage it finds the nearest
one first (`find?_bySpecificity`): no test of a class hides that of a class below it.
-/

namespace NodeTagging.Taxonomy

open Hierarchy

theorem testedBefore_iff {a b : Nat × String} :
    testedBefore a b ↔ b.1 < a.1 ∨ a.1 = b.1 ∧ Text.le a.2 b.2 := by
  simp [testedBefore]

theorem testedBefore_total (a b : Nat × String) : testedBefore a b || testedBefore b a := by
  rw [Bool.or_eq_true, testedBefore_iff, testedBefore_iff]
  rcases Nat.lt_trichotomy a.1 b.1 with h | h | h
  · exact .inr (.inl h)
  · rcases Bool.or_eq_true _ _ ▸ Text.le_total a.2 b.2 with hle | hle
    · exact .inl (.inr ⟨h, hle⟩)
    · exact .inr (.inr ⟨h.symm, hle⟩)
  · exact .inl (.inl h)

theorem testedBefore_trans (a b c : Nat × String) (hab : testedBefore a b)
    (hbc : testedBefore b c) : testedBefore a c := by
  rw [testedBefore_iff] at *
  rcases hab with hab | ⟨hab, hle⟩
  · rcases hbc with hbc | ⟨hbc, -⟩
    · exact .inl (Nat.lt_trans hbc hab)
    · exact .inl (hbc ▸ hab)
  · rcases hbc with hbc | ⟨hbc, hle'⟩
    · exact .inl (hab ▸ hbc)
    · exact .inr ⟨hab.trans hbc, Text.le_trans _ _ _ hle hle'⟩

theorem testedBefore_antisymm (a b : Nat × String) (hab : testedBefore a b)
    (hba : testedBefore b a) : a = b := by
  rw [testedBefore_iff] at hab hba
  rcases hab with hab | ⟨hdepth, hle⟩
  · rcases hba with hba | ⟨hba, -⟩
    · omega
    · omega
  · rcases hba with hba | ⟨-, hle'⟩
    · omega
    · exact Prod.ext hdepth (Text.le_antisymm _ _ hle hle')

variable (t : Taxonomy)

/-- The key that a class is ordered by. -/
def specificity (c : String) : Nat × String :=
  (t.depth c, c)

variable {t}

/-- Ordering by specificity only rearranges. -/
theorem perm_bySpecificity (classes : List String) : (t.bySpecificity classes).Perm classes := by
  have hsorted := (Sorting.perm_sortBy testedBefore (classes.map t.specificity)).map Prod.snd
  rwa [List.map_map, show Prod.snd ∘ t.specificity = id from rfl, List.map_id] at hsorted

@[simp] theorem mem_bySpecificity {c : String} {classes : List String} :
    c ∈ t.bySpecificity classes ↔ c ∈ classes :=
  (perm_bySpecificity classes).mem_iff

/-- Of two classes in the order, the first may be tested before the second. -/
theorem pairwise_bySpecificity (classes : List String) :
    (t.bySpecificity classes).Pairwise fun a b =>
      testedBefore (t.specificity a) (t.specificity b) := by
  have hkey : ∀ p ∈ Sorting.sortBy testedBefore (classes.map t.specificity),
      t.specificity p.2 = p := by
    intro p hp
    obtain ⟨c, -, rfl⟩ := List.mem_map.1 ((Sorting.mem_sortBy _).1 hp)
    rfl
  refine List.pairwise_map.2 ?_
  refine (Sorting.pairwise_sortBy testedBefore_total testedBefore_trans _).imp_of_mem ?_
  intro p q hp hq hpq
  rwa [hkey p hp, hkey q hq]

/-- Classes that are left out do not change the order of the others. -/
theorem filter_bySpecificity (p : String → Bool) (classes : List String) :
    (t.bySpecificity classes).filter p = t.bySpecificity (classes.filter p) := by
  rw [bySpecificity, bySpecificity, List.filter_map,
    Sorting.filter_sortBy testedBefore_total testedBefore_trans testedBefore_antisymm,
    List.filter_map]
  rfl

/-- In the order of specificity, the first class of a lineage is the nearest one. -/
theorem find?_bySpecificity {c : String} (h : Grounded t.parentOf c) (classes : List String) :
    (t.bySpecificity classes).find? (fun x => x ∈ lineage t.parentOf c) =
      (lineage t.parentOf c).find? fun x => x ∈ classes := by
  cases hnear : (lineage t.parentOf c).find? fun x => x ∈ classes with
  | none =>
    refine List.find?_eq_none.2 fun x hx hmem => ?_
    exact List.find?_eq_none.1 hnear x (by simpa using hmem) (by simpa using hx)
  | some near =>
    have hclass : near ∈ classes := by simpa using List.find?_some hnear
    have hlineage : near ∈ lineage t.parentOf c := List.mem_of_find?_eq_some hnear
    refine find?_eq_some_of_pairwise (pairwise_bySpecificity classes)
      (mem_bySpecificity.2 hclass) (by simpa using hlineage) fun x hx hxin htested => ?_
    -- Any other of the classes in the lineage is an ancestor of the nearest one, and less deep.
    have habove : x ∈ lineage t.parentOf near :=
      h.mem_lineage_of_find? hnear (by simpa using hxin) (by simpa using hx)
    rcases mem_lineage_iff.1 habove with rfl | habove
    · rfl
    · have hless : t.depth x < t.depth near :=
        (h.of_mem_lineage hlineage).length_ancestors_lt habove
      rw [testedBefore_iff] at htested
      simp only [specificity] at htested
      omega

end NodeTagging.Taxonomy
