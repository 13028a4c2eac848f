import Mathlib.Algebra.GroupWithZero.Nat
import Mathlib.Data.List.Perm.Subperm
import NodeTagging.Proofs.Accounting
import NodeTagging.Proofs.Rooted
import NodeTagging.Proofs.Tables

/-!
# The numbers add up

A run reports how many classes the dump has, how many of them are below the root, how many of these
are members, and how many members each category has. No class is left out of these numbers or
counted twice (`members_add_up`): the subtree is the root, the members and the excluded classes, and
the members are those of the branches and of the catch-all.

* `WellFormed.entries_memberCounts`: the numbers of members are those of the categories, in order;
* `perm_subtree`, `length_subtree_le`: the parts of the subtree, and the subtree in the dump.
-/

namespace NodeTagging

namespace Taxonomy

open Hierarchy

/-! ### Members of categories -/

section Categories

variable {t : Taxonomy}

theorem count_categories (id : String) :
    (t.members.filterMap t.categoryOf.get?).count id = (t.membersIn id).length := by
  rw [List.count_eq_countP, List.countP_filterMap, membersIn, ← List.countP_eq_length_filter]
  refine List.countP_congr fun c _ => ?_
  cases t.categoryOf.get? c <;> simp

namespace WellFormed

variable (wf : t.WellFormed)

include wf

/-- The numbers of members are those of the categories, in order. -/
theorem entries_memberCounts :
    t.memberCounts.entries = t.categoryIds.map fun id => (id, (t.membersIn id).length) := by
  let zeros := Table.ofList (t.categoryIds.map fun id => (id, 0))
  have hkeys : (t.categoryIds.map fun id => (id, 0)).map Prod.fst = t.categoryIds := by
    rw [List.map_map]
    exact List.map_id _
  have hzeros : zeros.entries = t.categoryIds.map fun id => (id, 0) :=
    Table.entries_ofList (hkeys.symm ▸ wf.nodup_categoryIds)
  have hzerosKeys : zeros.keys = t.categoryIds := by rw [Table.keys, hzeros, hkeys]
  have hcounted : ∀ id ∈ t.members.filterMap t.categoryOf.get?, id ∈ zeros.keys := by
    intro id hid
    obtain ⟨c, hc, hcategory⟩ := List.mem_filterMap.1 hid
    obtain ⟨id', hid', hcategory'⟩ := wf.exists_categoryOf hc
    rw [hzerosKeys, Option.some.inj (hcategory.symm.trans hcategory')]
    exact hid'
  have hcountKeys : t.memberCounts.keys = t.categoryIds :=
    (Table.keys_foldl_tally hcounted).trans hzerosKeys
  rw [← hcountKeys]
  refine Table.entries_eq_map fun id hid => ?_
  have hzero : zeros.get? id = some 0 := by
    rw [Table.get?_eq_some_iff, hzeros]
    exact List.mem_map_of_mem (hcountKeys ▸ hid)
  rw [memberCounts, Table.get?_foldl_tally hzero, Nat.zero_add, count_categories]

/-- The members of the categories are all the members. -/
theorem sum_memberCounts : t.memberCounts.values.sum = t.members.length := by
  rw [Table.values, wf.entries_memberCounts, List.map_map, ← wf.perm_categories.length_eq,
    List.length_flatMap]
  rfl

/-- A member is in one category, once, and in no other. -/
theorem count_membersIn {c : String} (hc : c ∈ t.members) :
    ∃ id, t.categoryIds.count id = 1 ∧
      ∀ other, (t.membersIn other).count c = if other = id then 1 else 0 := by
  obtain ⟨id, hid, hcategory⟩ := wf.exists_categoryOf hc
  refine ⟨id, ?_, fun other => ?_⟩
  · rw [wf.nodup_categoryIds.count, if_pos hid]
  · have hmem : c ∈ t.membersIn other ↔ other = id := by
      rw [mem_membersIn_iff, and_iff_right hc, hcategory, Option.some.injEq, eq_comm]
    exact (wf.nodup_members.filter _).count.trans (if_congr hmem rfl rfl)

end WellFormed

end Categories

/-! ### Parts of the subtree -/

/-- The classes below the root that receive no marker. -/
def excludedClasses (graph : Inheritance) (rules : TaxonomyRules) : List String :=
  (subtree graph rules).filter fun c => c ≠ rules.root ∧ rules.exclusions.ground? c ≠ none

/-- The subtree is the root, the members and the excluded classes. -/
theorem perm_subtree (graph : Inheritance) (rules : TaxonomyRules) :
    (subtree graph rules).Perm
      (rules.root :: (selectMembers graph rules ++ excludedClasses graph rules)) := by
  have hnodup : (subtree graph rules).Nodup := nodup_descendants _ _
  have hparts :
      (rules.root :: (selectMembers graph rules ++ excludedClasses graph rules)).Nodup := by
    rw [List.nodup_cons, List.nodup_append]
    refine ⟨?_, Text.nodup_ordered _, hnodup.filter _, ?_⟩
    · simp [mem_selectMembers_iff, excludedClasses]
    · rintro c hmember _ hexcluded rfl
      have hground := (of_decide_eq_true (List.mem_filter.1 hexcluded).2).2
      exact hground (mem_selectMembers_iff.1 hmember).2.1
  refine (List.perm_ext_iff_of_nodup hnodup hparts).2 fun c => ?_
  rw [List.mem_cons, List.mem_append, mem_selectMembers_iff, excludedClasses, List.mem_filter,
    decide_eq_true_eq]
  by_cases hroot : c = rules.root
  · simp [hroot, root_mem_subtree]
  · simp only [hroot, false_or]
    tauto

/-- The subtree has no more classes than the dump. -/
theorem length_subtree_le {entries : List ClassEntry} {rules : TaxonomyRules}
    (hroot : rules.root ∈ (Inheritance.ofEntries entries).names) :
    (subtree (.ofEntries entries) rules).length ≤ (Inheritance.ofEntries entries).names.length := by
  have hnodup : (subtree (.ofEntries entries) rules).Nodup := nodup_descendants _ _
  refine (hnodup.subperm fun c hc => ?_).length_le
  exact Inheritance.mem_names_ofEntries.2 (mem_names_of_mem_subtree hroot hc)

end Taxonomy

/-! ### Under a configuration -/

/-- The members are the classes of the subtree besides the root that no table excludes, strictly
    increasing. Only they have a category, and each of them is in one of the categories that have
    helpers, once, and in no other. The numbers that are reported are those of the members of these
    categories, in order, and add up to the number of members. Together with the excluded classes
    and the root, the members are as many as the classes of the subtree, which are no more than
    those of the dump. -/
theorem members_add_up {workingDirectory path : String} {document : Json} {config : Config}
    (accepted : Config.ofJson workingDirectory path document = .ok config)
    {entries : List ClassEntry} {t : Taxonomy}
    (built : Taxonomy.build (.ofEntries entries) config.taxonomy = .ok t) :
    let graph := Inheritance.ofEntries entries
    let rules := config.taxonomy
    t.members.Pairwise Text.Precedes ∧
    (∀ c, c ∈ t.members ↔
      c ∈ Taxonomy.subtree graph rules ∧ c ≠ rules.root ∧ rules.exclusions.ground? c = none) ∧
    (∀ c, c ∈ t.categoryOf.keys ↔ c ∈ t.members) ∧
    (∀ c ∈ t.members, ∃ id, t.categoryIds.count id = 1 ∧
      ∀ other, (t.membersIn other).count c = if other = id then 1 else 0) ∧
    t.memberCounts.entries = (t.categoryIds.map fun id => (id, (t.membersIn id).length)) ∧
    t.memberCounts.values.sum = t.members.length ∧
    t.members.length + (Taxonomy.excludedClasses graph rules).length + 1 = t.subtreeSize ∧
    t.subtreeSize ≤ graph.names.length := by
  intro graph rules
  have wf := Taxonomy.wellFormed_of_build (Config.fit_of_ofJson accepted) built
  have hcategories (c : String) : c ∈ t.categoryOf.keys ↔ c ∈ t.members :=
    Table.contains_iff.symm.trans wf.isTagged_iff
  obtain ⟨hroot, gates, -, rfl⟩ := Taxonomy.build_eq_ok_iff.1 built
  refine ⟨Text.pairwise_ordered _, fun c => ?_, hcategories, fun c hc => wf.count_membersIn hc,
    wf.entries_memberCounts, wf.sum_memberCounts, ?_, Taxonomy.length_subtree_le hroot⟩
  · exact Taxonomy.mem_selectMembers_iff.trans (and_congr_right fun _ => and_comm)
  · have hparts := (Taxonomy.perm_subtree graph rules).length_eq
    rw [List.length_cons, List.length_append] at hparts
    exact hparts.symm

/-- In a small engine two of three categories have a branch, and one of the nine classes below the
    root is excluded. -/
theorem members_add_up_with_excluded :
    Config.ofJson "/work" "/work/generator.config.json" Sample.document = .ok Sample.config ∧
      Taxonomy.build (.ofEntries Sample.dump) Sample.config.taxonomy = .ok Sample.taxonomy ∧
      Sample.taxonomy.memberCounts.entries = [("sprite", 2), ("canvas", 4), ("universal", 1)] ∧
      Sample.taxonomy.memberCounts.values.sum = Sample.taxonomy.members.length ∧
      "Sprite2D" ∈ Sample.taxonomy.members ∧
      (∃ id, Sample.taxonomy.categoryIds.count id = 1 ∧
        ∀ other, (Sample.taxonomy.membersIn other).count "Sprite2D" =
          if other = id then 1 else 0) ∧
      Taxonomy.excludedClasses (.ofEntries Sample.dump) Sample.config.taxonomy = ["Node2D"] ∧
      Sample.taxonomy.members.length + 1 + 1 = Sample.taxonomy.subtreeSize := by
  have hnumbers := members_add_up Sample.ofJson_document Sample.build_dump
  have hmember : "Sprite2D" ∈ Sample.taxonomy.members := by decide +kernel
  have hcategories : (Sample.taxonomy.categoryIds.map
      fun id => (id, (Sample.taxonomy.membersIn id).length)) =
        [("sprite", 2), ("canvas", 4), ("universal", 1)] := by
    decide +kernel
  have hexcluded : Taxonomy.excludedClasses (.ofEntries Sample.dump) Sample.config.taxonomy =
      ["Node2D"] := by
    decide +kernel
  have hparts := hnumbers.2.2.2.2.2.2.1
  rw [hexcluded] at hparts
  exact ⟨Sample.ofJson_document, Sample.build_dump, hnumbers.2.2.2.2.1.trans hcategories,
    hnumbers.2.2.2.2.2.1, hmember, hnumbers.2.2.2.1 "Sprite2D" hmember, hexcluded, hparts⟩

end NodeTagging
