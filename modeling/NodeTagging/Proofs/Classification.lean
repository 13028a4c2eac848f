import Mathlib.Data.List.Find
import Mathlib.Data.List.Pairwise
import NodeTagging.Generated.NameDispatcher
import NodeTagging.Generated.Classifier
import NodeTagging.Proofs.Specificity

/-!
# The classifier finds the nearest member

The classifier looks for a class in two steps: it takes the first branch whose root is in the
lineage, and then the first probe of that branch. Neither step loses the nearest member of the
lineage:

* every branch root in the lineage is a member, hence in the lineage of the nearest member, so that
  the branch taken is that of the nearest member's category (`branchIn?_eq_of_nearestMember?`);
* within the branch, members further down are probed first (`find?_bySpecificity`), and a member
  above the branch root is in another category (`root_mem_lineage`).

Hence `answer_eq_nearestMember?`, for a lineage of any class below the root, tagged or not.
-/

namespace NodeTagging

open Hierarchy

namespace Taxonomy

variable (t : Taxonomy)

/-- The member nearest to a class: the class itself or the first of its ancestors that is one. -/
def nearestMember? (c : String) : Option String :=
  (lineage t.parentOf c).find? fun x => x ∈ t.members

variable {t}

theorem nearestMember?_eq_ite (c : String) :
    t.nearestMember? c =
      if c ∈ t.members then some c
      else (ancestors t.parentOf c).find? fun x => x ∈ t.members := by
  rw [nearestMember?, lineage, List.find?_cons]
  split <;> simp_all

theorem mem_membersIn_iff {id c : String} :
    c ∈ t.membersIn id ↔ c ∈ t.members ∧ t.categoryOf.get? c = some id := by
  simp [membersIn]

theorem mem_of_branchIn? {l : List String} {branch : Category} (h : t.branchIn? l = some branch) :
    branch ∈ t.branches ∧ branch.root ∈ l :=
  ⟨List.mem_of_find?_eq_some h, by simpa using List.find?_some h⟩

theorem branchIn?_congr {l l' : List String}
    (h : ∀ branch ∈ t.branches, branch.root ∈ l ↔ branch.root ∈ l') :
    t.branchIn? l = t.branchIn? l' :=
  List.find?_congr fun branch hbranch => decide_eq_decide.2 (h branch hbranch)

namespace WellFormed

variable {c m : String} {branch : Category}

theorem categoryOf_eq (wf : t.WellFormed) (hm : m ∈ t.members) :
    t.categoryOf.get? m =
      some (((t.branchIn? (lineage t.parentOf m)).map (·.id)).getD t.catchAll) := by
  rw [wf.get?_categoryOf, if_pos hm]

/-- Branches that share a name are the same. -/
theorem eq_of_id_eq (wf : t.WellFormed) {a b : Category} (ha : a ∈ t.branches)
    (hb : b ∈ t.branches) (h : a.id = b.id) : a = b := by
  by_contra hne
  exact (wf.apart.forall ha hb hne).1 h

/-- A member of the category of a branch is the root of the branch or below it. -/
theorem root_mem_lineage (wf : t.WellFormed) (hbranch : branch ∈ t.branches)
    (hm : m ∈ t.membersIn branch.id) : branch.root ∈ lineage t.parentOf m := by
  obtain ⟨hmember, hcategory⟩ := mem_membersIn_iff.1 hm
  rw [wf.categoryOf_eq hmember, Option.some.injEq] at hcategory
  cases hfirst : t.branchIn? (lineage t.parentOf m) with
  | none =>
    rw [hfirst] at hcategory
    exact absurd hcategory.symm (wf.id_ne_catchAll branch hbranch)
  | some first =>
    rw [hfirst] at hcategory
    obtain ⟨hfirstBranch, hroot⟩ := mem_of_branchIn? hfirst
    obtain rfl := wf.eq_of_id_eq hfirstBranch hbranch hcategory
    exact hroot

/-- The branch that decides on a lineage is that of the nearest member's category. -/
theorem branchIn?_eq_of_nearestMember? (wf : t.WellFormed) (hc : Grounded t.parentOf c)
    (h : t.nearestMember? c = some m) :
    t.branchIn? (lineage t.parentOf c) = t.branchIn? (lineage t.parentOf m) := by
  refine branchIn?_congr fun branch hbranch => ⟨fun hroot => ?_, fun hroot => ?_⟩
  · exact hc.mem_lineage_of_find? h hroot (by simpa using wf.root_mem branch hbranch)
  · exact hc.lineage_trans (List.mem_of_find?_eq_some h) hroot

/-- A lineage without a member has no branch. -/
theorem branchIn?_eq_none (wf : t.WellFormed) (h : t.nearestMember? c = none) :
    t.branchIn? (lineage t.parentOf c) = none := by
  refine List.find?_eq_none.2 fun branch hbranch hroot => ?_
  have hmember := wf.root_mem branch hbranch
  exact List.find?_eq_none.1 h branch.root (by simpa using hroot) (by simpa using hmember)

/-- The members of a lineage without a branch are all in the catch-all. -/
theorem mem_membersIn_catchAll (wf : t.WellFormed) (hc : Grounded t.parentOf c)
    (h : t.branchIn? (lineage t.parentOf c) = none) (hm : m ∈ t.members)
    (hlineage : m ∈ lineage t.parentOf c) : m ∈ t.membersIn t.catchAll := by
  have hnone : t.branchIn? (lineage t.parentOf m) = none := by
    refine List.find?_eq_none.2 fun branch hbranch hroot => ?_
    have hroot := hc.lineage_trans hlineage (by simpa using hroot)
    exact List.find?_eq_none.1 h branch hbranch (by simpa using hroot)
  rw [mem_membersIn_iff, wf.categoryOf_eq hm, hnone]
  exact ⟨hm, rfl⟩

/-- The first probe of the branch of a lineage finds the nearest member, unless that is the branch
    root. -/
theorem find?_probes (wf : t.WellFormed) (hc : Grounded t.parentOf c)
    (hm : t.nearestMember? c = some m)
    (hbranch : t.branchIn? (lineage t.parentOf c) = some branch) :
    ((TestPlan.branchOf t branch).probes.find? fun x => x ∈ lineage t.parentOf c) =
      if m = branch.root then none else some m := by
  have hmember : m ∈ t.members := by simpa using List.find?_some hm
  have hbranches := (mem_of_branchIn? hbranch).1
  rw [TestPlan.branchOf, find?_bySpecificity hc]
  split
  · next hroot =>
    -- Another member found would be above the branch root and yet in its category.
    refine List.find?_eq_none.2 fun x hx hprobe => ?_
    obtain ⟨hin, hne⟩ : x ∈ t.membersIn branch.id ∧ x ≠ branch.root := by simpa using hprobe
    have habove : x ∈ lineage t.parentOf m :=
      hc.mem_lineage_of_find? hm hx (by simpa using (mem_membersIn_iff.1 hin).1)
    have hbelow := wf.root_mem_lineage hbranches hin
    rw [← hroot] at hbelow hne
    exact hne ((hc.of_mem_lineage hx).lineage_antisymm hbelow habove)
  · next hroot =>
    -- The nearest member is a probe of the branch, and no other probe is nearer.
    refine find?_eq_some_of_imp hm ?_ fun x _ hx => ?_
    · rw [branchIn?_eq_of_nearestMember? wf hc hm] at hbranch
      have hin : m ∈ t.membersIn branch.id := by
        rw [mem_membersIn_iff, wf.categoryOf_eq hmember, hbranch]
        exact ⟨hmember, rfl⟩
      simpa using ⟨hin, hroot⟩
    · have hin := (List.mem_filter.1 (of_decide_eq_true hx)).1
      simpa using (mem_membersIn_iff.1 hin).1

/-- The classifier answers with the nearest member, or with the root if there is none. -/
theorem answer_eq_nearestMember? (wf : t.WellFormed) (hc : Grounded t.parentOf c) :
    (TestPlan.ofTaxonomy t).answer (lineage t.parentOf c) =
      (t.nearestMember? c).getD t.root := by
  have hfirst : ((TestPlan.ofTaxonomy t).branches.find? fun b => b.root ∈ lineage t.parentOf c) =
      (t.branchIn? (lineage t.parentOf c)).map (TestPlan.branchOf t) :=
    List.find?_map
  rw [TestPlan.answer, hfirst]
  cases hbranch : t.branchIn? (lineage t.parentOf c) with
  | none =>
    -- Without a branch, the members of the lineage are just those of the catch-all.
    have hdirect : ((TestPlan.ofTaxonomy t).direct.find? fun x => x ∈ lineage t.parentOf c) =
        t.nearestMember? c := by
      rw [TestPlan.ofTaxonomy, find?_bySpecificity hc, nearestMember?]
      refine List.find?_congr fun x hx => decide_eq_decide.2 ⟨fun h => ?_, fun h => ?_⟩
      · exact (mem_membersIn_iff.1 h).1
      · exact wf.mem_membersIn_catchAll hc hbranch h hx
    exact congrArg (·.getD t.root) hdirect
  | some branch =>
    cases hm : t.nearestMember? c with
    | none => simp [wf.branchIn?_eq_none hm] at hbranch
    | some m =>
      simp only [Option.map_some, Option.getD_some]
      rw [wf.find?_probes hc hm hbranch]
      split
      · next hroot => exact hroot.symm
      · rfl

end WellFormed

theorem WellFormed.mem_returnNames_iff (wf : t.WellFormed) {name : String} :
    name ∈ (TestPlan.ofTaxonomy t).returnNames ↔ name ∈ t.members ∨ name = t.root := by
  have hreturn : name ∈ (TestPlan.ofTaxonomy t).returnNames ↔
      (∃ branch ∈ t.branches, name ∈ t.membersIn branch.id ∧ name ≠ branch.root ∨
        name = branch.root) ∨ name ∈ t.membersIn t.catchAll ∨ name = t.root := by
    simp [TestPlan.returnNames, TestPlan.ofTaxonomy, TestPlan.branchOf]
  rw [hreturn]
  constructor
  · rintro (⟨branch, hbranch, ⟨hin, -⟩ | rfl⟩ | hin | rfl)
    · exact .inl (mem_membersIn_iff.1 hin).1
    · exact .inl (wf.root_mem branch hbranch)
    · exact .inl (mem_membersIn_iff.1 hin).1
    · exact .inr rfl
  · rintro (hname | rfl)
    · -- A member is returned where its category is tested.
      have hcategory := wf.categoryOf_eq hname
      cases hfirst : t.branchIn? (lineage t.parentOf name) with
      | none =>
        rw [hfirst] at hcategory
        exact .inr (.inl (mem_membersIn_iff.2 ⟨hname, hcategory⟩))
      | some branch =>
        rw [hfirst] at hcategory
        refine .inl ⟨branch, (mem_of_branchIn? hfirst).1, ?_⟩
        by_cases hroot : name = branch.root
        · exact .inr hroot
        · exact .inl ⟨mem_membersIn_iff.2 ⟨hname, hcategory⟩, hroot⟩
    · exact .inr (.inr rfl)

theorem mem_names_iff {name : String} :
    name ∈ (NameTable.ofTaxonomy t).names ↔ name ∈ t.members ∨ name = t.root := by
  simp [NameTable.names, NameTable.ofTaxonomy, NameTable.armOf, Function.comp_def, or_comm]

end Taxonomy

/-! ### Under a configuration -/

/-- For every class below the root, the classifier answers with the class itself if it is a member,
    with its nearest member ancestor if it is not, and with the root if there is none. The answers
    it can give are the names that the dispatcher knows: the members and the root. -/
theorem classifier_answers_nearest_member {workingDirectory path : String} {document : Json}
    {config : Config} (accepted : Config.ofJson workingDirectory path document = .ok config)
    {entries : List ClassEntry} {t : Taxonomy}
    (built : Taxonomy.build (.ofEntries entries) config.taxonomy = .ok t) :
    (∀ c ∈ Taxonomy.subtree (.ofEntries entries) config.taxonomy,
      (TestPlan.ofTaxonomy t).answer (lineage t.parentOf c) =
        if c ∈ t.members then c
        else ((ancestors t.parentOf c).find? fun a => a ∈ t.members).getD t.root) ∧
    (∀ name, name ∈ (TestPlan.ofTaxonomy t).returnNames ↔ name ∈ t.members ∨ name = t.root) ∧
    (∀ name, name ∈ (NameTable.ofTaxonomy t).names ↔ name ∈ t.members ∨ name = t.root) := by
  have wf := Taxonomy.wellFormed_of_build (Config.fit_of_ofJson accepted) built
  refine ⟨fun c hc => ?_, fun _ => wf.mem_returnNames_iff, fun _ => Taxonomy.mem_names_iff⟩
  rw [wf.answer_eq_nearestMember? (Taxonomy.grounded_of_build built hc),
    Taxonomy.nearestMember?_eq_ite]
  split
  · rfl
  · rfl

/-- The nodes of an excluded class answer with the member above it. -/
theorem classifier_answers_above_excluded :
    Config.ofJson "/work" "/work/generator.config.json" Sample.document = .ok Sample.config ∧
      Taxonomy.build (.ofEntries Sample.dump) Sample.config.taxonomy = .ok Sample.taxonomy ∧
      (TestPlan.ofTaxonomy Sample.taxonomy).answer
        (lineage Sample.taxonomy.parentOf "Node2D") = "CanvasItem" := by
  have hanswer := (classifier_answers_nearest_member Sample.ofJson_document Sample.build_dump).1
    "Node2D" (by decide +kernel)
  refine ⟨Sample.ofJson_document, Sample.build_dump, hanswer.trans ?_⟩
  decide +kernel

end NodeTagging
