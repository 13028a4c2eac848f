import Mathlib.Data.List.Flatten
import Mathlib.Data.List.Nodup
import Mathlib.Data.List.Perm.Basic
import Mathlib.Data.Option.Basic
import NodeTagging.Proofs.Gating

/-!
# The places of a marker

The dispatchers do not go through the members as the declarations do. They split them up, by
category, then into the branch root and the others, or by gate, and write each part in another
place. Put together again, the parts are all the members, each once. So the lines that remove
markers remove those that are declared, each once (`WellFormed.perm_removed`), those that add
markers can add the same ones (`mem_inserted_adding_iff`), and each member is probed in one place
(`perm_probedClasses`).

* `perm_flatMap_filter`: a list that is split up by a key, over all keys, is only rearranged;
* `perm_removals`: the chains of removals of a category hold its members;
* `WellFormed.perm_categories`: the categories hold the members;
* `perm_probedClasses`: the branch roots with what the helpers probe are the members.

The statements are read off all lines here, also those under gates that are not enabled.
-/

namespace NodeTagging

/-! ### Splitting by a key -/

section Keys

variable {α κ : Type} [DecidableEq κ] {key : α → κ}

/-- A list split up by a key, over all keys that occur in it, is only rearranged. -/
theorem perm_flatMap_filter {keys : List κ} (hkeys : keys.Nodup) {l : List α}
    (h : ∀ a ∈ l, key a ∈ keys) : (keys.flatMap fun k => l.filter fun a => key a = k).Perm l := by
  induction keys generalizing l with
  | nil =>
    obtain rfl : l = [] := List.eq_nil_iff_forall_not_mem.2 fun a ha => by simpa using h a ha
    rfl
  | cons k keys ih =>
    obtain ⟨hk, hkeys⟩ := List.nodup_cons.1 hkeys
    -- The parts of the other keys are those of the list without the part of the first key.
    have hothers : (keys.flatMap fun k' => l.filter fun a => key a = k') =
        keys.flatMap fun k' => (l.filter fun a => ¬ key a = k).filter fun a => key a = k' := by
      refine List.flatMap_congr fun k' hk' => ?_
      have hne : k' ≠ k := ne_of_mem_of_not_mem hk' hk
      rw [List.filter_filter]
      refine List.filter_congr fun a _ => ?_
      by_cases hkey : key a = k' <;> simp [hkey, hne]
    have hrest : ∀ a ∈ l.filter fun a => ¬ key a = k, key a ∈ keys := by
      intro a ha
      obtain ⟨hl, hne⟩ := List.mem_filter.1 ha
      exact (List.mem_cons.1 (h a hl)).resolve_left (of_decide_eq_true hne)
    rw [List.flatMap_cons, hothers]
    refine ((ih hkeys hrest).append_left _).trans ?_
    simpa using List.filter_append_perm (fun a => decide (key a = k)) l

end Keys

namespace Taxonomy

variable {t : Taxonomy}

/-! ### Parts of the members -/

/-- The chains of removals of a category hold its members, each in the chain of its gate. -/
theorem perm_removals (categoryId : String) :
    ((ProbeDispatcher.removalsOf t categoryId).flatMap (·.item)).Perm (t.membersIn categoryId) := by
  let keys := none :: (ProbeDispatcher.tagsOf t categoryId).map some
  have hkeys : keys.Nodup :=
    List.nodup_cons.2 ⟨by simp,
      (Text.nodup_ordered _).map (Option.some_injective _)⟩
  have hmem : ∀ c ∈ t.membersIn categoryId, t.gates.gate? c ∈ keys := by
    intro c hc
    cases hgate : t.gates.gate? c with
    | none => exact List.mem_cons_self
    | some tag =>
      refine List.mem_cons_of_mem _ (List.mem_map_of_mem (Text.mem_ordered.2 ?_))
      exact List.mem_filterMap.2 ⟨c, hc, hgate⟩
  have hchains : (ProbeDispatcher.removalsOf t categoryId).flatMap (·.item) =
      keys.flatMap (ProbeDispatcher.membersUnder t categoryId) := by
    rw [ProbeDispatcher.removalsOf, List.flatMap_append, List.flatMap_map, List.flatMap_cons,
      List.flatMap_map]
    congr 1
    split
    · next hnone => rw [hnone, List.flatMap_nil]
    · rw [List.flatMap_singleton]
  rw [hchains]
  exact perm_flatMap_filter hkeys hmem

namespace WellFormed

theorem nodup_categoryIds (wf : t.WellFormed) : t.categoryIds.Nodup := by
  refine List.nodup_append.2 ⟨?_, List.nodup_singleton _, ?_⟩
  · exact List.pairwise_map.2 (wf.apart.imp fun h => h.1)
  · intro id hid other hother
    obtain ⟨branch, hbranch, rfl⟩ := List.mem_map.1 hid
    rw [List.mem_singleton.1 hother]
    exact wf.id_ne_catchAll branch hbranch

/-- The category of a member is one of those with helpers. -/
theorem exists_categoryOf (wf : t.WellFormed) {c : String} (hc : c ∈ t.members) :
    ∃ id ∈ t.categoryIds, t.categoryOf.get? c = some id := by
  refine ⟨_, ?_, wf.categoryOf_eq hc⟩
  cases hfirst : t.branchIn? (Hierarchy.lineage t.parentOf c) with
  | none => exact List.mem_append_right _ (List.mem_singleton_self _)
  | some branch =>
    exact List.mem_append_left _ (List.mem_map_of_mem (mem_of_branchIn? hfirst).1)

/-- The categories hold the members, each in its own one. -/
theorem perm_categories (wf : t.WellFormed) :
    (t.categoryIds.flatMap t.membersIn).Perm t.members := by
  have hkeys : (t.categoryIds.map some).Nodup :=
    wf.nodup_categoryIds.map (Option.some_injective _)
  have hmem : ∀ c ∈ t.members, t.categoryOf.get? c ∈ t.categoryIds.map some := by
    intro c hc
    obtain ⟨id, hid, hcategory⟩ := wf.exists_categoryOf hc
    rw [hcategory]
    exact List.mem_map_of_mem hid
  have hsplit := perm_flatMap_filter hkeys hmem
  rw [List.flatMap_map] at hsplit
  exact hsplit

theorem nodup_roots (wf : t.WellFormed) : (t.branches.map (·.root)).Nodup :=
  List.pairwise_map.2 (wf.apart.imp fun h => h.2)

end WellFormed

/-- The members of a category that are not the root of any branch. -/
def othersIn (t : Taxonomy) (categoryId : String) : List String :=
  (t.membersIn categoryId).filter fun c => c ∉ t.branches.map (·.root)

/-- The root of a branch is in the category of the branch. -/
theorem get?_categoryOf_root {graph : Inheritance} {rules : TaxonomyRules}
    (h : build graph rules = .ok t) {branch : Category} (hbranch : branch ∈ t.branches) :
    t.categoryOf.get? branch.root = some branch.id := by
  obtain ⟨-, gates, -, rfl⟩ := build_eq_ok_iff.1 h
  exact of_decide_eq_true (List.mem_filter.1 hbranch).2

section Probed

variable (wf : t.WellFormed)
  (hroots : ∀ branch ∈ t.branches, t.categoryOf.get? branch.root = some branch.id)

include wf hroots

/-- The helper of a category probes all its members that are not the root of any branch, though it
    leaves out only the root of its own branch. -/
theorem probedIn_eq (categoryId : String) :
    ProbeDispatcher.probedIn t categoryId = t.othersIn categoryId := by
  refine List.filter_congr fun c hc =>
    decide_eq_decide.2 (not_congr ⟨fun hown => ?_, fun hroot => ?_⟩)
  · obtain ⟨branch, hfirst, hc⟩ := Option.map_eq_some_iff.1 hown
    exact List.mem_map.2 ⟨branch, List.mem_of_find?_eq_some hfirst, hc⟩
  · obtain ⟨branch, hbranch, rfl⟩ := List.mem_map.1 hroot
    have hcategory := (mem_membersIn_iff.1 hc).2
    rw [hroots branch hbranch] at hcategory
    rw [← Option.some.inj hcategory]
    exact wf.branchRoot?_branch hbranch

theorem probedClasses_eq :
    t.probedClasses = t.branches.map (·.root) ++ t.categoryIds.flatMap t.othersIn := by
  rw [probedClasses]
  exact congrArg _ (List.flatMap_congr fun id _ => probedIn_eq wf hroots id)

/-- The roots of the branches with what the helpers probe are the members, each once. -/
theorem perm_probedClasses : t.probedClasses.Perm t.members := by
  let roots := t.branches.map (·.root)
  have hothers : (t.categoryIds.flatMap t.othersIn).Perm (t.members.filter fun c => c ∉ roots) := by
    have hfilter : t.categoryIds.flatMap t.othersIn =
        (t.categoryIds.flatMap t.membersIn).filter fun c => c ∉ roots :=
      List.filter_flatMap.symm
    rw [hfilter]
    exact wf.perm_categories.filter _
  have hmembers : roots.Perm (t.members.filter fun c => c ∈ roots) := by
    refine (List.perm_ext_iff_of_nodup wf.nodup_roots (wf.nodup_members.filter _)).2 fun c => ?_
    rw [List.mem_filter, decide_eq_true_iff]
    refine ⟨fun hc => ⟨?_, hc⟩, fun hc => hc.2⟩
    obtain ⟨branch, hbranch, rfl⟩ := List.mem_map.1 hc
    exact wf.root_mem branch hbranch
  rw [probedClasses_eq wf hroots]
  refine (hmembers.append hothers).trans ?_
  simpa using List.filter_append_perm (fun c => decide (c ∈ roots)) t.members

end Probed

end Taxonomy

/-! ### What all lines say -/

namespace Statement

/-- The marker that a statement declares. -/
def declared? : Statement → Option String
  | declare marker => some marker
  | insert _ | remove _ | probe _ => none

/-- The marker that a statement inserts. -/
def inserted? : Statement → Option String
  | insert marker => some marker
  | declare _ | remove _ | probe _ => none

/-- The marker that a statement removes. -/
def removed? : Statement → Option String
  | remove marker => some marker
  | declare _ | insert _ | probe _ => none

end Statement

/-- The statements of lines, under whatever gates they stand. -/
def statementsOf (lines : List String) : List Statement :=
  lines.filterMap Statement.ofLine?

theorem statementsOf_append (lines lines' : List String) :
    statementsOf (lines ++ lines') = statementsOf lines ++ statementsOf lines' :=
  List.filterMap_append

theorem statementsOf_flatMap {α : Type} (items : List α) (f : α → List String) :
    statementsOf (items.flatMap f) = items.flatMap fun x => statementsOf (f x) :=
  List.filterMap_flatMap

theorem statementsOf_eq_nil {lines : List String} (h : ∀ line ∈ lines, Silent line) :
    statementsOf lines = [] :=
  List.filterMap_eq_nil_iff.2 fun line hline => ofLine?_of_silent (h line hline)

section AllFeatures

variable {target : Target} {t : Taxonomy}

theorem compiled_all (lines : List String) : compiled (fun _ => true) lines = lines := by
  induction lines with
  | nil => rw [compiled]
  | cons line lines ih =>
    cases hfeature : featureOf? line with
    | none => rw [compiled_cons_of_plain hfeature, ih]
    | some feature => rw [compiled_cons_of_enabled hfeature rfl, ih]

/-- With all features enabled, lines leave all that they say. -/
theorem Leaves.statementsOf_eq {lines : List String} {left : List Statement}
    (h : Leaves (fun _ => true) lines left) : statementsOf lines = left := by
  rw [← h.statements_eq, statements, compiled_all]
  rfl

@[simp]
theorem enables_all (gate? : Option String) : target.enables (fun _ => true) gate? = true := by
  cases gate? <;> rfl

@[simp]
theorem leftOf_all {α : Type} (left : α → List Statement) :
    target.leftOf (fun _ => true) left = fun g => left g.item := by
  funext g
  rw [Target.leftOf, if_pos (enables_all g.gate?)]

theorem insertsLeft_all (inserts : List (Gated String)) :
    target.insertsLeft (fun _ => true) inserts =
      inserts.map fun g => .insert (target.markerOf g.item) := by
  rw [Target.insertsLeft, leftOf_all, ← List.map_eq_flatMap]

end AllFeatures

/-! ### The places together -/

namespace ProbeDispatcher

variable {enabled : String → Bool} (target : Target) (entry : EntryPoints) (d : ProbeDispatcher)

/-- The lines of the functions that add markers: the entry point and the helper of each category. -/
def addingLines : List String :=
  applyLines target entry d ++ d.helpers.flatMap (applyHelperLines target)

/-- The lines of the functions that remove markers. -/
def removingLines : List String :=
  removeLines target entry d ++ d.helpers.flatMap (removeHelperLines target)

theorem leaves_addingLines :
    Leaves enabled (addingLines target entry d)
      (.insert (target.markerOf d.base) :: branchesLeft target enabled d.branches ++
        d.helpers.flatMap fun h => probesLeft target enabled h.probes) :=
  (leaves_applyLines target entry d).append
    (.flatMap fun h _ => leaves_applyHelperLines target h)

theorem leaves_removingLines {d : ProbeDispatcher}
    (hchains : ∀ h ∈ d.helpers, ∀ c ∈ h.removals, c.item ≠ []) :
    Leaves enabled (removingLines target entry d)
      (.remove (target.markerOf d.base) ::
        d.helpers.flatMap fun h => removalsLeft target enabled h.removals) :=
  (leaves_removeLines target entry d).append
    (.flatMap fun h hh => leaves_removeHelperLines target (hchains h hh))

end ProbeDispatcher

namespace Taxonomy

variable (target : Target) (entry : EntryPoints) {t : Taxonomy}

/-- The markers of the root and of the members. -/
def markers (t : Taxonomy) (target : Target) : List String :=
  (t.root :: t.members).map target.markerOf

theorem WellFormed.nodup_markers (wf : t.WellFormed) : (t.markers target).Nodup := by
  have hclasses : (t.root :: t.members).Nodup :=
    List.nodup_cons.2 ⟨wf.root_not_mem, wf.nodup_members⟩
  exact hclasses.map fun a b hab => (String.append_left_inj target.markerSuffix).1 hab

theorem declared_left :
    (Declarations.left target (fun _ => true) (.ofTaxonomy t)).filterMap Statement.declared? =
      t.markers target := by
  rw [Declarations.left, leftOf_all, ← List.map_eq_flatMap, List.filterMap_cons,
    List.filterMap_map]
  simp [Declarations.ofTaxonomy, markers, Function.comp_def, Statement.declared?, Taxonomy.gated]

/-- The functions that remove markers remove each marker once. -/
theorem WellFormed.perm_removed (wf : t.WellFormed) :
    ((statementsOf (ProbeDispatcher.removingLines target entry (.ofTaxonomy t))).filterMap
      Statement.removed?).Perm (t.markers target) := by
  have hchain (categoryId : String) : (ProbeDispatcher.removalsLeft target (fun _ => true)
      (ProbeDispatcher.removalsOf t categoryId)).filterMap Statement.removed? =
        ((ProbeDispatcher.removalsOf t categoryId).flatMap (·.item)).map target.markerOf := by
    simp [ProbeDispatcher.removalsLeft, List.filterMap_flatMap, List.map_flatMap,
      List.filterMap_map, Function.comp_def, Statement.removed?]
  have hremoved : (statementsOf (ProbeDispatcher.removingLines target entry
      (.ofTaxonomy t))).filterMap Statement.removed? =
      (t.root :: t.categoryIds.flatMap fun id =>
        (ProbeDispatcher.removalsOf t id).flatMap (·.item)).map target.markerOf := by
    rw [(ProbeDispatcher.leaves_removingLines target entry (removals_ne_nil t)).statementsOf_eq,
      List.filterMap_cons, List.filterMap_flatMap, List.map_cons, List.map_flatMap,
      ProbeDispatcher.ofTaxonomy, List.flatMap_map]
    exact congrArg _ (List.flatMap_congr fun id _ => hchain id)
  have hmembers : (t.categoryIds.flatMap fun id =>
      (ProbeDispatcher.removalsOf t id).flatMap (·.item)).Perm t.members :=
    (List.Perm.flatMap_left _ fun id _ => perm_removals id).trans wf.perm_categories
  rw [hremoved]
  exact (hmembers.cons _).map _

/-- The functions that add markers insert, one after another, the marker of the root, in each
    branch those of the tagged ancestors and of the branch root, and in each helper those of the
    classes that it probes. -/
theorem inserted_adding :
    (statementsOf (ProbeDispatcher.addingLines target entry (.ofTaxonomy t))).filterMap
        Statement.inserted? =
      (t.root ::
        (t.branches.flatMap fun branch => t.taggedAncestors branch.root ++ [branch.root]) ++
        t.categoryIds.flatMap (ProbeDispatcher.probedIn t)).map target.markerOf := by
  have hbranch (branch : Category) :
      ((.probe (ProbeDispatcher.probeTest target (ProbeDispatcher.branchOf t branch).probe) ::
        target.insertsLeft (fun _ => true) (ProbeDispatcher.branchOf t branch).inserts).filterMap
          Statement.inserted?) =
        (t.taggedAncestors branch.root ++ [branch.root]).map target.markerOf := by
    rw [insertsLeft_all, ProbeDispatcher.branchOf, List.filterMap_cons, List.map_map,
      List.filterMap_map]
    simp [Statement.inserted?, Function.comp_def, Taxonomy.gated]
  have hhelper (categoryId : String) :
      (ProbeDispatcher.probesLeft target (fun _ => true)
        (ProbeDispatcher.helpersOf t categoryId).probes).filterMap Statement.inserted? =
        (ProbeDispatcher.probedIn t categoryId).map target.markerOf := by
    rw [ProbeDispatcher.probesLeft, leftOf_all, ProbeDispatcher.helpersOf, List.flatMap_map,
      List.filterMap_flatMap, List.map_eq_flatMap]
    rfl
  rw [(ProbeDispatcher.leaves_addingLines target entry _).statementsOf_eq, List.filterMap_append,
    List.filterMap_cons, ProbeDispatcher.branchesLeft, List.filterMap_flatMap,
    List.filterMap_flatMap, ProbeDispatcher.ofTaxonomy, List.flatMap_map, List.flatMap_map,
    List.cons_append, List.map_cons, List.map_append, List.map_flatMap, List.map_flatMap]
  simp only [hbranch, hhelper]
  rfl

section Together

variable (wf : t.WellFormed)
  (hroots : ∀ branch ∈ t.branches, t.categoryOf.get? branch.root = some branch.id)

include wf hroots

/-- The markers that the functions can add are those of the root and of the members. -/
theorem mem_inserted_adding_iff {marker : String} :
    marker ∈ (statementsOf (ProbeDispatcher.addingLines target entry (.ofTaxonomy t))).filterMap
        Statement.inserted? ↔ marker ∈ t.markers target := by
  suffices hclasses : ∀ c, c ∈ (t.root ::
      (t.branches.flatMap fun branch => t.taggedAncestors branch.root ++ [branch.root]) ++
      t.categoryIds.flatMap (ProbeDispatcher.probedIn t)) ↔ c ∈ t.root :: t.members by
    rw [inserted_adding, markers, List.mem_map, List.mem_map]
    exact exists_congr fun c => and_congr_left fun _ => hclasses c
  intro c
  rw [List.cons_append, List.mem_cons, List.mem_cons]
  refine or_congr_right ⟨fun hc => ?_, fun hc => ?_⟩
  · rcases List.mem_append.1 hc with hc | hc
    · obtain ⟨branch, hbranch, hc⟩ := List.mem_flatMap.1 hc
      exact wf.mem_members_of_tagged (wf.root_mem branch hbranch) hc
    · exact (perm_probedClasses wf hroots).subset (List.mem_append_right _ hc)
  · -- A member is probed somewhere, and its marker is inserted there.
    rcases List.mem_append.1 ((perm_probedClasses wf hroots).symm.subset hc) with hc | hc
    · obtain ⟨branch, hbranch, rfl⟩ := List.mem_map.1 hc
      refine List.mem_append_left _ (List.mem_flatMap.2 ⟨branch, hbranch, ?_⟩)
      exact List.mem_append_right _ (List.mem_singleton_self _)
    · exact List.mem_append_right _ hc

omit hroots in
/-- The markers that a type name can receive are those of the root and of members. -/
theorem mem_markers_of_inserted_names {marker : String}
    (h : marker ∈ (statementsOf ((NameDispatcher.ofTaxonomy t).lines target entry)).filterMap
      Statement.inserted?) : marker ∈ t.markers target := by
  rw [(NameDispatcher.leaves_lines target entry (.ofTaxonomy t)).statementsOf_eq] at h
  obtain ⟨s, hs, hmarker⟩ := List.mem_filterMap.1 h
  have hmentioned : s.mentioned? = some marker := by
    cases s <;> simp_all [Statement.inserted?, Statement.mentioned?]
  obtain ⟨c, hc, rfl⟩ := wf.mentions_nameDispatcher s hs marker hmentioned
  exact List.mem_map_of_mem (List.mem_cons.2 (hc.imp_right And.left))

end Together

/-! ### Probes -/

/-- The test for a class. -/
def testOf (t : Taxonomy) (target : Target) (c : String) : String :=
  ProbeDispatcher.probeTest target (ProbeDispatcher.probeOf t c)

theorem conditions_applyLines :
    (statementsOf (ProbeDispatcher.applyLines target entry (.ofTaxonomy t))).filterMap
        Statement.condition? = (t.branches.map (·.root)).map (t.testOf target) := by
  rw [(ProbeDispatcher.leaves_applyLines target entry _).statementsOf_eq, List.filterMap_cons,
    conditions_branchesLeft, ProbeDispatcher.ofTaxonomy, List.map_map, List.map_map]
  rfl

theorem conditions_applyHelperLines (categoryId : String) :
    (statementsOf (ProbeDispatcher.applyHelperLines target
        (ProbeDispatcher.helpersOf t categoryId))).filterMap Statement.condition? =
      (ProbeDispatcher.probedIn t categoryId).map (t.testOf target) := by
  rw [(ProbeDispatcher.leaves_applyHelperLines target _).statementsOf_eq, conditions_probesLeft,
    List.filter_eq_self.2 fun _ _ => enables_all _, ProbeDispatcher.helpersOf, List.map_map]
  rfl

theorem WellFormed.conditions_left_all (wf : t.WellFormed) :
    (ProbeDispatcher.left target (fun _ => true) (.ofTaxonomy t) ++
        NameDispatcher.left target (fun _ => true) (.ofTaxonomy t)).filterMap
      Statement.condition? = t.probedClasses.map (t.testOf target) := by
  rw [List.filterMap_append, wf.conditions_left, conditions_nameDispatcher, List.append_nil,
    List.filter_eq_self.2 fun _ _ => enables_all _]
  rfl

end Taxonomy

end NodeTagging
