import NodeTagging.Proofs.Agreement
import NodeTagging.Proofs.GatedLines
import NodeTagging.Proofs.Rooted

/-!
# Mentioned markers and tested classes

A marker is declared under the gate of its class, and the dispatchers mention it in many places: in
branches and helpers, in chains of removals, and in the arms of classes below it, where the gate of
the arm may stand for its own. Whatever features are enabled, what is left of the lines mentions
only markers that are left of the declarations, and asks only for classes whose gates are enabled.

* `Taxonomy.HasMarker`: the classes whose markers are declared, the root and the members whose
  gates are enabled;
* `WellFormed.mentions_probeDispatcher`, `WellFormed.mentions_nameDispatcher`: every class that is
  mentioned has a marker;
* `conditions_left`: the probes that are left;
* `ClassifierScript.gate?_of_mem_lines`: the script has no type test for a gated class.
-/

namespace NodeTagging

open Hierarchy

variable {enabled : String → Bool} {target : Target} {t : Taxonomy}

/-! ### Mentioned classes -/

section Mentions

theorem mem_leftOf_iff {α : Type} {left : α → List Statement} {g : Gated α} {s : Statement} :
    s ∈ target.leftOf enabled left g ↔
      target.enables enabled g.gate? = true ∧ s ∈ left g.item := by
  rw [Target.leftOf]
  split
  · next hon => rw [and_iff_right hon]
  · next hoff => exact ⟨fun hs => absurd hs List.not_mem_nil, fun hs => absurd hs.1 hoff⟩

theorem mem_insertsLeft_iff {inserts : List (Gated String)} {s : Statement} :
    s ∈ target.insertsLeft enabled inserts ↔
      ∃ g ∈ inserts, target.enables enabled g.gate? = true ∧
        s = .insert (target.markerOf g.item) := by
  simp only [Target.insertsLeft, List.mem_flatMap, mem_leftOf_iff, List.mem_singleton]

namespace Taxonomy

/-- The marker of a class is declared while the given features are enabled: the class is the root,
    or a member whose gate is enabled. -/
def HasMarker (t : Taxonomy) (target : Target) (enabled : String → Bool) (c : String) : Prop :=
  c = t.root ∨ c ∈ t.members ∧ target.enables enabled (t.gates.gate? c) = true

/-- Every marker that a statement mentions is that of a class that has one. -/
def Covers (t : Taxonomy) (target : Target) (enabled : String → Bool) (s : Statement) : Prop :=
  ∀ marker, s.mentioned? = some marker →
    ∃ c, t.HasMarker target enabled c ∧ marker = target.markerOf c

theorem covers_insert {c : String} (h : t.HasMarker target enabled c) :
    t.Covers target enabled (.insert (target.markerOf c)) :=
  fun _ hmarker => ⟨c, h, (Option.some.inj hmarker).symm⟩

theorem covers_remove {c : String} (h : t.HasMarker target enabled c) :
    t.Covers target enabled (.remove (target.markerOf c)) :=
  fun _ hmarker => ⟨c, h, (Option.some.inj hmarker).symm⟩

theorem covers_probe (condition : String) : t.Covers target enabled (.probe condition) :=
  fun _ hmarker => by simp [Statement.mentioned?] at hmarker

/-- Insertions of members are covered if no gate is enabled that the gate of its member is not. -/
theorem covers_insertsLeft {inserts : List (Gated String)}
    (hmembers : ∀ g ∈ inserts, g.item ∈ t.members)
    (hgates : ∀ g ∈ inserts, target.enables enabled g.gate? = true →
      target.enables enabled (t.gates.gate? g.item) = true) :
    ∀ s ∈ target.insertsLeft enabled inserts, t.Covers target enabled s := by
  intro s hs
  obtain ⟨g, hg, hon, rfl⟩ := mem_insertsLeft_iff.1 hs
  exact covers_insert (.inr ⟨hmembers g hg, hgates g hg hon⟩)

/-- A member and its tagged ancestors are members. -/
theorem WellFormed.mem_members_of_tagged (wf : t.WellFormed) {c x : String} (hc : c ∈ t.members)
    (hx : x ∈ t.taggedAncestors c ++ [c]) : x ∈ t.members :=
  ((wf.mem_taggedAncestors_append_iff hc).1 hx).1

/-! ### Chains of removals -/

/-- The chains of a category hold members under the gate of the chain, and none is empty. -/
theorem mem_removalsOf {categoryId : String} {chain : Gated (List String)}
    (h : chain ∈ ProbeDispatcher.removalsOf t categoryId) :
    chain.item = ProbeDispatcher.membersUnder t categoryId chain.gate? ∧ chain.item ≠ [] := by
  rcases List.mem_append.1 h with h | h
  · split at h
    · exact absurd h List.not_mem_nil
    · next hsome =>
      obtain rfl := List.mem_singleton.1 h
      exact ⟨rfl, hsome⟩
  · obtain ⟨tag, htag, rfl⟩ := List.mem_map.1 h
    refine ⟨rfl, ?_⟩
    obtain ⟨c, hc, hgate⟩ := List.mem_filterMap.1 (Text.mem_ordered.1 htag)
    exact List.ne_nil_of_mem (List.mem_filter.2 ⟨hc, by simpa using hgate⟩)

theorem removals_ne_nil (t : Taxonomy) :
    ∀ h ∈ (ProbeDispatcher.ofTaxonomy t).helpers, ∀ chain ∈ h.removals, chain.item ≠ [] := by
  intro h hh chain hchain
  obtain ⟨categoryId, -, rfl⟩ := List.mem_map.1 hh
  exact (mem_removalsOf hchain).2

theorem mem_membersUnder_iff {categoryId c : String} {gate? : Option String} :
    c ∈ ProbeDispatcher.membersUnder t categoryId gate? ↔
      c ∈ t.membersIn categoryId ∧ t.gates.gate? c = gate? := by
  simp [ProbeDispatcher.membersUnder]

/-! ### The dispatchers -/

theorem WellFormed.mentions_probeDispatcher (wf : t.WellFormed) :
    ∀ s ∈ ProbeDispatcher.left target enabled (.ofTaxonomy t), t.Covers target enabled s := by
  intro s hs
  simp only [ProbeDispatcher.left, List.mem_append, List.mem_singleton, List.mem_flatMap] at hs
  rcases hs with ((rfl | hs) | rfl) | ⟨helpers, hhelpers, hs⟩
  · exact covers_insert (.inl rfl)
  · -- In the chain of branches, every insertion is under the gate of its own class.
    obtain ⟨b, hb, hs⟩ := List.mem_flatMap.1 hs
    obtain ⟨branch, hbranch, rfl⟩ := List.mem_map.1 hb
    rcases List.mem_cons.1 hs with rfl | hs
    · exact covers_probe _
    · refine covers_insertsLeft (fun g hg => ?_) (fun g hg hon => ?_) s hs
      · obtain ⟨c, hc, rfl⟩ := List.mem_map.1 hg
        exact wf.mem_members_of_tagged (wf.root_mem branch hbranch) hc
      · obtain ⟨c, -, rfl⟩ := List.mem_map.1 hg
        exact hon
  · exact covers_remove (.inl rfl)
  · obtain ⟨categoryId, -, rfl⟩ := List.mem_map.1 hhelpers
    rcases hs with hs | hs
    · -- A probe and the insertion after it are under the gate of the class.
      obtain ⟨p, hp, hs⟩ := List.mem_flatMap.1 hs
      obtain ⟨c, hc, rfl⟩ := List.mem_map.1 hp
      obtain ⟨hon, hs⟩ := mem_leftOf_iff.1 hs
      rcases List.mem_pair.1 hs with rfl | rfl
      · exact covers_probe _
      · have hmember := (mem_membersIn_iff.1 (List.mem_filter.1 hc).1).1
        exact covers_insert (.inr ⟨hmember, hon⟩)
    · -- A chain of removals is under the one gate of all its classes.
      obtain ⟨chain, hchain, hs⟩ := List.mem_flatMap.1 hs
      obtain ⟨hon, hs⟩ := mem_leftOf_iff.1 hs
      obtain ⟨c, hc, rfl⟩ := List.mem_map.1 hs
      rw [(mem_removalsOf hchain).1, mem_membersUnder_iff] at hc
      obtain ⟨hmember, hgate⟩ := hc
      exact covers_remove (.inr ⟨(mem_membersIn_iff.1 hmember).1, by rwa [hgate]⟩)

theorem WellFormed.mentions_nameDispatcher (wf : t.WellFormed) :
    ∀ s ∈ NameDispatcher.left target enabled (.ofTaxonomy t), t.Covers target enabled s := by
  intro s hs
  rcases List.mem_cons.1 hs with rfl | hs
  · exact covers_insert (.inl rfl)
  · obtain ⟨arm, harm, hs⟩ := List.mem_flatMap.1 hs
    obtain ⟨hon, hs⟩ := mem_leftOf_iff.1 hs
    obtain ⟨nameArm, hnameArm, rfl⟩ := List.mem_map.1 harm
    rcases List.mem_cons.1 hnameArm with rfl | hnameArm
    · exact absurd hs List.not_mem_nil
    · obtain ⟨c, hc, rfl⟩ := List.mem_map.1 hnameArm
      refine covers_insertsLeft (fun g hg => ?_) (fun g hg hinner => ?_) s hs
      · obtain ⟨x, hx, rfl⟩ := List.mem_map.1 hg
        exact wf.mem_members_of_tagged hc hx
      · -- Where the gate of a class is not written again, that of the arm stands for it.
        obtain ⟨x, -, rfl⟩ := List.mem_map.1 hg
        simp only [NameDispatcher.insertIn] at hinner ⊢
        split at hinner
        · next hsame =>
          rw [hsame]
          exact hon
        · exact hinner

/-- The module with both dispatchers leaves what the two of them leave. -/
theorem leaves_dispatcherLines (entry : EntryPoints) :
    Leaves enabled (GeneratedFile.dispatcherLines target entry t)
      (ProbeDispatcher.left target enabled (.ofTaxonomy t) ++
        NameDispatcher.left target enabled (.ofTaxonomy t)) := by
  have huses : Leaves enabled ["", "use " ++ target.commandsImport ++ ";",
      "use " ++ target.handleImport ++ ";", ""] [] :=
    .silent (by simp [Silent, openings, Statement.forms, body])
  have hmodule := ((((leaves_noticeLines target).append huses).append
    (ProbeDispatcher.leaves_lines target entry (removals_ne_nil t))).append .blank).append
      (NameDispatcher.leaves_lines target entry (.ofTaxonomy t))
  rwa [List.nil_append, List.nil_append, List.append_nil] at hmodule

/-- What the declarations leave are the markers of the classes that have one. -/
theorem mem_declarations_left_iff {marker : String} :
    .declare marker ∈ Declarations.left target enabled (.ofTaxonomy t) ↔
      ∃ c, t.HasMarker target enabled c ∧ marker = target.markerOf c := by
  simp only [Declarations.left, Declarations.ofTaxonomy, List.mem_cons, List.mem_flatMap,
    mem_leftOf_iff, List.mem_map, List.not_mem_nil, or_false, Statement.declare.injEq, HasMarker]
  constructor
  · rintro (rfl | ⟨g, ⟨c, hc, rfl⟩, hon, rfl⟩)
    · exact ⟨t.root, .inl rfl, rfl⟩
    · exact ⟨c, .inr ⟨hc, hon⟩, rfl⟩
  · rintro ⟨c, rfl | ⟨hc, hon⟩, rfl⟩
    · exact .inl rfl
    · exact .inr ⟨_, ⟨c, hc, rfl⟩, hon, rfl⟩

end Taxonomy

end Mentions

/-! ### Probed classes -/

section Probes

/-- The classes that the dispatcher for live nodes asks for: the roots of the branches, then the
    members that each helper probes. -/
def Taxonomy.probedClasses (t : Taxonomy) : List String :=
  t.branches.map (·.root) ++ t.categoryIds.flatMap (ProbeDispatcher.probedIn t)

theorem conditions_insertsLeft (inserts : List (Gated String)) :
    (target.insertsLeft enabled inserts).filterMap Statement.condition? = [] := by
  refine List.filterMap_eq_nil_iff.2 fun s hs => ?_
  obtain ⟨g, -, -, rfl⟩ := mem_insertsLeft_iff.1 hs
  rfl

theorem conditions_removalsLeft (removals : List (Gated (List String))) :
    (ProbeDispatcher.removalsLeft target enabled removals).filterMap Statement.condition? = [] := by
  refine List.filterMap_eq_nil_iff.2 fun s hs => ?_
  obtain ⟨chain, -, hs⟩ := List.mem_flatMap.1 hs
  obtain ⟨c, -, rfl⟩ := List.mem_map.1 (mem_leftOf_iff.1 hs).2
  rfl

theorem conditions_nameDispatcher (d : NameDispatcher) :
    (NameDispatcher.left target enabled d).filterMap Statement.condition? = [] := by
  refine List.filterMap_eq_nil_iff.2 fun s hs => ?_
  rcases List.mem_cons.1 hs with rfl | hs
  · rfl
  · obtain ⟨arm, -, hs⟩ := List.mem_flatMap.1 hs
    obtain ⟨g, -, -, rfl⟩ := mem_insertsLeft_iff.1 (mem_leftOf_iff.1 hs).2
    rfl

theorem conditions_probe (condition : String) (others : List Statement) :
    (Statement.probe condition :: others).filterMap Statement.condition? =
      condition :: others.filterMap Statement.condition? :=
  rfl

theorem conditions_branchesLeft (branches : List ProbeBranch) :
    (ProbeDispatcher.branchesLeft target enabled branches).filterMap Statement.condition? =
      branches.map fun b => ProbeDispatcher.probeTest target b.probe := by
  induction branches with
  | nil => rfl
  | cons b branches ih =>
    rw [ProbeDispatcher.branchesLeft, List.flatMap_cons, List.filterMap_append,
      conditions_probe, conditions_insertsLeft, List.map_cons]
    exact congrArg _ ih

theorem conditions_probesLeft (probes : List (Gated Probe)) :
    (ProbeDispatcher.probesLeft target enabled probes).filterMap Statement.condition? =
      (probes.filter fun p => target.enables enabled p.gate?).map fun p =>
        ProbeDispatcher.probeTest target p.item := by
  induction probes with
  | nil => rfl
  | cons p probes ih =>
    rw [ProbeDispatcher.probesLeft, List.flatMap_cons, List.filterMap_append, Target.leftOf]
    split
    · next hon =>
      rw [List.filter_cons, if_pos hon, conditions_probe]
      exact congrArg _ ih
    · next hoff =>
      rw [List.filter_cons, if_neg hoff]
      exact ih

/-- The probes that are left are those of the classes whose gates are enabled, in order. -/
theorem Taxonomy.WellFormed.conditions_left (wf : t.WellFormed) :
    (ProbeDispatcher.left target enabled (.ofTaxonomy t)).filterMap Statement.condition? =
      (t.probedClasses.filter fun c => target.enables enabled (t.gates.gate? c)).map fun c =>
        ProbeDispatcher.probeTest target (ProbeDispatcher.probeOf t c) := by
  -- The roots of branches have no gates, so their probes are always left.
  have hroots : (t.branches.map (·.root)).filter
      (fun c => target.enables enabled (t.gates.gate? c)) = t.branches.map (·.root) := by
    refine List.filter_eq_self.2 fun c hc => ?_
    obtain ⟨branch, hbranch, rfl⟩ := List.mem_map.1 hc
    rw [wf.root_not_gated branch hbranch]
    rfl
  have hhelpers (categoryId : String) :
      (ProbeDispatcher.probesLeft target enabled (ProbeDispatcher.helpersOf t categoryId).probes ++
          ProbeDispatcher.removalsLeft target enabled
            (ProbeDispatcher.helpersOf t categoryId).removals).filterMap Statement.condition? =
        ((ProbeDispatcher.probedIn t categoryId).filter fun c =>
          target.enables enabled (t.gates.gate? c)).map fun c =>
            ProbeDispatcher.probeTest target (ProbeDispatcher.probeOf t c) := by
    rw [List.filterMap_append, conditions_removalsLeft, List.append_nil, conditions_probesLeft,
      ProbeDispatcher.helpersOf, List.filter_map, List.map_map]
    rfl
  have hinsert (marker : String) : [Statement.insert marker].filterMap Statement.condition? = [] :=
    rfl
  have hremove (marker : String) : [Statement.remove marker].filterMap Statement.condition? = [] :=
    rfl
  rw [Taxonomy.probedClasses, List.filter_append, hroots, List.filter_flatMap, List.map_append,
    List.map_flatMap, List.map_map]
  simp only [ProbeDispatcher.left, List.filterMap_append, conditions_branchesLeft,
    List.filterMap_flatMap, ProbeDispatcher.ofTaxonomy, List.flatMap_map, hhelpers, List.map_map,
    hinsert, hremove, List.nil_append, List.append_nil]
  rfl

end Probes

/-! ### Type tests of the script -/

/-- The class that a line of the script tests for with the operator of the language, in the
    condition of an `if` or `elif`. -/
def classTest? (line : String) : Option String :=
  let code := line.toList.dropWhile fun c => c = '\t'
  match ("if ".toList.isPrefixOf? code).or ("elif ".toList.isPrefixOf? code) with
  | none => none
  | some condition =>
    ("node is ".toList.isPrefixOf? condition).map fun test =>
      String.ofList (test.takeWhile fun c => c ≠ ':')

namespace ClassifierScript

section Lines

variable {tabs keyword : String}

/-- What a condition tests for, after any indentation and either word that begins it. -/
theorem classTest?_condition (htabs : tabs = "\t" ∨ tabs = "\t\t")
    (hkeyword : keyword = "if" ∨ keyword = "elif") (condition : String) :
    classTest? (tabs ++ (keyword ++ " " ++ condition)) =
      ("node is ".toList.isPrefixOf? condition.toList).map fun test =>
        String.ofList (test.takeWhile fun c => c ≠ ':') := by
  rcases htabs with rfl | rfl <;> rcases hkeyword with rfl | rfl <;>
    simp [classTest?, List.isPrefixOf?]

end Lines

section Lines

variable {tabs keyword rest c : String} (htabs : tabs = "\t" ∨ tabs = "\t\t")
  (hkeyword : keyword = "if" ∨ keyword = "elif")

include htabs hkeyword

/-- A test for a class, in which the colon after the class is the first one. -/
theorem classTest?_byClass (hc : ':' ∉ c.toList) :
    classTest? (tabs ++ (keyword ++ " " ++ (NodeTest.text (.byClass c) ++ (":" ++ rest)))) =
      some c := by
  have htake := takeWhile_ne_append_cons hc rest.toList
  rw [classTest?_condition htabs hkeyword]
  dsimp only [NodeTest.text]
  simpa [List.isPrefixOf?] using congrArg String.ofList htake

theorem classTest?_byName :
    classTest? (tabs ++ (keyword ++ " " ++ (NodeTest.text (.byName c) ++ (":" ++ rest)))) =
      none := by
  rw [classTest?_condition htabs hkeyword]
  dsimp only [NodeTest.text]
  simp [List.isPrefixOf?]

/-- A test that is by class only for classes without a gate leaves no gated class in its line. -/
theorem gate?_of_classTest? {gates : Gates} {test : NodeTest}
    (htest : ∀ c, test = .byClass c → ':' ∉ c.toList ∧ gates.gate? c = none) {x : String}
    (hx : classTest? (tabs ++ (keyword ++ " " ++ (test.text ++ (":" ++ rest)))) = some x) :
    gates.gate? x = none := by
  cases test with
  | byClass c =>
    obtain ⟨hcolon, hgate⟩ := htest c rfl
    rw [classTest?_byClass htabs hkeyword hcolon] at hx
    rw [← Option.some.inj hx]
    exact hgate
  | byName c =>
    rw [classTest?_byName htabs hkeyword] at hx
    simp at hx

end Lines

theorem probeLine_eq (keyword : String) (probe : ScriptProbe) :
    probeLine keyword probe = keyword ++ " " ++
      (probe.test.text ++ (":" ++ (" return " ++ Text.quoted probe.answer))) := by
  have hcolon : ": return " = ":" ++ " return " := by decide
  simp only [probeLine, hcolon, String.append_assoc]

/-- The lines of a clause are inside of a function. -/
theorem head?_of_mem_clauseLines {keyword line : String} {clause : ScriptClause}
    (h : line ∈ clauseLines keyword clause) : line.toList.head? = some '\t' := by
  cases clause with
  | branch test probes answer =>
    simp only [clauseLines, List.mem_append, List.mem_singleton, List.mem_map] at h
    rcases h with (rfl | ⟨probe, -, rfl⟩) | rfl <;> simp
  | direct probe =>
    rw [List.mem_singleton.1 h]
    simp

theorem head?_of_mem_chainLines {clauses : List ScriptClause} {line : String}
    (h : line ∈ chainLines clauses) : line.toList.head? = some '\t' := by
  cases clauses with
  | nil => exact absurd h List.not_mem_nil
  | cons first others =>
    rcases List.mem_append.1 h with h | h
    · exact head?_of_mem_clauseLines h
    · obtain ⟨clause, -, h⟩ := List.mem_flatMap.1 h
      exact head?_of_mem_clauseLines h

/-- The tests of a clause. -/
def testsOf : ScriptClause → List NodeTest
  | .branch test probes _ => test :: probes.map (·.test)
  | .direct probe => [probe.test]

theorem gate?_of_mem_clauseLines {gates : Gates} {keyword : String}
    (hkeyword : keyword = "if" ∨ keyword = "elif") {clause : ScriptClause}
    (htests : ∀ test ∈ testsOf clause, ∀ c, test = .byClass c →
      ':' ∉ c.toList ∧ gates.gate? c = none) {line : String}
    (hline : line ∈ clauseLines keyword clause) {x : String} (hx : classTest? line = some x) :
    gates.gate? x = none := by
  cases clause with
  | branch test probes answer =>
    rcases List.mem_append.1 hline with hline | hline
    · rcases List.mem_append.1 hline with hline | hline
      · -- The condition of the branch has nothing after its colon.
        have hcond : line = "\t" ++ (keyword ++ " " ++ (test.text ++ (":" ++ ""))) := by
          simpa [String.append_assoc] using hline
        rw [hcond] at hx
        exact gate?_of_classTest? (.inl rfl) hkeyword (htests test List.mem_cons_self) hx
      · obtain ⟨probe, hprobe, rfl⟩ := List.mem_map.1 hline
        rw [probeLine_eq] at hx
        exact gate?_of_classTest? (.inr rfl) (.inl rfl)
          (htests probe.test (List.mem_cons_of_mem _ (List.mem_map_of_mem hprobe))) hx
    · obtain rfl := List.mem_singleton.1 hline
      simp [classTest?, List.isPrefixOf?] at hx
  | direct probe =>
    obtain rfl := List.mem_singleton.1 hline
    rw [probeLine_eq] at hx
    exact gate?_of_classTest? (.inl rfl) hkeyword (htests probe.test List.mem_cons_self) hx

/-- In the script of a taxonomy, only members without a gate are tested for by class. -/
theorem mem_members_of_test (wf : t.WellFormed) {clause : ScriptClause}
    (hclause : clause ∈ (ofTaxonomy t).clauses) {test : NodeTest} (htest : test ∈ testsOf clause)
    {c : String} (hc : test = .byClass c) : c ∈ t.members ∧ t.gates.gate? c = none := by
  -- A test made for a class is by class only if the class has no gate.
  have hprobe {x : String} (hx : x ∈ t.members) (h : NodeTest.ofClass t.gates x = .byClass c) :
      c ∈ t.members ∧ t.gates.gate? c = none := by
    rw [NodeTest.ofClass] at h
    split at h
    · next hnone =>
      obtain rfl := NodeTest.byClass.inj h
      exact ⟨hx, Option.isNone_iff_eq_none.1 hnone⟩
    · simp at h
  subst hc
  rcases List.mem_append.1 hclause with hclause | hclause
  · obtain ⟨b, hb, rfl⟩ := List.mem_map.1 hclause
    obtain ⟨branch, hbranch, rfl⟩ := List.mem_map.1 hb
    rcases List.mem_cons.1 htest with htest | htest
    · obtain rfl := NodeTest.byClass.inj htest
      exact ⟨wf.root_mem branch hbranch, wf.root_not_gated branch hbranch⟩
    · obtain ⟨probe, hprobes, htest⟩ := List.mem_map.1 htest
      obtain ⟨x, hx, rfl⟩ := List.mem_map.1 hprobes
      have hmember := (List.mem_filter.1 (Taxonomy.mem_bySpecificity.1 hx)).1
      exact hprobe (Taxonomy.mem_membersIn_iff.1 hmember).1 htest
  · obtain ⟨x, hx, rfl⟩ := List.mem_map.1 hclause
    exact hprobe (Taxonomy.mem_membersIn_iff.1 (Taxonomy.mem_bySpecificity.1 hx)).1
      (List.mem_singleton.1 htest).symm

theorem gate?_of_mem_chainLines {gates : Gates} {clauses : List ScriptClause}
    (htests : ∀ clause ∈ clauses, ∀ test ∈ testsOf clause, ∀ c, test = .byClass c →
      ':' ∉ c.toList ∧ gates.gate? c = none) {line : String}
    (hline : line ∈ chainLines clauses) {x : String} (hx : classTest? line = some x) :
    gates.gate? x = none := by
  cases clauses with
  | nil => exact absurd hline List.not_mem_nil
  | cons first others =>
    rcases List.mem_append.1 hline with hline | hline
    · exact gate?_of_mem_clauseLines (.inl rfl) (htests first List.mem_cons_self) hline hx
    · obtain ⟨clause, hclause, hline⟩ := List.mem_flatMap.1 hline
      exact gate?_of_mem_clauseLines (.inr rfl)
        (htests clause (List.mem_cons_of_mem first hclause)) hline hx

/-- Around the chain of tests, no line of the script tests for a class. -/
theorem classTest?_of_not_mem_chainLines (target : Target) (entry : EntryPoints)
    (s : ClassifierScript) {line : String} (hline : line ∈ s.lines target entry)
    (hchain : line ∉ chainLines s.clauses) : classTest? line = none := by
  have hhead : ∀ l ∈ ["extends " ++ s.root, "class_name " ++ target.scriptClassName, ""] ++
      target.noticeLines "#" ++ [""], classTest? l = none := by
    simp [Target.noticeLines, classTest?, List.isPrefixOf?]
  have hclassify : ∀ l ∈ classifyLines entry s, l ∉ chainLines s.clauses →
      classTest? l = none := by
    intro l hl hnot
    rcases List.mem_append.1 hl with hl | hl
    · rcases List.mem_append.1 hl with hl | hl
      · rcases List.mem_pair.1 hl with rfl | rfl <;> simp [classTest?, List.isPrefixOf?]
      · exact absurd hl hnot
    · obtain rfl := List.mem_singleton.1 hl
      simp [classTest?, List.isPrefixOf?]
  have hanalysis : ∀ l ∈ [""] ++ analysisLines entry s, classTest? l = none := by
    simp [analysisLines, classTest?, List.isPrefixOf?]
  rw [lines, List.append_assoc] at hline
  rcases List.mem_append.1 hline with hline | hline
  · rcases List.mem_append.1 hline with hline | hline
    · exact hhead line hline
    · exact hclassify line hline hchain
  · exact hanalysis line hline

/-- No line of the script tests with the operator for a gated class. -/
theorem gate?_of_mem_lines (wf : t.WellFormed) (hcolon : ∀ c ∈ t.members, ':' ∉ c.toList)
    (target : Target) (entry : EntryPoints) {line : String}
    (hline : line ∈ (ofTaxonomy t).lines target entry) {x : String}
    (hx : classTest? line = some x) : t.gates.gate? x = none := by
  by_cases hchain : line ∈ chainLines (ofTaxonomy t).clauses
  · refine gate?_of_mem_chainLines (fun clause hclause test htest c hc => ?_) hchain hx
    obtain ⟨hmember, hgate⟩ := mem_members_of_test wf hclause htest hc
    exact ⟨hcolon c hmember, hgate⟩
  · rw [classTest?_of_not_mem_chainLines target entry _ hline hchain] at hx
    simp at hx

end ClassifierScript

/-! ### Names -/

theorem isAlphanum_of_identifier {c : String} (h : Json.NamePattern.identifier.matches? c)
    {d : Char} (hd : d ∈ c.toList) : d.isAlphanum ∨ d = '_' := by
  cases hchars : c.toList with
  | nil => simp [hchars] at hd
  | cons first others =>
    rw [hchars] at hd
    simp only [Json.NamePattern.matches?, hchars, Bool.and_eq_true, Bool.or_eq_true,
      decide_eq_true_iff, List.all_eq_true] at h
    rcases List.mem_cons.1 hd with rfl | hd
    · exact h.1.imp_left fun halpha => by simp [Char.isAlphanum, halpha]
    · exact h.2 d hd

theorem colon_not_mem_of_identifier {c : String}
    (h : Json.NamePattern.identifier.matches? c) : ':' ∉ c.toList :=
  fun hcolon => absurd (isAlphanum_of_identifier h hcolon) (by decide)

/-! ### A small engine -/

namespace Sample

/-- The plan of the engine under the configuration. -/
def plan : RunPlan where
  taxonomy := taxonomy
  files := GeneratedFile.render {} {} taxonomy config.paths.generated
  warnings := taxonomy.audit

theorem make_dump : RunPlan.make (.ofEntries dump) config = .ok plan := by
  rw [RunPlan.make, build_dump]
  rfl

theorem identifiers_dump :
    ∀ e ∈ dump, Json.NamePattern.identifier.matches? e.name := by
  decide +kernel

end Sample

end NodeTagging
