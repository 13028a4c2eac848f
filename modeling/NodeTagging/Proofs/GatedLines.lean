import NodeTagging.Proofs.Conditional

/-!
# What is left of the generated lines

What the lines of a plan leave under a set of features, part by part. Every part is put together
from whole items and silent lines, so that each place where an attribute line is written is looked
at once:

* `leaves_insertionLines`: an insertion is left if its gate is enabled;
* `ProbeDispatcher.leaves_lines`: of the dispatcher for live nodes, the probes of the branches are
  always left, and those of the members with the insertions after them if their gates are enabled;
* `NameDispatcher.leaves_lines`: of an arm, nothing is left unless its gate is enabled, and then the
  insertions whose own gates are;
* `Declarations.leaves_lines`: the declarations whose gates are enabled.
-/

namespace NodeTagging

variable {enabled : String → Bool}

/-! ### Insertions -/

namespace Target

variable (target : Target) (enabled : String → Bool)

/-- What something under a gate leaves: nothing, unless the gate is enabled. -/
def leftOf {α : Type} (left : α → List Statement) (g : Gated α) : List Statement :=
  if target.enables enabled g.gate? then left g.item else []

/-- What the insertions of classes under their gates leave. -/
def insertsLeft (inserts : List (Gated String)) : List Statement :=
  inserts.flatMap (target.leftOf enabled fun c => [.insert (target.markerOf c)])

end Target

variable (target : Target)

theorem getLast?_insertStatement (c : String) :
    (target.insertStatement c).toList.getLast? = some ';' :=
  getLast?_append _ (by simp)

theorem ofLine?_insertStatement (c : String) :
    Statement.ofLine? (target.insertStatement c) = some (.insert (target.markerOf c)) :=
  Statement.ofLine?_insert _

/-- An insertion that stands under no gate is left. -/
theorem leaves_insertStatement (depth : Nat) (c : String) :
    Leaves enabled [indent depth (target.insertStatement c)] [.insert (target.markerOf c)] :=
  .statement (by rw [Statement.ofLine?_indent, ofLine?_insertStatement])

/-- An insertion is left if its gate is enabled. -/
theorem leaves_insertionLines (depth : Nat) (g : Gated String) :
    Leaves enabled (target.insertionLines depth g)
      (target.leftOf enabled (fun c => [.insert (target.markerOf c)]) g) := by
  have hend : (indent depth (target.insertStatement g.item)).toList.getLast? = some ';' :=
    getLast?_append _ (getLast?_insertStatement target g.item)
  exact .gated target depth g.gate? (whole_of_end hend (.inl rfl))
    (leaves_insertStatement target depth g.item)

theorem leaves_insertions (depth : Nat) (inserts : List (Gated String)) :
    Leaves enabled (inserts.flatMap (target.insertionLines depth))
      (target.insertsLeft enabled inserts) :=
  .flatMap fun g _ => leaves_insertionLines target depth g

/-- All lines of insertions are indented. -/
theorem exists_indent_of_mem_insertions {depth : Nat} {inserts : List (Gated String)} {l : String}
    (h : l ∈ inserts.flatMap (target.insertionLines depth)) : ∃ line, l = indent depth line := by
  obtain ⟨g, -, hl⟩ := List.mem_flatMap.1 h
  rcases List.mem_append.1 hl with hl | hl
  · obtain ⟨tag, -, rfl⟩ : ∃ tag, g.gate? = some tag ∧
        indent depth (target.featureAttribute tag) = l := by
      simpa [Target.gateLines] using hl
    exact ⟨_, rfl⟩
  · exact ⟨_, List.mem_singleton.1 hl⟩

/-- The notice at the top of a generated module says nothing. -/
theorem leaves_noticeLines : Leaves enabled (target.noticeLines "//") [] :=
  .silent (by simp [Target.noticeLines, Silent, openings, Statement.forms, body])

/-! ### Live nodes -/

namespace ProbeDispatcher

variable (entry : EntryPoints) (d : ProbeDispatcher)

/-- What branches leave: their probes, and after each what is left of its insertions. -/
def branchesLeft (enabled : String → Bool) (branches : List ProbeBranch) : List Statement :=
  branches.flatMap fun b =>
    .probe (probeTest target b.probe) :: target.insertsLeft enabled b.inserts

/-- The lines of a branch leave its probe and what is left of its insertions. -/
theorem leaves_branchLines {keyword : String} (hkeyword : keyword = "if" ∨ keyword = "\x7d else if")
    (b : ProbeBranch) :
    Leaves enabled (branchLines target keyword b)
      (.probe (probeTest target b.probe) :: target.insertsLeft enabled b.inserts) := by
  have hprobe : Statement.ofLine? (indent 1 (keyword ++ " " ++ probeTest target b.probe ++ " \x7b"))
      = some (.probe (probeTest target b.probe)) := by
    rw [Statement.ofLine?_indent]
    rcases hkeyword with rfl | rfl
    · exact Statement.ofLine?_if _
    · exact Statement.ofLine?_elseIf _
  have hcall : Leaves enabled [indent 2 (applyCall b.categoryId)] [] :=
    .silent (by simp [applyCall, helperFunction, Silent, openings, Statement.forms, body, indent])
  simpa [branchLines] using
    ((Leaves.statement hprobe).append (leaves_insertions target 2 b.inserts)).append hcall

/-- The chain of branches leaves what its branches do. -/
theorem leaves_branchChain (branches : List ProbeBranch) :
    Leaves enabled (branchChain target branches) (branchesLeft target enabled branches) := by
  cases branches with
  | nil => exact .nil
  | cons first others =>
    have hend : Leaves enabled [indent 1 "\x7d", ""] [] :=
      .silent (by simp [Silent, openings, Statement.forms, body, indent])
    have hothers : Leaves enabled (others.flatMap (branchLines target "\x7d else if"))
        (branchesLeft target enabled others) :=
      .flatMap fun b _ => leaves_branchLines target (.inr rfl) b
    simpa [branchChain, branchesLeft] using
      ((leaves_branchLines target (.inl rfl) first).append hothers).append hend

theorem leaves_applyLines :
    Leaves enabled (applyLines target entry d)
      (.insert (target.markerOf d.base) :: branchesLeft target enabled d.branches) := by
  have hhead : Leaves enabled
      ["/// Adds every marker that applies to `node`, probing in full only the",
        "/// branch of the hierarchy the node belongs to.", "pub fn " ++ entry.apply ++ "(",
        indent 1 "entity_commands: &mut EntityCommands,",
        indent 1 ("node: &mut " ++ target.handleType ++ ","), ") \x7b"] [] :=
    .silent (by simp [Silent, openings, Statement.forms, body, indent])
  have hbase : Leaves enabled [indent 1 (target.insertStatement d.base)]
      [.insert (target.markerOf d.base)] :=
    leaves_insertStatement target 1 d.base
  have hend : Leaves enabled [indent 1 (applyCall d.catchAll), "\x7d"] [] :=
    .silent (by simp [applyCall, helperFunction, Silent, openings, Statement.forms, body, indent])
  simpa [applyLines] using
    hhead.append (hbase.append (Leaves.blank.append
      ((leaves_branchChain target d.branches).append hend)))

theorem leaves_removeLines :
    Leaves enabled (removeLines target entry d) [.remove (target.markerOf d.base)] := by
  have hhead : Leaves enabled
      ["/// Removes every marker `" ++ entry.apply ++ "` or `" ++ entry.fromType ++ "`",
        "/// can add, without knowing which ones were applied.",
        "pub fn " ++ entry.remove ++ "(entity_commands: &mut EntityCommands) \x7b"] [] :=
    .silent (by simp [Silent, openings, Statement.forms, body])
  have hbase : Leaves enabled
      [indent 1 ("entity_commands.remove::<" ++ target.markerOf d.base ++ ">();")]
      [.remove (target.markerOf d.base)] :=
    .statement (by rw [Statement.ofLine?_indent, Statement.ofLine?_removeFrom])
  have hcalls : Leaves enabled (d.helpers.map fun h =>
      indent 1 (helperFunction "remove" h.categoryId ++ "(entity_commands);")) [] := by
    refine .silent fun line hline => ?_
    obtain ⟨h, -, rfl⟩ := List.mem_map.1 hline
    simp [helperFunction, Silent, openings, Statement.forms, body, indent]
  simpa [removeLines] using hhead.append (hbase.append (hcalls.append .closing))

/-- What the lines of a member leave: its probe and the insertion after it, if its gate is
    enabled. -/
def probesLeft (enabled : String → Bool) (probes : List (Gated Probe)) : List Statement :=
  probes.flatMap (target.leftOf enabled fun p =>
    [.probe (probeTest target p), .insert (target.markerOf p.className)])

theorem leaves_probeLines (p : Gated Probe) :
    Leaves enabled (probeLines target p)
      (target.leftOf enabled (fun p =>
        [.probe (probeTest target p), .insert (target.markerOf p.className)]) p) := by
  have hwhole : Whole ([indent 1 ("if " ++ probeTest target p.item ++ " \x7b")] ++
      [indent 2 (target.insertStatement p.item.className)] ++ [indent 1 "\x7d"]) :=
    whole_block (Nat.lt_succ_self 1) (getLast?_append _ (by simp)) (by simp)
      fun _ hl => ⟨_, List.mem_singleton.1 hl⟩
  -- The gate decides about the whole block, the probe with the insertion inside.
  refine .gated target 1 p.gate? hwhole ?_
  have hprobe : Leaves enabled [indent 1 ("if " ++ probeTest target p.item ++ " \x7b")]
      [.probe (probeTest target p.item)] :=
    .statement (by rw [Statement.ofLine?_indent, Statement.ofLine?_if])
  exact (hprobe.append (leaves_insertStatement target 2 p.item.className)).append
    (.closing_indent 1)

theorem leaves_applyHelperLines (h : CategoryHelpers) :
    Leaves enabled (applyHelperLines target h) (probesLeft target enabled h.probes) := by
  have hhead : Leaves enabled
      ["fn " ++ helperFunction "apply" h.categoryId ++ "(",
        indent 1 "entity_commands: &mut EntityCommands,",
        indent 1 ((if h.probes = [] then "_node" else "node") ++ ": &mut " ++ target.handleType ++
          ","), ") \x7b"] [] := by
    refine .silent ?_
    split <;> simp [Silent, openings, Statement.forms, body, indent]
  have hprobes : Leaves enabled (h.probes.flatMap (probeLines target))
      (probesLeft target enabled h.probes) :=
    .flatMap fun p _ => leaves_probeLines target p
  simpa [applyHelperLines] using hhead.append (hprobes.append .closing)

/-- What the chains of removals leave: the removals of those whose gate is enabled. -/
def removalsLeft (enabled : String → Bool) (removals : List (Gated (List String))) :
    List Statement :=
  removals.flatMap (target.leftOf enabled fun chain =>
    chain.map fun c => .remove (target.markerOf c))

theorem ofLine?_removeCall (c : String) :
    Statement.ofLine? (removeCall target c) = some (.remove (target.markerOf c)) :=
  Statement.ofLine?_remove _

theorem ofLine?_removeCall_end (c : String) :
    Statement.ofLine? (removeCall target c ++ ";") = some (.remove (target.markerOf c)) := by
  have hend : ">()" ++ ";" = ">();" := by decide
  rw [removeCall, String.append_assoc, hend]
  exact Statement.ofLine?_removeLast _

theorem leaves_removeCalls (chain : List String) :
    Leaves enabled (removeCalls target chain) (chain.map fun c => .remove (target.markerOf c)) := by
  induction chain with
  | nil => exact .nil
  | cons c others ih =>
    cases others with
    | nil =>
      refine .statement ?_
      rw [Statement.ofLine?_indent, ofLine?_removeCall_end]
    | cons other others =>
      have hcall : Leaves enabled [indent 2 (removeCall target c)]
          [.remove (target.markerOf c)] :=
        .statement (by rw [Statement.ofLine?_indent, ofLine?_removeCall])
      exact hcall.append ih

/-- The calls of a chain end where the chain does, provided that there is a call. -/
theorem whole_removeCalls {chain : List String} (h : chain ≠ []) :
    Whole (removeCalls target chain) := by
  induction chain with
  | nil => exact absurd rfl h
  | cons c others ih =>
    cases others with
    | nil => exact whole_of_end (getLast?_append _ (getLast?_append _ (by simp))) (.inl rfl)
    | cons other others =>
      have hend : (removeCall target c).toList.getLast? = some ')' := getLast?_append _ (by simp)
      exact whole_cons (getLast?_append _ hend) (by simp) (ih (by simp))

theorem leaves_removalLines {chain : Gated (List String)} (h : chain.item ≠ []) :
    Leaves enabled (removalLines target chain)
      (target.leftOf enabled (fun cs => cs.map fun c => .remove (target.markerOf c)) chain) := by
  have hwhole : Whole (indent 1 "entity_commands" :: removeCalls target chain.item) :=
    whole_cons (c := 's') (getLast?_append _ (by simp)) (by simp) (whole_removeCalls target h)
  have hhead : Leaves enabled [indent 1 "entity_commands"] [] :=
    .silent (by simp [Silent, openings, Statement.forms, body, indent])
  rw [removalLines, List.append_assoc]
  exact .gated target 1 chain.gate? hwhole (hhead.append (leaves_removeCalls target chain.item))

theorem leaves_removeHelperLines {h : CategoryHelpers} (hchains : ∀ c ∈ h.removals, c.item ≠ []) :
    Leaves enabled (removeHelperLines target h) (removalsLeft target enabled h.removals) := by
  rw [removeHelperLines]
  split
  · next hnone =>
    rw [hnone]
    exact .silent (by simp [helperFunction, Silent, openings, Statement.forms, body])
  · have hhead : Leaves enabled ["fn " ++ helperFunction "remove" h.categoryId ++
        "(entity_commands: &mut EntityCommands) \x7b"] [] :=
      .silent (by simp [helperFunction, Silent, openings, Statement.forms, body])
    have hremovals : Leaves enabled (h.removals.flatMap (removalLines target))
        (removalsLeft target enabled h.removals) :=
      .flatMap fun chain hchain => leaves_removalLines target (hchains chain hchain)
    simpa using hhead.append (hremovals.append .closing)

/-- What is left of the dispatcher for live nodes. -/
def left (enabled : String → Bool) (d : ProbeDispatcher) : List Statement :=
  [.insert (target.markerOf d.base)] ++
    branchesLeft target enabled d.branches ++
    [.remove (target.markerOf d.base)] ++
    d.helpers.flatMap fun h =>
      probesLeft target enabled h.probes ++ removalsLeft target enabled h.removals

/-- The functions leave what their parts do, one after another. -/
theorem leaves_lines {d : ProbeDispatcher}
    (hchains : ∀ h ∈ d.helpers, ∀ c ∈ h.removals, c.item ≠ []) :
    Leaves enabled (lines target entry d) (left target enabled d) := by
  -- Each function with what it leaves, in the order in which they are written.
  have hblocks : ∀ block ∈
      [(applyLines target entry d,
          .insert (target.markerOf d.base) :: branchesLeft target enabled d.branches),
        (removeLines target entry d, [.remove (target.markerOf d.base)])] ++
      d.helpers.flatMap (fun h =>
        [(applyHelperLines target h, probesLeft target enabled h.probes),
          (removeHelperLines target h, removalsLeft target enabled h.removals)]),
      Leaves enabled block.1 block.2 := by
    intro block hblock
    rcases List.mem_append.1 hblock with hblock | hblock
    · rcases List.mem_pair.1 hblock with rfl | rfl
      · exact leaves_applyLines target entry d
      · exact leaves_removeLines target entry d
    · obtain ⟨h, hh, hblock⟩ := List.mem_flatMap.1 hblock
      rcases List.mem_pair.1 hblock with rfl | rfl
      · exact leaves_applyHelperLines target h
      · exact leaves_removeHelperLines target (hchains h hh)
  simpa [lines, left, List.map_flatMap, List.flatMap_assoc] using Leaves.separateBlocks hblocks

end ProbeDispatcher

/-! ### Type names -/

namespace NameDispatcher

/-- What an arm leaves: the insertions in it whose own gates are enabled, if that of the arm is. -/
def armsLeft (enabled : String → Bool) (arms : List (Gated MatchArm)) : List Statement :=
  arms.flatMap (target.leftOf enabled fun arm => target.insertsLeft enabled arm.inserts)

/-- The lines of an arm after its gate. -/
def itemLines (arm : MatchArm) : List String :=
  if arm.inserts = [] then [indent 2 (Text.quoted arm.typeName ++ " => \x7b\x7d")]
  else
    [indent 2 (Text.quoted arm.typeName ++ " => \x7b")] ++
      arm.inserts.flatMap (target.insertionLines 3) ++
      [indent 2 "\x7d"]

theorem armLines_eq (arm : Gated MatchArm) :
    armLines target arm = target.gateLines 2 arm.gate? ++ itemLines target arm.item :=
  rfl

theorem whole_itemLines (arm : MatchArm) : Whole (itemLines target arm) := by
  rw [itemLines]
  split
  · -- An arm without insertions is a line of its own, which ends with its braces.
    exact whole_of_end (getLast?_append _ (getLast?_append _ (by simp))) (.inr (.inr rfl))
  · -- Attribute lines inside the arm are indented as well, so none closes it.
    exact whole_block (by decide) (getLast?_append _ (by simp)) (by simp [Text.toList_quoted])
      fun _ hl => exists_indent_of_mem_insertions target hl

theorem leaves_itemLines (arm : MatchArm) :
    Leaves enabled (itemLines target arm) (target.insertsLeft enabled arm.inserts) := by
  rw [itemLines]
  split
  · next hnone =>
    rw [hnone]
    exact .silent (by simp [Text.toList_quoted, Silent, openings, Statement.forms, body, indent])
  · have hhead : Leaves enabled [indent 2 (Text.quoted arm.typeName ++ " => \x7b")] [] :=
      .silent (by simp [Text.toList_quoted, Silent, openings, Statement.forms, body, indent])
    simpa using hhead.append ((leaves_insertions target 3 arm.inserts).append (.closing_indent 2))

theorem leaves_armLines (arm : Gated MatchArm) :
    Leaves enabled (armLines target arm)
      (target.leftOf enabled (fun arm => target.insertsLeft enabled arm.inserts) arm) := by
  rw [armLines_eq]
  exact .gated target 2 arm.gate? (whole_itemLines target arm.item)
    (leaves_itemLines target arm.item)

/-- What is left of the dispatcher for type names. -/
def left (enabled : String → Bool) (d : NameDispatcher) : List Statement :=
  .insert (target.markerOf d.base) :: armsLeft target enabled d.arms

/-- The lines of the function before its first statement. -/
def headLines (entry : EntryPoints) : List String :=
  ["/// Adds markers for a node whose type name was resolved ahead of time,",
    "/// skipping the runtime probes. Names without an arm, such as classes",
    "/// defined by the game itself, only get the base marker.",
    "pub fn " ++ entry.fromType ++ "(", indent 1 "entity_commands: &mut EntityCommands,",
    indent 1 "type_name: &str,", ") \x7b"]

theorem lines_eq (entry : EntryPoints) (d : NameDispatcher) :
    lines target entry d = headLines entry ++ [indent 1 (target.insertStatement d.base), ""] ++
      indent 1 "match type_name \x7b" :: (d.arms.flatMap (armLines target) ++
        [indent 2 "_ => \x7b\x7d", indent 1 "\x7d", "\x7d"]) := by
  simp [lines, headLines]

theorem silent_of_mem_headLines (entry : EntryPoints) : ∀ l ∈ headLines entry, Silent l := by
  simp [headLines, Silent, openings, Statement.forms, body, indent]

/-- Before the match, the marker of the root is inserted. -/
theorem leaves_beforeMatch (entry : EntryPoints) (base : String) :
    Leaves enabled (headLines entry ++ [indent 1 (target.insertStatement base), ""])
      [.insert (target.markerOf base)] :=
  (Leaves.silent (silent_of_mem_headLines entry)).append
    ((leaves_insertStatement target 1 base).append .blank)

theorem leaves_lines (entry : EntryPoints) (d : NameDispatcher) :
    Leaves enabled (lines target entry d) (left target enabled d) := by
  have hmatch : Leaves enabled [indent 1 "match type_name \x7b"] [] :=
    .silent (by simp [Silent, openings, Statement.forms, body, indent])
  have harms : Leaves enabled (d.arms.flatMap (armLines target)) (armsLeft target enabled d.arms) :=
    .flatMap fun arm _ => leaves_armLines target arm
  have hend : Leaves enabled [indent 2 "_ => \x7b\x7d", indent 1 "\x7d", "\x7d"] [] :=
    .silent (by simp [Silent, openings, Statement.forms, body, indent])
  rw [lines_eq]
  simpa [left] using
    (leaves_beforeMatch target entry d.base).append (hmatch.append (harms.append hend))

end NameDispatcher

/-! ### Declarations -/

namespace Declarations

theorem ofLine?_structLine (c : String) :
    Statement.ofLine? (structLine target c) = some (.declare (target.markerOf c)) :=
  Statement.ofLine?_declare _

theorem silent_deriveAttribute : Silent (deriveAttribute target) := by
  rw [deriveAttribute]
  simp [Silent, openings, Statement.forms, body]

/-- What is left of the declarations: that of the root and those of the members whose gates are
    enabled. -/
def left (enabled : String → Bool) (d : Declarations) : List Statement :=
  .declare (target.markerOf d.base) ::
    d.members.flatMap (target.leftOf enabled fun c => [.declare (target.markerOf c)])

theorem leaves_declaration (c : String) :
    Leaves enabled [deriveAttribute target, structLine target c]
      [.declare (target.markerOf c)] := by
  have hattribute : Leaves enabled [deriveAttribute target] [] :=
    .silent (by simpa using silent_deriveAttribute target)
  exact hattribute.append (.statement (ofLine?_structLine target c))

theorem leaves_memberLines (g : Gated String) :
    Leaves enabled (memberLines target g)
      (target.leftOf enabled (fun c => [.declare (target.markerOf c)]) g) := by
  have hattribute : (deriveAttribute target).toList.getLast? = some ']' :=
    getLast?_append _ (by simp)
  have hstruct : (structLine target g.item).toList.getLast? = some ';' :=
    getLast?_append _ (by simp)
  exact Leaves.blank.append (.gated target 0 g.gate?
    (whole_cons hattribute (by simp) (whole_of_end hstruct (.inl rfl)))
    (leaves_declaration target g.item))

theorem leaves_lines (d : Declarations) :
    Leaves enabled (lines target d) (left target enabled d) := by
  have hhead : Leaves enabled
      ["", "use " ++ target.componentImport ++ ";", "",
        "/// Present on every entity that mirrors a " ++ d.base ++ "."] [] :=
    .silent (by simp [Silent, openings, Statement.forms, body])
  have hmembers : Leaves enabled (d.members.flatMap (memberLines target))
      (d.members.flatMap (target.leftOf enabled fun c => [.declare (target.markerOf c)])) :=
    .flatMap fun g _ => leaves_memberLines target g
  simpa [lines, left] using
    (leaves_noticeLines target).append
      (hhead.append ((leaves_declaration target d.base).append hmembers))

end Declarations

end NodeTagging
