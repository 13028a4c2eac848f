import NodeTagging.Proofs.FunctionNames
import NodeTagging.Proofs.LineBreaks

/-!
# The text of the dispatcher for live nodes

The functions of the dispatcher for live nodes are read from its lines as they were written. They
are also read from its text, since the lines are those of the text: if the names and tags of a
dispatcher have no line feed (`ProbeDispatcher.NamesUnbroken`) and the settings of the target have
none, no line has one (`ProbeDispatcher.unbroken_lines`, `ProbeDispatcher.functionsOf_unlines`).
-/

namespace NodeTagging

/-- What holds of the empty line and of the lines of all blocks holds of the lines of the blocks
    together. -/
theorem forall_mem_separateBlocks {P : String → Prop} {blocks : List (List String)}
    (hempty : P "") (h : ∀ block ∈ blocks, ∀ line ∈ block, P line) :
    ∀ line ∈ Text.separateBlocks blocks, P line := by
  induction blocks with
  | nil => simp [Text.separateBlocks]
  | cons first others ih =>
    obtain ⟨hfirst, hothers⟩ := List.forall_mem_cons.1 h
    cases others with
    | nil => simpa [Text.separateBlocks] using hfirst
    | cons second others =>
      rw [Text.separateBlocks_cons_cons]
      exact List.forall_mem_append.2 ⟨hfirst, List.forall_mem_cons.2 ⟨hempty, ih hothers⟩⟩

namespace ProbeDispatcher

variable (target : Target) (entry : EntryPoints) (d : ProbeDispatcher) (h : CategoryHelpers)

/-! ### Line feeds -/

/-- No name and no tag of a dispatcher has a line feed. -/
structure NamesUnbroken : Prop where
  base : Unbroken d.base
  catchAll : Unbroken d.catchAll
  /-- Of the branches. -/
  branch : ∀ b ∈ d.branches, Unbroken b.probe.binding ∧ Unbroken b.categoryId ∧
    ∀ g ∈ b.inserts, (∀ tag, g.gate? = some tag → Unbroken tag) ∧ Unbroken g.item
  /-- Of the helpers. -/
  helper : ∀ h ∈ d.helpers, Unbroken h.categoryId ∧
    (∀ p ∈ h.probes, (∀ tag, p.gate? = some tag → Unbroken tag) ∧
      Unbroken p.item.className ∧ Unbroken p.item.binding) ∧
    ∀ chain ∈ h.removals, (∀ tag, chain.gate? = some tag → Unbroken tag) ∧
      ∀ c ∈ chain.item, Unbroken c

section Unbroken

variable {target entry d h} (htarget : ∀ s ∈ target.settings, Unbroken s)

theorem unbroken_helperFunction {action id : String} (haction : Unbroken action)
    (hid : Unbroken id) : Unbroken (helperFunction action id) := by
  simpa [Unbroken, helperFunction] using And.intro haction hid

include htarget

theorem unbroken_probeTest {probe : Probe} (hbinding : Unbroken probe.binding) :
    Unbroken (probeTest target probe) := by
  have hmodule : Unbroken target.bindingsModule := htarget _ (by simp [Target.settings])
  unfold probeTest
  simp only [unbroken_append]
  exact ⟨⟨⟨⟨by decide, hmodule⟩, by decide⟩, hbinding⟩, by decide⟩

theorem unbroken_markerOf {c : String} (hc : Unbroken c) : Unbroken (target.markerOf c) := by
  have hsuffix : Unbroken target.markerSuffix := htarget _ (by simp [Target.settings])
  simp [Target.markerOf, hc, hsuffix]

theorem unbroken_branchLines {keyword : String} (hkeyword : Unbroken keyword) {b : ProbeBranch}
    (hb : Unbroken b.probe.binding ∧ Unbroken b.categoryId ∧
      ∀ g ∈ b.inserts, (∀ tag, g.gate? = some tag → Unbroken tag) ∧ Unbroken g.item) :
    ∀ line ∈ branchLines target keyword b, Unbroken line := by
  obtain ⟨hbinding, hid, hinserts⟩ := hb
  have htest := unbroken_probeTest htarget hbinding
  have hcall := unbroken_helperFunction (show Unbroken "apply" by decide) hid
  simp only [branchLines, applyCall, List.forall_mem_append, List.forall_mem_singleton,
    List.forall_mem_flatMap, unbroken_indent, unbroken_append]
  exact ⟨⟨⟨⟨⟨hkeyword, by decide⟩, htest⟩, by decide⟩, fun g hg =>
    Target.unbroken_insertionLines htarget (hinserts g hg).1 (hinserts g hg).2⟩,
    hcall, by decide⟩

theorem unbroken_branchChain (hd : d.NamesUnbroken) :
    ∀ line ∈ branchChain target d.branches, Unbroken line := by
  have hbranch := hd.branch
  generalize d.branches = branches at hbranch
  cases branches with
  | nil => simp [branchChain]
  | cons first others =>
    obtain ⟨hfirst, hothers⟩ := List.forall_mem_cons.1 hbranch
    simp only [branchChain, List.forall_mem_append, List.forall_mem_flatMap]
    exact ⟨⟨unbroken_branchLines htarget (by decide) hfirst, fun b hb =>
      unbroken_branchLines htarget (by decide) (hothers b hb)⟩, by decide⟩

theorem unbroken_applyLines (happly : Unbroken entry.apply) (hd : d.NamesUnbroken) :
    ∀ line ∈ applyLines target entry d, Unbroken line := by
  have hhandle : Unbroken target.handleType := htarget _ (by simp [Target.settings])
  have hbase := Target.unbroken_insertStatement htarget hd.base
  have hcatchAll := unbroken_helperFunction (show Unbroken "apply" by decide) hd.catchAll
  simp only [applyLines, applyCall, List.forall_mem_append, List.forall_mem_cons, unbroken_indent,
    unbroken_append]
  refine ⟨⟨?_, unbroken_branchChain htarget hd⟩, ⟨hcatchAll, by decide⟩, by decide⟩
  exact ⟨by decide, by decide, ⟨⟨by decide, happly⟩, by decide⟩, by decide,
    ⟨⟨by decide, hhandle⟩, by decide⟩, by decide, hbase, by decide⟩

theorem unbroken_removeLines (hentry : ∀ name ∈ entry.names, Unbroken name)
    (hd : d.NamesUnbroken) : ∀ line ∈ removeLines target entry d, Unbroken line := by
  have happly : Unbroken entry.apply := hentry _ (by simp [EntryPoints.names])
  have hremove : Unbroken entry.remove := hentry _ (by simp [EntryPoints.names])
  have hfromType : Unbroken entry.fromType := hentry _ (by simp [EntryPoints.names])
  have hbase := unbroken_markerOf htarget hd.base
  simp only [removeLines, List.forall_mem_append, List.forall_mem_cons, List.forall_mem_map,
    unbroken_indent, unbroken_append]
  refine ⟨⟨?_, fun h hh => ⟨?_, by decide⟩⟩, by decide⟩
  · exact ⟨⟨⟨⟨⟨by decide, happly⟩, by decide⟩, hfromType⟩, by decide⟩, by decide,
      ⟨⟨by decide, hremove⟩, by decide⟩, ⟨⟨by decide, hbase⟩, by decide⟩, by decide⟩
  · exact unbroken_helperFunction (by decide) (hd.helper h hh).1

theorem unbroken_applyHelperLines (hid : Unbroken h.categoryId)
    (hprobes : ∀ p ∈ h.probes, (∀ tag, p.gate? = some tag → Unbroken tag) ∧
      Unbroken p.item.className ∧ Unbroken p.item.binding) :
    ∀ line ∈ applyHelperLines target h, Unbroken line := by
  have hhandle : Unbroken target.handleType := htarget _ (by simp [Target.settings])
  have hname := unbroken_helperFunction (show Unbroken "apply" by decide) hid
  have hnode : Unbroken (if h.probes = [] then "_node" else "node") := by split <;> decide
  simp only [applyHelperLines, probeLines, List.forall_mem_append, List.forall_mem_cons,
    List.forall_mem_flatMap, unbroken_indent, unbroken_append]
  refine ⟨⟨?_, fun p hp => ?_⟩, by decide⟩
  · exact ⟨⟨⟨by decide, hname⟩, by decide⟩, by decide,
      ⟨⟨⟨hnode, by decide⟩, hhandle⟩, by decide⟩, by decide⟩
  · obtain ⟨hgate, hclass, hbinding⟩ := hprobes p hp
    exact ⟨Target.unbroken_gateLines htarget hgate,
      ⟨⟨by decide, unbroken_probeTest htarget hbinding⟩, by decide⟩,
      Target.unbroken_insertStatement htarget hclass, by decide⟩

theorem unbroken_removeCalls {classNames : List String} (hnames : ∀ c ∈ classNames, Unbroken c) :
    ∀ line ∈ removeCalls target classNames, Unbroken line := by
  have hcall {c : String} (hc : Unbroken c) : Unbroken (removeCall target c) := by
    unfold removeCall
    simp only [unbroken_append]
    exact ⟨⟨by decide, unbroken_markerOf htarget hc⟩, by decide⟩
  induction classNames using removeCalls.induct with
  | case1 => simp [removeCalls]
  | case2 last =>
    simp only [removeCalls, List.forall_mem_singleton, unbroken_indent, unbroken_append]
    exact ⟨hcall (hnames last List.mem_cons_self), by decide⟩
  | case3 c cs hcs ih =>
    obtain ⟨hc, hcs'⟩ := List.forall_mem_cons.1 hnames
    rw [removeCalls]
    · exact List.forall_mem_cons.2 ⟨unbroken_indent.2 (hcall hc), ih hcs'⟩
    · exact hcs

theorem unbroken_removeHelperLines (hid : Unbroken h.categoryId)
    (hremovals : ∀ chain ∈ h.removals, (∀ tag, chain.gate? = some tag → Unbroken tag) ∧
      ∀ c ∈ chain.item, Unbroken c) :
    ∀ line ∈ removeHelperLines target h, Unbroken line := by
  have hname := unbroken_helperFunction (show Unbroken "remove" by decide) hid
  rw [removeHelperLines]
  split
  · simp only [List.forall_mem_singleton, unbroken_append]
    exact ⟨⟨by decide, hname⟩, by decide⟩
  · simp only [removalLines, List.forall_mem_append, List.forall_mem_singleton,
      List.forall_mem_flatMap, unbroken_indent, unbroken_append]
    refine ⟨⟨⟨⟨by decide, hname⟩, by decide⟩, fun chain hchain => ?_⟩, by decide⟩
    obtain ⟨hgate, hitem⟩ := hremovals chain hchain
    exact ⟨⟨Target.unbroken_gateLines htarget hgate, by decide⟩,
      unbroken_removeCalls htarget hitem⟩

theorem unbroken_lines (hentry : ∀ name ∈ entry.names, Unbroken name) (hd : d.NamesUnbroken) :
    ∀ line ∈ lines target entry d, Unbroken line := by
  refine forall_mem_separateBlocks (by decide) (List.forall_mem_append.2 ⟨?_, ?_⟩)
  · simp only [List.forall_mem_cons]
    exact ⟨unbroken_applyLines htarget (hentry _ (by simp [EntryPoints.names])) hd,
      unbroken_removeLines htarget hentry hd, by simp⟩
  · refine List.forall_mem_flatMap.2 fun h hh => ?_
    obtain ⟨hid, hprobes, hremovals⟩ := hd.helper h hh
    simp only [List.forall_mem_cons]
    exact ⟨unbroken_applyHelperLines htarget hid hprobes,
      unbroken_removeHelperLines htarget hid hremovals, by simp⟩

end Unbroken

/-! ### The text -/

/-- The text of a dispatcher is read as its entry points and then the helpers. -/
theorem functionsOf_unlines (htarget : ∀ s ∈ target.settings, Unbroken s)
    (hentry : ∀ name ∈ entry.names, Json.NamePattern.identifier.matches? name)
    (hd : d.NamesUnbroken) (hids : ∀ h ∈ d.helpers, '(' ∉ h.categoryId.toList) :
    functionsOf (linesOf (Text.unlines (lines target entry d))) =
      ⟨entry.apply, insideApply target d⟩ :: ⟨entry.remove, insideRemove target d⟩ ::
        d.helpers.flatMap (helperTexts target) := by
  have hfunctions := functionsOf_lines target entry d
    (paren_not_mem_of_identifier (hentry _ (by simp [EntryPoints.names])))
    (paren_not_mem_of_identifier (hentry _ (by simp [EntryPoints.names]))) hids []
  simp only [functionsOf, List.append_nil] at hfunctions
  have hne : lines target entry d ≠ [] := by
    intro hnil
    rw [hnil] at hfunctions
    exact absurd hfunctions.symm (List.cons_ne_nil _ _)
  have hunbroken : ∀ line ∈ lines target entry d, Unbroken line :=
    unbroken_lines htarget (fun name hname => unbroken_of_identifier (hentry name hname)) hd
  rw [linesOf_unlines hne, flatMap_linesOf hunbroken, hfunctions]

end ProbeDispatcher

end NodeTagging
