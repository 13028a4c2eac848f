import NodeTagging.Proofs.FileLines

/-!
# Reading the dispatcher for live nodes

The functions of the dispatcher for live nodes are written line by line, with words and ends that
depend on what is first and what is last. Here they are read back, line by line and without the
plan: the chain of tests (`ChainMark`), the helpers that are called (`calls`), and the chains of
removals with their gates and the semicolons of their calls (`removalChains`).

The text is coherent (`probe_dispatcher_text_is_coherent`): its branch tests form one chain, which
is closed once; every helper that is called is defined once, and every one that is defined is
called; and each helper that removes does so in statements that are ended once, by their last call,
one for each gate, which hold the members of its category, each once (`RemovesCategory`).
-/

namespace NodeTagging

/-! ### Marks of a chain -/

/-- A line that begins, goes on with or closes a chain of tests. -/
inductive ChainMark where
  /-- The first test. -/
  | opens (test : String)
  /-- A test that is made if the tests before it fail. -/
  | goesOn (test : String)
  /-- The end. -/
  | closes
deriving DecidableEq, Repr

namespace ChainMark

/-- The mark of a line, if it is one. -/
def ofLine? (line : String) : Option ChainMark :=
  if body line = ['\x7d'] then some closes
  else ((between? "if " " \x7b" (body line)).map opens).or
    ((between? "\x7d else if " " \x7b" (body line)).map goesOn)

/-- The marks of one chain of tests, or of none if there are no tests. -/
def chain : List String → List ChainMark
  | [] => []
  | first :: others => opens first :: others.map goesOn ++ [closes]

@[simp]
theorem ofLine?_indent (depth : Nat) (line : String) :
    ofLine? (indent depth line) = ofLine? line := by
  simp only [ofLine?, body_indent]

@[simp]
theorem ofLine?_closing : ofLine? "\x7d" = some closes := by
  decide

@[simp]
theorem ofLine?_if (test : String) : ofLine? ("if" ++ " " ++ test ++ " \x7b") =
    some (opens test) := by
  simp [ofLine?, between?, body, List.isPrefixOf?, List.isSuffixOf?]

@[simp]
theorem ofLine?_elseIf (test : String) : ofLine? ("\x7d else if" ++ " " ++ test ++ " \x7b") =
    some (goesOn test) := by
  simp [ofLine?, between?, body, List.isPrefixOf?, List.isSuffixOf?]

/-- Every mark begins with one of two characters. -/
theorem ofLine?_eq_none {line : String} {before : List Char} {c : Char}
    (hbefore : before <+: body line) (hhead : before.head? = some c)
    (hc : c ≠ 'i' ∧ c ≠ '\x7d') : ofLine? line = none := by
  obtain ⟨others, rfl⟩ := List.head?_eq_some_iff.1 hhead
  obtain ⟨rest, hrest⟩ := hbefore
  rw [ofLine?, ← hrest, List.cons_append, if_neg (by simp [hc.2]),
    between?_eq_none (by simp [hc.1.symm]), between?_eq_none (by simp [hc.2.symm])]
  rfl

end ChainMark

/-! ### Calls -/

/-- The function that a line calls, if the line begins with its name. -/
def callee? (line : String) : Option String :=
  let name := String.ofList ((body line).takeWhile fun c => c ≠ '(')
  if '(' ∈ body line ∧ Json.NamePattern.identifier.matches? name then some name else none

/-- The functions that lines call, in order. -/
def calls (lines : List String) : List String :=
  lines.filterMap callee?

@[simp]
theorem callee?_indent (depth : Nat) (line : String) :
    callee? (indent depth line) = callee? line := by
  simp only [callee?, body_indent]

theorem body_eq_of_identifier {name : String} (h : Json.NamePattern.identifier.matches? name)
    (rest : String) : body (name ++ rest) = name.toList ++ rest.toList := by
  cases hchars : name.toList with
  | nil => simp [Json.NamePattern.matches?, hchars] at h
  | cons c cs =>
    have hc : c ≠ ' ' := by
      rintro rfl
      have hblank : ' ' ∈ name.toList := hchars ▸ List.mem_cons_self
      exact absurd (isAlphanum_of_identifier h hblank) (by decide)
    simp [body, hchars, hc]

theorem callee?_call {name arguments : String} (h : Json.NamePattern.identifier.matches? name)
    (harguments : arguments.toList.head? = some '(') :
    callee? (name ++ arguments) = some name := by
  obtain ⟨rest, hrest⟩ := List.head?_eq_some_iff.1 harguments
  have hbody : body (name ++ arguments) = name.toList ++ '(' :: rest := by
    rw [body_eq_of_identifier h, hrest]
  have htake := takeWhile_ne_append_cons (paren_not_mem_of_identifier h) rest
  rw [callee?, hbody, htake, String.ofList_toList]
  exact if_pos ⟨by simp, h⟩

theorem identifier_append {name rest : String} (h : Json.NamePattern.identifier.matches? name)
    (hrest : ∀ c ∈ rest.toList, c.isAlphanum ∨ c = '_') :
    Json.NamePattern.identifier.matches? (name ++ rest) := by
  cases hchars : name.toList with
  | nil => simp [Json.NamePattern.matches?, hchars] at h
  | cons c cs =>
    simp only [Json.NamePattern.matches?, hchars, Bool.and_eq_true, List.all_eq_true] at h
    simp only [Json.NamePattern.matches?, String.toList_append, hchars, List.cons_append,
      Bool.and_eq_true, List.all_eq_true]
    refine ⟨h.1, List.forall_mem_append.2 ⟨h.2, fun d hd => ?_⟩⟩
    simpa using hrest d hd

/-- The helpers of a category are named by identifiers. -/
theorem identifier_helperFunction {action id : String}
    (haction : Json.NamePattern.identifier.matches? action)
    (hid : Json.NamePattern.identifier.matches? id) :
    Json.NamePattern.identifier.matches? (helperFunction action id) :=
  identifier_append (identifier_append (identifier_append haction (by simp))
    fun _ => isAlphanum_of_identifier hid) (by simp)

/-- What begins with something that is in no name is not a call of a function. -/
theorem callee?_eq_none {line : String} {before : List Char} {c : Char}
    (hbefore : before <+: body line) (hparen : '(' ∉ before) (hc : c ∈ before)
    (hname : ¬ (c.isAlphanum ∨ c = '_')) : callee? line = none := by
  obtain ⟨rest, hrest⟩ := hbefore
  have hplain : ∀ x ∈ before, decide (x ≠ '(') = true := fun x hx =>
    decide_eq_true (ne_of_mem_of_not_mem hx hparen)
  rw [callee?, ← hrest, List.takeWhile_append_of_pos hplain]
  refine if_neg fun h => hname (isAlphanum_of_identifier h.2 ?_)
  rw [String.toList_ofList]
  exact List.mem_append_left _ hc

/-! ### The entry points -/

section Insertions

variable {target : Target} {depth : Nat}

/-- What neither an attribute of a gate nor an insertion says is not said by insertions. -/
theorem filterMap_insertions {α : Type} {f : String → Option α}
    (hgate : ∀ tag, f (indent depth (target.featureAttribute tag)) = none)
    (hinsert : ∀ c, f (indent depth (target.insertStatement c)) = none)
    (inserts : List (Gated String)) :
    (inserts.flatMap (target.insertionLines depth)).filterMap f = [] := by
  refine List.filterMap_eq_nil_iff.2 (List.forall_mem_flatMap.2 fun g _ => ?_)
  refine List.forall_mem_append.2 ⟨?_, List.forall_mem_singleton.2 (hinsert g.item)⟩
  cases hg : g.gate? with
  | none => simp [Target.gateLines]
  | some tag => simpa [Target.gateLines] using hgate tag

theorem hash_prefix_featureAttribute (target : Target) (tag : String) :
    ['#'] <+: body (target.featureAttribute tag) := by
  unfold Target.featureAttribute
  simp [body]

theorem commands_prefix_insertStatement (target : Target) (c : String) :
    "entity_commands.".toList <+: body (target.insertStatement c) := by
  unfold Target.insertStatement
  simp [body]

theorem mark_insertStatement (target : Target) (c : String) :
    ChainMark.ofLine? (target.insertStatement c) = none :=
  ChainMark.ofLine?_eq_none (commands_prefix_insertStatement target c)
    (show _ = some 'e' by decide) (by decide)

theorem callee?_insertStatement (target : Target) (c : String) :
    callee? (target.insertStatement c) = none :=
  callee?_eq_none (commands_prefix_insertStatement target c) (by decide)
    (show '.' ∈ _ by decide) (by decide)

theorem marks_insertions (inserts : List (Gated String)) :
    (inserts.flatMap (target.insertionLines depth)).filterMap ChainMark.ofLine? = [] := by
  refine filterMap_insertions (fun tag => ?_) (fun c => ?_) inserts
  · rw [ChainMark.ofLine?_indent]
    exact ChainMark.ofLine?_eq_none (hash_prefix_featureAttribute target tag) rfl (by decide)
  · rw [ChainMark.ofLine?_indent, mark_insertStatement]

theorem calls_insertions (inserts : List (Gated String)) :
    calls (inserts.flatMap (target.insertionLines depth)) = [] := by
  refine filterMap_insertions (fun tag => ?_) (fun c => ?_) inserts
  · rw [callee?_indent]
    exact callee?_eq_none (hash_prefix_featureAttribute target tag) (by decide)
      List.mem_cons_self (by decide)
  · rw [callee?_indent, callee?_insertStatement]

end Insertions

namespace ProbeDispatcher

variable (target : Target) (d : ProbeDispatcher)

theorem mark_applyCall (id : String) : ChainMark.ofLine? (applyCall id) = none :=
  ChainMark.ofLine?_eq_none (show ['a'] <+: _ by simp [body, applyCall, helperFunction]) rfl
    (by decide)

theorem marks_branchLines {keyword : String} {mark : ChainMark} {b : ProbeBranch}
    (h : ChainMark.ofLine? (keyword ++ " " ++ probeTest target b.probe ++ " \x7b") = some mark) :
    (branchLines target keyword b).filterMap ChainMark.ofLine? = [mark] := by
  have hcall := mark_applyCall b.categoryId
  rw [branchLines, List.filterMap_append, List.filterMap_append, marks_insertions]
  simp [h, hcall]

/-- The chain of branches has the marks of one chain of the tests for their roots. -/
theorem marks_branchChain (branches : List ProbeBranch) :
    (branchChain target branches).filterMap ChainMark.ofLine? =
      ChainMark.chain (branches.map fun b => probeTest target b.probe) := by
  cases branches with
  | nil => rfl
  | cons first others =>
    have hend : [indent 1 "\x7d", ""].filterMap ChainMark.ofLine? = [.closes] := by decide
    have hothers : (others.flatMap (branchLines target "\x7d else if")).filterMap
        ChainMark.ofLine? = others.map fun b => .goesOn (probeTest target b.probe) := by
      rw [List.filterMap_flatMap, List.map_eq_flatMap]
      exact List.flatMap_congr fun b _ => marks_branchLines target (ChainMark.ofLine?_elseIf _)
    rw [branchChain, List.filterMap_append, List.filterMap_append, hend, hothers,
      marks_branchLines target (ChainMark.ofLine?_if _)]
    simp [ChainMark.chain, Function.comp_def]

theorem marks_insideApply :
    (insideApply target d).filterMap ChainMark.ofLine? =
      ChainMark.chain (d.branches.map fun b => probeTest target b.probe) := by
  have hnode : ChainMark.ofLine? ("node: &mut " ++ target.handleType ++ ",") = none :=
    ChainMark.ofLine?_eq_none (show "node:".toList <+: _ by simp [body]) rfl (by decide)
  have hcommands : ChainMark.ofLine? "entity_commands: &mut EntityCommands," = none := by decide
  have hopening : ChainMark.ofLine? ") \x7b" = none := by decide
  have hempty : ChainMark.ofLine? "" = none := by decide
  have hbase := mark_insertStatement target d.base
  have hcall := mark_applyCall d.catchAll
  rw [insideApply, List.filterMap_append, List.filterMap_append, marks_branchChain]
  simp [hnode, hcommands, hopening, hempty, hbase, hcall]

section Calls

theorem callee?_applyCall {id : String} (hid : Json.NamePattern.identifier.matches? id) :
    callee? (applyCall id) = some (helperFunction "apply" id) :=
  callee?_call (identifier_helperFunction (by decide) hid) (by decide)

theorem calls_append (lines lines' : List String) :
    calls (lines ++ lines') = calls lines ++ calls lines' :=
  List.filterMap_append

theorem calls_branchLines {keyword : String} {before : List Char} {c : Char} {b : ProbeBranch}
    (hid : Json.NamePattern.identifier.matches? b.categoryId)
    (hbefore : before <+: body (keyword ++ " " ++ probeTest target b.probe ++ " \x7b"))
    (hparen : '(' ∉ before) (hc : c ∈ before) (hname : ¬ (c.isAlphanum ∨ c = '_')) :
    calls (branchLines target keyword b) = [helperFunction "apply" b.categoryId] := by
  have htest := callee?_eq_none hbefore hparen hc hname
  have hcall := callee?_applyCall hid
  rw [branchLines, calls_append, calls_append, calls_insertions]
  simp [calls, htest, hcall]

/-- Of functions, the chain of branches calls the helper of each branch. -/
theorem calls_branchChain {branches : List ProbeBranch}
    (hids : ∀ b ∈ branches, Json.NamePattern.identifier.matches? b.categoryId) :
    calls (branchChain target branches) =
      branches.map fun b => helperFunction "apply" b.categoryId := by
  have hif {b : ProbeBranch} (hb : b ∈ branches) :
      calls (branchLines target "if" b) = [helperFunction "apply" b.categoryId] :=
    calls_branchLines target (hids b hb) (show "if ".toList <+: _ by simp [body]) (by decide)
      (show ' ' ∈ _ by decide) (by decide)
  have helseIf {b : ProbeBranch} (hb : b ∈ branches) :
      calls (branchLines target "\x7d else if" b) = [helperFunction "apply" b.categoryId] :=
    calls_branchLines target (hids b hb) (show ['\x7d'] <+: _ by simp [body]) (by decide)
      List.mem_cons_self (by decide)
  cases branches with
  | nil => rfl
  | cons first others =>
    have hend : calls [indent 1 "\x7d", ""] = [] := by decide
    have hothers : calls (others.flatMap (branchLines target "\x7d else if")) =
        others.map fun b => helperFunction "apply" b.categoryId := by
      rw [calls, List.filterMap_flatMap, List.map_eq_flatMap]
      exact List.flatMap_congr fun b hb => helseIf (List.mem_cons_of_mem _ hb)
    rw [branchChain, calls_append, calls_append, hend, hothers, hif List.mem_cons_self]
    simp

theorem calls_insideApply (hcatchAll : Json.NamePattern.identifier.matches? d.catchAll)
    (hids : ∀ b ∈ d.branches, Json.NamePattern.identifier.matches? b.categoryId) :
    calls (insideApply target d) =
      (d.branches.map fun b => helperFunction "apply" b.categoryId) ++
        [helperFunction "apply" d.catchAll] := by
  have hnode : callee? ("node: &mut " ++ target.handleType ++ ",") = none :=
    callee?_eq_none (show "node:".toList <+: _ by simp [body]) (by decide)
      (show ':' ∈ _ by decide) (by decide)
  have hcommands : callee? "entity_commands: &mut EntityCommands," = none := by decide
  have hopening : callee? ") \x7b" = none := by decide
  have hempty : callee? "" = none := by decide
  have hbase := callee?_insertStatement target d.base
  have hcall := callee?_applyCall hcatchAll
  rw [insideApply, calls_append, calls_append, calls_branchChain target hids]
  simp [calls, hnode, hcommands, hopening, hempty, hbase, hcall]

theorem calls_insideRemove
    (hids : ∀ h ∈ d.helpers, Json.NamePattern.identifier.matches? h.categoryId) :
    calls (insideRemove target d) =
      d.helpers.map fun h => helperFunction "remove" h.categoryId := by
  have hbase : callee? ("entity_commands.remove::<" ++ target.markerOf d.base ++ ">();") = none :=
    callee?_eq_none (show "entity_commands.".toList <+: _ by simp [body]) (by decide)
      (show '.' ∈ _ by decide) (by decide)
  have hhelpers : calls (d.helpers.map fun h =>
      indent 1 (helperFunction "remove" h.categoryId ++ "(entity_commands);")) =
      d.helpers.map fun h => helperFunction "remove" h.categoryId := by
    rw [calls, List.filterMap_map]
    refine List.filterMap_eq_map_iff_forall_eq_some.2 fun h hh => ?_
    rw [Function.comp_apply, callee?_indent]
    exact callee?_call (identifier_helperFunction (by decide) (hids h hh)) (by decide)
  rw [insideRemove, calls_append, hhelpers]
  simp [calls, hbase]

end Calls

end ProbeDispatcher

/-! ### Chains of removals -/

/-- A call that removes the marker of a class. -/
structure RemovalCall where
  /-- The class. -/
  className : String
  /-- Whether a semicolon ends the statement after the call. -/
  isLast : Bool
deriving DecidableEq, Repr

/-- A chain of calls that remove markers. -/
structure RemovalChain where
  /-- The gate that the chain stands under, if there is one. -/
  gate? : Option String
  /-- The calls. -/
  calls : List RemovalCall
deriving DecidableEq, Repr

section Removals

variable (target : Target)

/-- The tag of the gate whose attribute a line is. -/
def gateTag? (line : String) : Option String :=
  between? ("#[cfg(feature = \"" ++ target.gateFeaturePrefix) "\")]" (body line)

/-- The call of a line, if it removes a marker and goes on with a chain. -/
def removalCall? (line : String) : Option RemovalCall :=
  ((between? ".remove::<" (target.markerSuffix ++ ">();") (body line)).map (⟨·, true⟩)).or
    ((between? ".remove::<" (target.markerSuffix ++ ">()") (body line)).map (⟨·, false⟩))

/-- The calls of the first lines, up to a line that is none. -/
def leadingCalls : List String → List RemovalCall
  | [] => []
  | line :: others =>
    match removalCall? target line with
    | some call => call :: leadingCalls others
    | none => []

/-- The chains of removals in lines, each with the gate whose attribute stands right before it. The
    first one may be under a gate whose attribute has been read. -/
def removalChains : Option String → List String → List RemovalChain
  | _, [] => []
  | gate?, line :: others =>
    match gateTag? target line with
    | some tag => removalChains (some tag) others
    | none =>
      if body line = "entity_commands".toList then
        ⟨gate?, leadingCalls target others⟩ :: removalChains none others
      else removalChains none others

/-- The calls of a chain: the last one ends the statement. -/
def chainCalls : List String → List RemovalCall
  | [] => []
  | [last] => [⟨last, true⟩]
  | c :: cs => ⟨c, false⟩ :: chainCalls cs

@[simp]
theorem gateTag?_indent (depth : Nat) (line : String) :
    gateTag? target (indent depth line) = gateTag? target line := by
  simp only [gateTag?, body_indent]

@[simp]
theorem removalCall?_indent (depth : Nat) (line : String) :
    removalCall? target (indent depth line) = removalCall? target line := by
  simp only [removalCall?, body_indent]

@[simp]
theorem gateTag?_featureAttribute (tag : String) :
    gateTag? target (target.featureAttribute tag) = some tag := by
  refine between?_eq_some_iff.2 ?_
  unfold Target.featureAttribute
  simp [body]

theorem gateTag?_eq_none {line : String} {before : List Char} {c : Char}
    (hbefore : before <+: body line) (hhead : before.head? = some c) (hc : c ≠ '#') :
    gateTag? target line = none := by
  obtain ⟨others, rfl⟩ := List.head?_eq_some_iff.1 hhead
  obtain ⟨rest, hrest⟩ := hbefore
  refine between?_eq_none ?_
  rw [← hrest]
  simp [hc.symm]

theorem removalCall?_eq_none {line : String} {before : List Char} {c : Char}
    (hbefore : before <+: body line) (hhead : before.head? = some c) (hc : c ≠ '.') :
    removalCall? target line = none := by
  obtain ⟨others, rfl⟩ := List.head?_eq_some_iff.1 hhead
  obtain ⟨rest, hrest⟩ := hbefore
  rw [removalCall?, ← hrest, between?_eq_none (by simp [hc.symm]),
    between?_eq_none (by simp [hc.symm])]
  rfl

namespace ProbeDispatcher

theorem remove_prefix_removeCall (c rest : String) :
    ".remove::<".toList <+: body (removeCall target c ++ rest) := by
  unfold removeCall
  simp [body]

@[simp]
theorem removalCall?_last (c : String) :
    removalCall? target (removeCall target c ++ ";") = some ⟨c, true⟩ := by
  have hbetween : between? ".remove::<" (target.markerSuffix ++ ">();")
      (body (removeCall target c ++ ";")) = some c := by
    refine between?_eq_some_iff.2 ?_
    unfold removeCall
    simp [body, Target.markerOf]
  rw [removalCall?, hbetween]
  rfl

@[simp]
theorem removalCall?_notLast (c : String) :
    removalCall? target (removeCall target c) = some ⟨c, false⟩ := by
  have hbetween : between? ".remove::<" (target.markerSuffix ++ ">()")
      (body (removeCall target c)) = some c := by
    refine between?_eq_some_iff.2 ?_
    unfold removeCall
    simp [body, Target.markerOf]
  have hlast {x after : String} {c : Char} (h : after.toList.getLast? = some c) :
      (".remove::<".toList ++ (x.toList ++ (target.markerSuffix ++ after).toList)).getLast? =
        some c := by
    rw [String.toList_append, List.getLast?_append, List.getLast?_append, List.getLast?_append, h]
    rfl
  -- The line does not end with a semicolon.
  have hnot : between? ".remove::<" (target.markerSuffix ++ ">();")
      (body (removeCall target c)) = none := by
    refine Option.eq_none_iff_forall_ne_some.2 fun x hx => ?_
    have hsame := (between?_eq_some_iff.1 hbetween).symm.trans (between?_eq_some_iff.1 hx)
    have hends := congrArg List.getLast? hsame
    rw [hlast (show ">()".toList.getLast? = some ')' by decide),
      hlast (show ">();".toList.getLast? = some ';' by decide)] at hends
    exact absurd hends (by decide)
  rw [removalCall?, hnot, hbetween]
  rfl

/-- The calls of a chain are read as such, whatever comes after them. -/
theorem leadingCalls_removeCalls (classNames others : List String) :
    leadingCalls target (removeCalls target classNames ++ others) =
      chainCalls classNames ++ leadingCalls target others := by
  induction classNames using removeCalls.induct with
  | case1 => rfl
  | case2 last => simp [removeCalls, chainCalls, leadingCalls]
  | case3 c cs hcs ih =>
    rw [removeCalls, chainCalls]
    · rw [List.cons_append, leadingCalls, removalCall?_indent, removalCall?_notLast]
      exact congrArg (⟨c, false⟩ :: ·) ih
    · exact hcs
    · exact hcs

/-- No chain begins with a call. -/
theorem removalChains_call (c rest : String) (gate? : Option String) (others : List String) :
    removalChains target gate? (indent 2 (removeCall target c ++ rest) :: others) =
      removalChains target none others := by
  have hbefore := remove_prefix_removeCall target c rest
  have hgate : gateTag? target (removeCall target c ++ rest) = none :=
    gateTag?_eq_none target hbefore (show _ = some '.' by decide) (by decide)
  have hcommands : body (removeCall target c ++ rest) ≠ "entity_commands".toList := by
    intro heq
    rw [heq] at hbefore
    exact absurd hbefore (by decide)
  rw [removalChains, gateTag?_indent, hgate, body_indent]
  exact if_neg hcommands

theorem removalChains_removeCalls (classNames others : List String) :
    removalChains target none (removeCalls target classNames ++ others) =
      removalChains target none others := by
  induction classNames using removeCalls.induct with
  | case1 => rfl
  | case2 last => exact removalChains_call target last ";" none others
  | case3 c cs hcs ih =>
    have hcall := removalChains_call target c "" none (removeCalls target cs ++ others)
    rw [String.append_empty] at hcall
    rw [removeCalls]
    · exact hcall.trans ih
    · exact hcs

/-- The gate of a chain is read from its attribute line. -/
theorem removalChains_gateLines (gate? : Option String) (others : List String) :
    removalChains target none (target.gateLines 1 gate? ++ others) =
      removalChains target gate? others := by
  cases gate? with
  | none => rfl
  | some tag =>
    have hline : target.gateLines 1 (some tag) = [indent 1 (target.featureAttribute tag)] := rfl
    rw [hline, List.singleton_append, removalChains, gateTag?_indent, gateTag?_featureAttribute]

/-- A chain of removals begins with a line that is none of its calls. -/
theorem leadingCalls_removals (chains : List (Gated (List String))) :
    leadingCalls target (chains.flatMap (removalLines target)) = [] := by
  cases chains with
  | nil => rfl
  | cons chain chains =>
    rw [List.flatMap_cons, removalLines]
    cases chain.gate? with
    | none =>
      have hcommands : removalCall? target "entity_commands" = none :=
        removalCall?_eq_none target (show "entity_commands".toList <+: _ by simp [body])
          (show _ = some 'e' by decide) (by decide)
      simp [Target.gateLines, leadingCalls, hcommands]
    | some tag =>
      have hattribute : removalCall? target (target.featureAttribute tag) = none :=
        removalCall?_eq_none target (hash_prefix_featureAttribute target tag) rfl (by decide)
      simp [Target.gateLines, leadingCalls, hattribute]

/-- The chains of removals are read as they were written. -/
theorem removalChains_removals (chains : List (Gated (List String))) :
    removalChains target none (chains.flatMap (removalLines target)) =
      chains.map fun chain => ⟨chain.gate?, chainCalls chain.item⟩ := by
  have hcommands : gateTag? target "entity_commands" = none :=
    gateTag?_eq_none target (show "entity_commands".toList <+: _ by simp [body])
      (show _ = some 'e' by decide) (by decide)
  induction chains with
  | nil => rfl
  | cons chain chains ih =>
    have hcalls := leadingCalls_removeCalls target chain.item (chains.flatMap (removalLines target))
    rw [leadingCalls_removals, List.append_nil] at hcalls
    have hrest := removalChains_removeCalls target chain.item (chains.flatMap (removalLines target))
    rw [List.flatMap_cons, removalLines, List.append_assoc, List.append_assoc,
      removalChains_gateLines, List.singleton_append, removalChains, gateTag?_indent, hcommands,
      body_indent]
    simp only [hcalls, hrest, ih, List.map_cons]
    exact if_pos (by decide)

/-- No call stands outside of the chains. -/
theorem removalCalls_removals (chains : List (Gated (List String))) :
    (chains.flatMap (removalLines target)).filterMap (removalCall? target) =
      chains.flatMap fun chain => chainCalls chain.item := by
  have hcommands : removalCall? target "entity_commands" = none :=
    removalCall?_eq_none target (show "entity_commands".toList <+: _ by simp [body])
      (show _ = some 'e' by decide) (by decide)
  have hgate (gate? : Option String) :
      (target.gateLines 1 gate?).filterMap (removalCall? target) = [] := by
    cases gate? with
    | none => rfl
    | some tag =>
      have hattribute : removalCall? target (target.featureAttribute tag) = none :=
        removalCall?_eq_none target (hash_prefix_featureAttribute target tag) rfl (by decide)
      simp [Target.gateLines, hattribute]
  have hcalls (classNames : List String) :
      (removeCalls target classNames).filterMap (removalCall? target) = chainCalls classNames := by
    induction classNames using removeCalls.induct with
    | case1 => rfl
    | case2 last => simp [removeCalls, chainCalls]
    | case3 c cs hcs ih =>
      rw [removeCalls, chainCalls]
      · simp [ih]
      · exact hcs
      · exact hcs
  rw [List.filterMap_flatMap]
  refine List.flatMap_congr fun chain _ => ?_
  rw [removalLines, List.filterMap_append, List.filterMap_append, hgate, hcalls]
  simp [hcommands]

end ProbeDispatcher

theorem map_className_chainCalls (classNames : List String) :
    (chainCalls classNames).map (·.className) = classNames := by
  induction classNames using chainCalls.induct with
  | case1 => rfl
  | case2 last => rfl
  | case3 c cs hcs ih =>
    rw [chainCalls]
    · exact congrArg (c :: ·) ih
    · exact hcs

/-- In a chain that has a call, the last one ends the statement, and no other. -/
theorem exists_map_isLast_chainCalls {classNames : List String} (h : classNames ≠ []) :
    ∃ n, (chainCalls classNames).map (·.isLast) = List.replicate n false ++ [true] := by
  induction classNames using chainCalls.induct with
  | case1 => exact absurd rfl h
  | case2 last => exact ⟨0, rfl⟩
  | case3 c cs hcs ih =>
    obtain ⟨n, hn⟩ := ih fun hnil => hcs hnil
    refine ⟨n + 1, ?_⟩
    rw [chainCalls]
    · exact congrArg (false :: ·) hn
    · exact hcs

end Removals

/-! ### The removals of a category -/

namespace Taxonomy

/-- The chains remove the markers of a category: they are statements, one for each gate, and hold
    the members of the category, each once. -/
structure RemovesCategory (t : Taxonomy) (categoryId : String) (chains : List RemovalChain) :
    Prop where
  /-- Every chain has a call. The last one ends the statement, and no other. -/
  statement : ∀ chain ∈ chains, ∃ n,
    chain.calls.map (·.isLast) = List.replicate n false ++ [true]
  /-- The chain without a gate is first, if a member has no gate. Then there is a chain for each tag
      of a member, in the order of the tags. -/
  gates : ∃ tags : List String, chains.map (·.gate?) =
      (if ∃ c ∈ t.membersIn categoryId, t.gates.gate? c = none then [none] else []) ++
        tags.map some ∧
    tags.Pairwise Text.Precedes ∧
    ∀ tag, tag ∈ tags ↔ ∃ c ∈ t.membersIn categoryId, t.gates.gate? c = some tag
  /-- A class is in the chain of its gate. -/
  gate?_eq : ∀ chain ∈ chains, ∀ call ∈ chain.calls,
    t.gates.gate? call.className = chain.gate?
  /-- The chains hold the members. -/
  members : ((chains.flatMap (·.calls)).map (·.className)).Perm (t.membersIn categoryId)
  /-- No class is removed twice. -/
  nodup : ((chains.flatMap (·.calls)).map (·.className)).Nodup

variable {t : Taxonomy}

theorem WellFormed.removesCategory (wf : t.WellFormed) (categoryId : String) :
    t.RemovesCategory categoryId ((ProbeDispatcher.removalsOf t categoryId).map fun chain =>
      ⟨chain.gate?, chainCalls chain.item⟩) := by
  have hclasses : ((((ProbeDispatcher.removalsOf t categoryId).map fun chain =>
      (⟨chain.gate?, chainCalls chain.item⟩ : RemovalChain)).flatMap (·.calls)).map
        (·.className)).Perm (t.membersIn categoryId) := by
    rw [List.flatMap_map, List.map_flatMap]
    simp only [map_className_chainCalls]
    exact perm_removals categoryId
  refine
    { statement := List.forall_mem_map.2 fun chain hchain =>
        exists_map_isLast_chainCalls (mem_removalsOf hchain).2
      gates := ⟨ProbeDispatcher.tagsOf t categoryId, ?_, Text.pairwise_ordered _, fun tag => ?_⟩
      gate?_eq := List.forall_mem_map.2 fun chain hchain call hcall => ?_
      members := hclasses
      nodup := hclasses.nodup_iff.2 (wf.nodup_members.filter _) }
  · have hungated : (∃ c ∈ t.membersIn categoryId, t.gates.gate? c = none) ↔
        ProbeDispatcher.membersUnder t categoryId none ≠ [] := by
      simp only [← mem_membersUnder_iff]
      exact ⟨fun ⟨c, hc⟩ => List.ne_nil_of_mem hc, fun hne => List.exists_mem_of_ne_nil _ hne⟩
    simp only [ProbeDispatcher.removalsOf, hungated, ite_not, List.map_append, List.map_map]
    congr 1
    split <;> rfl
  · rw [ProbeDispatcher.tagsOf, Text.mem_ordered, List.mem_filterMap]
  · have hclass : call.className ∈ chain.item := by
      rw [← map_className_chainCalls chain.item]
      exact List.mem_map_of_mem hcall
    rw [(mem_removalsOf hchain).1, mem_membersUnder_iff] at hclass
    exact hclass.2

/-! ### The text of a taxonomy -/

section Text

variable (t) (target : Target)

theorem map_name_helperTexts :
    ((ProbeDispatcher.ofTaxonomy t).helpers.flatMap (ProbeDispatcher.helperTexts target)).map
      (·.name) = helperNames t.categoryIds := by
  rw [ProbeDispatcher.ofTaxonomy, List.flatMap_map, List.map_flatMap]
  rfl

/-- The names of helpers are those of the functions for the one action and the other. -/
theorem mem_helperNames_iff {ids : List String} {name : String} :
    name ∈ helperNames ids ↔
      name ∈ ids.map (helperFunction "apply") ++ ids.map (helperFunction "remove") := by
  simp only [helperNames, List.mem_flatMap, List.mem_pair, List.mem_append, List.mem_map,
    and_or_left, exists_or, eq_comm]

variable {t} (hids : ∀ id ∈ t.categoryIds, Json.NamePattern.identifier.matches? id)

include hids

theorem calls_insideApply :
    calls (ProbeDispatcher.insideApply target (.ofTaxonomy t)) =
      t.categoryIds.map (helperFunction "apply") := by
  have hcatchAll := hids t.catchAll (List.mem_append_right _ List.mem_cons_self)
  have hbranches : ∀ b ∈ t.branches.map (ProbeDispatcher.branchOf t),
      Json.NamePattern.identifier.matches? b.categoryId :=
    List.forall_mem_map.2 fun branch hbranch =>
      hids _ (List.mem_append_left _ (List.mem_map_of_mem hbranch))
  have hcalls := ProbeDispatcher.calls_insideApply target (.ofTaxonomy t) hcatchAll hbranches
  have hsplit : t.categoryIds.map (helperFunction "apply") =
      t.branches.map (fun branch => helperFunction "apply" branch.id) ++
        [helperFunction "apply" t.catchAll] := by
    rw [categoryIds, List.map_append, List.map_map]
    rfl
  rw [hcalls, hsplit]
  exact congrArg (· ++ [helperFunction "apply" t.catchAll]) List.map_map

theorem calls_insideRemove :
    calls (ProbeDispatcher.insideRemove target (.ofTaxonomy t)) =
      t.categoryIds.map (helperFunction "remove") := by
  have hcalls := ProbeDispatcher.calls_insideRemove target (.ofTaxonomy t)
    (List.forall_mem_map.2 hids)
  rw [hcalls, ProbeDispatcher.ofTaxonomy, List.map_map]
  rfl

end Text

end Taxonomy

/-! ### Under a configuration -/

/-- The text of the dispatcher for live nodes is read as the two entry points, which are followed by
    the helpers. In the one that adds markers, the tests of the branches form one chain, in order,
    or none if there is no branch. The entry points call the helpers of all categories, and each
    helper that is called is defined once. Each helper that removes markers removes those of its
    category, in one statement for each gate. -/
theorem probe_dispatcher_text_is_coherent {workingDirectory path : String} {document : Json}
    {config : Config} (accepted : Config.ofJson workingDirectory path document = .ok config)
    (unbroken : ∀ s ∈ config.target.settings, Unbroken s) {entries : List ClassEntry}
    (identifiers : ∀ e ∈ entries, Json.NamePattern.identifier.matches? e.name)
    {plan : RunPlan} (made : RunPlan.make (.ofEntries entries) config = .ok plan) :
    let t := plan.taxonomy
    let target := config.target
    let entry := config.entryPoints
    ∃ apply remove helpers,
      functionsOf (linesOf (GeneratedFile.probeDispatcherText target entry t)) =
        apply :: remove :: helpers ∧
      apply.name = entry.apply ∧ remove.name = entry.remove ∧
      helpers.map (·.name) = helperNames t.categoryIds ∧
      apply.lines.filterMap ChainMark.ofLine? =
        ChainMark.chain (t.branches.map fun branch => t.testOf target branch.root) ∧
      calls apply.lines = t.categoryIds.map (helperFunction "apply") ∧
      calls remove.lines = t.categoryIds.map (helperFunction "remove") ∧
      (∀ name ∈ calls apply.lines ++ calls remove.lines,
        (helpers.map (·.name)).count name = 1) ∧
      (∀ f ∈ helpers, f.name ∈ calls apply.lines ++ calls remove.lines) ∧
      ∀ id ∈ t.categoryIds, ∃ f ∈ helpers, f.name = helperFunction "remove" id ∧
        let chains := removalChains target none f.lines
        f.lines.filterMap (removalCall? target) = chains.flatMap (·.calls) ∧
        t.RemovesCategory id chains := by
  intro t target entry
  have named : t.Named entry := RunPlan.named identifiers made accepted
  obtain ⟨taxonomy, built, rfl⟩ := RunPlan.exists_taxonomy_of_make made
  have wf : t.WellFormed := Taxonomy.wellFormed_of_build (Config.fit_of_ofJson accepted) built
  let d := ProbeDispatcher.ofTaxonomy t
  let helpers := d.helpers.flatMap (ProbeDispatcher.helperTexts target)
  have hfunctions : functionsOf (linesOf (GeneratedFile.probeDispatcherText target entry t)) =
      ⟨entry.apply, ProbeDispatcher.insideApply target d⟩ ::
        ⟨entry.remove, ProbeDispatcher.insideRemove target d⟩ :: helpers :=
    ProbeDispatcher.functionsOf_unlines target entry d unbroken named.entryPoint
      (wf.namesUnbroken named) (List.forall_mem_map.2 fun id hid =>
        paren_not_mem_of_identifier (named.categoryId id hid))
  have hnames : helpers.map (·.name) = helperNames t.categoryIds :=
    Taxonomy.map_name_helperTexts t target
  have happly : calls (ProbeDispatcher.insideApply target d) =
      t.categoryIds.map (helperFunction "apply") :=
    Taxonomy.calls_insideApply target named.categoryId
  have hremove : calls (ProbeDispatcher.insideRemove target d) =
      t.categoryIds.map (helperFunction "remove") :=
    Taxonomy.calls_insideRemove target named.categoryId
  refine ⟨_, _, helpers, hfunctions, rfl, rfl, hnames, ?_, happly, hremove, fun name hname => ?_,
    fun f hf => ?_, fun id hid => ?_⟩
  · rw [ProbeDispatcher.marks_insideApply]
    exact congrArg ChainMark.chain List.map_map
  · rw [happly, hremove, ← Taxonomy.mem_helperNames_iff] at hname
    rw [hnames]
    exact List.count_eq_one_of_mem (nodup_helperNames wf.nodup_categoryIds) hname
  · rw [happly, hremove, ← Taxonomy.mem_helperNames_iff, ← hnames]
    exact List.mem_map_of_mem hf
  · let h := ProbeDispatcher.helpersOf t id
    have hchains : removalChains target none (ProbeDispatcher.insideRemoveHelper target h) =
        (ProbeDispatcher.removalsOf t id).map fun chain => ⟨chain.gate?, chainCalls chain.item⟩ :=
      ProbeDispatcher.removalChains_removals target _
    have hhelper : h ∈ d.helpers := List.mem_map_of_mem hid
    refine ⟨⟨helperFunction "remove" id, ProbeDispatcher.insideRemoveHelper target h⟩,
      List.mem_flatMap.2 ⟨h, hhelper, List.mem_cons_of_mem _ List.mem_cons_self⟩, rfl, ?_, ?_⟩
    · rw [hchains, List.flatMap_map]
      exact ProbeDispatcher.removalCalls_removals target _
    · rw [hchains]
      exact wf.removesCategory id

/-- In the text for sprites and what is drawn, the chain has two tests, and six helpers are called,
    the last of which removes what is in none of the two categories. -/
theorem probe_dispatcher_text_is_coherent_of_two_branches :
    Config.ofJson "/work" "/work/generator.config.json" Sample.document = .ok Sample.config ∧
      (∀ s ∈ Sample.config.target.settings, Unbroken s) ∧
      (∀ e ∈ Sample.dump, Json.NamePattern.identifier.matches? e.name) ∧
      RunPlan.make (.ofEntries Sample.dump) Sample.config = .ok Sample.plan ∧
      ∃ apply remove helpers,
        functionsOf (linesOf (GeneratedFile.probeDispatcherText {} {} Sample.taxonomy)) =
          apply :: remove :: helpers ∧
        apply.lines.filterMap ChainMark.ofLine? =
          [.opens "node.try_get::<godot::classes::Sprite2D>().is_some()",
            .goesOn "node.try_get::<godot::classes::CanvasItem>().is_some()", .closes] ∧
        calls apply.lines ++ calls remove.lines =
          ["apply_sprite_markers", "apply_canvas_markers", "apply_universal_markers",
            "remove_sprite_markers", "remove_canvas_markers", "remove_universal_markers"] ∧
        ∃ f ∈ helpers, f.name = "remove_canvas_markers" ∧
          Sample.taxonomy.RemovesCategory "canvas" (removalChains {} none f.lines) := by
  have unbroken : ∀ s ∈ Sample.config.target.settings, Unbroken s := by decide +kernel
  obtain ⟨apply, remove, helpers, hfunctions, -, -, -, hmarks, happly, hremove, -, -, hremoves⟩ :=
    probe_dispatcher_text_is_coherent Sample.ofJson_document unbroken Sample.identifiers_dump
      Sample.make_dump
  have hcanvas : "canvas" ∈ Sample.plan.taxonomy.categoryIds := by decide +kernel
  obtain ⟨f, hf, hname, -, hchains⟩ := hremoves "canvas" hcanvas
  refine ⟨Sample.ofJson_document, unbroken, Sample.identifiers_dump, Sample.make_dump, apply,
    remove, helpers, hfunctions, hmarks.trans ?_, ?_, f, hf, hname, hchains⟩
  · decide +kernel
  · rw [happly, hremove]
    decide +kernel

end NodeTagging
