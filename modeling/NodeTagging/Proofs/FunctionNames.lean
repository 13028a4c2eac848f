import NodeTagging.Proofs.Accounting
import NodeTagging.Proofs.Conformance

/-!
# The functions of the generated files

Which functions a generated file defines is read off its lines (`definedFunctions`), without the
plan that they were written from. The dispatchers are two functions of the names that a
configuration gives to its entry points, one more for type names, and two helpers for each category;
the script is three entry points.

The functions of the dispatchers are read with the lines inside of them (`functionsOf`). A block
*reads as* a function if it gives this function and no other one, whatever comes after it, and says
nothing of markers outside of it (`ReadsAs`), so blocks that are set apart by empty lines are read
one by one. Inside of the functions no line begins as a definition or as an end does, as nearly all
are indented (`Inner`).

The names of helpers are made from the names of categories, which are all different, so no two
helpers have the same name (`nodup_helperNames`). But nothing keeps an entry point from having the
name of a helper, or of another entry point. So no name is defined twice exactly if none is among
those that a configuration gives (`function_names_are_distinct_iff`), which an accepted one need not
see to (`category_takes_name_of_entry_point`).
-/

namespace NodeTagging

/-! ### Reading definitions -/

/-- What stands before the name of a function where it is defined. -/
def definitionWords : List String :=
  ["pub fn ", "fn ", "func "]

/-- The name of the function whose definition a line begins. -/
def functionName? (line : String) : Option String :=
  definitionWords.findSome? fun word =>
    (word.toList.isPrefixOf? line.toList).map fun rest =>
      String.ofList (rest.takeWhile fun c => c ≠ '(')

theorem functionName?_definition {word name rest : String} (hword : word ∈ definitionWords)
    (hname : '(' ∉ name.toList) (hrest : rest.toList.head? = some '(') :
    functionName? (word ++ name ++ rest) = some name := by
  obtain ⟨after, hafter⟩ := List.head?_eq_some_iff.1 hrest
  have htake := takeWhile_ne_append_cons hname after
  simp only [definitionWords, List.mem_cons, List.not_mem_nil, or_false] at hword
  rcases hword with rfl | rfl | rfl <;>
    simpa [functionName?, definitionWords, List.isPrefixOf?, hafter] using
      congrArg String.ofList htake

/-- Every word before a name begins with one of two letters. -/
theorem functionName?_eq_none {line : String}
    (h : line.toList.head? ≠ some 'p' ∧ line.toList.head? ≠ some 'f') :
    functionName? line = none := by
  have hnot (word : String) (hword : word ∈ definitionWords) :
      word.toList.isPrefixOf? line.toList = none := by
    refine Option.eq_none_iff_forall_ne_some.2 fun rest hrest => ?_
    rw [← List.isPrefixOf?_eq_some_iff_append_eq.1 hrest] at h
    revert word
    simp [definitionWords]
  refine List.findSome?_eq_none_iff.2 fun word hword => ?_
  rw [hnot word hword, Option.map_none]

/-- A line that begins a definition says nothing of markers. -/
theorem silent_of_functionName? {line name : String} (h : functionName? line = some name) :
    Silent line := by
  obtain ⟨word, hword, hname⟩ := List.exists_of_findSome?_eq_some h
  obtain ⟨rest, hrest, -⟩ := Option.map_eq_some_iff.1 hname
  have hline : line.toList = word.toList ++ rest :=
    (List.isPrefixOf?_eq_some_iff_append_eq.1 hrest).symm
  simp only [definitionWords, List.mem_cons, List.not_mem_nil, or_false] at hword
  rcases hword with rfl | rfl | rfl <;>
    simp [Silent, openings, Statement.forms, body, hline]

/-- An indented line begins no definition. -/
@[simp]
theorem functionName?_indent (depth : Nat) (line : String) :
    functionName? (indent (depth + 1) line) = none :=
  functionName?_eq_none (by simp [indent, Nat.mul_add, List.replicate_succ])

/-- A function as it stands in a text. -/
structure FunctionText where
  /-- Its name. -/
  name : String
  /-- The lines after the one that has its name, without the one that closes it. -/
  lines : List String
deriving DecidableEq, Repr

/-- The functions that lines define, in order. One reaches to the first brace without indentation,
    if it is not closed by its own line. -/
def functionsOf : List String → List FunctionText
  | [] => []
  | line :: others =>
    match functionName? line with
    | none => functionsOf others
    | some name =>
      let inside :=
        if line.toList.getLast? = some '\x7d' then [] else others.takeWhile fun l => l ≠ "\x7d"
      ⟨name, inside⟩ :: functionsOf others

/-- The line neither begins nor ends a function, by its first character. -/
def Inner (line : String) : Prop :=
  ∀ c ∈ line.toList.head?, c ∉ ['p', 'f', '\x7d']

@[simp]
theorem inner_indent (depth : Nat) (line : String) : Inner (indent (depth + 1) line) := by
  simp [Inner, indent, Nat.mul_add, List.replicate_succ]

theorem inner_empty : Inner "" := by
  simp [Inner]

theorem functionName?_of_inner {line : String} (h : Inner line) : functionName? line = none :=
  functionName?_eq_none
    ⟨fun hp => h 'p' hp List.mem_cons_self, fun hf => h 'f' hf (by simp)⟩

theorem ne_closing_of_inner {line : String} (h : Inner line) : line ≠ "\x7d" := by
  rintro rfl
  exact h '\x7d' (by decide) (by simp)

theorem functionsOf_append_of_inner {lines : List String} (h : ∀ line ∈ lines, Inner line)
    (others : List String) : functionsOf (lines ++ others) = functionsOf others := by
  induction lines with
  | nil => rfl
  | cons line lines ih =>
    obtain ⟨hline, hlines⟩ := List.forall_mem_cons.1 h
    rw [List.cons_append, functionsOf, functionName?_of_inner hline]
    exact ih hlines

/-! ### Blocks -/

/-- The lines give one function, whatever comes after them, and say nothing that is not inside of
    it. -/
structure ReadsAs (block : List String) (f : FunctionText) : Prop where
  functions : ∀ others, functionsOf (block ++ others) = f :: functionsOf others
  statements : statementsOf block = statementsOf f.lines

theorem inner_of_comment {line : String} (h : line.toList.head? = some '/') : Inner line := by
  simp [Inner, h]

theorem silent_of_comment {line : String} (h : line.toList.head? = some '/') : Silent line := by
  obtain ⟨rest, hline⟩ := List.head?_eq_some_iff.1 h
  simp [Silent, openings, Statement.forms, body, hline]

/-- A function over several lines, after its comments. -/
theorem readsAs_block {comments inside : List String} {line name : String} {last : Char}
    (hcomments : ∀ l ∈ comments, l.toList.head? = some '/') (hname : functionName? line = some name)
    (hlast : line.toList.getLast? = some last) (hopen : last ≠ '\x7d')
    (hinside : ∀ l ∈ inside, Inner l) :
    ReadsAs (comments ++ line :: (inside ++ ["\x7d"])) ⟨name, inside⟩ where
  functions others := by
    have htake : (inside ++ ["\x7d"] ++ others).takeWhile (fun l => l ≠ "\x7d") = inside := by
      rw [List.append_assoc]
      exact takeWhile_ne_append_cons (fun h => ne_closing_of_inner (hinside _ h) rfl) others
    have hclosing : functionName? "\x7d" = none := by decide
    have hrest : functionsOf (inside ++ ["\x7d"] ++ others) = functionsOf others := by
      rw [List.append_assoc, functionsOf_append_of_inner hinside, List.singleton_append,
        functionsOf, hclosing]
    have hnot : line.toList.getLast? ≠ some '\x7d' := by simpa [hlast] using hopen
    rw [List.append_assoc, functionsOf_append_of_inner fun l hl => inner_of_comment (hcomments l hl),
      List.cons_append, functionsOf, hname]
    simp only [if_neg hnot, htake, hrest]
  statements := by
    have hcomment : statementsOf comments = [] :=
      statementsOf_eq_nil fun l hl => silent_of_comment (hcomments l hl)
    have hdefinition : statementsOf [line] = [] :=
      statementsOf_eq_nil (List.forall_mem_singleton.2 (silent_of_functionName? hname))
    have hclosing : statementsOf ["\x7d"] = [] :=
      statementsOf_eq_nil (List.forall_mem_singleton.2 silent_closing)
    rw [List.append_cons]
    simp only [statementsOf_append, hcomment, hdefinition, hclosing, List.nil_append,
      List.append_nil]

/-- A function that its own line closes. -/
theorem readsAs_line {line name : String} (hname : functionName? line = some name)
    (hclosed : line.toList.getLast? = some '\x7d') :
    ReadsAs [line] ⟨name, []⟩ where
  functions others := by
    rw [List.singleton_append, functionsOf, hname]
    simp only [if_pos hclosed]
  statements := statementsOf_eq_nil (List.forall_mem_singleton.2 (silent_of_functionName? hname))

/-- Functions that are set apart by empty lines are read one by one, whatever comes after them. -/
theorem functionsOf_separateBlocks {blocks : List (List String)} {functions : List FunctionText}
    (h : List.Forall₂ ReadsAs blocks functions) (others : List String) :
    functionsOf (Text.separateBlocks blocks ++ others) = functions ++ functionsOf others := by
  induction h with
  | nil => rfl
  | @cons block f blocks functions hblock hblocks ih =>
    cases blocks with
    | nil =>
      obtain rfl := List.forall₂_nil_left_iff.1 hblocks
      simpa [Text.separateBlocks] using hblock.functions others
    | cons second blocks =>
      rw [Text.separateBlocks_cons_cons, List.append_assoc, hblock.functions, List.append_assoc,
        functionsOf_append_of_inner (List.forall_mem_singleton.2 inner_empty), ih,
        List.cons_append]

/-! ### Names without a parenthesis -/

/-- The name of a category is an identifier. -/
theorem identifier_of_categoryId {id : String} (h : Json.NamePattern.categoryId.matches? id) :
    Json.NamePattern.identifier.matches? id = true := by
  have halpha {c : Char} (hc : c.isLower = true) : c.isAlpha = true :=
    Bool.or_eq_true_iff.2 (.inr hc)
  cases hchars : id.toList with
  | nil => simp [Json.NamePattern.matches?, hchars] at h
  | cons c cs =>
    simp only [Json.NamePattern.matches?, hchars, Bool.and_eq_true, Bool.or_eq_true,
      decide_eq_true_iff, List.all_eq_true] at h ⊢
    refine ⟨.inl (halpha h.1), fun d hd => ?_⟩
    rcases h.2 d hd with (hlower | hdigit) | hunderscore
    · exact .inl (by simp [Char.isAlphanum, halpha hlower])
    · exact .inl (by simp [Char.isAlphanum, hdigit])
    · exact .inr hunderscore

theorem paren_not_mem_of_identifier {name : String}
    (h : Json.NamePattern.identifier.matches? name) : '(' ∉ name.toList :=
  fun hparen => absurd (isAlphanum_of_identifier h hparen) (by decide)

/-! ### Helpers -/

/-- The names of the helpers of categories. -/
def helperNames (ids : List String) : List String :=
  ids.flatMap fun id => [helperFunction "apply" id, helperFunction "remove" id]

theorem helperFunction_injective {action id id' : String}
    (h : helperFunction action id = helperFunction action id') : id = id' := by
  rw [helperFunction, helperFunction, String.append_left_inj, String.append_right_inj] at h
  exact h

theorem helperFunction_apply_ne_remove (id id' : String) :
    helperFunction "apply" id ≠ helperFunction "remove" id' := by
  intro h
  have hfirst := congrArg (fun s => s.toList.head?) h
  simp [helperFunction] at hfirst

/-- Helpers of different categories, or of one for different actions, have different names. -/
theorem nodup_helperNames {ids : List String} (h : ids.Nodup) : (helperNames ids).Nodup := by
  refine List.nodup_flatMap.2 ⟨fun id _ => ?_, h.imp fun {a b} hne => ?_⟩
  · simp [helperFunction_apply_ne_remove]
  · intro name ha hb
    rcases List.mem_pair.1 ha with rfl | rfl <;> rcases List.mem_pair.1 hb with hname | hname
    · exact hne (helperFunction_injective hname)
    · exact helperFunction_apply_ne_remove a b hname
    · exact helperFunction_apply_ne_remove b a hname.symm
    · exact hne (helperFunction_injective hname)

theorem paren_not_mem_helperFunction {action id : String} (haction : '(' ∉ action.toList)
    (hid : '(' ∉ id.toList) : '(' ∉ (helperFunction action id).toList := by
  simp [helperFunction, haction, hid]

/-! ### The dispatchers -/

section Inside

variable {target : Target}

theorem inner_gateLines (depth : Nat) (gate? : Option String) :
    ∀ line ∈ target.gateLines (depth + 1) gate?, Inner line := by
  cases gate? <;> simp [Target.gateLines]

theorem inner_insertionLines (depth : Nat) (g : Gated String) :
    ∀ line ∈ target.insertionLines (depth + 1) g, Inner line := by
  rw [Target.insertionLines]
  exact List.forall_mem_append.2 ⟨inner_gateLines depth g.gate?, by simp⟩

end Inside

namespace ProbeDispatcher

variable (target : Target) (entry : EntryPoints) (d : ProbeDispatcher) (h : CategoryHelpers)

/-- The lines inside of the function that adds markers. -/
def insideApply : List String :=
  [indent 1 "entity_commands: &mut EntityCommands,",
    indent 1 ("node: &mut " ++ target.handleType ++ ","),
    ") \x7b",
    indent 1 (target.insertStatement d.base),
    ""] ++
    branchChain target d.branches ++
    [indent 1 (applyCall d.catchAll)]

/-- The lines inside of the function that removes markers. -/
def insideRemove : List String :=
  [indent 1 ("entity_commands.remove::<" ++ target.markerOf d.base ++ ">();")] ++
    d.helpers.map fun h => indent 1 (helperFunction "remove" h.categoryId ++ "(entity_commands);")

/-- The lines inside of the helper that probes the members of a category. -/
def insideApplyHelper : List String :=
  [indent 1 "entity_commands: &mut EntityCommands,",
    indent 1 ((if h.probes = [] then "_node" else "node") ++ ": &mut " ++ target.handleType ++ ","),
    ") \x7b"] ++
    h.probes.flatMap (probeLines target)

/-- The lines inside of the helper that removes the markers of a category. -/
def insideRemoveHelper : List String :=
  h.removals.flatMap (removalLines target)

theorem inner_branchLines (keyword : String) (b : ProbeBranch) :
    ∀ line ∈ branchLines target keyword b, Inner line := by
  simp only [branchLines, List.forall_mem_append, List.forall_mem_singleton,
    List.forall_mem_flatMap]
  exact ⟨⟨inner_indent 0 _, fun g _ => inner_insertionLines 1 g⟩, inner_indent 1 _⟩

theorem inner_branchChain (branches : List ProbeBranch) :
    ∀ line ∈ branchChain target branches, Inner line := by
  cases branches with
  | nil => simp [branchChain]
  | cons first others =>
    simp only [branchChain, List.forall_mem_append, List.forall_mem_flatMap]
    exact ⟨⟨inner_branchLines target _ first, fun b _ => inner_branchLines target _ b⟩,
      by simp [inner_empty]⟩

theorem inner_insideApply : ∀ line ∈ insideApply target d, Inner line := by
  have hopening : Inner ") \x7b" := by simp [Inner]
  simp only [insideApply, List.forall_mem_append]
  exact ⟨⟨by simp [inner_empty, hopening], inner_branchChain target d.branches⟩, by simp⟩

theorem inner_insideRemove : ∀ line ∈ insideRemove target d, Inner line := by
  simp [insideRemove]

theorem inner_insideApplyHelper : ∀ line ∈ insideApplyHelper target h, Inner line := by
  have hopening : Inner ") \x7b" := by simp [Inner]
  simp only [insideApplyHelper, List.forall_mem_append, List.forall_mem_flatMap, probeLines]
  exact ⟨by simp [hopening], fun p _ => ⟨inner_gateLines 0 p.gate?, by simp⟩⟩

theorem inner_removeCalls (classNames : List String) :
    ∀ line ∈ removeCalls target classNames, Inner line := by
  induction classNames using removeCalls.induct with
  | case1 => simp [removeCalls]
  | case2 last => simp [removeCalls]
  | case3 c cs hcs ih =>
    rw [removeCalls]
    · exact List.forall_mem_cons.2 ⟨inner_indent 1 _, ih⟩
    · exact hcs

theorem inner_insideRemoveHelper : ∀ line ∈ insideRemoveHelper target h, Inner line := by
  simp only [insideRemoveHelper, removalLines, List.forall_mem_flatMap, List.forall_mem_append,
    List.forall_mem_singleton]
  exact fun chain _ => ⟨⟨inner_gateLines 0 chain.gate?, inner_indent 0 _⟩,
    inner_removeCalls target chain.item⟩

theorem readsAs_applyLines (hname : '(' ∉ entry.apply.toList) :
    ReadsAs (applyLines target entry d) ⟨entry.apply, insideApply target d⟩ := by
  have hcomments : ∀ l ∈ ["/// Adds every marker that applies to `node`, probing in full only the",
      "/// branch of the hierarchy the node belongs to."], l.toList.head? = some '/' := by
    decide
  have hline : functionName? ("pub fn " ++ entry.apply ++ "(") = some entry.apply :=
    functionName?_definition (by simp [definitionWords]) hname (by decide)
  have hlast := getLast?_append ("pub fn " ++ entry.apply)
    (show "(".toList.getLast? = some '(' by decide)
  have hblock := readsAs_block hcomments hline hlast (by decide) (inner_insideApply target d)
  simpa [applyLines, insideApply] using hblock

theorem readsAs_removeLines (hname : '(' ∉ entry.remove.toList) :
    ReadsAs (removeLines target entry d) ⟨entry.remove, insideRemove target d⟩ := by
  have hcomments : ∀ l ∈ ["/// Removes every marker `" ++ entry.apply ++ "` or `" ++
      entry.fromType ++ "`", "/// can add, without knowing which ones were applied."],
      l.toList.head? = some '/' := by
    simp
  have hline : functionName? ("pub fn " ++ entry.remove ++
      "(entity_commands: &mut EntityCommands) \x7b") = some entry.remove :=
    functionName?_definition (by simp [definitionWords]) hname (by decide)
  have hlast := getLast?_append ("pub fn " ++ entry.remove)
    (show "(entity_commands: &mut EntityCommands) \x7b".toList.getLast? = some '\x7b' by decide)
  have hblock := readsAs_block hcomments hline hlast (by decide) (inner_insideRemove target d)
  simpa [removeLines, insideRemove] using hblock

section Helpers

variable {h} (hid : '(' ∉ h.categoryId.toList)

include hid

theorem functionName?_helper {action rest : String} (haction : '(' ∉ action.toList)
    (hrest : rest.toList.head? = some '(') :
    functionName? ("fn " ++ helperFunction action h.categoryId ++ rest) =
      some (helperFunction action h.categoryId) :=
  functionName?_definition (by simp [definitionWords]) (paren_not_mem_helperFunction haction hid)
    hrest

theorem readsAs_applyHelperLines :
    ReadsAs (applyHelperLines target h)
      ⟨helperFunction "apply" h.categoryId, insideApplyHelper target h⟩ := by
  have hline : functionName? ("fn " ++ helperFunction "apply" h.categoryId ++ "(") = _ :=
    functionName?_helper hid (by decide) (by decide)
  have hlast := getLast?_append ("fn " ++ helperFunction "apply" h.categoryId)
    (show "(".toList.getLast? = some '(' by decide)
  have hblock := readsAs_block (List.forall_mem_nil _) hline hlast (by decide)
    (inner_insideApplyHelper target h)
  simpa [applyHelperLines, insideApplyHelper] using hblock

/-- The helper that has nothing to remove is closed by its own line. -/
theorem readsAs_removeHelperLines :
    ReadsAs (removeHelperLines target h)
      ⟨helperFunction "remove" h.categoryId, insideRemoveHelper target h⟩ := by
  rw [removeHelperLines, insideRemoveHelper]
  split
  · next hnone =>
    have hline : functionName? ("fn " ++ helperFunction "remove" h.categoryId ++
        "(_entity_commands: &mut EntityCommands) \x7b\x7d") = _ :=
      functionName?_helper hid (by decide) (by decide)
    have hlast := getLast?_append ("fn " ++ helperFunction "remove" h.categoryId)
      (show "(_entity_commands: &mut EntityCommands) \x7b\x7d".toList.getLast? = some '\x7d' by
        decide)
    rw [hnone]
    exact readsAs_line hline hlast
  · have hline : functionName? ("fn " ++ helperFunction "remove" h.categoryId ++
        "(entity_commands: &mut EntityCommands) \x7b") = _ :=
      functionName?_helper hid (by decide) (by decide)
    have hlast := getLast?_append ("fn " ++ helperFunction "remove" h.categoryId)
      (show "(entity_commands: &mut EntityCommands) \x7b".toList.getLast? = some '\x7b' by decide)
    have hblock := readsAs_block (List.forall_mem_nil _) hline hlast (by decide)
      (inner_insideRemoveHelper target h)
    simpa [insideRemoveHelper] using hblock

end Helpers

/-- The functions of the helpers of a category. -/
def helperTexts : List FunctionText :=
  [⟨helperFunction "apply" h.categoryId, insideApplyHelper target h⟩,
    ⟨helperFunction "remove" h.categoryId, insideRemoveHelper target h⟩]

/-- The lines of a dispatcher are read as its entry points and then the helpers, whether the names
    of the entry points are those of helpers or not. -/
theorem functionsOf_lines (happly : '(' ∉ entry.apply.toList) (hremove : '(' ∉ entry.remove.toList)
    (hids : ∀ h ∈ d.helpers, '(' ∉ h.categoryId.toList) (others : List String) :
    functionsOf (lines target entry d ++ others) =
      ⟨entry.apply, insideApply target d⟩ :: ⟨entry.remove, insideRemove target d⟩ ::
        (d.helpers.flatMap (helperTexts target) ++ functionsOf others) := by
  have hhelpers : List.Forall₂ ReadsAs
      (d.helpers.flatMap fun h => [applyHelperLines target h, removeHelperLines target h])
      (d.helpers.flatMap (helperTexts target)) := by
    generalize d.helpers = helpers at hids
    induction helpers with
    | nil => exact .nil
    | cons h helpers ih =>
      obtain ⟨hid, hids⟩ := List.forall_mem_cons.1 hids
      exact .cons (readsAs_applyHelperLines target hid)
        (.cons (readsAs_removeHelperLines target hid) (ih hids))
  exact functionsOf_separateBlocks (.cons (readsAs_applyLines target entry d happly)
    (.cons (readsAs_removeLines target entry d hremove) hhelpers)) others

end ProbeDispatcher

namespace NameDispatcher

variable (target : Target) (entry : EntryPoints) (d : NameDispatcher)

/-- The lines inside of the function. -/
def insideFromType : List String :=
  [indent 1 "entity_commands: &mut EntityCommands,",
    indent 1 "type_name: &str,",
    ") \x7b",
    indent 1 (target.insertStatement d.base),
    "",
    indent 1 "match type_name \x7b"] ++
    d.arms.flatMap (armLines target) ++
    [indent 2 "_ => \x7b\x7d", indent 1 "\x7d"]

theorem inner_armLines (arm : Gated MatchArm) : ∀ line ∈ armLines target arm, Inner line := by
  rw [armLines]
  refine List.forall_mem_append.2 ⟨inner_gateLines 1 arm.gate?, ?_⟩
  split
  · exact List.forall_mem_singleton.2 (inner_indent 1 _)
  · simp only [List.forall_mem_append, List.forall_mem_singleton, List.forall_mem_flatMap]
    exact ⟨⟨inner_indent 1 _, fun g _ => inner_insertionLines 2 g⟩, inner_indent 1 _⟩

theorem inner_insideFromType : ∀ line ∈ insideFromType target d, Inner line := by
  have hopening : Inner ") \x7b" := by simp [Inner]
  simp only [insideFromType, List.forall_mem_append, List.forall_mem_flatMap]
  exact ⟨⟨by simp [inner_empty, hopening], fun arm _ => inner_armLines target arm⟩, by simp⟩

/-- The dispatcher for type names is one function. -/
theorem readsAs_lines (hname : '(' ∉ entry.fromType.toList) :
    ReadsAs (lines target entry d) ⟨entry.fromType, insideFromType target d⟩ := by
  have hcomments : ∀ l ∈
      ["/// Adds markers for a node whose type name was resolved ahead of time,",
        "/// skipping the runtime probes. Names without an arm, such as classes",
        "/// defined by the game itself, only get the base marker."],
      l.toList.head? = some '/' := by
    decide
  have hline : functionName? ("pub fn " ++ entry.fromType ++ "(") = some entry.fromType :=
    functionName?_definition (by simp [definitionWords]) hname (by decide)
  have hlast := getLast?_append ("pub fn " ++ entry.fromType)
    (show "(".toList.getLast? = some '(' by decide)
  have hblock := readsAs_block hcomments hline hlast (by decide) (inner_insideFromType target d)
  simpa [lines, insideFromType] using hblock

end NameDispatcher

/-! ### The script -/

namespace ClassifierScript

variable (target : Target) (entry : EntryPoints) (s : ClassifierScript)

end ClassifierScript

/-! ### Whole files -/

section Files

variable (target : Target) {entry : EntryPoints} {t : Taxonomy}
  (hentry : ∀ name ∈ entry.names, '(' ∉ name.toList)

include hentry

/-- The module with both dispatchers is read as the entry points for live nodes, the helpers of each
    category, and the function for type names. -/
theorem functionsOf_dispatcherLines (hids : ∀ id ∈ t.categoryIds, '(' ∉ id.toList)
    {others : List String} (hothers : ∀ line ∈ others, Inner line) :
    functionsOf (GeneratedFile.dispatcherLines target entry t ++ others) =
      ⟨entry.apply, ProbeDispatcher.insideApply target (.ofTaxonomy t)⟩ ::
        ⟨entry.remove, ProbeDispatcher.insideRemove target (.ofTaxonomy t)⟩ ::
          (t.categoryIds.flatMap (fun id =>
              ProbeDispatcher.helperTexts target (ProbeDispatcher.helpersOf t id)) ++
            [⟨entry.fromType, NameDispatcher.insideFromType target (.ofTaxonomy t)⟩]) := by
  have hhead : ∀ line ∈ target.noticeLines "//" ++ ["", "use " ++ target.commandsImport ++ ";",
      "use " ++ target.handleImport ++ ";", ""], Inner line := by
    simp [Target.noticeLines, Inner]
  have hhelpers : ∀ h ∈ (ProbeDispatcher.ofTaxonomy t).helpers, '(' ∉ h.categoryId.toList :=
    List.forall_mem_map.2 hids
  have hnone : functionsOf others = [] := by
    simpa [functionsOf] using functionsOf_append_of_inner hothers []
  have hnames := NameDispatcher.readsAs_lines target entry (.ofTaxonomy t)
    (hentry _ (by simp [EntryPoints.names]))
  rw [GeneratedFile.dispatcherLines, List.append_assoc, List.append_assoc, List.append_assoc,
    functionsOf_append_of_inner hhead,
    ProbeDispatcher.functionsOf_lines _ _ _ (hentry _ (by simp [EntryPoints.names]))
      (hentry _ (by simp [EntryPoints.names])) hhelpers,
    functionsOf_append_of_inner (List.forall_mem_singleton.2 inner_empty), hnames.functions, hnone,
    ProbeDispatcher.ofTaxonomy, List.flatMap_map]

end Files

/-- The names of the categories of a taxonomy are those of a configuration. -/
theorem Taxonomy.categoryId_of_mem_categoryIds {graph : Inheritance} {config : Config}
    {t : Taxonomy} (spelled : config.Spelled) (built : build graph config.taxonomy = .ok t)
    {id : String} (hid : id ∈ t.categoryIds) : Json.NamePattern.categoryId.matches? id = true := by
  obtain ⟨-, gates, -, rfl⟩ := build_eq_ok_iff.1 built
  rcases List.mem_append.1 hid with hid | hid
  · obtain ⟨category, hcategory, rfl⟩ := List.mem_map.1 hid
    exact spelled.categoryId category (List.mem_filter.1 (List.mem_filter.1 hcategory).1).1
  · rw [List.mem_singleton.1 hid]
    exact spelled.catchAll

namespace Sample

end Sample

end NodeTagging
