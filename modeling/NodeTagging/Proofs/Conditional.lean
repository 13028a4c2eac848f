import Mathlib.Data.List.Basic
import NodeTagging.Generated.File

/-!
# What is left of generated lines

The compiler of the target deletes every item whose attribute names a feature that is not enabled.
Here this is done to lines, whoever wrote them: `compiled` reads no plan, only the attribute lines
and, from the last characters of the lines after one, how far the item reaches. What the remaining
lines say of markers and probes is read off them one by one (`statements`).

Lines *leave* statements if these come out of them wherever the lines stand (`Leaves`). This goes
along concatenation, so that what is left of a program is put together from what is left of its
parts (`Leaves.append`, `Leaves.flatMap`), and an attribute line before a whole item decides about
everything that the item leaves (`Leaves.gated`).
-/

namespace NodeTagging

/-! ### Reading a line -/

/-- The characters of a line after its indentation. -/
def body (line : String) : List Char :=
  line.toList.dropWhile fun c => c = ' '

/-- What stands between two texts, if the characters are those of the one, of something, and of the
    other. -/
def between? (before after : String) (s : List Char) : Option String :=
  match before.toList.isPrefixOf? s with
  | none => none
  | some rest => (after.toList.isSuffixOf? rest).map String.ofList

/-- The feature that an attribute line names. -/
def featureOf? (line : String) : Option String :=
  between? "#[cfg(feature = \"" "\")]" (body line)

@[simp]
theorem body_indent (depth : Nat) (line : String) : body (indent depth line) = body line := by
  simp [body, indent]

@[simp]
theorem featureOf?_indent (depth : Nat) (line : String) :
    featureOf? (indent depth line) = featureOf? line := by
  rw [featureOf?, featureOf?, body_indent]

section Cutting

variable {α : Type} [DecidableEq α] {cut : α} {before : List α}

/-- What stands before the first place of an element. -/
theorem takeWhile_ne_append_cons (h : cut ∉ before) (after : List α) :
    (before ++ cut :: after).takeWhile (fun x => x ≠ cut) = before := by
  have hbefore : ∀ x ∈ before, decide (x ≠ cut) = true := fun x hx =>
    decide_eq_true (ne_of_mem_of_not_mem hx h)
  rw [List.takeWhile_append_of_pos hbefore, List.takeWhile_cons_of_neg (by simp), List.append_nil]

/-- What begins at the first place of an element. -/
theorem dropWhile_ne_append_cons (h : cut ∉ before) (after : List α) :
    (before ++ cut :: after).dropWhile (fun x => x ≠ cut) = cut :: after := by
  have hbefore : ∀ x ∈ before, decide (x ≠ cut) = true := fun x hx =>
    decide_eq_true (ne_of_mem_of_not_mem hx h)
  rw [List.dropWhile_append_of_pos hbefore, List.dropWhile_cons_of_neg (by simp)]

end Cutting

theorem between?_eq_some_iff {before after x : String} {s : List Char} :
    between? before after s = some x ↔ s = before.toList ++ (x.toList ++ after.toList) := by
  rw [between?]
  constructor
  · intro h
    split at h
    · simp at h
    · next rest hrest =>
      obtain ⟨x, hx, rfl⟩ := Option.map_eq_some_iff.1 h
      rw [← List.isPrefixOf?_eq_some_iff_append_eq.1 hrest,
        ← List.isSuffixOf?_eq_some_iff_append_eq.1 hx, String.toList_ofList]
  · rintro rfl
    rw [List.isPrefixOf?_eq_some_iff_append_eq.2 rfl]
    exact Option.map_eq_some_iff.2
      ⟨x.toList, List.isSuffixOf?_eq_some_iff_append_eq.2 rfl, String.ofList_toList⟩

theorem between?_eq_none {before after : String} {s : List Char} (h : ¬ before.toList <+: s) :
    between? before after s = none := by
  refine Option.eq_none_iff_forall_ne_some.2 fun x hx => h ?_
  rw [between?_eq_some_iff.1 hx]
  exact List.prefix_append _ _

/-- The attribute of a gate names the feature of its tag. -/
theorem featureOf?_featureAttribute (target : Target) (tag : String) :
    featureOf? (target.featureAttribute tag) = some (target.gateFeaturePrefix ++ tag) := by
  refine between?_eq_some_iff.2 ?_
  unfold Target.featureAttribute
  simp [body]

theorem getLast?_append {line : String} {c : Char} (before : String)
    (h : line.toList.getLast? = some c) : (before ++ line).toList.getLast? = some c := by
  rw [String.toList_append, List.getLast?_append, h]
  rfl

/-! ### Deleting items -/

/-- The line that closes a block which the given line opens. -/
def closingLine (line : String) : String :=
  String.ofList (line.toList.takeWhile (fun c => c = ' ') ++ ['\x7d'])

theorem closingLine_indent {line : String} (depth : Nat) (h : line.toList.head? ≠ some ' ') :
    closingLine (indent depth line) = indent depth "\x7d" := by
  have hblank : line.toList.takeWhile (fun c => c = ' ') = [] := by
    cases hline : line.toList with
    | nil => rfl
    | cons c cs =>
      rw [hline, List.head?_cons] at h
      exact List.takeWhile_cons_of_neg (by simpa using h)
  refine String.toList_injective ?_
  simp [closingLine, indent, hblank]

/-- A line inside a block is not the one that closes it. -/
theorem indent_ne_closing {depth inner : Nat} (h : depth < inner) (line : String) :
    indent inner line ≠ indent depth "\x7d" := by
  intro heq
  obtain ⟨k, rfl⟩ := Nat.exists_eq_add_of_lt h
  have hchars := congrArg String.toList heq
  -- At the end of the lesser indentation one line has a blank and the other its brace.
  rw [indent, indent, show 4 * (depth + k + 1) = 4 * depth + (4 * k + 3 + 1) by omega,
    List.replicate_add, List.replicate_succ] at hchars
  simp at hchars

/-- The lines after the first item. An item that opens a block reaches to the end of it; any other
    one ends with the first line that ends a statement, a declaration or an arm. Lines with
    attributes belong to the item that they stand before. -/
def afterItem : List String → List String
  | [] => []
  | line :: lines =>
    match line.toList.getLast? with
    | some '\x7b' => (lines.dropWhile fun l => l ≠ closingLine line).tail
    | some ';' | some ',' | some '\x7d' => lines
    | _ => afterItem lines

theorem length_afterItem_le (lines : List String) : (afterItem lines).length ≤ lines.length := by
  induction lines with
  | nil => simp [afterItem]
  | cons line lines ih =>
    have hdrop := (List.dropWhile_suffix (l := lines) fun l => l ≠ closingLine line).length_le
    unfold afterItem
    split <;> simp only [List.length_tail, List.length_cons] <;> omega

/-- The lines that are left while the given features are enabled: an attribute line with a feature
    that is not enabled is deleted with the item after it. -/
def compiled (enabled : String → Bool) : List String → List String
  | [] => []
  | line :: lines =>
    match featureOf? line with
    | some feature =>
      if enabled feature then line :: compiled enabled lines
      else compiled enabled (afterItem lines)
    | none => line :: compiled enabled lines
termination_by lines => lines.length
decreasing_by
  · simp
  · have := length_afterItem_le lines
    simp only [List.length_cons]
    omega
  · simp

section Compiled

variable {enabled : String → Bool} {line : String} {lines : List String}

theorem compiled_cons_of_plain (h : featureOf? line = none) :
    compiled enabled (line :: lines) = line :: compiled enabled lines := by
  rw [compiled, h]

theorem compiled_cons_of_enabled {feature : String} (h : featureOf? line = some feature)
    (hon : enabled feature = true) :
    compiled enabled (line :: lines) = line :: compiled enabled lines := by
  rw [compiled, h]
  exact if_pos hon

theorem compiled_cons_of_disabled {feature : String} (h : featureOf? line = some feature)
    (hoff : enabled feature = false) :
    compiled enabled (line :: lines) = compiled enabled (afterItem lines) := by
  rw [compiled, h]
  exact if_neg (by simp [hoff])

end Compiled

/-! ### Statements -/

/-- What a line says of markers and probes. -/
inductive Statement where
  /-- A marker is declared. -/
  | declare (marker : String)
  /-- A marker is inserted. -/
  | insert (marker : String)
  /-- A marker is removed. -/
  | remove (marker : String)
  /-- A condition is asked for. -/
  | probe (condition : String)
deriving DecidableEq, Repr

namespace Statement

/-- The ways to write a statement: what stands before and after the marker or condition. -/
def forms : List (String × String × (String → Statement)) :=
  [("pub struct ", ";", declare), ("entity_commands.insert(", ");", insert),
    ("entity_commands.remove::<", ">();", remove), (".remove::<", ">();", remove),
    (".remove::<", ">()", remove), ("if ", " \x7b", probe), ("\x7d else if ", " \x7b", probe)]

/-- The statement of a line, if it is one. -/
def ofLine? (line : String) : Option Statement :=
  forms.findSome? fun form => (between? form.1 form.2.1 (body line)).map form.2.2

@[simp]
theorem ofLine?_indent (depth : Nat) (line : String) :
    ofLine? (indent depth line) = ofLine? line := by
  simp only [ofLine?, body_indent]

section Written

variable (x : String)

@[simp]
theorem ofLine?_declare : ofLine? ("pub struct " ++ x ++ ";") = some (declare x) := by
  simp [ofLine?, forms, between?, body, List.isPrefixOf?, List.isSuffixOf?]

@[simp]
theorem ofLine?_insert : ofLine? ("entity_commands.insert(" ++ x ++ ");") = some (insert x) := by
  simp [ofLine?, forms, between?, body, List.isPrefixOf?, List.isSuffixOf?]

@[simp]
theorem ofLine?_removeFrom :
    ofLine? ("entity_commands.remove::<" ++ x ++ ">();") = some (remove x) := by
  simp [ofLine?, forms, between?, body, List.isPrefixOf?, List.isSuffixOf?]

@[simp]
theorem ofLine?_removeLast : ofLine? (".remove::<" ++ x ++ ">();") = some (remove x) := by
  simp [ofLine?, forms, between?, body, List.isPrefixOf?, List.isSuffixOf?]

@[simp]
theorem ofLine?_remove : ofLine? (".remove::<" ++ x ++ ">()") = some (remove x) := by
  simp [ofLine?, forms, between?, body, List.isPrefixOf?, List.isSuffixOf?]

@[simp]
theorem ofLine?_if : ofLine? ("if " ++ x ++ " \x7b") = some (probe x) := by
  simp [ofLine?, forms, between?, body, List.isPrefixOf?, List.isSuffixOf?]

@[simp]
theorem ofLine?_elseIf : ofLine? ("\x7d else if " ++ x ++ " \x7b") = some (probe x) := by
  simp [ofLine?, forms, between?, body, List.isPrefixOf?, List.isSuffixOf?]

end Written

/-- The marker that has to be declared for a statement to compile. -/
def mentioned? : Statement → Option String
  | insert marker | remove marker => some marker
  | declare _ | probe _ => none

/-- The condition that a statement asks for. -/
def condition? : Statement → Option String
  | probe condition => some condition
  | declare _ | insert _ | remove _ => none

end Statement

/-- The texts that an attribute line or a statement begins with. -/
def openings : List String :=
  "#[cfg(feature = \"" :: Statement.forms.map Prod.fst

/-- The line is neither an attribute line nor a statement. -/
def Silent (line : String) : Prop :=
  ∀ opening ∈ openings, ¬ opening.toList <+: body line

section Silent

variable {line : String}

@[simp]
theorem silent_indent (depth : Nat) : Silent (indent depth line) ↔ Silent line := by
  rw [Silent, Silent, body_indent]

theorem silent_closing : Silent "\x7d" := by
  simp [Silent, openings, Statement.forms, body]

theorem featureOf?_of_silent (h : Silent line) : featureOf? line = none :=
  between?_eq_none (h _ List.mem_cons_self)

theorem ofLine?_of_silent (h : Silent line) : Statement.ofLine? line = none := by
  refine List.findSome?_eq_none_iff.2 fun form hform => ?_
  rw [between?_eq_none (h form.1 (List.mem_cons_of_mem _ (List.mem_map_of_mem hform))),
    Option.map_none]

/-- A statement is not an attribute line. -/
theorem featureOf?_of_ofLine? {s : Statement} (h : Statement.ofLine? line = some s) :
    featureOf? line = none := by
  obtain ⟨form, hform, hs⟩ := List.exists_of_findSome?_eq_some h
  obtain ⟨x, hx, -⟩ := Option.map_eq_some_iff.1 hs
  -- No form begins as an attribute line does.
  refine between?_eq_none ?_
  rw [between?_eq_some_iff.1 hx]
  revert form
  simp [Statement.forms]

end Silent

/-- The statements that are left while the given features are enabled, in order. -/
def statements (enabled : String → Bool) (lines : List String) : List Statement :=
  (compiled enabled lines).filterMap Statement.ofLine?

/-! ### What lines leave -/

/-- The lines leave the given statements wherever they stand. -/
def Leaves (enabled : String → Bool) (lines : List String) (left : List Statement) : Prop :=
  ∀ rest, statements enabled (lines ++ rest) = left ++ statements enabled rest

/-- The lines are one item: it ends where they end. -/
def Whole (lines : List String) : Prop :=
  ∀ rest, afterItem (lines ++ rest) = rest

section Whole

variable {line : String} {lines : List String}

theorem whole_of_end {c : Char} (hline : line.toList.getLast? = some c)
    (hc : c = ';' ∨ c = ',' ∨ c = '\x7d') : Whole [line] := by
  intro rest
  rw [List.singleton_append, afterItem, hline]
  rcases hc with rfl | rfl | rfl <;> rfl

theorem whole_cons {c : Char} (hline : line.toList.getLast? = some c)
    (hc : c ∉ ['\x7b', ';', ',', '\x7d']) (h : Whole lines) : Whole (line :: lines) := by
  intro rest
  rw [List.cons_append, afterItem, hline]
  split
  case h_5 => exact h rest
  all_goals simp_all

/-- A block is whole if everything inside is indented further than its ends. -/
theorem whole_block {depth inner : Nat} (hlt : depth < inner)
    (hopening : line.toList.getLast? = some '\x7b') (hstart : line.toList.head? ≠ some ' ')
    (hinside : ∀ l ∈ lines, ∃ line', l = indent inner line') :
    Whole (indent depth line :: lines ++ [indent depth "\x7d"]) := by
  have hlast : (indent depth line).toList.getLast? = some '\x7b' := getLast?_append _ hopening
  -- Inside no line is the closing one, so the first that is ends the block.
  have hfirst : indent depth "\x7d" ∉ lines := by
    intro hmem
    obtain ⟨line', heq⟩ := hinside _ hmem
    exact indent_ne_closing hlt line' heq.symm
  intro rest
  rw [List.append_assoc, List.cons_append, afterItem, hlast]
  simp only [closingLine_indent depth hstart]
  rw [List.singleton_append, dropWhile_ne_append_cons hfirst, List.tail_cons]

end Whole

namespace Leaves

variable {enabled : String → Bool} {lines lines' : List String} {left left' : List Statement}

/-- What is left of lines that leave statements. -/
theorem statements_eq (h : Leaves enabled lines left) : statements enabled lines = left := by
  simpa [statements, compiled] using h []

theorem nil : Leaves enabled [] [] :=
  fun _ => rfl

theorem append (h : Leaves enabled lines left) (h' : Leaves enabled lines' left') :
    Leaves enabled (lines ++ lines') (left ++ left') := by
  intro rest
  rw [List.append_assoc, h, h', List.append_assoc]

theorem flatMap {α : Type} {items : List α} {f : α → List String} {g : α → List Statement}
    (h : ∀ x ∈ items, Leaves enabled (f x) (g x)) :
    Leaves enabled (items.flatMap f) (items.flatMap g) := by
  induction items with
  | nil => exact nil
  | cons x items ih =>
    rw [List.flatMap_cons, List.flatMap_cons]
    exact (h x List.mem_cons_self).append (ih fun y hy => h y (List.mem_cons_of_mem x hy))

/-- A statement is left as it is. -/
theorem statement {line : String} {s : Statement} (h : Statement.ofLine? line = some s) :
    Leaves enabled [line] [s] := by
  intro rest
  rw [statements, List.singleton_append, compiled_cons_of_plain (featureOf?_of_ofLine? h),
    List.filterMap_cons, h]
  rfl

/-- Silent lines leave nothing. -/
theorem silent (h : ∀ line ∈ lines, Silent line) : Leaves enabled lines [] := by
  intro rest
  induction lines with
  | nil => rfl
  | cons line lines ih =>
    have hline := h line List.mem_cons_self
    rw [statements, List.cons_append, compiled_cons_of_plain (featureOf?_of_silent hline),
      List.filterMap_cons, ofLine?_of_silent hline]
    exact ih fun l hl => h l (List.mem_cons_of_mem line hl)

theorem blank : Leaves enabled [""] [] :=
  silent (by simp [Silent, openings, Statement.forms, body])

theorem closing : Leaves enabled ["\x7d"] [] :=
  silent (by simpa using silent_closing)

theorem closing_indent (depth : Nat) : Leaves enabled [indent depth "\x7d"] [] :=
  silent (by simpa using silent_closing)

/-- The empty line between two blocks leaves nothing. -/
theorem separateBlocks {blocks : List (List String × List Statement)}
    (h : ∀ block ∈ blocks, Leaves enabled block.1 block.2) :
    Leaves enabled (Text.separateBlocks (blocks.map Prod.fst)) (blocks.flatMap Prod.snd) := by
  induction blocks with
  | nil => exact nil
  | cons first others ih =>
    have hfirst := h first List.mem_cons_self
    cases others with
    | nil => simpa [Text.separateBlocks] using hfirst
    | cons second others =>
      have hothers := ih fun block hblock => h block (List.mem_cons_of_mem first hblock)
      rw [List.flatMap_cons, List.map_cons, List.map_cons, Text.separateBlocks_cons_cons]
      exact hfirst.append (blank.append hothers)

end Leaves

namespace Target

/-- Whether something under a gate is there while the given features are enabled. -/
def enables (target : Target) (enabled : String → Bool) (gate? : Option String) : Bool :=
  gate?.all fun tag => enabled (target.gateFeaturePrefix ++ tag)

end Target

/-- The attribute line before an item decides about all that the item leaves. -/
theorem Leaves.gated {enabled : String → Bool} {item : List String} {left : List Statement}
    (target : Target) (depth : Nat) (gate? : Option String) (hitem : Whole item)
    (h : Leaves enabled item left) :
    Leaves enabled (target.gateLines depth gate? ++ item)
      (if target.enables enabled gate? then left else []) := by
  cases gate? with
  | none => simpa [Target.gateLines, Target.enables] using h
  | some tag =>
    intro rest
    have hfeature : featureOf? (indent depth (target.featureAttribute tag)) =
        some (target.gateFeaturePrefix ++ tag) := by
      rw [featureOf?_indent, featureOf?_featureAttribute]
    -- The attribute line itself is no statement, whether it is left or not.
    have hsilent : Statement.ofLine? (indent depth (target.featureAttribute tag)) = none := by
      cases hs : Statement.ofLine? (indent depth (target.featureAttribute tag)) with
      | none => rfl
      | some s => simp [featureOf?_of_ofLine? hs] at hfeature
    rw [Target.gateLines, Option.map_some, Option.toList_some, List.append_assoc,
      List.singleton_append, Target.enables, Option.all_some]
    have hrest := h rest
    unfold statements at hrest ⊢
    cases hon : enabled (target.gateFeaturePrefix ++ tag) with
    | true =>
      rw [compiled_cons_of_enabled hfeature hon, List.filterMap_cons, hsilent, if_pos rfl]
      exact hrest
    | false =>
      rw [compiled_cons_of_disabled hfeature hon, hitem rest]
      rfl

end NodeTagging
