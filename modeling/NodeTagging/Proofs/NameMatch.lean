import NodeTagging.Proofs.Accounting

/-!
# What a type name receives

The match on type names is read here as a program: of the lines that are left under a set of
features, `insertedFor` takes the insertions before the match, and those in the first arm for the
name. An arm stands under the gate of its class as a whole. So if the gate is enabled, the name of a
member receives the markers that it resolves to, as far as their own gates are enabled; if it is
not, the arm is gone and the name receives the marker of the root alone, even where classes above
the member have no gate (`WellFormed.insertedFor_member`).

* `Keeps`: the lines that are left of lines, wherever they stand;
* `armFor_arms`: of the arms that are left, the one for a name is found;
* `NameDispatcher.insertedFor_lines`: what every name receives, for any arms.
-/

namespace NodeTagging

variable {enabled : String → Bool}

/-! ### Lines that are left -/

/-- Of the lines, the given ones are left, wherever they stand. -/
def Keeps (enabled : String → Bool) (lines kept : List String) : Prop :=
  ∀ rest, compiled enabled (lines ++ rest) = kept ++ compiled enabled rest

namespace Keeps

variable {lines lines' kept kept' : List String}

theorem compiled_eq (h : Keeps enabled lines kept) : compiled enabled lines = kept := by
  simpa [compiled] using h []

theorem nil : Keeps enabled [] [] :=
  fun _ => rfl

theorem append (h : Keeps enabled lines kept) (h' : Keeps enabled lines' kept') :
    Keeps enabled (lines ++ lines') (kept ++ kept') := by
  intro rest
  rw [List.append_assoc, h, h', List.append_assoc]

theorem flatMap {α : Type} {items : List α} {f g : α → List String}
    (h : ∀ x ∈ items, Keeps enabled (f x) (g x)) :
    Keeps enabled (items.flatMap f) (items.flatMap g) := by
  induction items with
  | nil => exact nil
  | cons x items ih =>
    rw [List.flatMap_cons, List.flatMap_cons]
    exact (h x List.mem_cons_self).append (ih fun y hy => h y (List.mem_cons_of_mem x hy))

/-- Lines that are no attribute lines are left. -/
theorem plain (h : ∀ line ∈ lines, featureOf? line = none) : Keeps enabled lines lines := by
  intro rest
  induction lines with
  | nil => rfl
  | cons line lines ih =>
    rw [List.cons_append, compiled_cons_of_plain (h line List.mem_cons_self), List.cons_append,
      ih fun l hl => h l (List.mem_cons_of_mem line hl)]

/-- The attribute line before an item decides about all lines of the item. -/
theorem gated {item : List String} (target : Target) (depth : Nat) (gate? : Option String)
    (hitem : Whole item) (h : Keeps enabled item kept) :
    Keeps enabled (target.gateLines depth gate? ++ item)
      (if target.enables enabled gate? then target.gateLines depth gate? ++ kept else []) := by
  cases gate? with
  | none => simpa [Target.gateLines, Target.enables] using h
  | some tag =>
    intro rest
    have hfeature : featureOf? (indent depth (target.featureAttribute tag)) =
        some (target.gateFeaturePrefix ++ tag) := by
      rw [featureOf?_indent, featureOf?_featureAttribute]
    rw [Target.gateLines, Option.map_some, Option.toList_some, List.append_assoc,
      List.singleton_append, Target.enables, Option.all_some]
    cases hon : enabled (target.gateFeaturePrefix ++ tag) with
    | true =>
      rw [compiled_cons_of_enabled hfeature hon, h rest]
      rfl
    | false =>
      rw [compiled_cons_of_disabled hfeature hon, hitem rest]
      rfl

/-- What the lines that are left say is what is left of what the lines say. -/
theorem statementsOf_eq {left : List Statement} (h : Keeps enabled lines kept)
    (hleaves : Leaves enabled lines left) : statementsOf kept = left := by
  rw [← hleaves.statements_eq, statements, h.compiled_eq]
  rfl

end Keeps

theorem inserted_insertsLeft (target : Target) (inserts : List (Gated String)) :
    (target.insertsLeft enabled inserts).filterMap Statement.inserted? =
      (inserts.filter fun g => target.enables enabled g.gate?).map fun g =>
        target.markerOf g.item := by
  induction inserts with
  | nil => rfl
  | cons g inserts ih =>
    rw [Target.insertsLeft, List.flatMap_cons, List.filterMap_append, Target.leftOf]
    split
    · next hon =>
      rw [List.filter_cons, if_pos hon, List.map_cons]
      exact congrArg _ ih
    · next hoff =>
      rw [List.filter_cons, if_neg hoff]
      exact ih

/-! ### Reading the match -/

/-- The name that a line begins an arm for. -/
def armName? (line : String) : Option String :=
  (between? "\"" "\" => \x7b" (body line)).or (between? "\"" "\" => \x7b\x7d" (body line))

/-- The lines inside the block that a line opens; none if it opens no block. -/
def insideOf (line : String) (lines : List String) : List String :=
  if line.toList.getLast? = some '\x7b' then lines.takeWhile fun l => l ≠ closingLine line else []

/-- The lines inside the first arm for a name. -/
def armFor (typeName : String) : List String → List String
  | [] => []
  | line :: lines =>
    if armName? line = some typeName then insideOf line lines else armFor typeName lines

/-- The line that begins the match on type names. -/
def matchLine : String :=
  indent 1 "match type_name \x7b"

/-- The markers that the function with the given lines inserts for a type name: before the match,
    and in the arm for the name. -/
def insertedFor (lines : List String) (typeName : String) : List String :=
  (statementsOf (lines.takeWhile (fun l => l ≠ matchLine) ++
    armFor typeName (lines.dropWhile fun l => l ≠ matchLine))).filterMap Statement.inserted?

theorem armName?_eq_none {line : String} (h : ¬ "\"".toList <+: body line) :
    armName? line = none := by
  rw [armName?, between?_eq_none h, between?_eq_none h]
  rfl

theorem armName?_indent_eq_none {line : String} (depth : Nat) (h : ¬ "\"".toList <+: body line) :
    armName? (indent depth line) = none :=
  armName?_eq_none (by rwa [body_indent])

@[simp]
theorem armName?_block (depth : Nat) (name : String) :
    armName? (indent depth ("\"" ++ name ++ "\"" ++ " => \x7b")) = some name := by
  have hbetween : between? "\"" "\" => \x7b" (body ("\"" ++ name ++ "\"" ++ " => \x7b")) =
      some name :=
    between?_eq_some_iff.2 (by simp [body])
  rw [armName?, body_indent, hbetween]
  rfl

/-- The line of an empty arm does not begin a block: the one ends with a brace that closes, and the
    other with one that opens. -/
theorem between?_block_of_empty (name : String) :
    between? "\"" "\" => \x7b" (body ("\"" ++ name ++ "\"" ++ " => \x7b\x7d")) = none := by
  refine Option.eq_none_iff_forall_ne_some.2 fun x hx => ?_
  have hlast := congrArg List.reverse (between?_eq_some_iff.1 hx)
  simp [body] at hlast

@[simp]
theorem armName?_empty (depth : Nat) (name : String) :
    armName? (indent depth ("\"" ++ name ++ "\"" ++ " => \x7b\x7d")) = some name := by
  have hbetween : between? "\"" "\" => \x7b\x7d" (body ("\"" ++ name ++ "\"" ++ " => \x7b\x7d")) =
      some name :=
    between?_eq_some_iff.2 (by simp [body])
  rw [armName?, body_indent, hbetween, between?_block_of_empty]
  rfl

theorem armFor_append_of_other {typeName : String} {lines : List String}
    (h : ∀ l ∈ lines, armName? l ≠ some typeName) (rest : List String) :
    armFor typeName (lines ++ rest) = armFor typeName rest := by
  induction lines with
  | nil => rfl
  | cons line lines ih =>
    rw [List.cons_append, armFor, if_neg (h line List.mem_cons_self)]
    exact ih fun l hl => h l (List.mem_cons_of_mem line hl)

theorem armFor_eq_nil {typeName : String} {lines : List String}
    (h : ∀ l ∈ lines, armName? l ≠ some typeName) : armFor typeName lines = [] := by
  simpa [armFor] using armFor_append_of_other h []

/-! ### Arms that are left -/

namespace NameDispatcher

variable (target : Target) (enabled : String → Bool)

/-- The lines that are left of something under a gate. -/
def keptOf {α : Type} (depth : Nat) (kept : α → List String) (g : Gated α) : List String :=
  if target.enables enabled g.gate? then target.gateLines depth g.gate? ++ kept g.item else []

/-- The lines that are left of insertions. -/
def insertsKept (inserts : List (Gated String)) : List String :=
  inserts.flatMap (keptOf target enabled 3 fun c => [indent 3 (target.insertStatement c)])

/-- The lines that are left of an arm after its gate. -/
def itemKept (arm : MatchArm) : List String :=
  if arm.inserts = [] then [indent 2 (Text.quoted arm.typeName ++ " => \x7b\x7d")]
  else
    [indent 2 (Text.quoted arm.typeName ++ " => \x7b")] ++ insertsKept target enabled arm.inserts ++
      [indent 2 "\x7d"]

/-- The lines that are left of arms. -/
def armsKept (arms : List (Gated MatchArm)) : List String :=
  arms.flatMap (keptOf target enabled 2 (itemKept target enabled))

variable {enabled}

theorem keeps_insertions (inserts : List (Gated String)) :
    Keeps enabled (inserts.flatMap (target.insertionLines 3))
      (insertsKept target enabled inserts) := by
  refine .flatMap fun g _ => .gated target 3 g.gate? ?_ (.plain fun line hline => ?_)
  · exact whole_of_end (getLast?_append _ (getLast?_insertStatement target g.item)) (.inl rfl)
  · obtain rfl := List.mem_singleton.1 hline
    refine featureOf?_of_ofLine? (s := .insert (target.markerOf g.item)) ?_
    rw [Statement.ofLine?_indent, ofLine?_insertStatement]

theorem keeps_itemLines (arm : MatchArm) :
    Keeps enabled (itemLines target arm) (itemKept target enabled arm) := by
  have hquote (ending : String) :
      featureOf? (indent 2 (Text.quoted arm.typeName ++ ending)) = none := by
    refine between?_eq_none ?_
    simp [Text.toList_quoted, body, indent]
  rw [itemLines, itemKept]
  split
  · exact .plain (by simpa using hquote _)
  · have hend : featureOf? (indent 2 "\x7d") = none :=
      featureOf?_of_silent (by simpa using silent_closing)
    refine .append (.append (.plain (by simpa using hquote _)) ?_) (.plain (by simpa using hend))
    exact keeps_insertions target arm.inserts

theorem keeps_arms (arms : List (Gated MatchArm)) :
    Keeps enabled (arms.flatMap (armLines target)) (armsKept target enabled arms) := by
  refine .flatMap fun arm _ => ?_
  rw [armLines_eq]
  exact .gated target 2 arm.gate? (whole_itemLines target arm.item)
    (keeps_itemLines target arm.item)

/-- What is left of insertions was there. -/
theorem mem_insertions_of_mem_kept {inserts : List (Gated String)} {l : String}
    (h : l ∈ insertsKept target enabled inserts) :
    l ∈ inserts.flatMap (target.insertionLines 3) := by
  obtain ⟨g, hg, hl⟩ := List.mem_flatMap.1 h
  refine List.mem_flatMap.2 ⟨g, hg, ?_⟩
  rw [keptOf] at hl
  split at hl
  · exact hl
  · exact absurd hl List.not_mem_nil

theorem armName?_gateLines {depth : Nat} {gate? : Option String} {l : String}
    (h : l ∈ target.gateLines depth gate?) : armName? l = none := by
  have hattribute (tag : String) : ¬ "\"".toList <+: body (target.featureAttribute tag) := by
    unfold Target.featureAttribute
    simp [body]
  obtain ⟨tag, -, rfl⟩ : ∃ tag, gate? = some tag ∧
      indent depth (target.featureAttribute tag) = l := by
    simpa [Target.gateLines] using h
  exact armName?_indent_eq_none depth (hattribute tag)

theorem armName?_insertions {inserts : List (Gated String)} {l : String}
    (h : l ∈ inserts.flatMap (target.insertionLines 3)) : armName? l = none := by
  have hstatement (c : String) : ¬ "\"".toList <+: body (target.insertStatement c) := by
    unfold Target.insertStatement
    simp [body]
  obtain ⟨g, -, hl⟩ := List.mem_flatMap.1 h
  rcases List.mem_append.1 hl with hl | hl
  · exact armName?_gateLines target hl
  · obtain rfl := List.mem_singleton.1 hl
    exact armName?_indent_eq_none 3 (hstatement g.item)

theorem armName?_closing (depth : Nat) : armName? (indent depth "\x7d") = none :=
  armName?_indent_eq_none depth (by simp [body])

/-! ### The arm for a name -/

section Arms

variable {target} {arm : MatchArm} {c : String}
  (hplain : Text.quoted arm.typeName = "\"" ++ arm.typeName ++ "\"")

include hplain

/-- The arm for another name is skipped. -/
theorem armFor_itemKept_of_ne (hne : arm.typeName ≠ c) (rest : List String) :
    armFor c (itemKept target enabled arm ++ rest) = armFor c rest := by
  refine armFor_append_of_other (fun l hl => ?_) rest
  rw [itemKept, hplain] at hl
  split at hl
  · rw [List.mem_singleton.1 hl, armName?_empty]
    exact fun h => hne (Option.some.inj h)
  · rcases List.mem_append.1 hl with hl | hl
    · rcases List.mem_append.1 hl with hl | hl
      · rw [List.mem_singleton.1 hl, armName?_block]
        exact fun h => hne (Option.some.inj h)
      · rw [armName?_insertions target (mem_insertions_of_mem_kept target hl)]
        simp
    · rw [List.mem_singleton.1 hl, armName?_closing]
      simp

/-- The arm for the name is read from its first line to the line that closes it. -/
theorem armFor_itemKept_self (rest : List String) :
    armFor arm.typeName (itemKept target enabled arm ++ rest) =
      insertsKept target enabled arm.inserts := by
  rw [itemKept, hplain]
  split
  · next hnone =>
    have hend : (indent 2 ("\"" ++ arm.typeName ++ "\"" ++ " => \x7b\x7d")).toList.getLast? =
        some '\x7d' := getLast?_append _ (getLast?_append _ (by simp))
    rw [List.singleton_append, armFor, if_pos (armName?_empty 2 _), insideOf, hend, hnone]
    rfl
  · have hopening : (indent 2 ("\"" ++ arm.typeName ++ "\"" ++ " => \x7b")).toList.getLast? =
        some '\x7b' := getLast?_append _ (getLast?_append _ (by simp))
    -- No line inside is the one that closes the arm, since all are indented further.
    have hinside : indent 2 "\x7d" ∉ insertsKept target enabled arm.inserts := by
      intro hmem
      obtain ⟨line, heq⟩ :=
        exists_indent_of_mem_insertions target (mem_insertions_of_mem_kept target hmem)
      exact indent_ne_closing (by decide) line heq.symm
    rw [List.append_assoc, List.append_assoc, List.singleton_append, armFor,
      if_pos (armName?_block 2 _), insideOf, if_pos hopening, closingLine_indent 2 (by simp),
      List.singleton_append, takeWhile_ne_append_cons hinside]

end Arms

/-- Of the arms that are left, the first for a name is the one that is read. -/
theorem armFor_arms {target : Target} {arms : List (Gated MatchArm)}
    (hplain : ∀ arm ∈ arms, Text.quoted arm.item.typeName = "\"" ++ arm.item.typeName ++ "\"")
    (c : String) (rest : List String) :
    armFor c (armsKept target enabled arms ++ rest) =
      match arms.find? fun arm => target.enables enabled arm.gate? ∧ arm.item.typeName = c with
      | some arm => insertsKept target enabled arm.item.inserts
      | none => armFor c rest := by
  induction arms with
  | nil => rfl
  | cons arm arms ih =>
    have hothers := ih fun arm' harm' => hplain arm' (List.mem_cons_of_mem arm harm')
    have hquoted := hplain arm List.mem_cons_self
    rw [armsKept, List.flatMap_cons, List.append_assoc]
    by_cases hon : target.enables enabled arm.gate?
    · have hgate (rest : List String) :
          armFor c (keptOf target enabled 2 (itemKept target enabled) arm ++ rest) =
            armFor c (itemKept target enabled arm.item ++ rest) := by
        rw [keptOf, if_pos hon, List.append_assoc]
        exact armFor_append_of_other (fun l hl => by simp [armName?_gateLines target hl]) _
      rw [hgate]
      by_cases hname : arm.item.typeName = c
      · rw [List.find?_cons_of_pos (by simpa using ⟨hon, hname⟩)]
        subst hname
        exact armFor_itemKept_self hquoted _
      · rw [List.find?_cons_of_neg (by simp [hname]), armFor_itemKept_of_ne hquoted hname]
        exact hothers
    · rw [List.find?_cons_of_neg (by simp [hon]), keptOf, if_neg hon]
      exact hothers

/-! ### The whole function -/

section Function

variable (target : Target) (entry : EntryPoints)

theorem keeps_lines (d : NameDispatcher) :
    Keeps enabled (lines target entry d)
      (headLines entry ++ [indent 1 (target.insertStatement d.base), ""] ++
        matchLine :: (armsKept target enabled d.arms ++
          [indent 2 "_ => \x7b\x7d", indent 1 "\x7d", "\x7d"])) := by
  have hhead : Keeps enabled (headLines entry) (headLines entry) :=
    .plain fun l hl => featureOf?_of_silent (silent_of_mem_headLines entry l hl)
  have hbase : Keeps enabled [indent 1 (target.insertStatement d.base), ""]
      [indent 1 (target.insertStatement d.base), ""] := by
    refine .plain fun l hl => ?_
    rcases List.mem_pair.1 hl with rfl | rfl
    · refine featureOf?_of_ofLine? (s := .insert (target.markerOf d.base)) ?_
      rw [Statement.ofLine?_indent, ofLine?_insertStatement]
    · decide
  have hmatch : Keeps enabled [matchLine] [matchLine] := .plain (by decide)
  have hend : Keeps enabled [indent 2 "_ => \x7b\x7d", indent 1 "\x7d", "\x7d"]
      [indent 2 "_ => \x7b\x7d", indent 1 "\x7d", "\x7d"] := .plain (by decide)
  rw [lines_eq]
  exact (hhead.append hbase).append (hmatch.append ((keeps_arms target d.arms).append hend))

theorem ne_matchLine_of_beforeMatch {base l : String}
    (h : l ∈ headLines entry ++ [indent 1 (target.insertStatement base), ""]) : l ≠ matchLine := by
  have hstatement : ¬ "match".toList <+: body (target.insertStatement base) := by
    unfold Target.insertStatement
    simp [body]
  have hhead : ∀ l ∈ headLines entry, ¬ "match".toList <+: body l := by
    simp [headLines, body, indent]
  have hbefore : ¬ "match".toList <+: body l := by
    rcases List.mem_append.1 h with h | h
    · exact hhead l h
    · rcases List.mem_pair.1 h with rfl | rfl
      · rwa [body_indent]
      · simp [body]
  rintro rfl
  exact hbefore (by decide)

/-- The lines are cut where the match begins. -/
theorem cut_at_matchLine (base : String) (rest : List String) :
    let before := headLines entry ++ [indent 1 (target.insertStatement base), ""]
    (before ++ matchLine :: rest).takeWhile (fun l => l ≠ matchLine) = before ∧
      (before ++ matchLine :: rest).dropWhile (fun l => l ≠ matchLine) = matchLine :: rest := by
  intro before
  have hbefore : matchLine ∉ before := fun hmem =>
    ne_matchLine_of_beforeMatch target entry hmem rfl
  exact ⟨takeWhile_ne_append_cons hbefore rest, dropWhile_ne_append_cons hbefore rest⟩

/-- A type name receives the marker of the root, and what the first arm for it inserts. -/
theorem insertedFor_afterMatch (base : String) (rest : List String) (c : String) :
    insertedFor (headLines entry ++ [indent 1 (target.insertStatement base), ""] ++
        matchLine :: rest) c =
      target.markerOf base :: (statementsOf (armFor c rest)).filterMap Statement.inserted? := by
  have hbase : statementsOf (headLines entry ++ [indent 1 (target.insertStatement base), ""]) =
      [.insert (target.markerOf base)] :=
    (leaves_beforeMatch target entry base).statementsOf_eq
  have hmatch : armName? matchLine = none := by decide
  rw [insertedFor, (cut_at_matchLine _ _ _ _).1, (cut_at_matchLine _ _ _ _).2, armFor,
    if_neg (by simp [hmatch]), statementsOf_append, hbase, List.filterMap_append]
  rfl

/-- A type name receives the marker of the root, and those whose insertions are left in the first
    arm for it that is left. -/
theorem insertedFor_lines {d : NameDispatcher}
    (hplain : ∀ arm ∈ d.arms, Text.quoted arm.item.typeName = "\"" ++ arm.item.typeName ++ "\"")
    (c : String) :
    insertedFor (compiled enabled (lines target entry d)) c = target.markerOf d.base ::
      match d.arms.find? fun arm => target.enables enabled arm.gate? ∧ arm.item.typeName = c with
      | some arm => (arm.item.inserts.filter fun g => target.enables enabled g.gate?).map fun g =>
          target.markerOf g.item
      | none => [] := by
  have hend : ∀ l ∈ [indent 2 "_ => \x7b\x7d", indent 1 "\x7d", "\x7d"], armName? l = none := by
    decide
  have hnone : armFor c [indent 2 "_ => \x7b\x7d", indent 1 "\x7d", "\x7d"] = [] :=
    armFor_eq_nil fun l hl => by simp [hend l hl]
  rw [(keeps_lines target entry d).compiled_eq, insertedFor_afterMatch, armFor_arms hplain c, hnone]
  refine congrArg (target.markerOf d.base :: ·) ?_
  split
  · next arm _ =>
    rw [(keeps_insertions target arm.item.inserts).statementsOf_eq
      (leaves_insertions target 3 arm.item.inserts), inserted_insertsLeft]
  · rfl

end Function

end NameDispatcher

/-! ### Members -/

/-- A letter, a digit and an underscore stand for themselves between quotes. -/
theorem escapeChar_of_isAlphanum {d : Char} (h : d.isAlphanum ∨ d = '_') :
    Text.escapeChar d = [d] := by
  have hquote : ¬ (d = '"' ∨ d = '\\') := by
    rintro (rfl | rfl) <;> exact absurd h (by decide)
  have hcontrol : ∀ n < 0x20, ¬ ((Char.ofNat n).isAlphanum ∨ Char.ofNat n = '_') := by decide
  have hprinted : 0x20 ≤ d.toNat := by
    by_contra hlow
    have hnot := hcontrol d.toNat (Nat.lt_of_not_le hlow)
    rw [Char.ofNat_toNat] at hnot
    exact hnot h
  have hletter : Text.escapeLetter? d = none := by
    unfold Text.escapeLetter?
    split_ifs <;> first | omega | rfl
  rw [Text.escapeChar, if_neg hquote, hletter]
  exact if_neg (by omega)

/-- An identifier is written as it is. -/
theorem quoted_of_identifier {c : String} (h : Json.NamePattern.identifier.matches? c) :
    Text.quoted c = "\"" ++ c ++ "\"" := by
  have hchars : c.toList.flatMap Text.escapeChar = c.toList.flatMap fun d => [d] :=
    List.flatMap_congr fun d hd => escapeChar_of_isAlphanum (isAlphanum_of_identifier h hd)
  refine String.toList_injective ?_
  rw [Text.toList_quoted, hchars, ← List.map_eq_flatMap, List.map_id']
  simp

namespace Taxonomy

variable {t : Taxonomy}

/-- The arm for a member is there while its gate is enabled. -/
theorem WellFormed.find?_arms (wf : t.WellFormed) (target : Target) {c : String}
    (hc : c ∈ t.members) :
    ((NameDispatcher.ofTaxonomy t).arms.find? fun arm =>
        target.enables enabled arm.gate? ∧ arm.item.typeName = c) =
      if target.enables enabled (t.gates.gate? c) then
        some (NameDispatcher.matchArm t.gates (NameTable.armOf t c))
      else none := by
  have hroot : t.root ≠ c := fun h => wf.root_not_mem (h ▸ hc)
  have hmembers : ((NameDispatcher.ofTaxonomy t).arms.find? fun arm =>
      target.enables enabled arm.gate? ∧ arm.item.typeName = c) =
      (t.members.find? fun x => target.enables enabled (t.gates.gate? x) ∧ x = c).map fun x =>
        NameDispatcher.matchArm t.gates (NameTable.armOf t x) := by
    rw [NameDispatcher.ofTaxonomy, NameDispatcher.ofTable, NameTable.ofTaxonomy, List.map_cons,
      List.find?_cons_of_neg (by simp [NameDispatcher.matchArm, hroot]), List.map_map]
    exact List.find?_map
  rw [hmembers]
  split
  · next hon =>
    have hsame : (t.members.find? fun x => target.enables enabled (t.gates.gate? x) ∧ x = c) =
        t.members.find? fun x => x = c := by
      refine List.find?_congr fun x _ => decide_eq_decide.2 ⟨And.right, ?_⟩
      rintro rfl
      exact ⟨hon, rfl⟩
    rw [hsame, find?_eq_self hc]
    rfl
  · next hoff =>
    have hnone : (t.members.find? fun x => target.enables enabled (t.gates.gate? x) ∧ x = c) =
        none := by
      refine List.find?_eq_none.2 fun x _ hx => hoff ?_
      obtain ⟨hon, rfl⟩ := of_decide_eq_true hx
      exact hon
    rw [hnone]
    rfl

/-- With the gate of a member enabled, its name receives the markers of all classes that it
    resolves to and whose own gates are enabled; otherwise that of the root alone. -/
theorem WellFormed.insertedFor_member (wf : t.WellFormed) (target : Target) (entry : EntryPoints)
    (hplain : ∀ c ∈ t.root :: t.members, Text.quoted c = "\"" ++ c ++ "\"") {c : String}
    (hc : c ∈ t.members) :
    insertedFor (compiled enabled ((NameDispatcher.ofTaxonomy t).lines target entry)) c =
      target.markerOf t.root ::
        if target.enables enabled (t.gates.gate? c) then
          ((t.taggedAncestors c ++ [c]).filter fun x =>
            target.enables enabled (t.gates.gate? x)).map target.markerOf
        else [] := by
  have hquoted : ∀ arm ∈ (NameDispatcher.ofTaxonomy t).arms,
      Text.quoted arm.item.typeName = "\"" ++ arm.item.typeName ++ "\"" := by
    intro arm harm
    obtain ⟨nameArm, hnameArm, rfl⟩ := List.mem_map.1 harm
    rcases List.mem_cons.1 hnameArm with rfl | hnameArm
    · exact hplain t.root List.mem_cons_self
    · obtain ⟨x, hx, rfl⟩ := List.mem_map.1 hnameArm
      exact hplain x (List.mem_cons_of_mem _ hx)
  rw [NameDispatcher.insertedFor_lines target entry hquoted, wf.find?_arms target hc]
  refine congrArg (target.markerOf t.root :: ·) ?_
  by_cases hon : target.enables enabled (t.gates.gate? c)
  · -- Inside the arm, a gate that is not written again is that of the arm, which is enabled.
    have hgates (x : String) :
        target.enables enabled (NameDispatcher.insertIn t.gates (t.gates.gate? c) x).gate? =
          target.enables enabled (t.gates.gate? x) := by
      rw [NameDispatcher.insertIn]
      split
      · next hsame =>
        rw [hsame, hon]
        rfl
      · rfl
    rw [if_pos hon, if_pos hon]
    simp only [NameDispatcher.matchArm, NameTable.armOf, List.filter_map, List.map_map]
    simp only [Function.comp_def, hgates]
    rfl
  · rw [if_neg hon, if_neg hon]

end Taxonomy

end NodeTagging
