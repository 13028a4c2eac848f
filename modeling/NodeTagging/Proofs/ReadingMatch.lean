import NodeTagging.Proofs.LineBreaks

/-!
# Reading the dispatcher for type names

The text of the dispatcher for type names is read back here, line by line, into arms with their
gates and insertions (`NameDispatcher.ofText?`). The reading knows the words of the target, but no
class and no taxonomy. It stands between two arms or inside one, after an attribute or not
(`MatchPlace`), and gives up at a line that has no place there.

* `MatchReading.readLines_armLines`: the lines of an arm are read as the arm, whatever was read
  before;
* `NameDispatcher.ofText?_unlines`: so a dispatcher is read from its lines as it is;
* `NameDispatcher.table_ofTable`: and it holds the table that it was made from, though inside an arm
  the gate of the arm is not written again.
-/

namespace NodeTagging

/-! ### Lines of a match -/

/-- What a line of the match on type names says. -/
inductive MatchLine where
  /-- What follows is under a gate. -/
  | gate (tag : String)
  /-- The marker of a class is inserted. -/
  | insert (className : String)
  /-- An arm begins. -/
  | arm (typeName : String)
  /-- An arm inserts nothing. -/
  | emptyArm (typeName : String)
  /-- No other name has an arm. -/
  | wildcard
  /-- A block ends. -/
  | close
deriving DecidableEq, Repr

namespace MatchLine

variable (target : Target)

/-- The ways to write a line: what stands before and after the name or tag. -/
def forms : List (String × String × (String → MatchLine)) :=
  [("#[cfg(feature = \"" ++ target.gateFeaturePrefix, "\")]", gate),
    ("entity_commands.insert(", target.markerSuffix ++ ");", insert),
    ("\"", "\" => \x7b", arm), ("\"", "\" => \x7b\x7d", emptyArm)]

/-- What a line says, if it is one of a match. -/
def ofLine? (line : String) : Option MatchLine :=
  if body line = ['\x7d'] then some close
  else if body line = "_ => \x7b\x7d".toList then some wildcard
  else (forms target).findSome? fun form => (between? form.1 form.2.1 (body line)).map form.2.2

@[simp]
theorem ofLine?_indent (depth : Nat) (line : String) :
    ofLine? target (indent depth line) = ofLine? target line := by
  simp only [ofLine?, body_indent]

@[simp]
theorem ofLine?_close : ofLine? target "\x7d" = some close :=
  if_pos (by decide)

@[simp]
theorem ofLine?_wildcard : ofLine? target "_ => \x7b\x7d" = some wildcard := by
  rw [ofLine?, if_neg (by decide), if_pos (by decide)]

/-- A line that begins with none of the words before that of a form, and is no fixed line. -/
theorem ofLine?_of_form {line before after : String} {say : String → MatchLine}
    {earlier later : List (String × String × (String → MatchLine))}
    (hforms : forms target = earlier ++ (before, after, say) :: later) {x : String}
    (hx : between? before after (body line) = some x)
    (hearlier : ∀ form ∈ earlier, between? form.1 form.2.1 (body line) = none)
    (hfixed : body line ≠ ['\x7d'] ∧ body line ≠ "_ => \x7b\x7d".toList) :
    ofLine? target line = some (say x) := by
  have hnone : (earlier.findSome? fun form =>
      (between? form.1 form.2.1 (body line)).map form.2.2) = none :=
    List.findSome?_eq_none_iff.2 fun form hform => by rw [hearlier form hform, Option.map_none]
  rw [ofLine?, if_neg hfixed.1, if_neg hfixed.2, hforms, List.findSome?_append, hnone,
    Option.none_or, List.findSome?_cons, hx]
  rfl

@[simp]
theorem ofLine?_featureAttribute (tag : String) :
    ofLine? target (target.featureAttribute tag) = some (gate tag) := by
  have hforms : forms target = [] ++ (_, _, gate) :: _ := rfl
  refine ofLine?_of_form target hforms (between?_eq_some_iff.2 ?_) (by simp) ?_
  all_goals
    unfold Target.featureAttribute
    simp [body]

@[simp]
theorem ofLine?_insertStatement (c : String) :
    ofLine? target (target.insertStatement c) = some (insert c) := by
  have hforms : forms target = [_] ++ (_, _, insert) :: _ := rfl
  refine ofLine?_of_form target hforms (between?_eq_some_iff.2 ?_) ?_ ?_
  · unfold Target.insertStatement Target.markerOf
    simp [body]
  · refine List.forall_mem_singleton.2 (between?_eq_none ?_)
    unfold Target.insertStatement
    simp [body]
  · unfold Target.insertStatement
    simp [body]

@[simp]
theorem ofLine?_arm (name : String) :
    ofLine? target ("\"" ++ name ++ "\"" ++ " => \x7b") = some (arm name) := by
  have hforms : forms target = [_, _] ++ (_, _, arm) :: _ := rfl
  refine ofLine?_of_form target hforms (between?_eq_some_iff.2 (by simp [body])) ?_ (by simp [body])
  simp only [List.forall_mem_cons]
  exact ⟨between?_eq_none (by simp [body]), between?_eq_none (by simp [body]), by simp⟩

@[simp]
theorem ofLine?_emptyArm (name : String) :
    ofLine? target ("\"" ++ name ++ "\"" ++ " => \x7b\x7d") = some (emptyArm name) := by
  have hforms : forms target = [_, _, _] ++ (_, _, emptyArm) :: _ := rfl
  refine ofLine?_of_form target hforms (between?_eq_some_iff.2 (by simp [body])) ?_ (by simp [body])
  simp only [List.forall_mem_cons]
  exact ⟨between?_eq_none (by simp [body]), between?_eq_none (by simp [body]),
    between?_block_of_empty name, by simp⟩

end MatchLine

/-! ### Reading lines -/

/-- Where in a match its reading stands. -/
inductive MatchPlace where
  /-- Between arms, after a gate if there was one. -/
  | between (gate? : Option String)
  /-- Inside an arm, after a gate if there was one. -/
  | inside (arm : Gated MatchArm) (gate? : Option String)
  /-- After the arms, where that many blocks are left to end. -/
  | after (blocks : Nat)
deriving DecidableEq, Repr

/-- What has been read of a match. -/
structure MatchReading where
  /-- The arms that have been read to their ends. -/
  arms : List (Gated MatchArm)
  /-- Where the reading stands. -/
  place : MatchPlace
deriving DecidableEq, Repr

/-- The arm with one more insertion at the end. -/
def MatchArm.add (arm : MatchArm) (g : Gated String) : MatchArm :=
  { arm with inserts := arm.inserts ++ [g] }

namespace MatchReading

/-- One more line; nothing if it has no place where the reading stands. -/
def step (r : MatchReading) (line : MatchLine) : Option MatchReading :=
  match r.place, line with
  | .between none, .gate tag => some { r with place := .between (some tag) }
  | .between gate?, .emptyArm name => some ⟨r.arms ++ [⟨gate?, ⟨name, []⟩⟩], .between none⟩
  | .between gate?, .arm name => some { r with place := .inside ⟨gate?, ⟨name, []⟩⟩ none }
  | .inside arm none, .gate tag => some { r with place := .inside arm (some tag) }
  | .inside arm gate?, .insert c =>
    some { r with place := .inside ⟨arm.gate?, arm.item.add ⟨gate?, c⟩⟩ none }
  | .inside arm none, .close => some ⟨r.arms ++ [arm], .between none⟩
  | .between none, .wildcard => some { r with place := .after 2 }
  | .after (blocks + 1), .close => some { r with place := .after blocks }
  | _, _ => none

section Step

variable (arms : List (Gated MatchArm)) (gate? : Option String)

@[simp]
theorem step_emptyArm (name : String) :
    step ⟨arms, .between gate?⟩ (.emptyArm name) =
      some ⟨arms ++ [⟨gate?, ⟨name, []⟩⟩], .between none⟩ := by
  cases gate? <;> rfl

@[simp]
theorem step_arm (name : String) :
    step ⟨arms, .between gate?⟩ (.arm name) =
      some ⟨arms, .inside ⟨gate?, ⟨name, []⟩⟩ none⟩ := by
  cases gate? <;> rfl

@[simp]
theorem step_insert (arm : Gated MatchArm) (c : String) :
    step ⟨arms, .inside arm gate?⟩ (.insert c) =
      some ⟨arms, .inside ⟨arm.gate?, arm.item.add ⟨gate?, c⟩⟩ none⟩ := by
  cases gate? <;> rfl

end Step

variable (target : Target)

/-- The reading after more lines. -/
def readLines (r : MatchReading) (lines : List String) : Option MatchReading :=
  lines.foldlM (fun r line => (MatchLine.ofLine? target line).bind r.step) r

@[simp]
theorem readLines_nil (r : MatchReading) : r.readLines target [] = some r :=
  rfl

theorem readLines_append (r : MatchReading) (lines lines' : List String) :
    r.readLines target (lines ++ lines') =
      (r.readLines target lines).bind fun r' => r'.readLines target lines' :=
  List.foldlM_append

theorem readLines_cons {r : MatchReading} {line : String} {said : MatchLine}
    (h : MatchLine.ofLine? target line = some said) (lines : List String) :
    r.readLines target (line :: lines) =
      (r.step said).bind fun r' => r'.readLines target lines := by
  rw [readLines, List.foldlM_cons, h]
  rfl

/-! ### What was written -/

section Written

variable {target} (arms : List (Gated MatchArm))

/-- The attribute line of a gate is read wherever a gate may stand. -/
theorem readLines_gateLines (place : Option String → MatchPlace)
    (hplace : ∀ tag, step ⟨arms, place none⟩ (.gate tag) = some ⟨arms, place (some tag)⟩)
    (depth : Nat) (gate? : Option String) :
    readLines target ⟨arms, place none⟩ (target.gateLines depth gate?) =
      some ⟨arms, place gate?⟩ := by
  cases gate? with
  | none => rfl
  | some tag =>
    have hline : MatchLine.ofLine? target (indent depth (target.featureAttribute tag)) =
        some (.gate tag) := by simp
    exact (readLines_cons target hline []).trans (by rw [hplace]; rfl)

/-- An insertion with its gate is added to the arm that it stands in. -/
theorem readLines_insertionLines (arm : Gated MatchArm) (g : Gated String) :
    readLines target ⟨arms, .inside arm none⟩ (target.insertionLines 3 g) =
      some ⟨arms, .inside ⟨arm.gate?, arm.item.add g⟩ none⟩ := by
  have hline : MatchLine.ofLine? target (indent 3 (target.insertStatement g.item)) =
      some (.insert g.item) := by simp
  rw [Target.insertionLines, readLines_append,
    readLines_gateLines arms (.inside arm) (fun _ => rfl), Option.bind_some,
    readLines_cons target hline, step_insert]
  rfl

theorem readLines_insertions (arm : Gated MatchArm) (inserts : List (Gated String)) :
    readLines target ⟨arms, .inside arm none⟩ (inserts.flatMap (target.insertionLines 3)) =
      some ⟨arms, .inside ⟨arm.gate?, ⟨arm.item.typeName, arm.item.inserts ++ inserts⟩⟩ none⟩ := by
  -- The arm that is open grows by each insertion.
  induction inserts generalizing arm with
  | nil => simp
  | cons g inserts ih =>
    rw [List.flatMap_cons, readLines_append, readLines_insertionLines, Option.bind_some, ih]
    simp [MatchArm.add]

/-- The lines of an arm are read as the arm, whatever was read before. -/
theorem readLines_armLines {arm : Gated MatchArm}
    (hplain : Text.quoted arm.item.typeName = "\"" ++ arm.item.typeName ++ "\"") :
    readLines target ⟨arms, .between none⟩ (NameDispatcher.armLines target arm) =
      some ⟨arms ++ [arm], .between none⟩ := by
  rw [NameDispatcher.armLines_eq, readLines_append,
    readLines_gateLines arms .between (fun _ => rfl), Option.bind_some,
    NameDispatcher.itemLines, hplain]
  split
  · next hnone =>
    have hline : MatchLine.ofLine? target
        (indent 2 ("\"" ++ arm.item.typeName ++ "\"" ++ " => \x7b\x7d")) =
        some (.emptyArm arm.item.typeName) := by simp
    rw [readLines_cons target hline, step_emptyArm, ← hnone]
    rfl
  · have hopening : MatchLine.ofLine? target
        (indent 2 ("\"" ++ arm.item.typeName ++ "\"" ++ " => \x7b")) =
        some (.arm arm.item.typeName) := by simp
    have hclosing : MatchLine.ofLine? target (indent 2 "\x7d") = some .close := by simp
    rw [List.append_assoc, List.singleton_append, readLines_cons target hopening, step_arm,
      Option.bind_some, readLines_append, readLines_insertions, Option.bind_some,
      readLines_cons target hclosing]
    rfl

theorem readLines_arms {written : List (Gated MatchArm)}
    (hplain : ∀ arm ∈ written,
      Text.quoted arm.item.typeName = "\"" ++ arm.item.typeName ++ "\"") :
    readLines target ⟨arms, .between none⟩ (written.flatMap (NameDispatcher.armLines target)) =
      some ⟨arms ++ written, .between none⟩ := by
  induction written generalizing arms with
  | nil => simp
  | cons arm written ih =>
    rw [List.flatMap_cons, readLines_append,
      readLines_armLines arms (hplain arm List.mem_cons_self), Option.bind_some,
      ih _ fun arm' harm' => hplain arm' (List.mem_cons_of_mem arm harm'), List.append_assoc,
      List.singleton_append]

/-- After the arms, the wildcard and the ends of the match and of the function are read. -/
theorem readLines_end :
    readLines target ⟨arms, .between none⟩ [indent 2 "_ => \x7b\x7d", indent 1 "\x7d", "\x7d"] =
      some ⟨arms, .after 0⟩ := by
  have hwildcard : MatchLine.ofLine? target (indent 2 "_ => \x7b\x7d") = some .wildcard := by simp
  have hmatch : MatchLine.ofLine? target (indent 1 "\x7d") = some .close := by simp
  rw [readLines_cons target hwildcard]
  rfl

end Written

end MatchReading

/-! ### Reading the text -/

namespace NameDispatcher

/-- The class whose marker a line inserts. -/
def insertedIn? (target : Target) (line : String) : Option String :=
  between? "entity_commands.insert(" (target.markerSuffix ++ ");") (body line)

/-- The dispatcher of a text: the first insertion is before the match, and the rest is the match. -/
def ofText? (target : Target) (text : String) : Option NameDispatcher :=
  let before := (linesOf text).takeWhile fun l => l ≠ matchLine
  let after := ((linesOf text).dropWhile fun l => l ≠ matchLine).tail
  match before.findSome? (insertedIn? target),
    MatchReading.readLines target ⟨[], .between none⟩ after with
  | some base, some ⟨arms, .after 0⟩ => some ⟨base, arms⟩
  | _, _ => none

variable {target : Target} {entry : EntryPoints} {d : NameDispatcher}

theorem findSome?_beforeMatch (base : String) :
    (headLines entry ++ [indent 1 (target.insertStatement base), ""]).findSome?
      (insertedIn? target) = some base := by
  have hhead : (headLines entry).findSome? (insertedIn? target) = none := by
    refine List.findSome?_eq_none_iff.2 fun line hline => between?_eq_none ?_
    exact silent_of_mem_headLines entry line hline _ (by simp [openings, Statement.forms])
  have hbase : insertedIn? target (indent 1 (target.insertStatement base)) = some base := by
    refine between?_eq_some_iff.2 ?_
    rw [body_indent]
    unfold Target.insertStatement Target.markerOf
    simp [body]
  rw [List.findSome?_append, hhead, Option.none_or, List.findSome?_cons, hbase]

/-- A dispatcher is read from its lines as it is. -/
theorem ofText?_unlines (hlines : ∀ line ∈ lines target entry d, Unbroken line)
    (hplain : ∀ arm ∈ d.arms,
      Text.quoted arm.item.typeName = "\"" ++ arm.item.typeName ++ "\"") :
    ofText? target (Text.unlines (lines target entry d)) = some d := by
  have hmatch : MatchReading.readLines target ⟨[], .between none⟩
      (d.arms.flatMap (armLines target) ++ [indent 2 "_ => \x7b\x7d", indent 1 "\x7d", "\x7d"]) =
      some ⟨d.arms, .after 0⟩ := by
    rw [MatchReading.readLines_append, MatchReading.readLines_arms [] hplain, Option.bind_some,
      List.nil_append, MatchReading.readLines_end]
  have hread : linesOf (Text.unlines (lines target entry d)) = lines target entry d := by
    rw [linesOf_unlines (by simp [lines]), flatMap_linesOf hlines]
  have hcut : lines target entry d =
      headLines entry ++ [indent 1 (target.insertStatement d.base), ""] ++ matchLine ::
        (d.arms.flatMap (armLines target) ++ [indent 2 "_ => \x7b\x7d", indent 1 "\x7d", "\x7d"]) :=
    lines_eq target entry d
  obtain ⟨htake, hdrop⟩ := cut_at_matchLine target entry d.base
    (d.arms.flatMap (armLines target) ++ [indent 2 "_ => \x7b\x7d", indent 1 "\x7d", "\x7d"])
  rw [ofText?, hread, hcut]
  simp only [htake, hdrop, findSome?_beforeMatch, List.tail_cons, hmatch]

/-- The lines of a dispatcher are unbroken if its classes and tags are. -/
theorem unbroken_lines (htarget : ∀ s ∈ target.settings, Unbroken s)
    (hentry : Unbroken entry.fromType) (hbase : Unbroken d.base)
    (harms : ∀ arm ∈ d.arms, (∀ tag, arm.gate? = some tag → Unbroken tag) ∧
      ∀ g ∈ arm.item.inserts, (∀ tag, g.gate? = some tag → Unbroken tag) ∧ Unbroken g.item) :
    ∀ line ∈ lines target entry d, Unbroken line := by
  have hhead : ∀ line ∈ headLines entry, Unbroken line := by
    simp only [headLines, List.forall_mem_cons, unbroken_append, unbroken_indent, hentry]
    simp [Unbroken]
  have hbefore : ∀ line ∈ [indent 1 (target.insertStatement d.base), ""], Unbroken line := by
    simp only [List.forall_mem_cons, unbroken_indent, Target.unbroken_insertStatement htarget hbase]
    simp [Unbroken]
  have hopening : Unbroken (indent 1 "match type_name \x7b") := by simp [Unbroken, indent]
  have hmatch : ∀ line ∈ d.arms.flatMap (armLines target), Unbroken line := by
    intro line hline
    obtain ⟨arm, harm, hline⟩ := List.mem_flatMap.1 hline
    obtain ⟨htag, hinserts⟩ := harms arm harm
    have hblock : Unbroken " => \x7b" ∧ Unbroken " => \x7b\x7d" ∧ Unbroken "\x7d" := by
      simp [Unbroken]
    rcases List.mem_append.1 hline with hline | hline
    · exact Target.unbroken_gateLines htarget htag line hline
    · split at hline
      · rw [List.mem_singleton.1 hline]
        simp [unbroken_quoted, hblock]
      · simp only [List.mem_append, List.mem_singleton, List.mem_flatMap] at hline
        rcases hline with (rfl | ⟨g, hg, hline⟩) | rfl
        · simp [unbroken_quoted, hblock]
        · obtain ⟨hgate, hitem⟩ := hinserts g hg
          exact Target.unbroken_insertionLines htarget hgate hitem line hline
        · simp [hblock]
  have hend : ∀ line ∈ [indent 2 "_ => \x7b\x7d", indent 1 "\x7d", "\x7d"], Unbroken line := by
    simp [Unbroken, indent]
  rw [lines_eq]
  exact List.forall_mem_append.2 ⟨List.forall_mem_append.2 ⟨hhead, hbefore⟩,
    List.forall_mem_cons.2 ⟨hopening, List.forall_mem_append.2 ⟨hmatch, hend⟩⟩⟩

/-! ### The table -/

/-- The table of a dispatcher, which has no gates inside of arms. -/
def table (d : NameDispatcher) : NameTable where
  base := d.base
  arms := d.arms.map fun arm => ⟨arm.item.typeName, arm.gate?, arm.item.inserts.map (·.item)⟩

/-- A dispatcher holds the table that it was made from. -/
theorem table_ofTable (gates : Gates) (t : NameTable) : (ofTable gates t).table = t := by
  simp [table, ofTable, matchArm, insertIn, Function.comp_def]

end NameDispatcher

end NodeTagging
