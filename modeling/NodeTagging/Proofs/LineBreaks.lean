import NodeTagging.Proofs.Conformance
import NodeTagging.Proofs.NameMatch

/-!
# The lines of a generated text

A generated program is written as one text, and a reader gets its lines back by looking for the line
feeds (`linesOf`). They are the lines that were written (`linesOf_unlines`, `linesOf_fileOfLines`),
except that one which has a line feed itself is read as several lines (`flatMap_linesOf`).

Names are identifiers, the tags of gates have no line feed either, and what stands between quotes is
escaped, whatever it is (`unbroken_quoted`). So only the settings of the target can break a line.
-/

namespace NodeTagging

/-! ### Lines -/

/-- The lines of a text, which are set apart by line feeds. -/
def linesOf (text : String) : List String :=
  (text.toList.splitOn '\n').map String.ofList

/-- No line feed stands in a text. -/
def Unbroken (s : String) : Prop :=
  '\n' ∉ s.toList

instance (s : String) : Decidable (Unbroken s) :=
  inferInstanceAs (Decidable (¬ '\n' ∈ s.toList))

@[simp]
theorem unbroken_append {s s' : String} : Unbroken (s ++ s') ↔ Unbroken s ∧ Unbroken s' := by
  simp [Unbroken]

@[simp]
theorem unbroken_indent {depth : Nat} {line : String} :
    Unbroken (indent depth line) ↔ Unbroken line := by
  simp [Unbroken, indent]

theorem unbroken_intercalate {s : String} {parts : List String} (hs : Unbroken s)
    (h : ∀ part ∈ parts, Unbroken part) : Unbroken (String.intercalate s parts) := by
  induction parts with
  | nil =>
    rw [String.intercalate_nil]
    decide
  | cons first others ih =>
    obtain ⟨hfirst, hothers⟩ := List.forall_mem_cons.1 h
    cases others with
    | nil => rwa [String.intercalate_singleton]
    | cons second others =>
      rw [String.intercalate_cons_cons, unbroken_append, unbroken_append]
      exact ⟨⟨hfirst, hs⟩, ih hothers⟩

theorem linesOf_of_unbroken {s : String} (h : Unbroken s) : linesOf s = [s] := by
  rw [linesOf, List.splitOn_eq_singleton h, List.map_singleton, String.ofList_toList]

theorem linesOf_lineFeed (s s' : String) : linesOf (s ++ "\n" ++ s') = linesOf s ++ linesOf s' := by
  have hchars : (s ++ "\n" ++ s').toList = s.toList ++ '\n' :: s'.toList := by simp
  rw [linesOf, hchars, List.splitOn_append_cons_self, List.map_append]
  rfl

/-- The lines of a text are those of the texts that it was made from. -/
theorem linesOf_unlines {lines : List String} (hne : lines ≠ []) :
    linesOf (Text.unlines lines) = lines.flatMap linesOf := by
  induction lines with
  | nil => exact absurd rfl hne
  | cons first others ih =>
    cases others with
    | nil => simp [Text.unlines]
    | cons second others =>
      rw [Text.unlines, String.intercalate_cons_cons, linesOf_lineFeed, List.flatMap_cons]
      exact congrArg _ (ih (List.cons_ne_nil second others))

/-- The line feed at the end of a file is read as the beginning of one more line, without text. -/
theorem linesOf_fileOfLines {lines : List String} (hne : lines ≠ []) :
    linesOf (Text.fileOfLines lines) = lines.flatMap linesOf ++ [""] := by
  have hend : Text.fileOfLines lines = Text.unlines lines ++ "\n" ++ "" := by
    rw [Text.fileOfLines, String.append_empty]
  rw [hend, linesOf_lineFeed, linesOf_unlines hne, linesOf_of_unbroken (by decide)]

/-- Lines without line feeds are read as they were written. -/
theorem flatMap_linesOf {lines : List String} (h : ∀ line ∈ lines, Unbroken line) :
    lines.flatMap linesOf = lines := by
  have hlines : lines.flatMap linesOf = lines.flatMap fun line => [line] :=
    List.flatMap_congr fun line hline => linesOf_of_unbroken (h line hline)
  rw [hlines, ← List.map_eq_flatMap, List.map_id']

/-! ### Names -/

theorem unbroken_of_identifier {name : String}
    (h : Json.NamePattern.identifier.matches? name) : Unbroken name :=
  fun hbreak => absurd (isAlphanum_of_identifier h hbreak) (by decide)

theorem unbroken_of_gateTag {tag : String} (h : Json.NamePattern.gateTag.matches? tag) :
    Unbroken tag := by
  simp only [Json.NamePattern.matches?, Bool.and_eq_true, List.all_eq_true] at h
  exact fun hbreak => absurd (h.2 '\n' hbreak) (by decide)

/-- A line feed between quotes is escaped. -/
theorem unbroken_quoted (s : String) : Unbroken (Text.quoted s) := by
  have hdigit : ∀ n < 16, Text.hexDigit n ≠ '\n' := by decide
  have hletter (c : Char) : Text.escapeLetter? c ≠ some '\n' := by
    unfold Text.escapeLetter?
    split_ifs <;> simp
  have hchar (c : Char) : '\n' ∉ Text.escapeChar c := by
    unfold Text.escapeChar
    split
    · next hquote => rcases hquote with rfl | rfl <;> simp
    · split
      · next letter hsome =>
        have hne : letter ≠ '\n' := by
          rintro rfl
          exact hletter c hsome
        simp [hne.symm]
      · next hnone =>
        split
        · next hlow =>
          have hhigh := hdigit (c.toNat / 16) (by omega)
          have hrest := hdigit (c.toNat % 16) (by omega)
          simp [hhigh.symm, hrest.symm]
        · next hlow =>
          -- The line feed itself is among the characters with a letter.
          have hne : c ≠ '\n' := by
            rintro rfl
            exact hlow (by decide)
          simpa using hne.symm
  simp [Unbroken, Text.toList_quoted, hchar]

/-- The settings of a target. -/
def Target.settings (target : Target) : List String :=
  target.markerSuffix :: target.markerDerives ++
    [target.componentImport, target.commandsImport, target.handleImport, target.handleType,
      target.bindingsModule, target.gateFeaturePrefix, target.scriptClassName,
      target.regenerateCommand]

/-- The gates of a taxonomy have the tags that a configuration gives. -/
theorem Taxonomy.unbroken_of_gate? {graph : Inheritance} {config : Config} {t : Taxonomy}
    (spelled : config.Spelled) (built : build graph config.taxonomy = .ok t) {c tag : String}
    (h : t.gates.gate? c = some tag) : Unbroken tag := by
  obtain ⟨-, gates, hgates, rfl⟩ := build_eq_ok_iff.1 built
  obtain ⟨classes, hclasses, -⟩ := (Gates.gate?_eq_some_iff_listed hgates).1 h
  exact unbroken_of_gateTag (spelled.gateTag tag (Table.mem_keys_iff.2 ⟨classes, hclasses⟩))

/-! ### Lines of a target -/

section Lines

variable {target : Target} (htarget : ∀ s ∈ target.settings, Unbroken s)

include htarget

theorem Target.unbroken_noticeLines {comment : String} (hcomment : Unbroken comment) :
    ∀ line ∈ target.noticeLines comment, Unbroken line := by
  have hcommand : Unbroken target.regenerateCommand := htarget _ (by simp [settings])
  simp only [noticeLines, generatedNotice, List.forall_mem_cons, unbroken_append, hcomment,
    hcommand]
  simp [Unbroken]

theorem Target.unbroken_gateLines {depth : Nat} {gate? : Option String}
    (htag : ∀ tag, gate? = some tag → Unbroken tag) :
    ∀ line ∈ target.gateLines depth gate?, Unbroken line := by
  have hopening : Unbroken "#[cfg(feature = \"" ∧ Unbroken "\")]" := by simp [Unbroken]
  have hprefix : Unbroken target.gateFeaturePrefix := htarget _ (by simp [settings])
  intro line hline
  obtain ⟨tag, hgate, rfl⟩ : ∃ tag, gate? = some tag ∧
      indent depth (target.featureAttribute tag) = line := by
    simpa [Target.gateLines] using hline
  unfold featureAttribute
  simp [hopening, hprefix, htag tag hgate]

theorem Target.unbroken_insertStatement {c : String} (hc : Unbroken c) :
    Unbroken (target.insertStatement c) := by
  have hcall : Unbroken "entity_commands.insert(" ∧ Unbroken ");" := by simp [Unbroken]
  have hsuffix : Unbroken target.markerSuffix := htarget _ (by simp [settings])
  unfold insertStatement markerOf
  simp [hcall, hc, hsuffix]

theorem Target.unbroken_insertionLines {depth : Nat} {g : Gated String}
    (htag : ∀ tag, g.gate? = some tag → Unbroken tag) (hitem : Unbroken g.item) :
    ∀ line ∈ target.insertionLines depth g, Unbroken line := by
  intro line hline
  rcases List.mem_append.1 hline with hline | hline
  · exact unbroken_gateLines htarget htag line hline
  · rw [List.mem_singleton.1 hline, unbroken_indent]
    exact unbroken_insertStatement htarget hitem

end Lines

end NodeTagging
