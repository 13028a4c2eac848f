/-!
# Lines

A generated program is a list of lines until it is written. Blocks of lines are set apart by an
empty line.
-/

namespace NodeTagging.Text

/-- The lines as one text, each but the last followed by a line feed. -/
def unlines (lines : List String) : String :=
  String.intercalate "\n" lines

/-- The lines as the text of a file, each followed by a line feed. -/
def fileOfLines (lines : List String) : String :=
  unlines lines ++ "\n"

/-- The lines of the blocks, with an empty line between two of them. -/
def separateBlocks (blocks : List (List String)) : List String :=
  [""].intercalate blocks

theorem separateBlocks_cons_cons (first second : List String) (others : List (List String)) :
    separateBlocks (first :: second :: others) =
      first ++ ([""] ++ separateBlocks (second :: others)) := by
  simp [separateBlocks, List.intercalate]

/-- The text filled up with blanks on the right to a width in characters. -/
def padRight (width : Nat) (s : String) : String :=
  s ++ String.ofList (List.replicate (width - s.length) ' ')

/-- Whether the characters of `part` occur in a row in `s`. -/
def occursIn (part s : List Char) : Bool :=
  part.isPrefixOf s ||
    match s with
    | [] => false
    | _ :: rest => occursIn part rest

/-- The occurrence test finds exactly the contiguous parts of a text. -/
theorem occursIn_iff (part s : List Char) : occursIn part s = true ↔ part <:+: s := by
  induction s with
  | nil => simp [occursIn]
  | cons c s ih =>
    rw [occursIn, Bool.or_eq_true, List.isPrefixOf_iff_prefix, ih, List.infix_cons_iff]

end NodeTagging.Text
