import NodeTagging.Sorting
import NodeTagging.Table

/-!
# JSON values

The values of RFC 8259. A number is kept as it is written, since nothing here computes with it. An
object keeps its entries in the order of the document; where a document repeats a key, the entry
keeps its first place and takes the last value.

Where the keys of an object are visited, those that are canonical array indexes come first, in
numeric order, and the others follow in the order of the document (`keyOrder`).
-/

namespace NodeTagging

/-- A JSON value. -/
inductive Json where
  /-- The value null. -/
  | null
  /-- A truth value. -/
  | bool (value : Bool)
  /-- A number, as it is written. -/
  | number (literal : String)
  /-- A text. -/
  | string (value : String)
  /-- A sequence of values. -/
  | array (items : List Json)
  /-- Named values, each name once, in the order of the document. -/
  | object (entries : List (String × Json))
deriving Repr, Inhabited

namespace Json

/-- The object of the given entries; a later value of a key replaces the earlier one in place. -/
def ofEntries (entries : List (String × Json)) : Json :=
  .object (Table.ofList entries).entries

/-- The value of a field of an object. -/
def field? (name : String) : Json → Option Json
  | .object entries => entries.lookup name
  | _ => none

/-- The text of a string. -/
def text? : Json → Option String
  | .string s => some s
  | _ => none

/-- The items of an array. -/
def items? : Json → Option (List Json)
  | .array items => some items
  | _ => none

/-- The entries of an object. -/
def entries? : Json → Option (List (String × Json))
  | .object entries => some entries
  | _ => none

/-! ### The order of keys -/

/-- The number that a text writes in decimal digits, without a sign or a leading zero. -/
def decimal? (s : String) : Option Nat :=
  match s.toList with
  | [] => none
  | ['0'] => some 0
  | c :: cs =>
    if c ≠ '0' ∧ (c :: cs).all Char.isDigit then
      some ((c :: cs).foldl (fun n d => 10 * n + (d.toNat - '0'.toNat)) 0)
    else none

/-- The largest array index, two less than the number of 32-bit words. -/
def maxArrayIndex : Nat := 4294967294

/-- The array index that a key stands for: a canonical decimal up to the largest one. -/
def arrayIndex? (key : String) : Option Nat :=
  (decimal? key).filter fun n => n ≤ maxArrayIndex

/-- The entries in the order in which keys are visited: array indexes by number, then the others
    as they stand. -/
def keyOrder {α : Type} (entries : List (String × α)) : List (String × α) :=
  let indexed := entries.filterMap fun e => (arrayIndex? e.1).map (·, e)
  (Sorting.sortBy (fun a b => a.1 ≤ b.1) indexed).map Prod.snd ++
    entries.filter fun e => (arrayIndex? e.1).isNone

end Json

end NodeTagging
