import NodeTagging.Problem
import NodeTagging.Table
import NodeTagging.Text.Order

/-!
# Version gates

A class that only newer engines have is put under a *gate*: a tag that names the feature of the
bindings that brings the class. The configuration lists the classes of each tag. A class may be
listed twice under one tag, but not under two.
-/

namespace NodeTagging

/-- The tag of each gated class. -/
structure Gates where
  /-- The tag of each gated class. -/
  tagOf : Table String String
deriving DecidableEq, Repr

namespace Gates

/-- No class is gated. -/
def empty : Gates := ⟨.empty⟩

instance : Inhabited Gates := ⟨empty⟩

/-- The classes of a table of gates with their tags, in the order of the tags. -/
def listing (table : Table String (List String)) : List (String × String) :=
  (Text.ordered table.keys).flatMap fun tag =>
    ((table.get? tag).getD []).map fun className => (className, tag)

/-- One more class under a gate; refused if it is already under another one. -/
def add (tagOf : Table String String) (entry : String × String) :
    Except Problem (Table String String) :=
  match tagOf.get? entry.1 with
  | some tag =>
    if tag = entry.2 then .ok (tagOf.insert entry.1 entry.2)
    else .error (.gateConflict entry.1 tag entry.2)
  | none => .ok (tagOf.insert entry.1 entry.2)

/-- The gates of a table from tags to classes. -/
def ofTable (table : Table String (List String)) : Except Problem Gates :=
  ((listing table).foldlM add .empty).map Gates.mk

variable (g : Gates)

/-- The tag of a class, if it is gated. -/
def gate? (className : String) : Option String :=
  g.tagOf.get? className

/-- The gated classes in order. -/
def classes : List String :=
  Text.ordered g.tagOf.keys

theorem mem_classes_iff {c : String} : c ∈ g.classes ↔ ∃ tag, g.gate? c = some tag := by
  simp [classes, gate?, Table.mem_keys_iff]

end Gates

end NodeTagging
