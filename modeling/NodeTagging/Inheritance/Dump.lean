import NodeTagging.Inheritance.Basic
import NodeTagging.Json.Parser
import NodeTagging.Problem

/-!
# Reading a reflection dump

A dump is a JSON document with the list of an engine's classes. Only the names of the classes and
of their parents are read; the document holds much more about each class, which may have any shape.
A dump is refused at the first entry that is not well-formed.
-/

namespace NodeTagging.Inheritance

/-- The shape of an entry of a dump. -/
def entryShape : Json.Shape :=
  .record ["name"] [("name", .text .nonempty), ("inherits", .text .nonempty)] false

/-- The shape of a dump. -/
def dumpShape : Json.Shape :=
  .record ["classes"] [("classes", .list entryShape)] false

/-- The entry that a value of the shape of an entry stands for. -/
def entryOfJson (v : Json) : ClassEntry where
  name := ((v.field? "name").bind Json.text?).getD ""
  parent? := (v.field? "inherits").bind Json.text?

/-- The entries of a document of the shape of a dump. -/
def entriesOfJson (document : Json) : List ClassEntry :=
  (((document.field? "classes").bind Json.items?).getD []).map entryOfJson

/-- The entries of a document, if it has the shape of a dump. -/
def checkDump (path : String) (document : Json) : Except Problem (List ClassEntry) :=
  match dumpShape.check document with
  | [] => .ok (entriesOfJson document)
  | violation :: _ => .error (.dumpRejected path violation)

/-- The entries of a dump, given as the text of the file at `path`. -/
def readDump (path source : String) : Except Problem (List ClassEntry) :=
  match Json.parse? source with
  | none => .error (.dumpNotJson path)
  | some document => checkDump path document

end NodeTagging.Inheritance
