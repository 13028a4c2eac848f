import NodeTagging.Json.Token

/-!
# Reading a JSON document

A document is read from its tokens by a machine with a stack of the arrays and objects that are
still open. Each token either completes a value, which goes into the innermost open container,
opens or closes a container, or separates. There is exactly one value in a document.
-/

namespace NodeTagging.Json

/-- An array or object that is still open, with what it holds so far, last first. -/
inductive Frame where
  /-- An open array. -/
  | array (items : List Json)
  /-- An open object between two members. -/
  | object (entries : List (String × Json))
  /-- An open object with the name of a member whose value is being read. -/
  | member (entries : List (String × Json)) (name : String)

/-- What the next token may be. -/
inductive Expected where
  /-- A value. -/
  | value
  /-- A value or the end of the array, just after it was opened. -/
  | firstItem
  /-- The name of a member. -/
  | name
  /-- The name of a member or the end of the object, just after it was opened. -/
  | firstName
  /-- The colon after a name. -/
  | colon
  /-- A comma or the end of the container. -/
  | separator

/-- The machine: it reads inside the open containers, innermost first, or it has the value. -/
inductive Reader where
  /-- Reading inside the open containers. -/
  | reading (stack : List Frame) (expected : Expected)
  /-- The document's value has been read. -/
  | complete (value : Json)

namespace Reader

/-- A value is complete: it goes into the innermost open container. -/
def supply (value : Json) : List Frame → Option Reader
  | [] => some (.complete value)
  | .array items :: stack => some (.reading (.array (value :: items) :: stack) .separator)
  | .member entries name :: stack =>
    some (.reading (.object ((name, value) :: entries) :: stack) .separator)
  | .object _ :: _ => none

/-- The first token of a value. -/
def beginValue (stack : List Frame) : Token → Option Reader
  | .beginArray => some (.reading (.array [] :: stack) .firstItem)
  | .beginObject => some (.reading (.object [] :: stack) .firstName)
  | .string s => supply (.string s) stack
  | .literal v => supply v stack
  | _ => none

/-- A token that closes the innermost open container. -/
def close : List Frame → Token → Option Reader
  | .array items :: stack, .endArray => supply (.array items.reverse) stack
  | .object entries :: stack, .endObject => supply (ofEntries entries.reverse) stack
  | _, _ => none

/-- The name of a member. -/
def beginMember : List Frame → Token → Option Reader
  | .object entries :: stack, .string name =>
    some (.reading (.member entries name :: stack) .colon)
  | _, _ => none

/-- A comma: the innermost open container has another item or member. -/
def separate : List Frame → Option Reader
  | .array items :: stack => some (.reading (.array items :: stack) .value)
  | .object entries :: stack => some (.reading (.object entries :: stack) .name)
  | _ => none

/-- One token of the document; none where it is out of place. -/
def step : Reader → Token → Option Reader
  | .complete _, _ => none
  | .reading stack .value, t => beginValue stack t
  | .reading stack .firstItem, t => (close stack t).or (beginValue stack t)
  | .reading stack .name, t => beginMember stack t
  | .reading stack .firstName, t => (close stack t).or (beginMember stack t)
  | .reading stack .colon, .nameSeparator => some (.reading stack .value)
  | .reading _ .colon, _ => none
  | .reading stack .separator, .valueSeparator => separate stack
  | .reading stack .separator, t => close stack t

/-- The value at the end of the document. -/
def value? : Reader → Option Json
  | .complete v => some v
  | .reading _ _ => none

end Reader

/-- The value of a JSON document; none if the text is no such document. -/
def parse? (document : String) : Option Json := do
  let tokens ← tokens? document
  let reader ← tokens.foldlM Reader.step (.reading [] .value)
  reader.value?

end NodeTagging.Json
