import NodeTagging.Json.Basic

/-!
# Shapes of JSON values

A shape says which values a program accepts: a text under a rule, a list of values of one shape, a
record of named fields, or a map from names to values of one shape. `Shape.violations` lists what
is wrong with a value, in the order in which the parts of a shape are checked:

* a value of the wrong kind yields one violation, and nothing below it is looked at;
* in a record, first every required field that is missing, then, if the record is closed, every
  field that it does not list, then the listed fields that are present, in the order of the shape;
* in a map, first every name that breaks the rule on names, then the values.
-/

namespace NodeTagging.Json

/-! ### Rules on texts -/

/-- The sets of names that a shape can ask for. -/
inductive NamePattern where
  /-- A letter or underscore, followed by letters, digits and underscores. -/
  | identifier
  /-- A small letter, followed by small letters, digits and underscores. -/
  | categoryId
  /-- One or more letters, digits, underscores and hyphens. -/
  | gateTag
  /-- Any number of letters, digits and underscores. -/
  | suffix
deriving DecidableEq, Repr

namespace NamePattern

/-- The pattern as it is shown to the user. -/
def source : NamePattern → String
  | .identifier => "^[A-Za-z_][A-Za-z0-9_]*$"
  | .categoryId => "^[a-z][a-z0-9_]*$"
  | .gateTag => "^[A-Za-z0-9_-]+$"
  | .suffix => "^[A-Za-z0-9_]*$"

/-- Whether a text belongs to the set. Letters and digits are those of ASCII. -/
def matches? (pattern : NamePattern) (s : String) : Bool :=
  match pattern, s.toList with
  | .identifier, c :: cs => (c.isAlpha || c = '_') && cs.all fun d => d.isAlphanum || d = '_'
  | .identifier, [] => false
  | .categoryId, c :: cs =>
    c.isLower && cs.all fun d => d.isLower || d.isDigit || d = '_'
  | .categoryId, [] => false
  | .gateTag, cs => !cs.isEmpty && cs.all fun d => d.isAlphanum || d = '_' || d = '-'
  | .suffix, cs => cs.all fun d => d.isAlphanum || d = '_'

end NamePattern

/-- What a text has to satisfy. -/
inductive TextRule where
  /-- Every text. -/
  | any
  /-- Every text but the empty one. -/
  | nonempty
  /-- The texts of a named set. -/
  | pattern (pattern : NamePattern)
deriving DecidableEq, Repr

/-! ### Violations -/

/-- The kinds of values that a shape can ask for. -/
inductive Kind where
  /-- An object. -/
  | object
  /-- An array. -/
  | array
  /-- A string. -/
  | string
deriving DecidableEq, Repr

/-- The name of a kind. -/
def Kind.name : Kind → String
  | .object => "object"
  | .array => "array"
  | .string => "string"

/-- What is wrong with a value. -/
inductive Fault where
  /-- It is of another kind. -/
  | wrongKind (expected : Kind)
  /-- It lacks a required field. -/
  | missing (field : String)
  /-- It has a field that its shape does not list. -/
  | unlisted (field : String)
  /-- It is empty. -/
  | tooShort
  /-- It is outside a named set. -/
  | mismatch (pattern : NamePattern)
  /-- One of its names breaks the rule on names. -/
  | badName (name : String)
deriving DecidableEq, Repr

namespace Fault

/-- The fault in words. -/
def message : Fault → String
  | .wrongKind kind => "must be " ++ kind.name
  | .missing field => "must have required property '" ++ field ++ "'"
  | .unlisted _ => "must NOT have additional properties"
  | .tooShort => "must NOT have fewer than 1 characters"
  | .mismatch pattern => "must match pattern \"" ++ pattern.source ++ "\""
  | .badName _ => "property name must be valid"

end Fault

/-- The place of a value: the names and indexes that lead to it from the document. -/
abbrev Pointer := List String

namespace Pointer

/-- A step of a pointer, in which a tilde is written `~0` and a slash `~1`. -/
def escape (step : String) : String :=
  String.ofList <| step.toList.flatMap fun c =>
    if c = '~' then ['~', '0'] else if c = '/' then ['~', '1'] else [c]

/-- The pointer as a text; a slash alone for the document itself. -/
def text : Pointer → String
  | [] => "/"
  | steps => String.join (steps.map fun step => "/" ++ escape step)

end Pointer

/-- A fault and the place of the value that has it. -/
structure Violation where
  /-- The place of the value. -/
  pointer : Pointer
  /-- What is wrong with it. -/
  fault : Fault
deriving DecidableEq, Repr

/-- The violation as it is shown to the user. -/
def Violation.text (v : Violation) : String :=
  v.pointer.text ++ " " ++ v.fault.message

/-! ### Shapes -/

/-- A shape of values. -/
inductive Shape where
  /-- A text under a rule. -/
  | text (rule : TextRule)
  /-- A list of values of one shape. -/
  | list (item : Shape)
  /-- Named fields, of which some are required; a closed record has no others. -/
  | record (required : List String) (fields : List (String × Shape)) (closed : Bool)
  /-- Values of one shape under any names, or under the names of a set. -/
  | map (names : Option NamePattern) (value : Shape)

/-- What is wrong with a text. -/
def TextRule.violations (rule : TextRule) (pointer : Pointer) (s : String) : List Violation :=
  match rule with
  | .any => []
  | .nonempty => if s.isEmpty then [⟨pointer, .tooShort⟩] else []
  | .pattern p => if p.matches? s then [] else [⟨pointer, .mismatch p⟩]

/-- The required fields that are missing. -/
def missingFields (required : List String) (pointer : Pointer) (entries : List (String × Json)) :
    List Violation :=
  (required.filter fun name => (entries.lookup name).isNone).map fun name =>
    ⟨pointer, .missing name⟩

/-- The fields that are not listed. -/
def unlistedFields (listed : List String) (pointer : Pointer) (entries : List (String × Json)) :
    List Violation :=
  ((keyOrder entries).filter fun e => e.1 ∉ listed).map fun e => ⟨pointer, .unlisted e.1⟩

/-- The names that break the rule on names, each with the pattern that it fails. -/
def badNames (pattern : NamePattern) (pointer : Pointer) (entries : List (String × Json)) :
    List Violation :=
  ((keyOrder entries).filter fun e => !pattern.matches? e.1).flatMap fun e =>
    [⟨pointer, .mismatch pattern⟩, ⟨pointer, .badName e.1⟩]

namespace Shape

mutual

/-- Everything that is wrong with a value at the given place, in order. -/
def violations : Shape → Pointer → Json → List Violation
  | .text rule, pointer, .string s => rule.violations pointer s
  | .text _, pointer, _ => [⟨pointer, .wrongKind .string⟩]
  | .list item, pointer, .array items =>
    items.zipIdx.flatMap fun (v, i) => item.violations (pointer ++ [toString i]) v
  | .list _, pointer, _ => [⟨pointer, .wrongKind .array⟩]
  | .record required fields closed, pointer, .object entries =>
    missingFields required pointer entries ++
      (if closed then unlistedFields (fields.map Prod.fst) pointer entries else []) ++
      fieldViolations fields pointer entries
  | .record .., pointer, _ => [⟨pointer, .wrongKind .object⟩]
  | .map names value, pointer, .object entries =>
    (names.map fun p => badNames p pointer entries).getD [] ++
      (keyOrder entries).flatMap fun (name, v) => value.violations (pointer ++ [name]) v
  | .map .., pointer, _ => [⟨pointer, .wrongKind .object⟩]

/-- Everything that is wrong with the listed fields of a record, those that are present. -/
def fieldViolations : List (String × Shape) → Pointer → List (String × Json) → List Violation
  | [], _, _ => []
  | (name, shape) :: fields, pointer, entries =>
    ((entries.lookup name).map (shape.violations (pointer ++ [name]))).getD [] ++
      fieldViolations fields pointer entries

end

/-- Everything that is wrong with a document. -/
def check (shape : Shape) (document : Json) : List Violation :=
  shape.violations [] document

end Shape

end NodeTagging.Json
