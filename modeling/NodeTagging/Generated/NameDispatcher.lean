import NodeTagging.Generated.Target
import NodeTagging.Text.Quoted

/-!
# The dispatcher for type names

The second dispatcher tags a node whose type name was found elsewhere. It has an arm for the root
and for each member, which inserts the markers of the member and of its tagged ancestors. A name
without an arm, such as that of a class of the game itself, receives the marker of the root alone,
as every name does.

An arm stands under the gate of its class. Inside, an ancestor with another gate has that gate on
its own insertion.
-/

namespace NodeTagging

/-- What is inserted for a type name. -/
structure NameArm where
  /-- The type name. -/
  typeName : String
  /-- The gate of the class of that name. -/
  gate? : Option String
  /-- The classes whose markers are inserted, outermost first. -/
  tags : List String
deriving DecidableEq, Repr

/-- What is inserted for each type name. -/
structure NameTable where
  /-- The class whose marker every name receives. -/
  base : String
  /-- The arms in order; for a name that occurs twice the first counts. -/
  arms : List NameArm
deriving DecidableEq, Repr

namespace NameTable

/-- The arm of a member. -/
def armOf (t : Taxonomy) (className : String) : NameArm where
  typeName := className
  gate? := t.gates.gate? className
  tags := t.taggedAncestors className ++ [className]

/-- The table of a taxonomy. -/
def ofTaxonomy (t : Taxonomy) : NameTable where
  base := t.root
  arms := ⟨t.root, none, []⟩ :: t.members.map (armOf t)

variable (table : NameTable)

/-- The type names that have an arm, in order. -/
def names : List String :=
  table.arms.map (·.typeName)

/-- The classes whose markers a type name receives. -/
def resolve (typeName : String) : List String :=
  table.base ::
    ((table.arms.find? fun arm => arm.typeName = typeName).map (·.tags)).getD []

end NameTable

/-- An arm as it is written: its type name and its insertions, each under its gate. -/
structure MatchArm where
  /-- The type name. -/
  typeName : String
  /-- The insertions. -/
  inserts : List (Gated String)
deriving DecidableEq, Repr

/-- The match on type names as it is written. -/
structure NameDispatcher where
  /-- The class whose marker every name receives. -/
  base : String
  /-- The arms, each under its gate. -/
  arms : List (Gated MatchArm)
deriving DecidableEq, Repr

namespace NameDispatcher

/-- An insertion inside an arm: a gate that the whole arm has is not written again. -/
def insertIn (gates : Gates) (armGate? : Option String) (className : String) : Gated String :=
  ⟨if gates.gate? className = armGate? then none else gates.gate? className, className⟩

/-- The arm as it is written. -/
def matchArm (gates : Gates) (arm : NameArm) : Gated MatchArm :=
  ⟨arm.gate?, ⟨arm.typeName, arm.tags.map (insertIn gates arm.gate?)⟩⟩

/-- The match of a table under the given gates. -/
def ofTable (gates : Gates) (table : NameTable) : NameDispatcher where
  base := table.base
  arms := table.arms.map (matchArm gates)

/-- The match of a taxonomy. -/
def ofTaxonomy (t : Taxonomy) : NameDispatcher :=
  ofTable t.gates (NameTable.ofTaxonomy t)

/-- The classes whose markers a type name receives while the features of the given tags are
    enabled and no others. They are in the order of insertion. -/
def inserted (d : NameDispatcher) (enabled : List String) (typeName : String) : List String :=
  match d.arms.find? fun arm => arm.isEnabled enabled ∧ arm.item.typeName = typeName with
  | some arm => d.base :: (arm.item.inserts.filter (·.isEnabled enabled)).map (·.item)
  | none => [d.base]

variable (target : Target)

/-- The lines of an arm. -/
def armLines (arm : Gated MatchArm) : List String :=
  target.gateLines 2 arm.gate? ++
    if arm.item.inserts = [] then
      [indent 2 (Text.quoted arm.item.typeName ++ " => \x7b\x7d")]
    else
      [indent 2 (Text.quoted arm.item.typeName ++ " => \x7b")] ++
        arm.item.inserts.flatMap (target.insertionLines 3) ++
        [indent 2 "\x7d"]

/-- The lines of the function. -/
def lines (entry : EntryPoints) (d : NameDispatcher) : List String :=
  ["/// Adds markers for a node whose type name was resolved ahead of time,",
    "/// skipping the runtime probes. Names without an arm, such as classes",
    "/// defined by the game itself, only get the base marker.",
    "pub fn " ++ entry.fromType ++ "(",
    indent 1 "entity_commands: &mut EntityCommands,",
    indent 1 "type_name: &str,",
    ") \x7b",
    indent 1 (target.insertStatement d.base),
    "",
    indent 1 "match type_name \x7b"] ++
    d.arms.flatMap (armLines target) ++
    [indent 2 "_ => \x7b\x7d", indent 1 "\x7d", "\x7d"]

end NameDispatcher

end NodeTagging
