import NodeTagging.Taxonomy.Basic
import NodeTagging.Text.Lines

/-!
# The target of the generated files

What the generated files need to know of the program that they become part of: the names and paths
of its types, how a marker is named, which feature a gate tag stands for, and the names of the
functions that the program calls. All of it has defaults that a configuration can replace.

Anything generated may be *gated*: it is there only if the feature of its tag is enabled.
-/

namespace NodeTagging

/-- The settings of the target. -/
structure Target where
  /-- The text that a class name is followed by in the name of its marker. -/
  markerSuffix : String := "Marker"
  /-- The traits that markers derive. -/
  markerDerives : List String := ["Component", "Debug", "Clone", "Copy", "PartialEq", "Eq"]
  /-- The path of the component trait. -/
  componentImport : String := "bevy::ecs::component::Component"
  /-- The path of the type whose methods insert and remove markers. -/
  commandsImport : String := "bevy::ecs::system::EntityCommands"
  /-- The path that brings the handle type and the markers into scope. -/
  handleImport : String := "crate::interop::\x7bGodotNodeHandle, node_markers::*\x7d"
  /-- The type of a handle to a live node. -/
  handleType : String := "GodotNodeHandle"
  /-- The module of the bindings that holds the engine's classes. -/
  bindingsModule : String := "godot::classes"
  /-- The text that comes before a gate tag in the name of its feature. -/
  gateFeaturePrefix : String := "api-"
  /-- The name of the script that classifies nodes. -/
  scriptClassName : String := "SceneTreeClassifier"
  /-- The command that generates the files anew. -/
  regenerateCommand : String := "node-marker-codegen"
deriving DecidableEq, Repr

/-- The names of the functions that the program calls. -/
structure EntryPoints where
  /-- Adds the markers of a live node. -/
  apply : String := "apply_all_markers"
  /-- Removes all markers. -/
  remove : String := "remove_all_markers"
  /-- Adds the markers of a node whose type name is known. -/
  fromType : String := "apply_markers_from_precomputed_type"
  /-- Finds the type name of a node. -/
  classify : String := "classify_node"
  /-- Finds the type names of a node and all nodes below it. -/
  analyzeSubtree : String := "analyze_subtree"
  /-- Finds the type names of all nodes. -/
  analyzeInitialTree : String := "analyze_initial_tree"
deriving DecidableEq, Repr

/-- Something that is there only if the feature of its gate tag is enabled, or always. -/
structure Gated (α : Type) where
  /-- The gate tag, if there is one. -/
  gate? : Option String
  /-- What is gated. -/
  item : α
deriving DecidableEq, Repr

/-- Whether a gated thing is there under the given tags whose features are enabled. -/
def Gated.isEnabled {α : Type} (g : Gated α) (enabled : List String) : Bool :=
  match g.gate? with
  | none => true
  | some tag => tag ∈ enabled

/-- A class under its own gate. -/
def Taxonomy.gated (t : Taxonomy) (className : String) : Gated String :=
  ⟨t.gates.gate? className, className⟩

/-! ### Lines -/

/-- The line after `depth` steps of indentation. -/
def indent (depth : Nat) (line : String) : String :=
  String.ofList (List.replicate (4 * depth) ' ') ++ line

namespace Target

/-- The sentence at the top of every generated file. -/
def generatedNotice : String :=
  "This file is generated by node-marker-codegen. Do not edit by hand."

variable (target : Target)

/-- The name of the marker of a class. -/
def markerOf (className : String) : String :=
  className ++ target.markerSuffix

/-- The attribute that puts what follows under a gate tag. -/
def featureAttribute (tag : String) : String :=
  "#[cfg(feature = \"" ++ target.gateFeaturePrefix ++ tag ++ "\")]"

/-- The lines at the top of a generated file, as comments. -/
def noticeLines (comment : String) : List String :=
  [comment ++ " " ++ generatedNotice,
    comment ++ " To regenerate: " ++ target.regenerateCommand]

/-- The line with the attribute of a gate, if there is one. -/
def gateLines (depth : Nat) (gate? : Option String) : List String :=
  (gate?.map fun tag => indent depth (target.featureAttribute tag)).toList

/-- The statement that inserts the marker of a class. -/
def insertStatement (className : String) : String :=
  "entity_commands.insert(" ++ target.markerOf className ++ ");"

/-- The statement that inserts the marker of a class, under its gate. -/
def insertionLines (depth : Nat) (g : Gated String) : List String :=
  target.gateLines depth g.gate? ++ [indent depth (target.insertStatement g.item)]

end Target

/-- The name of the function that does an action for the members of a category. -/
def helperFunction (action categoryId : String) : String :=
  action ++ "_" ++ categoryId ++ "_markers"

end NodeTagging
