import NodeTagging.Hierarchy

/-!
# Categories

The tagged classes are split into categories, each the classes below one root. Roots may lie below
one another, so a class can be below several of them: the first category in the order of precedence
whose root is the class itself or one of its ancestors takes it. A class below no root goes to the
catch-all.
-/

namespace NodeTagging

/-- A category: its name and the class that it lies below. -/
structure Category where
  /-- The name of the category. -/
  id : String
  /-- The root of the category. -/
  root : String
deriving DecidableEq, Repr

namespace Category

/-- The categories of an engine with nodes in space, nodes in the plane and controls. -/
def defaults : List Category :=
  [⟨"spatial", "Node3D"⟩, ⟨"planar", "Node2D"⟩, ⟨"interactive_surface", "Control"⟩]

/-- The name of the catch-all where none is given. -/
def defaultCatchAll : String := "universal"

/-- The first category in order of precedence that takes a class, given its lineage. -/
def ofLineage? (precedence : List Category) (lineage : List String) : Option Category :=
  precedence.find? fun category => category.root ∈ lineage

/-- The name of the category of a class. -/
def idOf (parentOf : Table String String) (precedence : List Category) (catchAll : String)
    (className : String) : String :=
  ((ofLineage? precedence (Hierarchy.lineage parentOf className)).map (·.id)).getD catchAll

/-- The categories of the given classes, in the order of the classes' names. -/
def assign (parentOf : Table String String) (precedence : List Category) (catchAll : String)
    (classes : List String) : Table String String :=
  .tabulate (Text.ordered classes) (Text.nodup_ordered classes) fun className =>
    some (idOf parentOf precedence catchAll className)

/-- The categories with a branch of their own: those whose root is tagged and was not taken by an
    earlier category. -/
def active (precedence : List Category) (categoryOf : Table String String) : List Category :=
  precedence.filter fun category => categoryOf.get? category.root = some category.id

theorem get?_assign (parentOf : Table String String) (precedence : List Category)
    (catchAll : String) (classes : List String) (c : String) :
    (assign parentOf precedence catchAll classes).get? c =
      if c ∈ classes then some (idOf parentOf precedence catchAll c) else none := by
  simp [assign, Table.get?_tabulate]

end Category

end NodeTagging
