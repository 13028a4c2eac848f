import NodeTagging.Hierarchy

/-!
# Inheritance

The inheritance between the classes of an engine is a graph, which the engine's reflection dump
lists class by class. The dump may repeat a class, name parents that it does not list, and hold
cycles; of several entries for a class the last one counts, with or without a parent.

* `mem_names_ofEntries`: the declared classes are those of the entries;
* `mem_children_iff`, `get?_childrenOf`: the children of a class are those whose parent it is, in
  order; only classes with children are listed.
-/

namespace NodeTagging

/-- An entry of a dump: a class and the class it inherits from, if any. -/
structure ClassEntry where
  /-- The class. -/
  name : String
  /-- Its parent. -/
  parent? : Option String
deriving DecidableEq, Repr

/-- The graph of the classes, with the links to their parents. -/
structure Inheritance where
  /-- The declared classes, each once. -/
  names : List String
  /-- The parent of each class that has one. -/
  parentOf : Table String String
deriving DecidableEq, Repr

namespace Inheritance

/-- The graph of a list of entries, of which a later one replaces an earlier one of its class. -/
def ofEntries (entries : List ClassEntry) : Inheritance where
  names := (entries.map (·.name)).eraseDups
  parentOf := entries.foldl (fun t e => t.assign e.name e.parent?) .empty

variable (g : Inheritance)

/-- The classes whose parent is `parent`, in order. -/
def children (parent : String) : List String :=
  Text.ordered ((g.parentOf.entries.filter fun e => e.2 = parent).map Prod.fst)

/-- The children of each class that has any. -/
def childrenOf : Table String (List String) :=
  .tabulate g.parentOf.values.eraseDups (Text.nodup_eraseDups _) fun parent =>
    some (g.children parent)

variable {g}

theorem mem_names_ofEntries {entries : List ClassEntry} {name : String} :
    name ∈ (ofEntries entries).names ↔ ∃ e ∈ entries, e.name = name := by
  simp [ofEntries]

theorem mem_children_iff {child parent : String} :
    child ∈ g.children parent ↔ g.parentOf.get? child = some parent := by
  simp [children, Table.get?_eq_some_iff]

theorem get?_childrenOf (parent : String) :
    g.childrenOf.get? parent =
      if parent ∈ g.parentOf.values then some (g.children parent) else none := by
  simp [childrenOf, Table.get?_tabulate]

end Inheritance

end NodeTagging
