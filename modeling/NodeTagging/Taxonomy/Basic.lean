import NodeTagging.Inheritance.Basic
import NodeTagging.Taxonomy.Category
import NodeTagging.Taxonomy.Exclusion
import NodeTagging.Taxonomy.Gate

/-!
# The taxonomy

The taxonomy is what all generated files are made from: the *members*, that is the classes below
the root that receive a marker, with their parents, categories, gates and binding names. It is built
from the inheritance between the classes and the rules of a configuration.

* the members are all descendants of the root that no table excludes, without the root itself;
* the parent links are those inside the subtree of the root, which has none;
* a category whose root is not a member is left out, as if it were not configured;
* the *branches* are the categories that a dispatcher tests for, in order of precedence.

`build_eq_ok_iff` says when there is a taxonomy, and `mem_selectMembers_iff` which classes are its
members.
-/

namespace NodeTagging

/-- What a configuration tells of the taxonomy. -/
structure TaxonomyRules where
  /-- The class below which all members lie. -/
  root : String := "Node"
  /-- The tables of excluded classes. -/
  exclusions : Exclusions := {}
  /-- The categories in order of precedence. -/
  categories : List Category := Category.defaults
  /-- The name of the catch-all. -/
  catchAll : String := Category.defaultCatchAll
  /-- The gated classes of each tag. -/
  gateTable : Table String (List String) := .empty
  /-- The names of classes in the bindings, where they differ. -/
  bindingNames : Table String String := .empty
deriving DecidableEq, Repr

/-- The classes that receive markers, and all that is known of them. -/
structure Taxonomy where
  /-- The class below which all members lie. -/
  root : String
  /-- The number of classes below the root and the root itself, excluded ones too. -/
  subtreeSize : Nat
  /-- The classes that receive a marker besides the root, in order. -/
  members : List String
  /-- The parents inside the subtree of the root, which has none. -/
  parentOf : Table String String
  /-- The name of the category of each member. -/
  categoryOf : Table String String
  /-- The categories that have a branch of their own, in order of precedence. -/
  branches : List Category
  /-- The name of the category of the members below no branch root. -/
  catchAll : String
  /-- The gates. -/
  gates : Gates
  /-- The names of classes in the bindings, where they differ. -/
  bindingNames : Table String String
deriving DecidableEq, Repr

namespace Taxonomy

/-! ### Building -/

section Build

variable (graph : Inheritance) (rules : TaxonomyRules)

/-- The root with everything below it. -/
def subtree : List String :=
  Hierarchy.descendants rules.root graph.childrenOf

/-- The classes of the subtree that receive a marker, without the root, in order. -/
def selectMembers : List String :=
  Text.ordered
    ((rules.exclusions.keep (subtree graph rules)).filter fun c => c ≠ rules.root)

/-- The links from the given classes to their parents, in the order of the classes. -/
def restrictParents (parentOf : Table String String) (classes : List String) :
    Table String String :=
  .tabulate (Text.ordered classes) (Text.nodup_ordered classes) parentOf.get?

/-- The parent links inside the subtree of the root. -/
def subtreeParents : Table String String :=
  (restrictParents graph.parentOf (subtree graph rules)).erase rules.root

/-- The configured categories whose root is a member. -/
def eligibleCategories : List Category :=
  rules.categories.filter fun category => category.root ∈ selectMembers graph rules

/-- The category of each member. -/
def assignCategories : Table String String :=
  Category.assign (subtreeParents graph rules) (eligibleCategories graph rules)
    rules.catchAll (selectMembers graph rules)

/-- The taxonomy of a class graph under the given rules and gates. -/
def assemble (gates : Gates) : Taxonomy where
  root := rules.root
  subtreeSize := (subtree graph rules).length
  members := selectMembers graph rules
  parentOf := subtreeParents graph rules
  categoryOf := assignCategories graph rules
  branches := Category.active (eligibleCategories graph rules) (assignCategories graph rules)
  catchAll := rules.catchAll
  gates := gates
  bindingNames := rules.bindingNames

/-- The taxonomy of a class graph under the given rules. The graph has to declare the root, and no
    class may be under two gates. -/
def build : Except Problem Taxonomy :=
  if rules.root ∈ graph.names then (Gates.ofTable rules.gateTable).map (assemble graph rules)
  else .error (.rootUndeclared rules.root)

variable {graph rules}

/-- A taxonomy is built exactly from a declared root and gates without conflict. -/
theorem build_eq_ok_iff {t : Taxonomy} :
    build graph rules = .ok t ↔
      rules.root ∈ graph.names ∧
        ∃ gates, Gates.ofTable rules.gateTable = .ok gates ∧ t = assemble graph rules gates := by
  unfold build
  by_cases h : rules.root ∈ graph.names
  · cases hg : Gates.ofTable rules.gateTable <;> simp [h, Except.map, eq_comm]
  · simp [h]

theorem mem_selectMembers_iff {c : String} :
    c ∈ selectMembers graph rules ↔
      c ∈ subtree graph rules ∧ rules.exclusions.ground? c = none ∧ c ≠ rules.root := by
  simp [selectMembers, Exclusions.mem_keep, and_assoc]

theorem get?_assignCategories (c : String) :
    (assignCategories graph rules).get? c =
      if c ∈ selectMembers graph rules then
        some (Category.idOf (subtreeParents graph rules) (eligibleCategories graph rules)
          rules.catchAll c)
      else none :=
  Category.get?_assign _ _ _ _ c

end Build

/-! ### Queries -/

variable (t : Taxonomy)

/-- Whether a class receives a marker besides the root's. -/
def isTagged (className : String) : Bool :=
  t.categoryOf.contains className

/-- In a taxonomy that was built, the tagged classes are the members. -/
theorem isTagged_assemble (graph : Inheritance) (rules : TaxonomyRules) (gates : Gates)
    (c : String) :
    (assemble graph rules gates).isTagged c ↔ c ∈ (assemble graph rules gates).members := by
  simp only [isTagged, Table.contains, assemble, get?_assignCategories]
  split <;> simp_all

/-- The members of a category, in order. -/
def membersIn (categoryId : String) : List String :=
  t.members.filter fun c => t.categoryOf.get? c = some categoryId

/-- The members among the ancestors of a class, outermost first. -/
def taggedAncestors (className : String) : List String :=
  ((Hierarchy.ancestors t.parentOf className).filter t.isTagged).reverse

/-- The number of ancestors of a class. -/
def depth (className : String) : Nat :=
  (Hierarchy.ancestors t.parentOf className).length

/-- Whether a class of the first depth and name may be tested before one of the second: deeper ones
    come first, and names decide between classes of one depth. -/
def testedBefore (a b : Nat × String) : Bool :=
  b.1 < a.1 || (a.1 = b.1 && Text.le a.2 b.2)

/-- The classes in an order in which no test hides that of a class further down. -/
def bySpecificity (classNames : List String) : List String :=
  (Sorting.sortBy testedBefore (classNames.map fun c => (t.depth c, c))).map Prod.snd

/-- The name of a class in the bindings. -/
def nameInBindings (className : String) : String :=
  (t.bindingNames.get? className).getD className

/-- The classes for which a name in the bindings is given, in order. -/
def renamedClasses : List String :=
  Text.ordered t.bindingNames.keys

/-- The names of all categories that have members or could have: the branches, then the
    catch-all. -/
def categoryIds : List String :=
  t.branches.map (·.id) ++ [t.catchAll]

/-- The number of members of each category, branches first and the catch-all last. -/
def memberCounts : Table String Nat :=
  (t.members.filterMap t.categoryOf.get?).foldl
    (fun counts id => counts.insert id ((counts.get? id).getD 0 + 1))
    (Table.ofList (t.categoryIds.map fun id => (id, 0)))

end Taxonomy

end NodeTagging
