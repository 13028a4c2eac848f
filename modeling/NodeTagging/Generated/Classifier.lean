import NodeTagging.Generated.Target
import NodeTagging.Text.Quoted

/-!
# The classifier script

The script runs inside the engine, where type tests are cheap. It finds the most specific tagged
class of a node and hands its name to the dispatcher for type names. The plan follows the same
categories as the dispatchers: the branches in order, each with the members of its category by
specificity and its root last, then the members of the catch-all, and the root of the taxonomy if
nothing matched.

A test for a class needs the class to exist in the running engine, so a gated class is tested for
by name instead.
-/

namespace NodeTagging

/-- A branch of the classifier. -/
structure TestBranch where
  /-- The class that is tested for first, and the answer if no probe matches. -/
  root : String
  /-- The classes that are tested for then, in order. -/
  probes : List String
deriving DecidableEq, Repr

/-- The tests of the classifier. -/
structure TestPlan where
  /-- The branches, in order. -/
  branches : List TestBranch
  /-- The classes that are tested for after the branches. -/
  direct : List String
  /-- The answer if nothing matched. -/
  fallback : String
deriving DecidableEq, Repr

namespace TestPlan

/-- The branch of a category. -/
def branchOf (t : Taxonomy) (category : Category) : TestBranch where
  root := category.root
  probes := t.bySpecificity ((t.membersIn category.id).filter fun c => c ≠ category.root)

/-- The plan for a taxonomy. -/
def ofTaxonomy (t : Taxonomy) : TestPlan where
  branches := t.branches.map (branchOf t)
  direct := t.bySpecificity (t.membersIn t.catchAll)
  fallback := t.root

/-- The names that the classifier can answer. -/
def returnNames (plan : TestPlan) : List String :=
  plan.branches.flatMap (fun b => b.probes ++ [b.root]) ++ plan.direct ++ [plan.fallback]

/-- The answer for a node, given the lineage of its class. The first branch whose root is in the
    lineage decides, and without one the first class that is tested for directly. -/
def answer (plan : TestPlan) (lineage : List String) : String :=
  match plan.branches.find? fun b => b.root ∈ lineage with
  | some b => (b.probes.find? fun c => c ∈ lineage).getD b.root
  | none => (plan.direct.find? fun c => c ∈ lineage).getD plan.fallback

end TestPlan

/-- How a node is tested for a class. -/
inductive NodeTest where
  /-- By the class itself. -/
  | byClass (className : String)
  /-- By the name of the class. -/
  | byName (className : String)
deriving DecidableEq, Repr

namespace NodeTest

/-- The test for a class: by name if it is gated. -/
def ofClass (gates : Gates) (className : String) : NodeTest :=
  if (gates.gate? className).isNone then .byClass className else .byName className

/-- The test as an expression. -/
def text : NodeTest → String
  | .byClass c => "node is " ++ c
  | .byName c => "ClassDB.is_parent_class(node.get_class(), " ++ Text.quoted c ++ ")"

end NodeTest

/-- A test with the name that is answered if it holds. -/
structure ScriptProbe where
  /-- The test. -/
  test : NodeTest
  /-- The answer. -/
  answer : String
deriving DecidableEq, Repr

/-- A clause of the classifier at the top. -/
inductive ScriptClause where
  /-- If a test holds, the answer of the first probe that does, or the last answer. -/
  | branch (test : NodeTest) (probes : List ScriptProbe) (answer : String)
  /-- If a test holds, its answer. -/
  | direct (probe : ScriptProbe)
deriving DecidableEq, Repr

/-- The classifier as it is written. -/
structure ClassifierScript where
  /-- The root of the taxonomy. -/
  root : String
  /-- The clauses, of which the first whose test holds decides. -/
  clauses : List ScriptClause
  /-- The answer if no test holds. -/
  fallback : String
deriving DecidableEq, Repr

namespace ClassifierScript

/-! ### From the plan to the script -/

/-- The probe for a class. -/
def probeOf (gates : Gates) (className : String) : ScriptProbe :=
  ⟨.ofClass gates className, className⟩

/-- The clause of a branch, whose root is tested for by class. -/
def branchClause (gates : Gates) (branch : TestBranch) : ScriptClause :=
  .branch (.byClass branch.root) (branch.probes.map (probeOf gates)) branch.root

/-- The script of a taxonomy. -/
def ofTaxonomy (t : Taxonomy) : ClassifierScript :=
  let plan := TestPlan.ofTaxonomy t
  { root := t.root
    clauses := plan.branches.map (branchClause t.gates) ++
      plan.direct.map fun c => .direct (probeOf t.gates c)
    fallback := plan.fallback }

/-! ### The lines -/

/-- A test and its answer after the word that begins them. -/
def probeLine (keyword : String) (probe : ScriptProbe) : String :=
  keyword ++ " " ++ probe.test.text ++ ": return " ++ Text.quoted probe.answer

/-- The lines of a clause after the word that begins it. -/
def clauseLines (keyword : String) : ScriptClause → List String
  | .branch test probes answer =>
    ["\t" ++ keyword ++ " " ++ test.text ++ ":"] ++
      probes.map (fun p => "\t\t" ++ probeLine "if" p) ++
      ["\t\treturn " ++ Text.quoted answer]
  | .direct probe => ["\t" ++ probeLine keyword probe]

/-- The lines of the clauses, of which the first begins the chain. -/
def chainLines : List ScriptClause → List String
  | [] => []
  | first :: others => clauseLines "if" first ++ others.flatMap (clauseLines "elif")

variable (target : Target) (entry : EntryPoints) (s : ClassifierScript)

/-- The function that finds the type name of a node. -/
def classifyLines : List String :=
  ["# Returns the most specific known type name of `node`.",
    "func " ++ entry.classify ++ "(node: " ++ s.root ++ ") -> String:"] ++
    chainLines s.clauses ++
    ["\treturn " ++ Text.quoted s.fallback]

/-- The functions that find the type names of many nodes. -/
def analysisLines : List String :=
  ["# Classifies `root` and every node below it, in tree order. The two",
    "# arrays are parallel: entry i of each describes the same node.",
    "func " ++ entry.analyzeSubtree ++ "(root: " ++ s.root ++ ") -> Dictionary:",
    "\tvar instance_ids := PackedInt64Array()",
    "\tvar type_names := PackedStringArray()",
    "\tvar pending: Array[" ++ s.root ++ "] = [root]",
    "\twhile not pending.is_empty():",
    "\t\tvar node: " ++ s.root ++ " = pending.pop_back()",
    "\t\tif not is_instance_valid(node):",
    "\t\t\tcontinue",
    "\t\tinstance_ids.append(node.get_instance_id())",
    "\t\ttype_names.append(" ++ entry.classify ++ "(node))",
    "\t\tvar children := node.get_children()",
    "\t\tfor i in range(children.size() - 1, -1, -1):",
    "\t\t\tpending.append(children[i])",
    "\treturn \x7b",
    "\t\t\"instance_ids\": instance_ids,",
    "\t\t\"type_names\": type_names,",
    "\t\x7d",
    "",
    "func " ++ entry.analyzeInitialTree ++ "() -> Dictionary:",
    "\treturn " ++ entry.analyzeSubtree ++ "(get_tree().get_root())"]

/-- The lines of the script. -/
def lines : List String :=
  ["extends " ++ s.root, "class_name " ++ target.scriptClassName, ""] ++
    target.noticeLines "#" ++ [""] ++
    classifyLines entry s ++ [""] ++
    analysisLines entry s

end ClassifierScript

end NodeTagging
