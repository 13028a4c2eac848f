import NodeTagging.Generated.Target

/-!
# The dispatcher for live nodes

The first dispatcher tags a live node by asking the engine for its type. To ask for every member is
expensive, so it first asks for the branch roots, in order, and then only for the members of the
branch that matched; the members of the catch-all are always asked for. A branch root that matched
is not asked for again.

The plan of the dispatcher holds what is probed, inserted and removed where, and under which gate.
Its lines are written from the plan alone.
-/

namespace NodeTagging

/-- A question to the engine whether a node is of a class. -/
structure Probe where
  /-- The class. -/
  className : String
  /-- The name of the class in the bindings. -/
  binding : String
deriving DecidableEq, Repr

/-- A branch of the dispatcher. -/
structure ProbeBranch where
  /-- The probe of the branch root. It is never gated. -/
  probe : Probe
  /-- The markers inserted when it matches: the tagged ancestors, outermost first, and the root. -/
  inserts : List (Gated String)
  /-- The category whose members are probed then. -/
  categoryId : String
deriving DecidableEq, Repr

/-- The two helpers of a category. -/
structure CategoryHelpers where
  /-- The category. -/
  categoryId : String
  /-- The members that are probed, each of whose markers is inserted when it matches. -/
  probes : List (Gated Probe)
  /-- The markers that are removed, in chains of one gate. -/
  removals : List (Gated (List String))
deriving DecidableEq, Repr

/-- The plan of the dispatcher for live nodes. -/
structure ProbeDispatcher where
  /-- The root of the taxonomy, whose marker every node receives. -/
  base : String
  /-- The branches in the order in which their roots are probed. -/
  branches : List ProbeBranch
  /-- The category whose members are always probed. -/
  catchAll : String
  /-- The helpers of each category, the catch-all last. -/
  helpers : List CategoryHelpers
deriving DecidableEq, Repr

namespace ProbeDispatcher

/-! ### The plan -/

section Plan

variable (t : Taxonomy)

/-- The probe of a class. -/
def probeOf (className : String) : Probe :=
  ⟨className, t.nameInBindings className⟩

/-- The branch of a category. -/
def branchOf (category : Category) : ProbeBranch where
  probe := probeOf t category.root
  inserts := (t.taggedAncestors category.root ++ [category.root]).map t.gated
  categoryId := category.id

/-- The root that the branch test of a category has already matched. -/
def branchRoot? (categoryId : String) : Option String :=
  (t.branches.find? fun category => category.id = categoryId).map (·.root)

/-- The members that the helper of a category probes. -/
def probedIn (categoryId : String) : List String :=
  (t.membersIn categoryId).filter fun c => branchRoot? t categoryId ≠ some c

/-- The members of a category under one gate, or under none. -/
def membersUnder (categoryId : String) (gate? : Option String) : List String :=
  (t.membersIn categoryId).filter fun c => t.gates.gate? c = gate?

/-- The gate tags among the members of a category, in order. -/
def tagsOf (categoryId : String) : List String :=
  Text.ordered ((t.membersIn categoryId).filterMap t.gates.gate?)

/-- The chains of removals of a category: the members without a gate, if there are any, and then
    those of each tag. -/
def removalsOf (categoryId : String) : List (Gated (List String)) :=
  (if membersUnder t categoryId none = [] then [] else [⟨none, membersUnder t categoryId none⟩]) ++
    (tagsOf t categoryId).map fun tag => ⟨some tag, membersUnder t categoryId (some tag)⟩

/-- The helpers of a category. -/
def helpersOf (categoryId : String) : CategoryHelpers where
  categoryId := categoryId
  probes := (probedIn t categoryId).map fun c => ⟨t.gates.gate? c, probeOf t c⟩
  removals := removalsOf t categoryId

/-- The plan for a taxonomy. -/
def ofTaxonomy : ProbeDispatcher where
  base := t.root
  branches := t.branches.map (branchOf t)
  catchAll := t.catchAll
  helpers := t.categoryIds.map (helpersOf t)

end Plan

/-! ### What is inserted -/

section Insertions

variable (d : ProbeDispatcher)

/-- The classes that the helper of a category finds in the lineage of a node. -/
def foundIn (categoryId : String) (lineage : List String) : List String :=
  match d.helpers.find? fun h => h.categoryId = categoryId with
  | some h => (h.probes.map (·.item.className)).filter fun c => c ∈ lineage
  | none => []

/-- The classes whose markers a node receives, given the lineage of its class, if the features of
    all gates are enabled. They are in the order of insertion. -/
def inserted (lineage : List String) : List String :=
  match d.branches.find? fun b => b.probe.className ∈ lineage with
  | some b =>
    d.base :: b.inserts.map (·.item) ++ d.foundIn b.categoryId lineage ++
      d.foundIn d.catchAll lineage
  | none => d.base :: d.foundIn d.catchAll lineage

end Insertions

/-! ### The lines -/

section Lines

variable (target : Target)

/-- The test of a probe. -/
def probeTest (probe : Probe) : String :=
  "node.try_get::<" ++ target.bindingsModule ++ "::" ++ probe.binding ++ ">().is_some()"

/-- The call of the helper that probes a category. -/
def applyCall (categoryId : String) : String :=
  helperFunction "apply" categoryId ++ "(entity_commands, node);"

/-- The lines of a branch after the word that begins it. -/
def branchLines (keyword : String) (branch : ProbeBranch) : List String :=
  [indent 1 (keyword ++ " " ++ probeTest target branch.probe ++ " \x7b")] ++
    branch.inserts.flatMap (target.insertionLines 2) ++
    [indent 2 (applyCall branch.categoryId)]

/-- The lines of the chain of branches; nothing if there is none. -/
def branchChain : List ProbeBranch → List String
  | [] => []
  | first :: others =>
    branchLines target "if" first ++ others.flatMap (branchLines target "\x7d else if") ++
      [indent 1 "\x7d", ""]

/-- The function that adds the markers of a node. -/
def applyLines (entry : EntryPoints) (d : ProbeDispatcher) : List String :=
  ["/// Adds every marker that applies to `node`, probing in full only the",
    "/// branch of the hierarchy the node belongs to.",
    "pub fn " ++ entry.apply ++ "(",
    indent 1 "entity_commands: &mut EntityCommands,",
    indent 1 ("node: &mut " ++ target.handleType ++ ","),
    ") \x7b",
    indent 1 (target.insertStatement d.base),
    ""] ++
    branchChain target d.branches ++
    [indent 1 (applyCall d.catchAll), "\x7d"]

/-- The function that removes all markers. -/
def removeLines (entry : EntryPoints) (d : ProbeDispatcher) : List String :=
  ["/// Removes every marker `" ++ entry.apply ++ "` or `" ++ entry.fromType ++ "`",
    "/// can add, without knowing which ones were applied.",
    "pub fn " ++ entry.remove ++ "(entity_commands: &mut EntityCommands) \x7b",
    indent 1 ("entity_commands.remove::<" ++ target.markerOf d.base ++ ">();")] ++
    d.helpers.map (fun h =>
      indent 1 (helperFunction "remove" h.categoryId ++ "(entity_commands);")) ++
    ["\x7d"]

/-- The lines that probe a member and insert its marker. -/
def probeLines (p : Gated Probe) : List String :=
  target.gateLines 1 p.gate? ++
    [indent 1 ("if " ++ probeTest target p.item ++ " \x7b"),
      indent 2 (target.insertStatement p.item.className),
      indent 1 "\x7d"]

/-- The helper that probes the members of a category. -/
def applyHelperLines (h : CategoryHelpers) : List String :=
  ["fn " ++ helperFunction "apply" h.categoryId ++ "(",
    indent 1 "entity_commands: &mut EntityCommands,",
    indent 1 ((if h.probes = [] then "_node" else "node") ++ ": &mut " ++ target.handleType ++ ","),
    ") \x7b"] ++
    h.probes.flatMap (probeLines target) ++
    ["\x7d"]

/-- The call that removes a marker. -/
def removeCall (className : String) : String :=
  ".remove::<" ++ target.markerOf className ++ ">()"

/-- The calls of a chain of removals, the last of which ends the statement. -/
def removeCalls : List String → List String
  | [] => []
  | [last] => [indent 2 (removeCall target last ++ ";")]
  | c :: cs => indent 2 (removeCall target c) :: removeCalls cs

/-- The lines of a chain of removals. -/
def removalLines (chain : Gated (List String)) : List String :=
  target.gateLines 1 chain.gate? ++ [indent 1 "entity_commands"] ++ removeCalls target chain.item

/-- The helper that removes the markers of a category. -/
def removeHelperLines (h : CategoryHelpers) : List String :=
  if h.removals = [] then
    ["fn " ++ helperFunction "remove" h.categoryId ++
      "(_entity_commands: &mut EntityCommands) \x7b\x7d"]
  else
    ["fn " ++ helperFunction "remove" h.categoryId ++
        "(entity_commands: &mut EntityCommands) \x7b"] ++
      h.removals.flatMap (removalLines target) ++
      ["\x7d"]

/-- The lines of all functions: the two entry points, then the helpers of each category. -/
def lines (entry : EntryPoints) (d : ProbeDispatcher) : List String :=
  Text.separateBlocks <|
    [applyLines target entry d, removeLines target entry d] ++
      d.helpers.flatMap fun h => [applyHelperLines target h, removeHelperLines target h]

end Lines

end ProbeDispatcher

end NodeTagging
