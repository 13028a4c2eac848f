import NodeTagging.Config.Basic
import NodeTagging.Json.Shape
import NodeTagging.Path

/-!
# Reading a configuration

A configuration is a JSON document. It has to have the shape `Config.shape`, and its categories have
to be fit for dispatch (`Config.fitCategories`): none has the name of the catch-all, no two share
a name or a root, and no root is under a version gate, since branches are not gated. Whatever the
document leaves out has a default. The paths in it are seen from the directory that it lies in.
-/

namespace NodeTagging.Config

open Json (Shape)

/-! ### The shape of a document -/

/-- A text that is not empty. -/
def textShape : Shape := .text .nonempty

/-- A list of texts that are not empty. -/
def textListShape : Shape := .list textShape

/-- An identifier. -/
def identifierShape : Shape := .text (.pattern .identifier)

/-- The name of a category. -/
def categoryIdShape : Shape := .text (.pattern .categoryId)

/-- The paths of a configuration, all of which are required. -/
def pathsShape : Shape :=
  .record ["schema", "markers", "dispatcher", "classifier", "consumer"]
    [("schema", textShape), ("markers", textShape), ("dispatcher", textShape),
      ("classifier", textShape), ("consumer", textShape)] true

/-- A category. -/
def categoryShape : Shape :=
  .record ["id", "root"] [("id", categoryIdShape), ("root", identifierShape)] true

/-- The names of the entry points. -/
def entryPointsShape : Shape :=
  .record []
    [("apply", identifierShape), ("remove", identifierShape), ("fromType", identifierShape),
      ("classify", identifierShape), ("analyzeSubtree", identifierShape),
      ("analyzeInitialTree", identifierShape)] true

/-- The settings of the target. -/
def targetShape : Shape :=
  .record []
    [("markerSuffix", .text (.pattern .suffix)), ("markerDerives", textListShape),
      ("componentImport", textShape), ("commandsImport", textShape), ("handleImport", textShape),
      ("handleType", identifierShape), ("bindingsModule", textShape),
      ("gateFeaturePrefix", .text .any), ("scriptClassName", identifierShape),
      ("regenerateCommand", textShape)] true

/-- A configuration. -/
def shape : Shape :=
  .record ["paths"]
    [("$schema", .text .any), ("paths", pathsShape), ("engineExecutables", textListShape),
      ("taxonomyRoot", identifierShape), ("categories", .list categoryShape),
      ("catchAllCategory", categoryIdShape),
      ("exclusions", .record [] [("prefixes", textListShape), ("names", textListShape)] true),
      ("unavailable", textListShape), ("nameOverrides", .map none identifierShape),
      ("versionGates", .map (some .gateTag) textListShape), ("entryPoints", entryPointsShape),
      ("target", targetShape)] true

/-! ### The fields of a document -/

/-- A text field. -/
def textField? (v : Json) (name : String) : Option String :=
  (v.field? name).bind Json.text?

/-- The texts of a list. -/
def textList (v : Json) : List String :=
  ((v.items?).getD []).filterMap Json.text?

/-- A field with a list of texts. -/
def textListField? (v : Json) (name : String) : Option (List String) :=
  (v.field? name).map textList

/-- A field with values under names, each read by `read`. -/
def tableField {α : Type} (v : Json) (name : String) (read : Json → Option α) : Table String α :=
  .ofList ((((v.field? name).bind Json.entries?).getD []).filterMap fun e =>
    (read e.2).map (e.1, ·))

/-- A category. -/
def categoryOfJson (v : Json) : Category where
  id := (textField? v "id").getD ""
  root := (textField? v "root").getD ""

/-- The configured categories, or those of the default. -/
def categoriesOfJson (v : Json) : List Category :=
  match (v.field? "categories").bind Json.items? with
  | some items => items.map categoryOfJson
  | none => Category.defaults

/-- The settings of the target, over the given ones. -/
def targetOfJson (base : Target) (v : Json) : Target where
  markerSuffix := (textField? v "markerSuffix").getD base.markerSuffix
  markerDerives := (textListField? v "markerDerives").getD base.markerDerives
  componentImport := (textField? v "componentImport").getD base.componentImport
  commandsImport := (textField? v "commandsImport").getD base.commandsImport
  handleImport := (textField? v "handleImport").getD base.handleImport
  handleType := (textField? v "handleType").getD base.handleType
  bindingsModule := (textField? v "bindingsModule").getD base.bindingsModule
  gateFeaturePrefix := (textField? v "gateFeaturePrefix").getD base.gateFeaturePrefix
  scriptClassName := (textField? v "scriptClassName").getD base.scriptClassName
  regenerateCommand := (textField? v "regenerateCommand").getD base.regenerateCommand

/-- The names of the entry points, over the given ones. -/
def entryPointsOfJson (base : EntryPoints) (v : Json) : EntryPoints where
  apply := (textField? v "apply").getD base.apply
  remove := (textField? v "remove").getD base.remove
  fromType := (textField? v "fromType").getD base.fromType
  classify := (textField? v "classify").getD base.classify
  analyzeSubtree := (textField? v "analyzeSubtree").getD base.analyzeSubtree
  analyzeInitialTree := (textField? v "analyzeInitialTree").getD base.analyzeInitialTree

/-- What a document tells of the taxonomy. -/
def rulesOfJson (v : Json) : TaxonomyRules where
  root := (textField? v "taxonomyRoot").getD "Node"
  exclusions :=
    { prefixes := ((v.field? "exclusions").bind (textListField? · "prefixes")).getD []
      names := ((v.field? "exclusions").bind (textListField? · "names")).getD []
      unavailable := (textListField? v "unavailable").getD [] }
  categories := categoriesOfJson v
  catchAll := (textField? v "catchAllCategory").getD Category.defaultCatchAll
  gateTable := tableField v "versionGates" (some ∘ textList)
  bindingNames := tableField v "nameOverrides" Json.text?

/-- The paths of a document, seen from the directory of the configuration. -/
def pathsOfJson (workingDirectory base : String) (v : Json) : ConfigPaths :=
  let place (name : String) : String :=
    Path.resolve workingDirectory base (((v.field? "paths").bind (textField? · name)).getD "")
  { schema := place "schema"
    generated :=
      { markers := place "markers"
        dispatcher := place "dispatcher"
        classifier := place "classifier" }
    consumer := place "consumer" }

/-! ### The categories -/

/-- What is wrong with a category after the given ones, if anything: first of all the name of the
    catch-all, then a repetition, then a gated root. -/
def categoryProblem? (path catchAll : String) (gated : List String) (earlier : List Category)
    (category : Category) : Option Problem :=
  if category.id = catchAll then some (.catchAllReused path category.id)
  else if category.id ∈ earlier.map (·.id) ∨ category.root ∈ earlier.map (·.root) then
    some (.categoryRepeated path category.id category.root)
  else if category.root ∈ gated then some (.categoryRootGated path category.root)
  else none

/-- The first problem of the categories after the given ones. -/
def categoriesProblem? (path catchAll : String) (gated : List String) :
    (earlier categories : List Category) → Option Problem
  | _, [] => none
  | earlier, category :: categories =>
    (categoryProblem? path catchAll gated earlier category).or
      (categoriesProblem? path catchAll gated (earlier ++ [category]) categories)

/-- The rules of a taxonomy, if their categories are fit for dispatch. -/
def fitCategories (path : String) (rules : TaxonomyRules) : Except Problem TaxonomyRules :=
  match categoriesProblem? path rules.catchAll rules.gateTable.values.flatten []
      rules.categories with
  | some problem => .error problem
  | none => .ok rules

/-! ### The configuration -/

/-- The configuration of a document that lies at `path`. -/
def ofJson (workingDirectory path : String) (document : Json) : Except Problem Config :=
  match shape.check document with
  | [] =>
    (fitCategories path (rulesOfJson document)).map fun rules =>
      { path := path
        paths := pathsOfJson workingDirectory (Path.directory path) document
        engines := (textListField? document "engineExecutables").getD defaultEngines
        taxonomy := rules
        target := targetOfJson {} ((document.field? "target").getD .null)
        entryPoints := entryPointsOfJson {} ((document.field? "entryPoints").getD .null) }
  | violations => .error (.configRejected path violations)

end NodeTagging.Config
