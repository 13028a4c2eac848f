import Mathlib.Control.Monad.Basic
import NodeTagging.Config.Document

/-!
# Rules that are fit for dispatch

A configuration that is read without a problem has categories that a dispatcher can branch on: none
has the name of the catch-all, no two share a name or a root, and no root is under a version gate
(`Config.fit_of_ofJson`). What is proved of the generated files is proved from these facts.
-/

namespace NodeTagging

/-- Two categories share neither their name nor their root. -/
def Category.Apart (a b : Category) : Prop :=
  a.id ≠ b.id ∧ a.root ≠ b.root

instance : Std.Symm Category.Apart := ⟨fun _ _ h => ⟨h.1.symm, h.2.symm⟩⟩

/-- The categories of the rules are fit for dispatch. -/
structure TaxonomyRules.Fit (rules : TaxonomyRules) : Prop where
  /-- No category has the name of the catch-all. -/
  id_ne_catchAll : ∀ category ∈ rules.categories, category.id ≠ rules.catchAll
  /-- No two categories share a name or a root. -/
  apart : rules.categories.Pairwise Category.Apart
  /-- No root of a category is under a version gate. -/
  root_not_gated : ∀ category ∈ rules.categories,
    category.root ∉ rules.gateTable.values.flatten

namespace Config

variable {path catchAll : String} {gated : List String} {earlier categories : List Category}

theorem categoryProblem?_eq_none_iff {category : Category} :
    categoryProblem? path catchAll gated earlier category = none ↔
      category.id ≠ catchAll ∧ (∀ e ∈ earlier, e.Apart category) ∧ category.root ∉ gated := by
  have fresh : (∀ e ∈ earlier, e.Apart category) ↔
      ¬ (category.id ∈ earlier.map (·.id) ∨ category.root ∈ earlier.map (·.root)) := by
    simp only [List.mem_map, Category.Apart]
    grind
  unfold categoryProblem?
  split
  · next hid => simp [hid]
  · next hid =>
    rw [fresh]
    split
    · next hrepeated => exact ⟨fun h => by simp at h, fun h => absurd hrepeated h.2.1⟩
    · next hrepeated =>
      rw [and_iff_right hid, and_iff_right hrepeated]
      simp

/-- There is no problem exactly if each category is fit and apart from all those before it. -/
theorem categoriesProblem?_eq_none_iff :
    categoriesProblem? path catchAll gated earlier categories = none ↔
      (∀ category ∈ categories, category.id ≠ catchAll ∧ (∀ e ∈ earlier, e.Apart category) ∧
        category.root ∉ gated) ∧ categories.Pairwise Category.Apart := by
  induction categories generalizing earlier with
  | nil => simp [categoriesProblem?]
  | cons category categories ih =>
    rw [categoriesProblem?, Option.or_eq_none_iff, categoryProblem?_eq_none_iff, ih,
      List.forall_mem_cons, List.pairwise_cons]
    -- For the later categories the first one has become an earlier one.
    constructor
    · rintro ⟨hhead, htail, hpairwise⟩
      refine ⟨⟨hhead, fun c hc => ?_⟩, fun c hc => ?_, hpairwise⟩
      · obtain ⟨hid, hearlier, hgated⟩ := htail c hc
        exact ⟨hid, fun e he => hearlier e (List.mem_append_left _ he), hgated⟩
      · exact (htail c hc).2.1 category (List.mem_append_right _ (List.mem_singleton_self _))
    · rintro ⟨⟨hhead, htail⟩, hapart, hpairwise⟩
      refine ⟨hhead, fun c hc => ?_, hpairwise⟩
      obtain ⟨hid, hearlier, hgated⟩ := htail c hc
      refine ⟨hid, fun e he => ?_, hgated⟩
      rcases List.mem_append.1 he with he | he
      · exact hearlier e he
      · rw [List.mem_singleton.1 he]
        exact hapart c hc

theorem fit_of_fitCategories {rules fitted : TaxonomyRules}
    (h : fitCategories path rules = .ok fitted) : fitted = rules ∧ rules.Fit := by
  unfold fitCategories at h
  split at h
  · simp at h
  · next hnone =>
    obtain ⟨heach, hpairwise⟩ := categoriesProblem?_eq_none_iff.1 hnone
    exact ⟨(Except.ok.inj h).symm,
      { id_ne_catchAll := fun c hc => (heach c hc).1
        apart := hpairwise
        root_not_gated := fun c hc => (heach c hc).2.2 }⟩

section Reading

variable {workingDirectory : String} {document : Json} {config : Config}

/-- A configuration is read from a document of the right shape whose rules are fit for dispatch, and
    holds what the document says. -/
theorem eq_of_ofJson (h : ofJson workingDirectory path document = .ok config) :
    shape.check document = [] ∧ (rulesOfJson document).Fit ∧ config =
      { path := path
        paths := pathsOfJson workingDirectory (Path.directory path) document
        engines := (textListField? document "engineExecutables").getD defaultEngines
        taxonomy := rulesOfJson document
        target := targetOfJson {} ((document.field? "target").getD .null)
        entryPoints := entryPointsOfJson {} ((document.field? "entryPoints").getD .null) } := by
  unfold ofJson at h
  split at h
  · next hcheck =>
    cases hfit : fitCategories path (rulesOfJson document) with
    | error problem => simp [hfit, Except.map] at h
    | ok rules =>
      obtain ⟨rfl, hrules⟩ := fit_of_fitCategories hfit
      rw [hfit] at h
      exact ⟨hcheck, hrules, (Except.ok.inj h).symm⟩
  · simp at h

/-- The rules of a configuration that was read are fit for dispatch. -/
theorem fit_of_ofJson (h : ofJson workingDirectory path document = .ok config) :
    config.taxonomy.Fit := by
  obtain ⟨-, hfit, rfl⟩ := eq_of_ofJson h
  exact hfit

end Reading

end Config

/-! ### A small configuration -/

namespace Sample

/-- A configuration with a category inside another one, a category that no dump declares, a class
    that the bindings lack, and two gates of classes one above the other. -/
def document : Json :=
  .object
    [("paths", .object
      [("schema", .string "api.json"), ("markers", .string "markers.rs"),
        ("dispatcher", .string "dispatcher.rs"), ("classifier", .string "classifier.gd"),
        ("consumer", .string "main.rs")]),
      ("categories", .array
        [.object [("id", .string "sprite"), ("root", .string "Sprite2D")],
          .object [("id", .string "canvas"), ("root", .string "CanvasItem")],
          .object [("id", .string "spatial"), ("root", .string "Node3D")]]),
      ("unavailable", .array [.string "Node2D"]),
      ("versionGates", .object
        [("4-4", .array [.string "Button"]), ("4-5", .array [.string "LinkButton"])])]

/-- What the document says. -/
def config : Config where
  path := "/work/generator.config.json"
  paths :=
    { schema := "/work/api.json"
      generated :=
        { markers := "/work/markers.rs"
          dispatcher := "/work/dispatcher.rs"
          classifier := "/work/classifier.gd" }
      consumer := "/work/main.rs" }
  engines := Config.defaultEngines
  taxonomy :=
    { exclusions := { unavailable := ["Node2D"] }
      categories := [⟨"sprite", "Sprite2D"⟩, ⟨"canvas", "CanvasItem"⟩, ⟨"spatial", "Node3D"⟩]
      gateTable := .ofList [("4-4", ["Button"]), ("4-5", ["LinkButton"])] }
  target := {}
  entryPoints := {}

theorem ofJson_document :
    Config.ofJson "/work" "/work/generator.config.json" document = .ok config := by
  decide +kernel

end Sample

end NodeTagging
