import Mathlib.Data.List.Forall2
import NodeTagging.Proofs.Conformance

/-!
# Which configurations are admitted

A document is admitted as a configuration exactly if it has the shape of one and its categories are
fit for dispatch, where what it leaves out has its default. Every other document is refused with a
problem of the configuration at its path.

* `categoriesProblem?_eq_some`: the problem of a list of categories is that of the first one that is
  not fit, in the order in which its faults are looked for;
* `describes_rulesOfJson`: the categories, the name of the catch-all and the gated classes are those
  of the document, or the defaults;
* `config_is_admitted_iff_fit`: when a document is admitted, and how it is refused.
-/

namespace NodeTagging.Config

open Json (Shape)

/-! ### The first category that is not fit -/

/-- What is said of a category that comes after the given ones and is not fit. A fault is looked for
    only where there is none of those before it. -/
inductive CategoryFault (rules : TaxonomyRules) (earlier : List Category) (category : Category) :
    String → Prop
  /-- It has the name of the catch-all. -/
  | catchAll (h : category.id = rules.catchAll) :
    CategoryFault rules earlier category
      ("Category '" ++ category.id ++ "' reuses the catch-all id")
  /-- It shares its name or its root with an earlier one. -/
  | repeated (hid : category.id ≠ rules.catchAll)
    (h : ∃ e ∈ earlier, e.id = category.id ∨ e.root = category.root) :
    CategoryFault rules earlier category
      ("Category '" ++ category.id ++ "' (root '" ++ category.root ++ "') is listed twice")
  /-- Its root is under a version gate. -/
  | gated (hid : category.id ≠ rules.catchAll)
    (hfresh : ∀ e ∈ earlier, e.id ≠ category.id ∧ e.root ≠ category.root)
    (h : category.root ∈ rules.gateTable.values.flatten) :
    CategoryFault rules earlier category
      ("Category root '" ++ category.root ++ "' cannot be version gated")

/-- A problem of the configuration at a path. -/
def ConfigProblem (path : String) (problem : Problem) : Prop :=
  problem.diagnostic.kind = .invalidConfig ∧ problem.diagnostic.file? = some path

section Categories

variable {path : String} {rules : TaxonomyRules} {earlier categories : List Category}
  {problem : Problem}

theorem categoryFault_of_categoryProblem? {category : Category}
    (h : categoryProblem? path rules.catchAll rules.gateTable.values.flatten earlier category =
      some problem) :
    ConfigProblem path problem ∧
      CategoryFault rules earlier category problem.diagnostic.message := by
  unfold categoryProblem? at h
  split at h
  · next hid =>
    obtain rfl := Option.some.inj h
    exact ⟨⟨rfl, rfl⟩, .catchAll hid⟩
  · next hid =>
    split at h
    · next hrepeated =>
      obtain rfl := Option.some.inj h
      refine ⟨⟨rfl, rfl⟩, .repeated hid ?_⟩
      rcases hrepeated with hshared | hshared
      · obtain ⟨e, he, hsame⟩ := List.mem_map.1 hshared
        exact ⟨e, he, .inl hsame⟩
      · obtain ⟨e, he, hsame⟩ := List.mem_map.1 hshared
        exact ⟨e, he, .inr hsame⟩
    · next hfresh =>
      rw [not_or] at hfresh
      split at h
      · next hgated =>
        obtain rfl := Option.some.inj h
        exact ⟨⟨rfl, rfl⟩, .gated hid (fun e he =>
          ⟨fun hsame => hfresh.1 (List.mem_map.2 ⟨e, he, hsame⟩),
            fun hsame => hfresh.2 (List.mem_map.2 ⟨e, he, hsame⟩)⟩) hgated⟩
      · simp at h

/-- The problem of a list of categories is that of the first one that has any. -/
theorem categoriesProblem?_eq_some {catchAll : String} {gated : List String}
    (h : categoriesProblem? path catchAll gated earlier categories = some problem) :
    ∃ before category after, categories = before ++ category :: after ∧
      categoriesProblem? path catchAll gated earlier before = none ∧
      categoryProblem? path catchAll gated (earlier ++ before) category = some problem := by
  induction categories generalizing earlier with
  | nil => simp [categoriesProblem?] at h
  | cons first rest ih =>
    rw [categoriesProblem?] at h
    cases hfirst : categoryProblem? path catchAll gated earlier first with
    | some problem' =>
      rw [hfirst, Option.some_or] at h
      obtain rfl := Option.some.inj h
      exact ⟨[], first, rest, rfl, rfl, by rwa [List.append_nil]⟩
    | none =>
      rw [hfirst, Option.none_or] at h
      obtain ⟨before, category, after, rfl, hbefore, hcategory⟩ := ih h
      refine ⟨first :: before, category, after, rfl, ?_, ?_⟩
      · rw [categoriesProblem?, hfirst, Option.none_or, hbefore]
      · rwa [List.append_assoc, List.singleton_append] at hcategory

/-- Categories without a problem are those that are fit. -/
theorem categoriesProblem?_eq_none_iff_fit :
    categoriesProblem? path rules.catchAll rules.gateTable.values.flatten [] categories = none ↔
      TaxonomyRules.Fit { rules with categories := categories } := by
  rw [categoriesProblem?_eq_none_iff]
  constructor
  · rintro ⟨heach, hapart⟩
    exact
      { id_ne_catchAll := fun c hc => (heach c hc).1
        apart := hapart
        root_not_gated := fun c hc => (heach c hc).2.2 }
  · intro hfit
    exact ⟨fun c hc => ⟨hfit.id_ne_catchAll c hc, by simp, hfit.root_not_gated c hc⟩, hfit.apart⟩

end Categories

/-! ### What a document says -/

/-- What a document says of categories and gates, with the defaults for what it leaves out. Of a tag
    that is given twice, the last list counts. -/
structure Describes (document : Json) (rules : TaxonomyRules) : Prop where
  /-- The categories in the order of the document. -/
  categories :
    document.field? "categories" = none ∧ rules.categories = Category.defaults ∨
      ∃ items, document.field? "categories" = some (.array items) ∧
        List.Forall₂ (fun item category => item.field? "id" = some (.string category.id) ∧
          item.field? "root" = some (.string category.root)) items rules.categories
  /-- The name of the catch-all. -/
  catchAll :
    document.field? "catchAllCategory" = none ∧ rules.catchAll = Category.defaultCatchAll ∨
      document.field? "catchAllCategory" = some (.string rules.catchAll)
  /-- The classes that are listed under any tag. -/
  gated : ∀ c, c ∈ rules.gateTable.values.flatten ↔
    ∃ gates tag classes, document.field? "versionGates" = some (.object gates) ∧
      (Table.ofList gates).get? tag = some (.array classes) ∧ .string c ∈ classes

section Document

variable {document : Json}

theorem mem_textList_iff {v : Json} {c : String} :
    c ∈ textList v ↔ ∃ items, v = .array items ∧ .string c ∈ items := by
  have htext (item : Json) : item.text? = some c ↔ item = .string c := by
    cases item <;> simp [Json.text?]
  cases v <;> simp [textList, Json.items?, htext]

theorem mem_gated_iff {c : String} :
    c ∈ (rulesOfJson document).gateTable.values.flatten ↔
      ∃ gates tag classes, document.field? "versionGates" = some (.object gates) ∧
        (Table.ofList gates).get? tag = some (.array classes) ∧ .string c ∈ classes := by
  rw [List.mem_flatten]
  simp only [Table.mem_values_iff, rulesOfJson, tableField]
  cases hgates : document.field? "versionGates" with
  | none => simp [Table.get?_ofList]
  | some v =>
    cases v with
    | object gates =>
      have hread : (((some (Json.object gates)).bind Json.entries?).getD []).filterMap
          (fun e => ((some ∘ textList) e.2).map (e.1, ·)) =
            gates.map fun e => (e.1, textList e.2) := by
        simp [Json.entries?]
      rw [hread]
      simp only [Table.get?_ofList_map, Option.map_eq_some_iff]
      constructor
      · rintro ⟨_, ⟨tag, v, hv, rfl⟩, hc⟩
        obtain ⟨classes, rfl, hclass⟩ := mem_textList_iff.1 hc
        exact ⟨gates, tag, classes, rfl, hv, hclass⟩
      · rintro ⟨_, tag, classes, ⟨⟩, hv, hclass⟩
        exact ⟨_, ⟨tag, _, hv, rfl⟩, mem_textList_iff.2 ⟨classes, rfl, hclass⟩⟩
    | null | bool | number | string | array => simp [Json.entries?, Table.get?_ofList]

/-- The rules of a document of the right shape are those that it describes. -/
theorem describes_rulesOfJson (h : shape.Accepts document) :
    Describes document (rulesOfJson document) where
  categories := by
    cases hw : document.field? "categories" with
    | none => exact .inl ⟨rfl, by simp [rulesOfJson, categoriesOfJson, hw]⟩
    | some w =>
      have hlist : Shape.Accepts (.list categoryShape) w := h.field (by simp) hw
      cases hlist with
      | @list _ items hitems =>
        have hcategories : (rulesOfJson document).categories = items.map categoryOfJson := by
          simp [rulesOfJson, categoriesOfJson, hw, Json.items?]
        rw [hcategories]
        refine .inr ⟨items, rfl, List.forall₂_map_right_iff.2 (List.forall₂_same.2 ?_)⟩
        intro item hitem
        have hrecord : categoryShape.Accepts item := hitems item hitem
        obtain ⟨id, hid, -⟩ : ∃ id, item.field? "id" = some (.string id) ∧
            (Json.TextRule.pattern .categoryId).Accepts id :=
          hrecord.exists_text (by simp) (by simp [categoryIdShape])
        obtain ⟨root, hroot, -⟩ : ∃ root, item.field? "root" = some (.string root) ∧
            (Json.TextRule.pattern .identifier).Accepts root :=
          hrecord.exists_text (by simp) (by simp [identifierShape])
        simp [categoryOfJson, textField?, hid, hroot, Json.text?]
  catchAll := by
    cases hw : document.field? "catchAllCategory" with
    | none => exact .inl ⟨rfl, by simp [rulesOfJson, textField?, hw]⟩
    | some w =>
      have htext : categoryIdShape.Accepts w := h.field (by simp) hw
      cases htext with
      | @text _ s _ => exact .inr (by simp [rulesOfJson, textField?, hw, Json.text?])
  gated _ := mem_gated_iff

end Document

/-! ### Admission -/

section Reading

variable (workingDirectory path : String) {document : Json}

/-- A document of another shape is refused with everything that is wrong with it. -/
theorem ofJson_of_not_accepts (h : ¬ shape.Accepts document) :
    ofJson workingDirectory path document =
      .error (.configRejected path (shape.check document)) := by
  unfold ofJson
  split
  · next hcheck => exact absurd (Json.Shape.check_eq_nil_iff.1 hcheck) h
  · rfl

/-- A document of the right shape is refused for the first problem of its categories, or else
    admitted. -/
theorem ofJson_of_accepts (h : shape.Accepts document) :
    (∃ problem, categoriesProblem? path (rulesOfJson document).catchAll
        (rulesOfJson document).gateTable.values.flatten [] (rulesOfJson document).categories =
          some problem ∧ ofJson workingDirectory path document = .error problem) ∨
      (rulesOfJson document).Fit ∧
        ∃ config, ofJson workingDirectory path document = .ok config := by
  rw [ofJson, Json.Shape.check_eq_nil_iff.2 h, fitCategories]
  cases hproblem : categoriesProblem? path (rulesOfJson document).catchAll
      (rulesOfJson document).gateTable.values.flatten [] (rulesOfJson document).categories with
  | some problem => exact .inl ⟨problem, rfl, rfl⟩
  | none => exact .inr ⟨categoriesProblem?_eq_none_iff_fit.1 hproblem, _, rfl⟩

end Reading

/-- A document is admitted exactly if it has the shape of a configuration and the rules that it
    describes, with the defaults for what it leaves out, are fit for dispatch. Any other document is
    refused with a problem of the configuration at its path; if it has the right shape, with what is
    wrong with the first category that is not fit after those before it. -/
theorem config_is_admitted_iff_fit (workingDirectory path : String) (document : Json) :
    let rules := rulesOfJson document
    let result := ofJson workingDirectory path document
    ((∃ config, result = .ok config) ↔ shape.Accepts document ∧ rules.Fit) ∧
    (¬ (shape.Accepts document ∧ rules.Fit) → ∃ problem, result = .error problem ∧
      ConfigProblem path problem ∧
      (shape.Accepts document → ∃ earlier category later,
        rules.categories = earlier ++ category :: later ∧
        TaxonomyRules.Fit { rules with categories := earlier } ∧
        CategoryFault rules earlier category problem.diagnostic.message)) ∧
    (shape.Accepts document → Describes document rules) := by
  intro rules result
  refine ⟨⟨?_, ?_⟩, fun hnot => ?_, describes_rulesOfJson⟩
  · rintro ⟨config, hconfig⟩
    obtain ⟨hcheck, hfit, -⟩ := eq_of_ofJson hconfig
    exact ⟨Json.Shape.check_eq_nil_iff.1 hcheck, hfit⟩
  · rintro ⟨haccepts, hfit⟩
    rcases ofJson_of_accepts workingDirectory path haccepts with
      ⟨problem, hproblem, -⟩ | ⟨-, hconfig⟩
    · rw [categoriesProblem?_eq_none_iff_fit.2 hfit] at hproblem
      simp at hproblem
    · exact hconfig
  · by_cases haccepts : shape.Accepts document
    · rcases ofJson_of_accepts workingDirectory path haccepts with
        ⟨problem, hproblem, hresult⟩ | ⟨hfit, -⟩
      · obtain ⟨earlier, category, later, hsplit, hearlier, hcategory⟩ :=
          categoriesProblem?_eq_some hproblem
        obtain ⟨hconfig, hfault⟩ := categoryFault_of_categoryProblem? hcategory
        exact ⟨problem, hresult, hconfig, fun _ => ⟨earlier, category, later, hsplit,
          categoriesProblem?_eq_none_iff_fit.1 hearlier, hfault⟩⟩
      · exact absurd ⟨haccepts, hfit⟩ hnot
    · exact ⟨_, ofJson_of_not_accepts workingDirectory path haccepts, ⟨rfl, rfl⟩,
        fun h => absurd h haccepts⟩

end NodeTagging.Config

namespace NodeTagging

namespace Sample

/-- A configuration that leaves the categories to the default and gates the root of one of them. -/
def gatedDocument : Json :=
  .object
    [("paths", .object
      [("schema", .string "api.json"), ("markers", .string "markers.rs"),
        ("dispatcher", .string "dispatcher.rs"), ("classifier", .string "classifier.gd"),
        ("consumer", .string "main.rs")]),
      ("versionGates", .object [("4-4", .array [.string "Timer", .string "Node2D"])])]

theorem ofJson_gatedDocument :
    Config.ofJson "/work" "/work/generator.config.json" gatedDocument =
      .error (.categoryRootGated "/work/generator.config.json" "Node2D") := by
  decide +kernel

end Sample

/-- The root of a default category cannot be gated, and the problem names it. -/
theorem config_is_admitted_iff_fit_of_gated :
    Config.shape.Accepts Sample.gatedDocument ∧
      ¬ (Config.rulesOfJson Sample.gatedDocument).Fit ∧
      ∃ earlier category later, Category.defaults = earlier ++ category :: later ∧
        Config.CategoryFault (Config.rulesOfJson Sample.gatedDocument) earlier category
          "Category root 'Node2D' cannot be version gated" := by
  have hadmitted :=
    Config.config_is_admitted_iff_fit "/work" "/work/generator.config.json" Sample.gatedDocument
  have haccepts : Config.shape.Accepts Sample.gatedDocument :=
    Json.Shape.check_eq_nil_iff.1 (by decide +kernel)
  have hnot : ¬ (Config.rulesOfJson Sample.gatedDocument).Fit := by
    intro hfit
    obtain ⟨config, hconfig⟩ := hadmitted.1.2 ⟨haccepts, hfit⟩
    rw [Sample.ofJson_gatedDocument] at hconfig
    simp at hconfig
  obtain ⟨problem, hproblem, -, hfirst⟩ := hadmitted.2.1 fun h => hnot h.2
  obtain rfl : _ = problem := Except.error.inj (Sample.ofJson_gatedDocument.symm.trans hproblem)
  obtain ⟨earlier, category, later, hsplit, -, hfault⟩ := hfirst haccepts
  exact ⟨haccepts, hnot, earlier, category, later, hsplit, hfault⟩

end NodeTagging
