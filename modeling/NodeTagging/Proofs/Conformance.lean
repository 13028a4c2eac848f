import Mathlib.Data.List.Basic
import NodeTagging.Proofs.Fitness
import NodeTagging.Proofs.Tables

/-!
# What an accepted configuration holds

A shape lists what is wrong with a value. A value with which nothing is wrong is *accepted*, and
what that means is said here without a list of faults (`Shape.Accepts`, `check_eq_nil_iff`): a
record has its required fields, no others if it is closed, and each listed field that is present is
accepted in turn.

Hence the names in a configuration that was read are of the sets that its shape asks for, whether
they were given or left to a default (`Config.spelled_of_ofJson`).
-/

namespace NodeTagging

namespace Json

theorem mem_keyOrder_iff {α : Type} {entries : List (String × α)} {e : String × α} :
    e ∈ keyOrder entries ↔ e ∈ entries := by
  simp only [keyOrder, List.mem_append, List.mem_map, Sorting.mem_sortBy, List.mem_filterMap,
    Option.map_eq_some_iff, List.mem_filter, Option.isNone_iff_eq_none]
  constructor
  · rintro (⟨-, ⟨e', he', n, -, rfl⟩, rfl⟩ | ⟨he, -⟩)
    · exact he'
    · exact he
  · intro he
    cases hindex : arrayIndex? e.1 with
    | none => exact .inr ⟨he, rfl⟩
    | some n => exact .inl ⟨(n, e), ⟨e, he, n, hindex, rfl⟩, rfl⟩

/-! ### Accepted values -/

/-- Whether a text satisfies a rule. -/
def TextRule.Accepts : TextRule → String → Prop
  | .any, _ => True
  | .nonempty, s => s ≠ ""
  | .pattern p, s => p.matches? s = true

theorem TextRule.violations_eq_nil_iff {rule : TextRule} {pointer : Pointer} {s : String} :
    rule.violations pointer s = [] ↔ rule.Accepts s := by
  cases rule with
  | any => simp [violations, Accepts]
  | nonempty => simp [violations, Accepts]
  | pattern p => simp [violations, Accepts]

namespace Shape

/-- Whether a shape accepts a value. -/
inductive Accepts : Shape → Json → Prop where
  /-- A text that satisfies the rule. -/
  | text {rule : TextRule} {s : String} (h : rule.Accepts s) : Accepts (.text rule) (.string s)
  /-- A list of accepted values. -/
  | list {item : Shape} {items : List Json} (h : ∀ v ∈ items, Accepts item v) :
    Accepts (.list item) (.array items)
  /-- A record with all required fields, no other ones than those listed if it is closed, and an
      accepted value wherever a listed field is present. -/
  | record {required : List String} {fields : List (String × Shape)} {closed : Bool}
    {entries : List (String × Json)}
    (hrequired : ∀ name ∈ required, (entries.lookup name).isSome)
    (hclosed : closed = true → ∀ e ∈ entries, e.1 ∈ fields.map Prod.fst)
    (hfields : ∀ field ∈ fields, ∀ v, entries.lookup field.1 = some v → Accepts field.2 v) :
    Accepts (.record required fields closed) (.object entries)
  /-- A map with names that satisfy the rule on names, if there is one, and accepted values. -/
  | map {names : Option NamePattern} {value : Shape} {entries : List (String × Json)}
    (hnames : ∀ p ∈ names, ∀ e ∈ entries, p.matches? e.1 = true)
    (hvalues : ∀ e ∈ entries, Accepts value e.2) :
    Accepts (.map names value) (.object entries)

theorem missingFields_eq_nil_iff {required : List String} {pointer : Pointer}
    {entries : List (String × Json)} :
    missingFields required pointer entries = [] ↔
      ∀ name ∈ required, (entries.lookup name).isSome := by
  simp [missingFields, Option.isSome_iff_ne_none]

theorem unlistedFields_eq_nil_iff {listed : List String} {pointer : Pointer}
    {entries : List (String × Json)} :
    unlistedFields listed pointer entries = [] ↔ ∀ e ∈ entries, e.1 ∈ listed := by
  simp [unlistedFields, mem_keyOrder_iff]

theorem badNames_eq_nil_iff {pattern : NamePattern} {pointer : Pointer}
    {entries : List (String × Json)} :
    badNames pattern pointer entries = [] ↔ ∀ e ∈ entries, pattern.matches? e.1 = true := by
  simp [badNames, mem_keyOrder_iff]

mutual

/-- Nothing is wrong with exactly the accepted values. -/
theorem violations_eq_nil_iff : ∀ (shape : Shape) (pointer : Pointer) (v : Json),
    shape.violations pointer v = [] ↔ shape.Accepts v
  | .text rule, pointer, v => by
    cases v with
    | string s =>
      rw [violations, TextRule.violations_eq_nil_iff]
      exact ⟨.text, fun | .text h => h⟩
    | null | bool | number | array | object => exact ⟨nofun, nofun⟩
  | .list item, pointer, v => by
    cases v with
    | array items =>
      have hitems : ((Shape.list item).violations pointer (.array items) = []) ↔
          ∀ v ∈ items, item.Accepts v := by
        conv => rhs; rw [← items.zipIdx_map_fst 0]
        simp only [violations, List.flatMap_eq_nil_iff, List.forall_mem_map,
          violations_eq_nil_iff item]
      rw [hitems]
      exact ⟨.list, fun | .list h => h⟩
    | null | bool | number | string | object => exact ⟨nofun, nofun⟩
  | .record required fields closed, pointer, v => by
    cases v with
    | object entries =>
      have hclosed : (if closed then unlistedFields (fields.map Prod.fst) pointer entries else []) =
          [] ↔ (closed = true → ∀ e ∈ entries, e.1 ∈ fields.map Prod.fst) := by
        cases closed with
        | true => simp [unlistedFields_eq_nil_iff]
        | false => simp
      rw [violations, List.append_eq_nil_iff, List.append_eq_nil_iff, missingFields_eq_nil_iff,
        hclosed, fieldViolations_eq_nil_iff fields]
      exact ⟨fun ⟨⟨hrequired, hclosed⟩, hfields⟩ => .record hrequired hclosed hfields,
        fun | .record hrequired hclosed hfields => ⟨⟨hrequired, hclosed⟩, hfields⟩⟩
    | null | bool | number | string | array => exact ⟨nofun, nofun⟩
  | .map names value, pointer, v => by
    cases v with
    | object entries =>
      have hnames : ((names.map fun p => badNames p pointer entries).getD [] = []) ↔
          ∀ p ∈ names, ∀ e ∈ entries, p.matches? e.1 = true := by
        cases names with
        | none => simp
        | some p => simp [badNames_eq_nil_iff]
      have hvalues : ((keyOrder entries).flatMap fun (name, v) =>
          value.violations (pointer ++ [name]) v) = [] ↔ ∀ e ∈ entries, value.Accepts e.2 := by
        simp only [List.flatMap_eq_nil_iff, mem_keyOrder_iff, violations_eq_nil_iff value]
      rw [violations, List.append_eq_nil_iff, hnames, hvalues]
      exact ⟨fun ⟨hnames, hvalues⟩ => .map hnames hvalues,
        fun | .map hnames hvalues => ⟨hnames, hvalues⟩⟩
    | null | bool | number | string | array => exact ⟨nofun, nofun⟩

theorem fieldViolations_eq_nil_iff : ∀ (fields : List (String × Shape)) (pointer : Pointer)
    (entries : List (String × Json)), fieldViolations fields pointer entries = [] ↔
      ∀ field ∈ fields, ∀ v, entries.lookup field.1 = some v → field.2.Accepts v
  | [], _, _ => by simp [fieldViolations]
  | (name, shape) :: fields, pointer, entries => by
    rw [fieldViolations, List.append_eq_nil_iff, fieldViolations_eq_nil_iff fields,
      List.forall_mem_cons]
    refine and_congr_left fun _ => ?_
    cases entries.lookup name with
    | none => simp
    | some v => simp [violations_eq_nil_iff shape]

end

theorem check_eq_nil_iff {shape : Shape} {document : Json} :
    shape.check document = [] ↔ shape.Accepts document :=
  violations_eq_nil_iff shape [] document

/-- A listed field of an accepted record is accepted. -/
theorem Accepts.field {required : List String} {fields : List (String × Shape)} {closed : Bool}
    {v w : Json} {name : String} {shape : Shape} (h : Accepts (.record required fields closed) v)
    (hfield : (name, shape) ∈ fields) (hw : v.field? name = some w) : shape.Accepts w := by
  cases h with
  | record _ _ hfields => exact hfields (name, shape) hfield w hw

/-- A record that may have other fields is accepted for those that it lists. -/
theorem accepts_openRecord_iff {required : List String} {fields : List (String × Shape)} {v : Json}
    (hne : required ≠ []) : Accepts (.record required fields false) v ↔
      (∀ name ∈ required, (v.field? name).isSome) ∧
        ∀ field ∈ fields, ∀ w, v.field? field.1 = some w → field.2.Accepts w := by
  cases v with
  | object entries =>
    exact ⟨fun | .record hrequired _ hfields => ⟨hrequired, hfields⟩,
      fun ⟨hrequired, hfields⟩ => .record hrequired (by simp) hfields⟩
  | null | bool | number | string | array =>
    obtain ⟨name, hname⟩ := List.exists_mem_of_ne_nil required hne
    exact ⟨nofun, fun ⟨hrequired, _⟩ => absurd (hrequired name hname) (by simp [field?])⟩

/-- A required text of an accepted record is there and satisfies its rule. -/
theorem Accepts.exists_text {required : List String} {fields : List (String × Shape)}
    {closed : Bool} {v : Json} {name : String} {rule : TextRule}
    (h : Accepts (.record required fields closed) v) (hrequired : name ∈ required)
    (hfield : (name, .text rule) ∈ fields) :
    ∃ s, v.field? name = some (.string s) ∧ rule.Accepts s := by
  cases h with
  | @record _ _ _ entries hpresent _ hfields =>
    obtain ⟨w, hw⟩ := Option.isSome_iff_exists.1 (hpresent name hrequired)
    have htext : Accepts (.text rule) w := hfields (name, .text rule) hfield w hw
    cases htext with
    | @text _ s hs => exact ⟨s, hw, hs⟩

end Shape

end Json

/-- The names of the entry points. -/
def EntryPoints.names (entry : EntryPoints) : List String :=
  [entry.apply, entry.remove, entry.fromType, entry.classify, entry.analyzeSubtree,
    entry.analyzeInitialTree]

namespace Config

open Json (NamePattern Shape)

/-! ### Parts of a document -/

variable {required : List String} {fields : List (String × Shape)} {closed : Bool} {name : String}

/-- A section of a document may be missing. -/
theorem accepts_section {document : Json} {inner : Shape}
    (h : Shape.Accepts (.record required fields closed) document)
    (hfield : (name, inner) ∈ fields) :
    (document.field? name).getD .null = .null ∨
      inner.Accepts ((document.field? name).getD .null) := by
  cases hw : document.field? name with
  | none => exact .inl rfl
  | some w => exact .inr (h.field hfield hw)

/-- A field of a section is of the set that the shape asks for if its default is. -/
theorem matches?_textField? {v : Json} {base : String} {p : NamePattern}
    (h : v = .null ∨ Shape.Accepts (.record required fields closed) v)
    (hfield : (name, Shape.text (.pattern p)) ∈ fields) (hbase : p.matches? base = true) :
    p.matches? ((textField? v name).getD base) = true := by
  cases hw : v.field? name with
  | none => simpa [textField?, hw] using hbase
  | some w =>
    rcases h with rfl | h
    · cases hw
    · cases h.field hfield hw with
      | text hs => simpa [textField?, hw, Json.text?, Json.TextRule.Accepts] using hs

/-! ### Names -/

/-- The names of a configuration are of the sets that its shape asks for. -/
structure Spelled (config : Config) : Prop where
  /-- The entry points are named by identifiers. -/
  entryPoint : ∀ name ∈ config.entryPoints.names, Json.NamePattern.identifier.matches? name = true
  /-- Categories have names for categories. -/
  categoryId : ∀ category ∈ config.taxonomy.categories,
    Json.NamePattern.categoryId.matches? category.id = true
  /-- So has the catch-all. -/
  catchAll : Json.NamePattern.categoryId.matches? config.taxonomy.catchAll = true
  /-- The tags of version gates are tags. -/
  gateTag : ∀ tag ∈ config.taxonomy.gateTable.keys,
    Json.NamePattern.gateTag.matches? tag = true

variable {document : Json}

theorem categoryId_of_mem_categories (h : shape.Accepts document) {category : Category}
    (hcategory : category ∈ categoriesOfJson document) :
    Json.NamePattern.categoryId.matches? category.id = true := by
  rw [categoriesOfJson] at hcategory
  split at hcategory
  · next items hitems =>
    obtain ⟨w, hw, hentries⟩ := Option.bind_eq_some_iff.1 hitems
    obtain ⟨item, hitem, rfl⟩ := List.mem_map.1 hcategory
    have hlist : Shape.Accepts (.list categoryShape) w := h.field (by simp) hw
    cases hlist with
    | list hall =>
      obtain rfl := Option.some.inj hentries
      -- A category has to have a name, so what stands for a missing one does not matter.
      have hrecord : categoryShape.Accepts item := hall item hitem
      obtain ⟨id, hid, hmatches⟩ : ∃ id, item.field? "id" = some (.string id) ∧
          (Json.TextRule.pattern .categoryId).Accepts id :=
        hrecord.exists_text (by simp) (by simp [categoryIdShape])
      simpa [categoryOfJson, textField?, hid, Json.text?, Json.TextRule.Accepts] using hmatches
  · revert category
    decide

theorem gateTag_of_mem_keys (h : shape.Accepts document) {tag : String}
    (htag : tag ∈ (tableField document "versionGates" (some ∘ textList)).keys) :
    Json.NamePattern.gateTag.matches? tag = true := by
  obtain ⟨e, he, rfl⟩ := Table.exists_of_mem_keys_ofList htag
  obtain ⟨entry, hentry, hread⟩ := List.mem_filterMap.1 he
  obtain rfl : (entry.1, textList entry.2) = e := by simpa using hread
  cases hw : document.field? "versionGates" with
  | none => simp [hw] at hentry
  | some w =>
    have hmap : Shape.Accepts (.map (some .gateTag) textListShape) w := h.field (by simp) hw
    cases hmap with
    | map hnames _ =>
      rw [hw] at hentry
      exact hnames .gateTag rfl entry hentry

/-- The names that are given for the bindings are identifiers. -/
theorem identifier_of_bindingName (h : shape.Accepts document) {className name : String}
    (hname : (tableField document "nameOverrides" Json.text?).get? className = some name) :
    Json.NamePattern.identifier.matches? name = true := by
  obtain ⟨⟨key, v⟩, hentry, hread⟩ := List.mem_filterMap.1 (Table.mem_of_get?_ofList hname)
  obtain ⟨s, hs, heq⟩ := Option.map_eq_some_iff.1 hread
  obtain ⟨-, rfl⟩ := Prod.mk.inj heq
  cases hw : document.field? "nameOverrides" with
  | none => simp [hw] at hentry
  | some w =>
    have hmap : Shape.Accepts (.map none identifierShape) w := h.field (by simp) hw
    cases hmap with
    | map _ hvalues =>
      rw [hw] at hentry
      have htext : Shape.Accepts identifierShape v := hvalues (key, v) hentry
      cases htext with
      | text hmatches =>
        obtain rfl := Option.some.inj hs
        exact hmatches

/-- In a configuration that was read, every name is of its set, whether it was given or not. -/
theorem spelled_of_ofJson {workingDirectory path : String} {config : Config}
    (h : ofJson workingDirectory path document = .ok config) : config.Spelled := by
  obtain ⟨hcheck, -, rfl⟩ := eq_of_ofJson h
  have haccepts := Json.Shape.check_eq_nil_iff.1 hcheck
  have hsection : (document.field? "entryPoints").getD .null = .null ∨
      entryPointsShape.Accepts ((document.field? "entryPoints").getD .null) :=
    accepts_section haccepts (by simp)
  refine
    { entryPoint := ?_
      categoryId := fun category => categoryId_of_mem_categories haccepts
      catchAll := matches?_textField? (.inr haccepts) (by simp [categoryIdShape]) (by decide)
      gateTag := fun tag => gateTag_of_mem_keys haccepts }
  intro name hname
  simp only [EntryPoints.names, entryPointsOfJson, List.mem_cons, List.not_mem_nil,
    or_false] at hname
  rcases hname with rfl | rfl | rfl | rfl | rfl | rfl <;>
    exact matches?_textField? hsection (by simp [identifierShape]) (by decide)

end Config

end NodeTagging
