import Mathlib.Data.List.Forall2
import NodeTagging.Inheritance.Dump
import NodeTagging.Proofs.Conformance

/-!
# Which dumps are read

Of a dump only the names of the classes and of their parents are looked at. A dump is read exactly
if these are there and not empty, and otherwise it is refused for the first thing that is wrong with
it. Whatever else a dump holds makes no difference.

* `Json.Shape.violations_list_eq_cons`: the first violation of a list is that of its first value
  that is not accepted;
* `accepts_dumpShape_iff`: the dumps that are accepted are those that are well-formed;
* `dumpFault_of_check`: the first violation of a dump is at the first entry that is not well-formed;
* `checkDump_congr`: only what is read of a dump matters;
* `dump_is_read_iff_well_formed`: all this of the text of a dump.
-/

namespace NodeTagging

namespace Json.Shape

/-- The first violation of a list is that of the first of its values that is not accepted. -/
theorem violations_list_eq_cons {item : Shape} {pointer : Pointer} {items : List Json}
    {violation : Violation} {rest : List Violation}
    (h : (Shape.list item).violations pointer (.array items) = violation :: rest) :
    ∃ before v after, items = before ++ v :: after ∧ (∀ u ∈ before, item.Accepts u) ∧
      ∃ rest', item.violations (pointer ++ [toString before.length]) v = violation :: rest' := by
  -- The induction moves along the list, so its indexes start anywhere.
  have first (items : List Json) (start : Nat)
      (h : ((items.zipIdx start).flatMap fun e => item.violations (pointer ++ [toString e.2]) e.1) =
        violation :: rest) :
      ∃ before v after, items = before ++ v :: after ∧ (∀ u ∈ before, item.Accepts u) ∧
        ∃ rest', item.violations (pointer ++ [toString (start + before.length)]) v =
          violation :: rest' := by
    induction items generalizing start with
    | nil => simp at h
    | cons v items ih =>
      rw [List.zipIdx_cons, List.flatMap_cons, List.append_eq_cons_iff] at h
      rcases h with ⟨hv, htail⟩ | ⟨rest', hv, -⟩
      · obtain ⟨before, w, after, rfl, hbefore, hw⟩ := ih (start + 1) htail
        refine ⟨v :: before, w, after, rfl, ?_, ?_⟩
        · exact List.forall_mem_cons.2 ⟨(violations_eq_nil_iff item _ v).1 hv, hbefore⟩
        · rwa [List.length_cons, Nat.add_comm before.length 1, ← Nat.add_assoc]
      · exact ⟨[], v, items, rfl, by simp, rest', hv⟩
  rw [violations] at h
  simpa using first items 0 h

end Json.Shape

namespace Inheritance

open Json (Fault Pointer Shape Violation)

/-! ### Well-formed dumps -/

/-- A value is the entry of a class. -/
structure IsEntry (v : Json) : Prop where
  /-- It has a name, which is not empty. -/
  name : ∃ name, v.field? "name" = some (.string name) ∧ name ≠ ""
  /-- A parent that it has is named too. -/
  parent : ∀ w, v.field? "inherits" = some w → ∃ parent, w = .string parent ∧ parent ≠ ""

/-- A document lists entries of classes. -/
def IsDump (document : Json) : Prop :=
  ∃ items, document.field? "classes" = some (.array items) ∧ ∀ v ∈ items, IsEntry v

theorem accepts_nonempty_iff {w : Json} :
    Shape.Accepts (.text .nonempty) w ↔ ∃ s, w = .string s ∧ s ≠ "" := by
  constructor
  · rintro ⟨hs⟩
    exact ⟨_, rfl, hs⟩
  · rintro ⟨s, rfl, hs⟩
    exact .text hs

theorem accepts_entryShape_iff {v : Json} : entryShape.Accepts v ↔ IsEntry v := by
  rw [entryShape, Shape.accepts_openRecord_iff (by simp)]
  constructor
  · rintro ⟨hrequired, hfields⟩
    obtain ⟨w, hw⟩ := Option.isSome_iff_exists.1 (hrequired "name" (by simp))
    obtain ⟨name, rfl, hne⟩ :=
      accepts_nonempty_iff.1 (hfields ("name", .text .nonempty) (by simp) w hw)
    exact
      { name := ⟨name, hw, hne⟩
        parent := fun u hu =>
          accepts_nonempty_iff.1 (hfields ("inherits", .text .nonempty) (by simp) u hu) }
  · rintro ⟨⟨name, hname, hne⟩, hparent⟩
    simp only [List.forall_mem_cons, List.not_mem_nil, false_implies, implies_true, and_true]
    refine ⟨Option.isSome_iff_exists.2 ⟨_, hname⟩, fun w hw => ?_, fun w hw => ?_⟩
    · obtain rfl : _ = w := Option.some.inj (hname.symm.trans hw)
      exact accepts_nonempty_iff.2 ⟨name, rfl, hne⟩
    · exact accepts_nonempty_iff.2 (hparent w hw)

/-- The dumps that are accepted are those that are well-formed. -/
theorem accepts_dumpShape_iff {document : Json} :
    dumpShape.Accepts document ↔ IsDump document := by
  rw [dumpShape, Shape.accepts_openRecord_iff (by simp)]
  constructor
  · rintro ⟨hrequired, hfields⟩
    obtain ⟨w, hw⟩ := Option.isSome_iff_exists.1 (hrequired "classes" (by simp))
    have hlist : Shape.Accepts (.list entryShape) w :=
      hfields ("classes", .list entryShape) (by simp) w hw
    cases hlist with
    | @list _ items hitems =>
      exact ⟨items, hw, fun v hv => accepts_entryShape_iff.1 (hitems v hv)⟩
  · rintro ⟨items, hitems, hentries⟩
    simp only [List.forall_mem_cons, List.not_mem_nil, false_implies, implies_true, and_true]
    refine ⟨Option.isSome_iff_exists.2 ⟨_, hitems⟩, fun w hw => ?_⟩
    obtain rfl : _ = w := Option.some.inj (hitems.symm.trans hw)
    exact .list fun v hv => accepts_entryShape_iff.2 (hentries v hv)

/-! ### What is looked at -/

section Looked

variable {pointer : Pointer} {entries : List (String × Json)}

/-- Of an object that should be an entry, the name is looked at first, and then the parent. -/
theorem violations_entryShape :
    entryShape.violations pointer (.object entries) =
      (match entries.lookup "name" with
        | none => [⟨pointer, .missing "name"⟩]
        | some w => (Shape.text .nonempty).violations (pointer ++ ["name"]) w) ++
      ((entries.lookup "inherits").map
        ((Shape.text .nonempty).violations (pointer ++ ["inherits"]))).getD [] := by
  cases hname : entries.lookup "name" <;>
    simp [entryShape, Shape.violations, Shape.fieldViolations, Json.missingFields, hname]

/-- Of an object that should be a dump, the classes are looked at. -/
theorem violations_dumpShape :
    dumpShape.violations pointer (.object entries) =
      match entries.lookup "classes" with
      | none => [⟨pointer, .missing "classes"⟩]
      | some w => (Shape.list entryShape).violations (pointer ++ ["classes"]) w := by
  cases hclasses : entries.lookup "classes" <;>
    simp [dumpShape, Shape.violations, Shape.fieldViolations, Json.missingFields, hclasses]

end Looked

/-! ### The first violation -/

/-- What is wrong with a value that should be a text that is not empty. -/
inductive TextFault : Json → Fault → Prop
  /-- It is no text. -/
  | notText {w : Json} (h : w.text? = none) : TextFault w (.wrongKind .string)
  /-- It is empty. -/
  | empty : TextFault (.string "") .tooShort

/-- What is first wrong with a value that should be an entry, and where in it. -/
inductive EntryFault (v : Json) : Pointer → Fault → Prop
  /-- It is no object. -/
  | notObject (h : v.entries? = none) : EntryFault v [] (.wrongKind .object)
  /-- It has no name. -/
  | noName (hobject : v.entries? ≠ none) (h : v.field? "name" = none) :
    EntryFault v [] (.missing "name")
  /-- Its name is not one. -/
  | name {w : Json} {fault : Fault} (hname : v.field? "name" = some w) (h : TextFault w fault) :
    EntryFault v ["name"] fault
  /-- It has a name, but its parent does not. -/
  | parent {name : String} {w : Json} {fault : Fault}
    (hname : v.field? "name" = some (.string name)) (hne : name ≠ "")
    (hparent : v.field? "inherits" = some w) (h : TextFault w fault) :
    EntryFault v ["inherits"] fault

/-- What is first wrong with a document that should be a dump. -/
inductive DumpFault (document : Json) : Violation → Prop
  /-- It is no object. -/
  | notObject (h : document.entries? = none) : DumpFault document ⟨[], .wrongKind .object⟩
  /-- It has no classes. -/
  | noClasses (hobject : document.entries? ≠ none) (h : document.field? "classes" = none) :
    DumpFault document ⟨[], .missing "classes"⟩
  /-- Its classes are not a list. -/
  | notList {w : Json} (hclasses : document.field? "classes" = some w) (h : w.items? = none) :
    DumpFault document ⟨["classes"], .wrongKind .array⟩
  /-- One of its classes is not an entry, and all those before it are. -/
  | entry {before after : List Json} {v : Json} {pointer : Pointer} {fault : Fault}
    (hclasses : document.field? "classes" = some (.array (before ++ v :: after)))
    (hbefore : ∀ u ∈ before, IsEntry u) (h : EntryFault v pointer fault) :
    DumpFault document ⟨"classes" :: toString before.length :: pointer, fault⟩

variable {violation : Violation} {rest : List Violation}

theorem textFault_of_violations {pointer : Pointer} {w : Json}
    (h : (Shape.text .nonempty).violations pointer w = violation :: rest) :
    ∃ fault, TextFault w fault ∧ violation = ⟨pointer, fault⟩ := by
  cases w with
  | string s =>
    rw [Shape.violations, Json.TextRule.violations] at h
    split at h
    · next hempty =>
      obtain rfl : s = "" := by simpa using hempty
      exact ⟨_, .empty, (List.cons.inj h).1.symm⟩
    · simp at h
  | null | bool | number | array | object =>
    exact ⟨_, .notText rfl, (List.cons.inj h).1.symm⟩

theorem entryFault_of_violations {pointer : Pointer} {v : Json}
    (h : entryShape.violations pointer v = violation :: rest) :
    ∃ inner fault, EntryFault v inner fault ∧ violation = ⟨pointer ++ inner, fault⟩ := by
  cases v with
  | object entries =>
    rw [violations_entryShape] at h
    cases hname : entries.lookup "name" with
    | none =>
      rw [hname] at h
      refine ⟨[], _, .noName (by simp [Json.entries?]) hname, ?_⟩
      rw [List.append_nil]
      exact (List.cons.inj h).1.symm
    | some w =>
      rw [hname, List.append_eq_cons_iff] at h
      rcases h with ⟨hnone, hparent⟩ | ⟨rest', hfirst, -⟩
      · -- The name is in order, so the violation is one of the parent.
        obtain ⟨name, rfl, hne⟩ :=
          accepts_nonempty_iff.1 ((Shape.violations_eq_nil_iff _ _ w).1 hnone)
        cases hinherits : entries.lookup "inherits" with
        | none => simp [hinherits] at hparent
        | some u =>
          rw [hinherits] at hparent
          obtain ⟨fault, hfault, rfl⟩ := textFault_of_violations hparent
          exact ⟨["inherits"], fault, .parent hname hne hinherits hfault, rfl⟩
      · obtain ⟨fault, hfault, rfl⟩ := textFault_of_violations hfirst
        exact ⟨["name"], fault, .name hname hfault, rfl⟩
  | null | bool | number | string | array =>
    refine ⟨[], _, .notObject rfl, ?_⟩
    rw [List.append_nil]
    exact (List.cons.inj h).1.symm

/-- The first violation of a dump is at the first entry that is not well-formed, unless there are no
    entries at all. -/
theorem dumpFault_of_check {document : Json} (h : dumpShape.check document = violation :: rest) :
    DumpFault document violation := by
  cases document with
  | object entries =>
    rw [Shape.check, violations_dumpShape] at h
    cases hclasses : entries.lookup "classes" with
    | none =>
      rw [hclasses] at h
      obtain rfl := (List.cons.inj h).1
      exact .noClasses (by simp [Json.entries?]) hclasses
    | some w =>
      rw [hclasses] at h
      cases w with
      | array items =>
        obtain ⟨before, v, after, rfl, hbefore, rest', hv⟩ := Shape.violations_list_eq_cons h
        obtain ⟨inner, fault, hfault, rfl⟩ := entryFault_of_violations hv
        exact .entry hclasses (fun u hu => accepts_entryShape_iff.1 (hbefore u hu)) hfault
      | null | bool | number | string | object =>
        obtain rfl := (List.cons.inj h).1
        exact .notList hclasses rfl
  | null | bool | number | string | array =>
    obtain rfl := (List.cons.inj h).1
    exact .notObject rfl

/-! ### What is not looked at -/

/-- Two values have the same name and the same parent, as far as they are entries. What other fields
    they have, and in which order, may differ. -/
inductive SameEntry : Json → Json → Prop
  /-- They are the same value. -/
  | refl (v : Json) : SameEntry v v
  /-- They are objects with the same fields of these names. -/
  | object {entries entries' : List (String × Json)}
    (hname : entries.lookup "name" = entries'.lookup "name")
    (hparent : entries.lookup "inherits" = entries'.lookup "inherits") :
    SameEntry (.object entries) (.object entries')

/-- Two values list the same entries, as far as they are lists. -/
inductive SameClasses : Json → Json → Prop
  /-- They are the same value. -/
  | refl (v : Json) : SameClasses v v
  /-- They are lists of the same entries. -/
  | array {items items' : List Json} (h : List.Forall₂ SameEntry items items') :
    SameClasses (.array items) (.array items')

/-- Two documents have the same classes, as far as they are dumps. What other fields they have, and
    in which order, may differ. -/
inductive SameDump : Json → Json → Prop
  /-- They are the same document. -/
  | refl (document : Json) : SameDump document document
  /-- They are objects with the same classes, or without any. -/
  | object {entries entries' : List (String × Json)}
    (h : Option.Rel SameClasses (entries.lookup "classes") (entries'.lookup "classes")) :
    SameDump (.object entries) (.object entries')

section Same

variable {v v' : Json}

theorem SameEntry.violations_eq (h : SameEntry v v') (pointer : Pointer) :
    entryShape.violations pointer v = entryShape.violations pointer v' := by
  cases h with
  | refl => rfl
  | object hname hparent => rw [violations_entryShape, violations_entryShape, hname, hparent]

theorem SameEntry.entryOfJson_eq (h : SameEntry v v') : entryOfJson v = entryOfJson v' := by
  cases h with
  | refl => rfl
  | object hname hparent => simp [entryOfJson, Json.field?, hname, hparent]

/-- What is the same of same entries is the same of lists of them. -/
theorem map_eq_of_sameEntry {β : Type} {f : Json → β}
    (hf : ∀ {v v'}, SameEntry v v' → f v = f v') {items items' : List Json}
    (h : List.Forall₂ SameEntry items items') : items.map f = items'.map f := by
  induction h with
  | nil => rfl
  | cons hentry _ ih => rw [List.map_cons, List.map_cons, hf hentry, ih]

theorem SameClasses.violations_eq (h : SameClasses v v') (pointer : Pointer) :
    (Shape.list entryShape).violations pointer v =
      (Shape.list entryShape).violations pointer v' := by
  cases h with
  | refl => rfl
  | @array items items' h =>
    -- The violations of a list depend on those of its items at every place.
    have places (items : List Json) : (Shape.list entryShape).violations pointer (.array items) =
        ((items.map fun v p => entryShape.violations p v).zipIdx).flatMap fun e =>
          e.1 (pointer ++ [toString e.2]) := by
      rw [Shape.violations, List.zipIdx_map, List.flatMap_map]
      rfl
    rw [places, places, map_eq_of_sameEntry (fun hsame => funext hsame.violations_eq) h]

theorem SameClasses.map_entryOfJson_eq (h : SameClasses v v') :
    (v.items?.getD []).map entryOfJson = (v'.items?.getD []).map entryOfJson := by
  cases h with
  | refl => rfl
  | array h => exact map_eq_of_sameEntry SameEntry.entryOfJson_eq h

/-- Only the classes of a dump matter, and of those only names and parents. -/
theorem checkDump_congr {document document' : Json} (path : String)
    (h : SameDump document document') : checkDump path document = checkDump path document' := by
  cases h with
  | refl => rfl
  | @object entries entries' h =>
    have hviolations : dumpShape.check (.object entries) = dumpShape.check (.object entries') := by
      rw [Shape.check, Shape.check, violations_dumpShape, violations_dumpShape]
      generalize entries.lookup "classes" = classes at h
      generalize entries'.lookup "classes" = classes' at h
      cases h with
      | none => rfl
      | some hclasses => exact hclasses.violations_eq _
    have hentries : entriesOfJson (.object entries) = entriesOfJson (.object entries') := by
      rw [entriesOfJson, entriesOfJson, Json.field?, Json.field?]
      generalize entries.lookup "classes" = classes at h
      generalize entries'.lookup "classes" = classes' at h
      cases h with
      | none => rfl
      | some hclasses => exact hclasses.map_entryOfJson_eq
    rw [checkDump, checkDump, hviolations, hentries]

end Same

/-! ### Reading -/

/-- A value says of a class what an entry holds. -/
def Tells (v : Json) (e : ClassEntry) : Prop :=
  v.field? "name" = some (.string e.name) ∧ v.field? "inherits" = e.parent?.map .string

theorem tells_entryOfJson {v : Json} (h : IsEntry v) : Tells v (entryOfJson v) := by
  obtain ⟨⟨name, hname, -⟩, hparent⟩ := h
  refine ⟨by simp [entryOfJson, hname, Json.text?], ?_⟩
  cases hinherits : v.field? "inherits" with
  | none => simp [entryOfJson, hinherits]
  | some w =>
    obtain ⟨parent, rfl, -⟩ := hparent w hinherits
    simp [entryOfJson, hinherits, Json.text?]

section Reading

variable {path source : String} {document : Json}

theorem readDump_of_not_isDump (path : String) (parsed : Json.parse? source = some document)
    (h : ¬ IsDump document) : ∃ violation, DumpFault document violation ∧
      readDump path source = .error (.dumpRejected path violation) := by
  cases hcheck : dumpShape.check document with
  | nil => exact absurd (accepts_dumpShape_iff.1 (Shape.check_eq_nil_iff.1 hcheck)) h
  | cons violation rest =>
    refine ⟨violation, dumpFault_of_check hcheck, ?_⟩
    rw [readDump, parsed]
    simp only [checkDump, hcheck]

theorem readDump_eq_ok_iff (parsed : Json.parse? source = some document)
    {entries : List ClassEntry} :
    readDump path source = .ok entries ↔ IsDump document ∧ entries = entriesOfJson document := by
  by_cases h : IsDump document
  · have hcheck : dumpShape.check document = [] :=
      Shape.check_eq_nil_iff.2 (accepts_dumpShape_iff.2 h)
    rw [readDump, parsed]
    simp only [checkDump, hcheck, Except.ok.injEq, h, true_and]
    exact eq_comm
  · obtain ⟨violation, -, hrefused⟩ := readDump_of_not_isDump path parsed h
    simp [hrefused, h]

theorem tells_entriesOfJson (h : IsDump document) : ∃ items,
    document.field? "classes" = some (.array items) ∧
      List.Forall₂ Tells items (entriesOfJson document) := by
  obtain ⟨items, hitems, hentries⟩ := h
  have hread : entriesOfJson document = items.map entryOfJson := by
    simp [entriesOfJson, hitems, Json.items?]
  refine ⟨items, hitems, ?_⟩
  rw [hread]
  exact List.forall₂_map_right_iff.2
    (List.forall₂_same.2 fun v hv => tells_entryOfJson (hentries v hv))

end Reading

/-- A dump is read exactly if its classes are a list of entries, each with a name and a named parent
    or none, and what is read is what the entries say. Otherwise it is refused as malformed, with
    the place of the first violation: all entries before that place are in order. Other fields of
    the document or of an entry, and the order of fields, change neither whether it is read nor the
    inheritance that it gives. -/
theorem dump_is_read_iff_well_formed (path source : String) {document : Json}
    (parsed : Json.parse? source = some document) :
    ((∃ entries, readDump path source = .ok entries) ↔ IsDump document) ∧
    (∀ entries, readDump path source = .ok entries → ∃ items,
      document.field? "classes" = some (.array items) ∧ List.Forall₂ Tells items entries) ∧
    (¬ IsDump document → ∃ violation, DumpFault document violation ∧
      let problem := Problem.dumpRejected path violation
      readDump path source = .error problem ∧ problem.diagnostic.kind = .malformedDump ∧
        problem.diagnostic.message = "Schema entry rejected: " ++ violation.text) ∧
    ∀ source' document', Json.parse? source' = some document' → SameDump document document' →
      (readDump path source').map ofEntries = (readDump path source).map ofEntries := by
  refine ⟨⟨fun ⟨_, hentries⟩ => ((readDump_eq_ok_iff parsed).1 hentries).1,
    fun h => ⟨_, (readDump_eq_ok_iff parsed).2 ⟨h, rfl⟩⟩⟩, fun entries hentries => ?_,
    fun h => ?_, fun source' document' parsed' hsame => ?_⟩
  · obtain ⟨hdump, rfl⟩ := (readDump_eq_ok_iff parsed).1 hentries
    exact tells_entriesOfJson hdump
  · obtain ⟨violation, hfault, hrefused⟩ := readDump_of_not_isDump path parsed h
    exact ⟨violation, hfault, hrefused, rfl, rfl⟩
  · rw [readDump, readDump, parsed, parsed']
    simp only [checkDump_congr path hsame]

end Inheritance

namespace Sample

/-- The text of a dump with a class whose parent has an empty name. -/
def faultyText : String :=
  "\x7b\"classes\":[\x7b\"name\":\"Node\"\x7d," ++
    "\x7b\"name\":\"Timer\",\"inherits\":\"\"\x7d,null]\x7d"

/-- What the text says. -/
def faultyDocument : Json :=
  .object
    [("classes", .array
      [.object [("name", .string "Node")],
        .object [("name", .string "Timer"), ("inherits", .string "")], .null])]

/-- The same text with more fields, in another order. -/
def paddedText : String :=
  "\x7b\"version\":4,\"classes\":[\x7b\"api\":[],\"name\":\"Node\"\x7d," ++
    "\x7b\"inherits\":\"\",\"name\":\"Timer\"\x7d,null]\x7d"

/-- What that text says. -/
def paddedDocument : Json :=
  .object
    [("version", .number "4"),
      ("classes", .array
        [.object [("api", .array []), ("name", .string "Node")],
          .object [("inherits", .string ""), ("name", .string "Timer")], .null])]

theorem parse?_faultyText : Json.parse? faultyText = some faultyDocument := by
  rfl

theorem parse?_paddedText : Json.parse? paddedText = some paddedDocument := by
  rfl

theorem sameDump_paddedDocument : Inheritance.SameDump faultyDocument paddedDocument :=
  .object (.some (.array (.cons (.object rfl rfl) (.cons (.object rfl rfl)
    (.cons (.refl .null) .nil)))))

theorem readDump_faultyText : Inheritance.readDump "/work/api.json" faultyText =
    .error (.dumpRejected "/work/api.json" ⟨["classes", "1", "inherits"], .tooShort⟩) := by
  decide +kernel

end Sample

/-- The first entry that is not well-formed is reported, whatever other fields there are. -/
theorem dump_is_read_iff_well_formed_of_faulty :
    Json.parse? Sample.faultyText = some Sample.faultyDocument ∧
      ¬ Inheritance.IsDump Sample.faultyDocument ∧
      Inheritance.DumpFault Sample.faultyDocument ⟨["classes", "1", "inherits"], .tooShort⟩ ∧
      (Inheritance.readDump "/work/api.json" Sample.paddedText).map Inheritance.ofEntries =
        .error (.dumpRejected "/work/api.json" ⟨["classes", "1", "inherits"], .tooShort⟩) := by
  have hread :=
    Inheritance.dump_is_read_iff_well_formed "/work/api.json" Sample.faultyText
      Sample.parse?_faultyText
  have hnot : ¬ Inheritance.IsDump Sample.faultyDocument := by
    intro hdump
    obtain ⟨entries, hentries⟩ := hread.1.2 hdump
    rw [Sample.readDump_faultyText] at hentries
    cases hentries
  obtain ⟨violation, hfault, hrefused, -⟩ := hread.2.2.1 hnot
  have hproblem := Except.error.inj (Sample.readDump_faultyText.symm.trans hrefused)
  obtain rfl := (Problem.dumpRejected.inj hproblem).2
  refine ⟨Sample.parse?_faultyText, hnot, hfault, ?_⟩
  rw [hread.2.2.2 _ _ Sample.parse?_paddedText Sample.sameDump_paddedDocument,
    Sample.readDump_faultyText]
  rfl

end NodeTagging
