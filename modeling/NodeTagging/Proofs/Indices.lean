import NodeTagging.Inheritance.Basic
import NodeTagging.Proofs.Sorted
import NodeTagging.Proofs.Tables

/-!
# The two indices of a dump

A dump may list a class several times, now with one parent, now with another one or with none. It is
indexed twice, from classes to parents and from classes to children, and both indices must tell of
the same links.

* `get?_parentOf_ofEntries`: the parent of a class is that of its last entry, and no trace is left
  of an earlier one;
* `mem_childrenOf_iff`, `ne_nil_of_get?_childrenOf`: the second index is the first one turned round,
  and has no class without children.
-/

namespace NodeTagging

namespace Inheritance

/-! ### Parents -/

/-- The parent of a class is the one that its last entry names, if it names one. -/
theorem get?_parentOf_ofEntries (entries : List ClassEntry) (name : String) :
    (ofEntries entries).parentOf.get? name =
      (entries.filter fun e => e.name = name).getLast?.bind (·.parent?) := by
  rw [ofEntries, Table.get?_foldl_assign, Table.get?_empty]
  cases (entries.filter fun e => e.name = name).getLast? with
  | none => rfl
  | some last => rfl

/-- A class with a parent has an entry. -/
theorem mem_names_of_get?_parentOf {entries : List ClassEntry} {name parent : String}
    (h : (ofEntries entries).parentOf.get? name = some parent) :
    name ∈ (ofEntries entries).names := by
  rw [get?_parentOf_ofEntries, Option.bind_eq_some_iff] at h
  obtain ⟨last, hlast, -⟩ := h
  obtain ⟨hmem, hname⟩ := List.mem_filter.1 (List.mem_of_getLast? hlast)
  exact mem_names_ofEntries.2 ⟨last, hmem, of_decide_eq_true hname⟩

/-! ### Children -/

section Children

variable {g : Inheritance} {parent child : String} {classes : List String}

/-- The classes listed under a class are those whose parent it is. -/
theorem mem_iff_of_get?_childrenOf (h : g.childrenOf.get? parent = some classes) :
    child ∈ classes ↔ g.parentOf.get? child = some parent := by
  rw [get?_childrenOf, Option.ite_none_right_eq_some, Option.some.injEq] at h
  rw [← h.2, mem_children_iff]

/-- A class is listed under another one exactly if that is its parent. -/
theorem mem_childrenOf_iff :
    (∃ classes, g.childrenOf.get? parent = some classes ∧ child ∈ classes) ↔
      g.parentOf.get? child = some parent := by
  constructor
  · rintro ⟨classes, hclasses, hchild⟩
    exact (mem_iff_of_get?_childrenOf hclasses).1 hchild
  · intro hparent
    refine ⟨g.children parent, ?_, mem_children_iff.2 hparent⟩
    rw [get?_childrenOf, if_pos (Table.mem_values_of_get? hparent)]

/-- A class is listed with its children only if it has any. -/
theorem ne_nil_of_get?_childrenOf (h : g.childrenOf.get? parent = some classes) :
    classes ≠ [] := by
  have hvalue : parent ∈ g.parentOf.values := by
    rw [get?_childrenOf, Option.ite_none_right_eq_some] at h
    exact h.1
  obtain ⟨child, hchild⟩ := Table.mem_values_iff.1 hvalue
  exact List.ne_nil_of_mem ((mem_iff_of_get?_childrenOf h).2 hchild)

/-- Children are listed in order. -/
theorem pairwise_of_get?_childrenOf (h : g.childrenOf.get? parent = some classes) :
    classes.Pairwise Text.Precedes := by
  rw [get?_childrenOf, Option.ite_none_right_eq_some, Option.some.injEq] at h
  rw [← h.2]
  exact Text.pairwise_ordered _

end Children

/-! ### A dump as a whole -/

/-- The classes of a dump are those of its entries. The parent of a class is that of its last entry:
    there is none if that entry has none, whatever the earlier ones say. The index of children is
    the index of parents turned round: a class is listed under its parent and under no other class,
    no class is listed without children, and children are strictly increasing. -/
theorem indices_tell_of_last_entries (entries : List ClassEntry) :
    let g := ofEntries entries
    g.names.Nodup ∧
    (∀ name, name ∈ g.names ↔ ∃ e ∈ entries, e.name = name) ∧
    (∀ name, g.parentOf.get? name =
      (entries.filter fun e => e.name = name).getLast?.bind (·.parent?)) ∧
    (∀ parent child, (∃ classes, g.childrenOf.get? parent = some classes ∧ child ∈ classes) ↔
      g.parentOf.get? child = some parent) ∧
    (∀ child parent parent' classes classes', g.childrenOf.get? parent = some classes →
      g.childrenOf.get? parent' = some classes' → child ∈ classes → child ∈ classes' →
        parent = parent') ∧
    (∀ parent classes, g.childrenOf.get? parent = some classes →
      classes ≠ [] ∧ classes.Pairwise Text.Precedes) := by
  intro g
  refine ⟨Text.nodup_eraseDups _, fun _ => mem_names_ofEntries, get?_parentOf_ofEntries entries,
    fun _ _ => mem_childrenOf_iff, ?_, ?_⟩
  · intro child parent parent' classes classes' hclasses hclasses' hchild hchild'
    have hparent := (mem_iff_of_get?_childrenOf hclasses).1 hchild
    have hparent' := (mem_iff_of_get?_childrenOf hclasses').1 hchild'
    exact Option.some.inj (hparent.symm.trans hparent')
  · intro parent classes hclasses
    exact ⟨ne_nil_of_get?_childrenOf hclasses, pairwise_of_get?_childrenOf hclasses⟩

/-- Of classes that are listed again, one moves to another parent and one loses its parent. -/
theorem indices_tell_of_last_entries_of_moved :
    let g := ofEntries
      [⟨"Node", none⟩, ⟨"Button", some "Node"⟩, ⟨"Label", some "Node"⟩, ⟨"Button", some "Control"⟩,
        ⟨"Label", none⟩, ⟨"Slider", some "Control"⟩]
    g.parentOf.get? "Label" = none ∧ g.childrenOf.get? "Node" = none ∧
      g.childrenOf.get? "Control" = some ["Button", "Slider"] ∧
      ["Button", "Slider"] ≠ [] ∧ ["Button", "Slider"].Pairwise Text.Precedes := by
  intro g
  have hindices := indices_tell_of_last_entries
    [⟨"Node", none⟩, ⟨"Button", some "Node"⟩, ⟨"Label", some "Node"⟩, ⟨"Button", some "Control"⟩,
      ⟨"Label", none⟩, ⟨"Slider", some "Control"⟩]
  have hcontrol : g.childrenOf.get? "Control" = some ["Button", "Slider"] := by decide +kernel
  refine ⟨hindices.2.2.1 "Label", by decide +kernel, hcontrol, ?_⟩
  exact hindices.2.2.2.2.2 "Control" _ hcontrol

end Inheritance

end NodeTagging
