/-!
# Exclusions

Some classes below the root receive no marker: classes of the editor, told by the beginning of
their names, single classes such as the root itself, and classes that the dump lists but that the
target's bindings lack. Where several grounds apply, the first in this order is given.
-/

namespace NodeTagging

/-- A ground on which a class receives no marker. -/
inductive ExclusionGround where
  /-- Its name begins with an excluded text. -/
  | byPrefix
  /-- It is excluded by name. -/
  | byName
  /-- The bindings lack it. -/
  | unavailable
deriving DecidableEq, Repr

/-- The word for a ground. -/
def ExclusionGround.word : ExclusionGround → String
  | .byPrefix => "prefix"
  | .byName => "name"
  | .unavailable => "unavailable"

/-- The tables of excluded classes. -/
structure Exclusions where
  /-- The beginnings of the names of excluded classes. -/
  prefixes : List String := []
  /-- The classes excluded by name. -/
  names : List String := []
  /-- The classes that the bindings lack. -/
  unavailable : List String := []
deriving DecidableEq, Repr

namespace Exclusions

variable (x : Exclusions)

/-- The first ground on which a class is excluded. -/
def ground? (className : String) : Option ExclusionGround :=
  if x.prefixes.any fun p => p.toList.isPrefixOf className.toList then some .byPrefix
  else if className ∈ x.names then some .byName
  else if className ∈ x.unavailable then some .unavailable
  else none

/-- The classes that are not excluded. -/
def keep (classes : List String) : List String :=
  classes.filter fun c => x.ground? c = none

theorem mem_keep {classes : List String} {c : String} :
    c ∈ x.keep classes ↔ c ∈ classes ∧ x.ground? c = none := by
  simp [keep]

/-- A class is kept exactly if none of the three tables excludes it. -/
theorem ground?_eq_none_iff {c : String} :
    x.ground? c = none ↔
      (∀ p ∈ x.prefixes, ¬ p.toList <+: c.toList) ∧ c ∉ x.names ∧ c ∉ x.unavailable := by
  have hp : (x.prefixes.any fun p => p.toList.isPrefixOf c.toList) = true ↔
      ∃ p ∈ x.prefixes, p.toList <+: c.toList := by simp
  unfold ground?
  split
  · next h =>
    obtain ⟨p, hmem, hpre⟩ := hp.1 h
    simpa using fun hx => absurd hpre (hx p hmem)
  · next h =>
    have hx : ∀ p ∈ x.prefixes, ¬ p.toList <+: c.toList := fun p hmem hpre =>
      h (hp.2 ⟨p, hmem, hpre⟩)
    simp only [and_iff_right hx]
    split
    · simp_all
    · split <;> simp_all

end Exclusions

end NodeTagging
