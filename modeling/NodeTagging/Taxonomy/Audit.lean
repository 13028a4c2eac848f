import NodeTagging.Taxonomy.Basic

/-!
# Stale entries

The configuration names classes in its tables of binding names and gates. An engine drops classes
from one version to the next; an entry for a class that is no longer tagged does nothing and is
reported.
-/

namespace NodeTagging.Taxonomy

variable (t : Taxonomy)

/-- The classes with a name in the bindings that are not tagged, in order. -/
def staleBindingNames : List String :=
  t.renamedClasses.filter fun c => !t.isTagged c

/-- The gated classes that are not tagged, in order. -/
def staleGates : List String :=
  t.gates.classes.filter fun c => !t.isTagged c

/-- The warnings about stale entries: binding names first, then gates. -/
def audit : List Problem :=
  t.staleBindingNames.map .staleBindingName ++ t.staleGates.map .staleGate

end NodeTagging.Taxonomy
