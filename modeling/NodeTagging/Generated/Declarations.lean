import NodeTagging.Generated.Target

/-!
# Marker declarations

The file of marker types: one for the root, which every node has, and one for each member, under
the gate of its class.
-/

namespace NodeTagging

/-- The markers that are declared. -/
structure Declarations where
  /-- The root of the taxonomy, whose marker every node has. -/
  base : String
  /-- The members, each under its gate. -/
  members : List (Gated String)
deriving DecidableEq, Repr

/-- The markers of a taxonomy. -/
def Declarations.ofTaxonomy (t : Taxonomy) : Declarations where
  base := t.root
  members := t.members.map t.gated

namespace Declarations

variable (target : Target)

/-- The attribute with the traits of a marker. -/
def deriveAttribute : String :=
  "#[derive(" ++ String.intercalate ", " target.markerDerives ++ ")]"

/-- The declaration of the marker of a class. -/
def structLine (className : String) : String :=
  "pub struct " ++ target.markerOf className ++ ";"

/-- The lines for a member, set apart from those before. -/
def memberLines (g : Gated String) : List String :=
  "" :: target.gateLines 0 g.gate? ++ [deriveAttribute target, structLine target g.item]

/-- The lines of the file. -/
def lines (d : Declarations) : List String :=
  target.noticeLines "//" ++
    ["", "use " ++ target.componentImport ++ ";", "",
      "/// Present on every entity that mirrors a " ++ d.base ++ ".", deriveAttribute target,
      structLine target d.base] ++
    d.members.flatMap (memberLines target)

end Declarations

end NodeTagging
