import FilterForest.Geometry.Reader

/-!
# Circles

Beside well-known text, drawn geometries know `CIRCLE(x y r)`: the two coordinates of a centre and
a radius. A text is taken for a circle by its first letters alone, before it is read.
-/

namespace FilterForest

open Text

structure Circle where
  center : Coord
  radius : Binary64
deriving DecidableEq

namespace Circle

/-- Whether a text is to be read as a circle. -/
def isCircle (s : List Char) : Bool := "CIRCLE".toList.isPrefixOf (trimStart s)

/-- Three finite numbers with blanks between them. -/
def ofBody? (s : List Char) : Option Circle :=
  match words s with
  | [x, y, radius] =>
    match Binary64.ofFiniteText? x, Binary64.ofFiniteText? y, Binary64.ofFiniteText? radius with
    | some x, some y, some radius => some ⟨⟨x, y⟩, radius⟩
    | _, _, _ => none
  | _ => none

def read (s : List Char) : Wkt.Reading Circle := do
  let s := trim s
  if (← Wkt.keyword s) = "CIRCLE".toList then
    Wkt.orMalformed (ofBody? (← Wkt.body s))
  else .error .malformed

def ofText? (s : List Char) : Option Circle := (read s).toOption

end Circle
end FilterForest
