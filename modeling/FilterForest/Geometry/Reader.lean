import FilterForest.Geometry
import FilterForest.Number.Decimal.Reader
import FilterForest.Text.Blank
import FilterForest.Text.Span

/-!
# Reading well-known text

The dialect of drawn geometries: an upper case keyword and a body between the first opening and
the last closing parenthesis, two finite coordinates to a position. Rings and polygons are found
by counting parentheses, and what stands between two of them is passed over.

The reader finds the parts of a text as spans and cuts them out. A refusal says whether the text
is malformed or a span did not lie at characters of the text; the second never happens, and
`Geometry.ofWkt?` leaves it out.
-/

namespace FilterForest

open Text

inductive WktRefusal
  | malformed
  | badSpan (span : Span)
deriving DecidableEq

namespace Wkt

abbrev Reading (α : Type) := Except WktRefusal α

def orMalformed : Option α → Reading α
  | some a => .ok a
  | none => .error .malformed

def cut (span : Span) (s : List Char) : Reading (List Char) :=
  match cut? span s with
  | some part => .ok part
  | none => .error (.badSpan span)

/-- What stands before the first opening parenthesis. -/
def keywordSpan? (s : List Char) : Option Span := (offsetOf? '(' s).map fun stop => ⟨0, stop⟩

/-- What stands between the first opening and the last closing parenthesis. -/
def bodySpan? (s : List Char) : Option Span :=
  match offsetOf? '(' s, lastOffsetOf? ')' s with
  | some start, some stop => if stop ≤ start then none else some ⟨start + 1, stop⟩
  | _, _ => none

/-- The insides of the outermost pairs of parentheses in a text that continues at `offset`, inside
`depth` pairs the outermost of which was opened before `start`. None if the pairs do not match. -/
def groupSpansFrom? (offset depth start : Nat) : List Char → Option (List Span)
  | [] => if depth = 0 then some [] else none
  | c :: rest =>
    if c = '(' then
      groupSpansFrom? (offset + c.utf8Size) (depth + 1) (if depth = 0 then offset + 1 else start)
        rest
    else if c = ')' then
      match depth with
      | 0 => none
      | 1 => (groupSpansFrom? (offset + c.utf8Size) 0 start rest).map (⟨start, offset⟩ :: ·)
      | depth + 2 => groupSpansFrom? (offset + c.utf8Size) (depth + 1) start rest
    else groupSpansFrom? (offset + c.utf8Size) depth start rest

/-- The insides of the outermost pairs of parentheses. -/
def groupSpans? (s : List Char) : Option (List Span) := groupSpansFrom? 0 0 0 s

def keyword (s : List Char) : Reading (List Char) := do
  let span ← orMalformed (keywordSpan? s)
  return trimEnd (← cut span s)

def body (s : List Char) : Reading (List Char) := do
  cut (← orMalformed (bodySpan? s)) s

/-- The texts inside the outermost pairs of parentheses, in order. -/
def groups (s : List Char) : Reading (List (List Char)) := do
  (← orMalformed (groupSpans? s)).mapM (cut · s)

def position? (s : List Char) : Option Coord :=
  match words s with
  | [x, y] =>
    match Binary64.ofFiniteText? x, Binary64.ofFiniteText? y with
    | some x, some y => some ⟨x, y⟩
    | _, _ => none
  | _ => none

def positions? (s : List Char) : Option (List Coord) := (s.splitOn ',').mapM position?

/-- A position with any parentheses at its ends taken away. -/
def pointOfMany? (s : List Char) : Option Coord :=
  let opened := (trim s).dropWhile (· = '(')
  position? (opened.reverse.dropWhile (· = ')')).reverse

def points? (s : List Char) : Option (List Coord) := (s.splitOn ',').mapM pointOfMany?

/-- A list of rings, at least one. -/
def rings (s : List Char) : Reading (List (List Coord)) := do
  match ← orMalformed ((← groups s).mapM positions?) with
  | [] => .error .malformed
  | rings => return rings

/-- A list of polygons, at least one. -/
def polygons (s : List Char) : Reading (List (List (List Coord))) := do
  match ← (← groups s).mapM rings with
  | [] => .error .malformed
  | polygons => return polygons

def geometry (keyword body : List Char) : Reading Geometry :=
  if keyword = "POINT".toList then .point <$> orMalformed (position? body)
  else if keyword = "LINESTRING".toList then .lineString <$> orMalformed (positions? body)
  else if keyword = "POLYGON".toList then .polygon <$> rings body
  else if keyword = "MULTIPOINT".toList then .multiPoint <$> orMalformed (points? body)
  else if keyword = "MULTILINESTRING".toList then .multiLineString <$> rings body
  else if keyword = "MULTIPOLYGON".toList then .multiPolygon <$> polygons body
  else .error .malformed

def read (s : List Char) : Reading Geometry := do
  let s := trim s
  geometry (← keyword s) (← body s)

end Wkt

/-- The geometry that a text denotes. -/
def Geometry.ofWkt? (s : List Char) : Option Geometry := (Wkt.read s).toOption

end FilterForest
