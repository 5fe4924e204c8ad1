import FilterForest.Proofs.Predicate.Numbers
import FilterForest.Proofs.Text.Unambiguous

/-!
# The numbers in the text of a predicate

Every number of a predicate stands in its text: in the text of the literal, the position or the
distance, which stands in that of the test, and so on up to the whole.
-/
namespace FilterForest

open Text

namespace Text

variable {s body : List Char}

theorem infix_parenthesized (h : s <:+: body) : s <:+: parenthesized body := by
  rw [parenthesized, List.cons_append]
  exact List.infix_cons (List.infix_append_of_infix_left h)

theorem infix_intercalate {separator : List Char} {parts : List (List Char)}
    (h : ∃ part ∈ parts, s <:+: part) : s <:+: separator.intercalate parts := by
  obtain ⟨part, hpart, hs⟩ := h
  cases parts with
  | nil => contradiction
  | cons first rest =>
    rw [intercalate_cons]
    rcases List.mem_cons.mp hpart with rfl | hrest
    · exact List.infix_append_of_infix_left hs
    · have hrest' : separator ++ part <:+: rest.flatMap (separator ++ ·) :=
        List.infix_of_mem_flatten (List.mem_map_of_mem hrest)
      exact List.infix_append_of_infix_right (hs.trans (List.infix_append_right.trans hrest'))

theorem infix_commaSeparated_map {α : Type} {write : α → List Char} {as : List α}
    (h : ∃ a ∈ as, s <:+: write a) : s <:+: commaSeparated (as.map write) := by
  obtain ⟨a, ha, hs⟩ := h
  exact infix_intercalate ⟨write a, List.mem_map_of_mem ha, hs⟩

end Text

variable {x : Binary64}

theorem Coord.plain_infix_wkt {c : Coord} (h : x ∈ c.numbers) : x.plain <:+: c.wkt := by
  rcases List.mem_pair.mp h with rfl | rfl
  · exact List.infix_append_left
  · exact List.infix_append_of_infix_right (List.infix_cons List.infix_rfl)

namespace Geometry

theorem plain_infix_positionsWkt {positions : List Coord}
    (h : x ∈ positions.flatMap Coord.numbers) : x.plain <:+: positionsWkt positions := by
  obtain ⟨c, hc, hx⟩ := List.mem_flatMap.mp h
  exact infix_commaSeparated_map ⟨c, hc, Coord.plain_infix_wkt hx⟩

theorem plain_infix_ringsWkt {rings : List (List Coord)} (h : x ∈ numbersOfRings rings) :
    x.plain <:+: ringsWkt rings := by
  obtain ⟨ring, hring, hx⟩ := List.mem_flatMap.mp h
  exact infix_commaSeparated_map ⟨ring, hring, infix_parenthesized (plain_infix_positionsWkt hx)⟩

mutual

theorem plain_infix_wktBody : ∀ g : Geometry, x ∈ g.numbers → x.plain <:+: g.wktBody
  | point position, h => Coord.plain_infix_wkt h
  | lineString positions, h => plain_infix_positionsWkt h
  | polygon rings, h => plain_infix_ringsWkt h
  | multiPoint positions, h => plain_infix_positionsWkt h
  | multiLineString lines, h => plain_infix_ringsWkt h
  | multiPolygon polygons, h => by
    obtain ⟨rings, hrings, hx⟩ := List.mem_flatMap.mp h
    exact infix_commaSeparated_map ⟨rings, hrings, infix_parenthesized (plain_infix_ringsWkt hx)⟩
  | collection parts, h => infix_intercalate (plain_infix_partsWkt parts h)

theorem plain_infix_partsWkt : ∀ parts : List Geometry, x ∈ numbersOfParts parts →
    ∃ part ∈ partsWkt parts, x.plain <:+: part
  | [], h => nomatch h
  | part :: rest, h => by
    rw [partsWkt]
    rcases List.mem_append.mp h with hfirst | hrest
    · refine ⟨_, List.mem_cons_self, List.infix_append_of_infix_right ?_⟩
      exact infix_parenthesized (plain_infix_wktBody part hfirst)
    · obtain ⟨text, htext, hx⟩ := plain_infix_partsWkt rest hrest
      exact ⟨text, List.mem_cons_of_mem _ htext, hx⟩

end

theorem plain_infix_wkt {g : Geometry} (h : x ∈ g.numbers) : x.plain <:+: g.wkt :=
  List.infix_append_of_infix_right (infix_parenthesized (g.plain_infix_wktBody h))

end Geometry

theorem Literal.plain_infix_cql {a : Literal} (h : x ∈ a.numbers) : x.plain <:+: a.cql := by
  cases a with
  | number y =>
    obtain rfl := List.mem_singleton.mp h
    exact List.infix_rfl
  | text s => contradiction
  | bool b => contradiction

theorem SpatialOperand.plain_infix_cql {a : SpatialOperand} (h : x ∈ a.numbers) :
    x.plain <:+: a.cql := by
  cases a with
  | plain g => exact Geometry.plain_infix_wkt h
  | buffered g distance =>
    refine List.infix_append_of_infix_right (infix_parenthesized ?_)
    rcases List.mem_append.mp h with hg | hdistance
    · exact List.infix_append_of_infix_left
        (List.infix_append_of_infix_left (Geometry.plain_infix_wkt hg))
    · obtain rfl := List.mem_singleton.mp hdistance
      exact List.infix_append_right

namespace Test

/-- A number of a test stands in its text behind the property, negated or not. -/
theorem plain_infix_of_invertible? {test : Test} {negated : Bool} {text : List Char}
    (htext : test.invertible? negated = some text) (h : x ∈ test.numbers) : x.plain <:+: text := by
  cases test with
  | between lower upper =>
    obtain rfl := Option.some.inj htext
    rcases List.mem_append.mp h with hlower | hupper
    · refine List.infix_append_of_infix_left (List.infix_append_of_infix_left ?_)
      exact List.infix_append_of_infix_right (Literal.plain_infix_cql hlower)
    · exact List.infix_append_of_infix_right (Literal.plain_infix_cql hupper)
  | oneOf values =>
    obtain rfl := Option.some.inj htext
    obtain ⟨value, hvalue, hx⟩ := List.mem_flatMap.mp h
    refine List.infix_append_of_infix_right (infix_parenthesized (infix_intercalate ?_))
    exact ⟨_, List.mem_map_of_mem hvalue, Literal.plain_infix_cql hx⟩
  | like pattern ignoreCase => contradiction
  | isNull => contradiction
  | compare op value => contradiction
  | intersects operand => contradiction

theorem plain_infix_cql {test : Test} (h : x ∈ test.numbers) (property : List Char) :
    x.plain <:+: test.cql property := by
  cases test with
  | compare op value =>
    exact List.infix_append_of_infix_right
      (List.infix_cons (Literal.plain_infix_cql h))
  | intersects operand =>
    refine List.infix_append_of_infix_right (infix_parenthesized ?_)
    exact List.infix_append_of_infix_right (SpatialOperand.plain_infix_cql h)
  | between lower upper =>
    exact List.infix_append_of_infix_right (List.infix_cons (plain_infix_of_invertible? rfl h))
  | oneOf values =>
    exact List.infix_append_of_infix_right (List.infix_cons (plain_infix_of_invertible? rfl h))
  | like pattern ignoreCase => contradiction
  | isNull => contradiction

end Test

namespace Predicate

theorem numbers_atom (property : String) (test : Test) :
    (atom property test).numbers = test.numbers :=
  List.flatMap_singleton _ _

theorem plain_infix_negatedCql {arg : Predicate} {text : List Char} (h : x ∈ arg.numbers)
    (htext : x.plain <:+: text) : x.plain <:+: negatedCql text arg := by
  unfold negatedCql
  split
  · next property test =>
    rw [numbers_atom] at h
    split
    · next negated hnegated =>
      refine infix_parenthesized (List.infix_append_of_infix_right (List.infix_cons ?_))
      exact Test.plain_infix_of_invertible? hnegated h
    · exact infix_parenthesized (List.infix_append_of_infix_right htext)
  · exact infix_parenthesized (List.infix_append_of_infix_right htext)
  · exact infix_parenthesized (List.infix_append_of_infix_right htext)

mutual

/-- A number of a predicate stands in its text. -/
theorem plain_infix_cql : ∀ p : Predicate, x ∈ p.numbers → x.plain <:+: p.cql
  | junction operator args, h => by
    rw [cql]
    exact infix_parenthesized (infix_intercalate (plain_infix_cqlOfArgs args h))
  | not arg, h => by
    rw [cql]
    exact plain_infix_negatedCql h (plain_infix_cql arg h)
  | atom property test, h => by
    rw [numbers_atom] at h
    rw [cql]
    exact infix_parenthesized (Test.plain_infix_cql h _)

theorem plain_infix_cqlOfArgs : ∀ args : List Predicate,
    x ∈ (testsOfArgs args).flatMap Test.numbers → ∃ text ∈ cqlOfArgs args, x.plain <:+: text
  | [], h => nomatch h
  | arg :: rest, h => by
    rw [testsOfArgs, List.flatMap_append] at h
    rw [cqlOfArgs]
    rcases List.mem_append.mp h with hfirst | hrest
    · exact ⟨_, List.mem_cons_self, plain_infix_cql arg hfirst⟩
    · obtain ⟨text, htext, hx⟩ := plain_infix_cqlOfArgs rest hrest
      exact ⟨text, List.mem_cons_of_mem _ htext, hx⟩

end

end Predicate
end FilterForest
