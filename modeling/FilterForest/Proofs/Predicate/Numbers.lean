import FilterForest.Predicate.Cql
import FilterForest.Proofs.Predicate.Same

/-!
# The numbers of a predicate

A predicate is written with its numbers, and they show in both languages: in text a number that is
not finite is written by its name, and in JSON as null. Nothing else is written as null.
-/
namespace FilterForest

def Coord.numbers (c : Coord) : List Binary64 := [c.x, c.y]

def Geometry.numbersOfRings (rings : List (List Coord)) : List Binary64 :=
  rings.flatMap fun ring => ring.flatMap Coord.numbers

mutual

def Geometry.numbers : Geometry → List Binary64
  | .point position => position.numbers
  | .lineString positions | .multiPoint positions => positions.flatMap Coord.numbers
  | .polygon rings | .multiLineString rings => Geometry.numbersOfRings rings
  | .multiPolygon polygons => polygons.flatMap Geometry.numbersOfRings
  | .collection parts => Geometry.numbersOfParts parts

def Geometry.numbersOfParts : List Geometry → List Binary64
  | [] => []
  | part :: rest => part.numbers ++ Geometry.numbersOfParts rest

end

def Literal.numbers : Literal → List Binary64
  | number x => [x]
  | text _ | bool _ => []

def SpatialOperand.numbers : SpatialOperand → List Binary64
  | plain g => g.numbers
  | buffered g x => g.numbers ++ [x]

/-- The literals, coordinates and distances of a test that are numbers. -/
def Test.numbers : Test → List Binary64
  | compare _ a => a.numbers
  | between a b => a.numbers ++ b.numbers
  | oneOf as => as.flatMap Literal.numbers
  | intersects operand => operand.numbers
  | like _ _ | isNull => []

mutual

def Predicate.tests : Predicate → List Test
  | .junction _ args => Predicate.testsOfArgs args
  | .not arg => arg.tests
  | .atom _ test => [test]

def Predicate.testsOfArgs : List Predicate → List Test
  | [] => []
  | arg :: rest => arg.tests ++ Predicate.testsOfArgs rest

end

/-- A property of all tests of a predicate. -/
def Predicate.Every (P : Test → Prop) (p : Predicate) : Prop := ∀ test ∈ p.tests, P test

/-- The numbers that a predicate is written with. -/
def Predicate.numbers (p : Predicate) : List Binary64 := p.tests.flatMap Test.numbers

theorem Coord.isFinite_iff {c : Coord} : c.IsFinite ↔ ∀ x ∈ c.numbers, x.isFinite = true := by
  simp [IsFinite, numbers]

namespace Geometry

theorem isFinite_point_iff {c : Coord} : (point c).IsFinite ↔ c.IsFinite :=
  ⟨fun | .point h => h, .point⟩

theorem isFinite_lineString_iff {positions : List Coord} :
    (lineString positions).IsFinite ↔ ∀ c ∈ positions, c.IsFinite :=
  ⟨fun | .lineString h => h, .lineString⟩

theorem isFinite_polygon_iff {rings : List (List Coord)} :
    (polygon rings).IsFinite ↔ ∀ ring ∈ rings, ∀ c ∈ ring, c.IsFinite :=
  ⟨fun | .polygon h => h, .polygon⟩

theorem isFinite_multiPoint_iff {positions : List Coord} :
    (multiPoint positions).IsFinite ↔ ∀ c ∈ positions, c.IsFinite :=
  ⟨fun | .multiPoint h => h, .multiPoint⟩

theorem isFinite_multiLineString_iff {lines : List (List Coord)} :
    (multiLineString lines).IsFinite ↔ ∀ line ∈ lines, ∀ c ∈ line, c.IsFinite :=
  ⟨fun | .multiLineString h => h, .multiLineString⟩

theorem isFinite_multiPolygon_iff {polygons : List (List (List Coord))} :
    (multiPolygon polygons).IsFinite ↔ ∀ rings ∈ polygons, ∀ ring ∈ rings, ∀ c ∈ ring, c.IsFinite :=
  ⟨fun | .multiPolygon h => h, .multiPolygon⟩

theorem isFinite_collection_iff {parts : List Geometry} :
    (collection parts).IsFinite ↔ ∀ part ∈ parts, part.IsFinite :=
  ⟨fun | .collection h => h, .collection⟩

mutual

theorem isFinite_iff : ∀ g : Geometry, g.IsFinite ↔ ∀ x ∈ g.numbers, x.isFinite = true
  | point position => by rw [isFinite_point_iff, numbers, Coord.isFinite_iff]
  | lineString positions => by
    simp only [isFinite_lineString_iff, numbers, List.forall_mem_flatMap, Coord.isFinite_iff]
  | polygon rings => by
    simp only [isFinite_polygon_iff, numbers, numbersOfRings, List.forall_mem_flatMap,
      Coord.isFinite_iff]
  | multiPoint positions => by
    simp only [isFinite_multiPoint_iff, numbers, List.forall_mem_flatMap, Coord.isFinite_iff]
  | multiLineString lines => by
    simp only [isFinite_multiLineString_iff, numbers, numbersOfRings, List.forall_mem_flatMap,
      Coord.isFinite_iff]
  | multiPolygon polygons => by
    simp only [isFinite_multiPolygon_iff, numbers, numbersOfRings, List.forall_mem_flatMap,
      Coord.isFinite_iff]
  | collection parts => by rw [isFinite_collection_iff, numbers, isFinite_parts_iff parts]

theorem isFinite_parts_iff : ∀ parts : List Geometry, (∀ part ∈ parts, part.IsFinite) ↔
    ∀ x ∈ numbersOfParts parts, x.isFinite = true
  | [] => by simp [numbersOfParts]
  | part :: rest => by
    rw [List.forall_mem_cons, numbersOfParts, List.forall_mem_append, isFinite_iff part,
      isFinite_parts_iff rest]

end

end Geometry

theorem Literal.isFinite_iff {a : Literal} : a.IsFinite ↔ ∀ x ∈ a.numbers, x.isFinite = true := by
  cases a <;> simp [IsFinite, numbers]

theorem SpatialOperand.isFinite_iff {a : SpatialOperand} :
    a.IsFinite ↔ ∀ x ∈ a.numbers, x.isFinite = true := by
  cases a <;> simp [IsFinite, numbers, Geometry.isFinite_iff, or_imp, forall_and]

theorem Test.isFinite_iff {test : Test} :
    test.IsFinite ↔ ∀ x ∈ test.numbers, x.isFinite = true := by
  cases test with
  | compare op a => exact Literal.isFinite_iff
  | between a b => rw [IsFinite, numbers, List.forall_mem_append, a.isFinite_iff, b.isFinite_iff]
  | like pattern ignoreCase => simp [IsFinite, numbers]
  | oneOf as => simp only [IsFinite, numbers, List.forall_mem_flatMap, Literal.isFinite_iff]
  | isNull => simp [IsFinite, numbers]
  | intersects operand => exact SpatialOperand.isFinite_iff

theorem Predicate.every_isFinite_iff {p : Predicate} :
    p.Every Test.IsFinite ↔ ∀ x ∈ p.numbers, x.isFinite = true := by
  simp only [Every, numbers, List.forall_mem_flatMap, Test.isFinite_iff]

def Binary64.names : List (List Char) := ["NaN".toList, "inf".toList, "-inf".toList]

theorem Binary64.plain_mem_names_iff (x : Binary64) : x.plain ∈ names ↔ ¬ x.isFinite = true := by
  refine ⟨fun hname hfinite => ?_, fun hnot => ?_⟩
  · -- A name reads as a number that is not finite, and the text of a finite number as an equal one.
    have hread : ∀ name ∈ names, ∀ y, ofText? name = some y → y.isFinite = false := by decide
    obtain ⟨y, hy, hsame⟩ := ofText?_plain hfinite
    have hy' := hread _ hname y hy
    cases x with
    | finite negative m => cases y <;> contradiction
    | infinite negative => contradiction
    | nan => contradiction
  · cases x with
    | finite negative m => exact absurd rfl hnot
    | infinite negative => cases negative <;> simp [plain, names, safeInt?]
    | nan => simp [plain, names, safeInt?]

namespace Json

/-- The values with no null in them, nor anything that is written as null. -/
inductive IsNullFree : Json → Prop
  | bool (value : Bool) : IsNullFree (bool value)
  | integer (value : ℤ) : IsNullFree (integer value)
  | real {x : Binary64} (h : x.isFinite = true) : IsNullFree (real x)
  | string (value : String) : IsNullFree (string value)
  | array {items : List Json} (h : ∀ item ∈ items, IsNullFree item) : IsNullFree (array items)
  | object {members : List (String × Json)} (h : ∀ member ∈ members, IsNullFree member.2) :
    IsNullFree (object members)

theorem isNullFree_array_iff {items : List Json} :
    (array items).IsNullFree ↔ ∀ item ∈ items, item.IsNullFree :=
  ⟨fun | .array h => h, .array⟩

theorem isNullFree_object_iff {members : List (String × Json)} :
    (object members).IsNullFree ↔ ∀ member ∈ members, member.2.IsNullFree :=
  ⟨fun | .object h => h, .object⟩

theorem isNullFree_map_iff {α : Type} {write : α → Json} {as : List α} :
    (array (as.map write)).IsNullFree ↔ ∀ a ∈ as, (write a).IsNullFree := by
  rw [isNullFree_array_iff, List.forall_mem_map]

theorem isNullFree_number_iff {x : Binary64} : (number x).IsNullFree ↔ x.isFinite = true := by
  unfold number
  split
  · next hsafe =>
    cases x with
    | finite negative m => exact iff_of_true (.integer _) rfl
    | infinite negative => contradiction
    | nan => contradiction
  · split
    · next hfinite => exact iff_of_true (.real hfinite) hfinite
    · next hfinite => exact iff_of_false nofun hfinite

theorem isNullFree_operation_iff {name : String} {args : List Json} :
    (operation name args).IsNullFree ↔ ∀ arg ∈ args, arg.IsNullFree := by
  simp [operation, isNullFree_object_iff, isNullFree_array_iff, IsNullFree.string]

theorem IsNullFree.property (name : String) : (Json.property name).IsNullFree := by
  simp [Json.property, isNullFree_object_iff, IsNullFree.string]

end Json

open Json

theorem Coord.isNullFree_iff {c : Coord} : c.toJson.IsNullFree ↔ c.IsFinite := by
  simp [toJson, isNullFree_array_iff, isNullFree_number_iff, IsFinite]

namespace Geometry

theorem isNullFree_positions_iff {positions : List Coord} :
    (positionsJson positions).IsNullFree ↔ ∀ c ∈ positions, c.IsFinite := by
  simp only [positionsJson, isNullFree_map_iff, Coord.isNullFree_iff]

theorem isNullFree_rings_iff {rings : List (List Coord)} :
    (ringsJson rings).IsNullFree ↔ ∀ ring ∈ rings, ∀ c ∈ ring, c.IsFinite := by
  simp only [ringsJson, isNullFree_map_iff, isNullFree_positions_iff]

theorem isNullFree_withCoordinates_iff {name : String} {coordinates : Json} :
    (withCoordinates name coordinates).IsNullFree ↔ coordinates.IsNullFree := by
  simp [withCoordinates, isNullFree_object_iff, IsNullFree.string]

mutual

theorem isNullFree_iff : ∀ g : Geometry, g.toJson.IsNullFree ↔ g.IsFinite
  | point position => by
    rw [toJson, isNullFree_withCoordinates_iff, Coord.isNullFree_iff, isFinite_point_iff]
  | lineString positions => by
    rw [toJson, isNullFree_withCoordinates_iff, isNullFree_positions_iff, isFinite_lineString_iff]
  | polygon rings => by
    rw [toJson, isNullFree_withCoordinates_iff, isNullFree_rings_iff, isFinite_polygon_iff]
  | multiPoint positions => by
    rw [toJson, isNullFree_withCoordinates_iff, isNullFree_positions_iff, isFinite_multiPoint_iff]
  | multiLineString lines => by
    rw [toJson, isNullFree_withCoordinates_iff, isNullFree_rings_iff, isFinite_multiLineString_iff]
  | multiPolygon polygons => by
    simp only [toJson, isNullFree_withCoordinates_iff, isNullFree_map_iff, isNullFree_rings_iff,
      isFinite_multiPolygon_iff]
  | collection parts => by
    have hparts := isNullFree_parts_iff parts
    simp [toJson, isNullFree_object_iff, isNullFree_array_iff, IsNullFree.string, hparts,
      isFinite_collection_iff]

theorem isNullFree_parts_iff : ∀ parts : List Geometry,
    (∀ item ∈ partsJson parts, item.IsNullFree) ↔ ∀ part ∈ parts, part.IsFinite
  | [] => by simp [partsJson]
  | part :: rest => by
    rw [partsJson, List.forall_mem_cons, List.forall_mem_cons, isNullFree_iff part,
      isNullFree_parts_iff rest]

end

end Geometry

theorem Literal.isNullFree_iff {a : Literal} : a.toJson.IsNullFree ↔ a.IsFinite := by
  cases a with
  | text s => exact iff_of_true (.string s) trivial
  | number x => exact isNullFree_number_iff
  | bool b => exact iff_of_true (.bool b) trivial

theorem SpatialOperand.isNullFree_iff {a : SpatialOperand} :
    a.toJson.IsNullFree ↔ a.IsFinite := by
  cases a with
  | plain g => exact g.isNullFree_iff
  | buffered g x =>
    simp [toJson, isNullFree_object_iff, isNullFree_array_iff, IsNullFree.string,
      g.isNullFree_iff, isNullFree_number_iff, IsFinite]

theorem Test.isNullFree_iff {property : String} {test : Test} :
    (test.toJson property).IsNullFree ↔ test.IsFinite := by
  cases test with
  | oneOf as =>
    simp [toJson, isNullFree_operation_iff, IsNullFree.property, isNullFree_array_iff, IsFinite,
      Literal.isNullFree_iff]
  | _ =>
    simp [toJson, isNullFree_operation_iff, IsNullFree.property, IsNullFree.string,
      IsNullFree.bool, Literal.isNullFree_iff, SpatialOperand.isNullFree_iff, IsFinite]

namespace Predicate

mutual

theorem isNullFree_iff : ∀ p : Predicate, p.toJson.IsNullFree ↔ p.Every Test.IsFinite
  | junction operator args => by
    rw [toJson, isNullFree_operation_iff, Every, tests, isNullFree_args_iff args]
  | not arg => by
    rw [toJson, isNullFree_operation_iff, List.forall_mem_singleton, isNullFree_iff arg, Every,
      Every, tests]
  | atom property test => by
    rw [toJson, Test.isNullFree_iff, Every, tests, List.forall_mem_singleton]

theorem isNullFree_args_iff : ∀ args : List Predicate,
    (∀ item ∈ jsonOfArgs args, item.IsNullFree) ↔ ∀ test ∈ testsOfArgs args, test.IsFinite
  | [] => by simp [jsonOfArgs, testsOfArgs]
  | arg :: rest => by
    rw [jsonOfArgs, List.forall_mem_cons, testsOfArgs, List.forall_mem_append, isNullFree_iff arg,
      isNullFree_args_iff rest, Every]

end

end Predicate
end FilterForest
