import FilterForest.Proofs.Predicate.Names
import FilterForest.Proofs.Predicate.Quoted
import FilterForest.Proofs.Predicate.Readable

/-!
# Strings stay in their literals

The text of a predicate is one group in parentheses, whatever its strings are: a scanner that passes
over quoted strings meets the last parenthesis that it counts at the end and is outside of all
literals there. The literals stand for the strings of the predicate, and the text around them does
not depend on these.
-/
namespace FilterForest

open Text Predicate

theorem Binary64.isUnmarked_plain (x : Binary64) : IsUnmarked x.plain := by
  cases x with
  | finite negative m =>
    intro c hc
    have hnumeric := isNumeric_of_mem_plain rfl hc
    refine ⟨?_, ?_, ?_⟩ <;> rintro rfl <;> contradiction
  | infinite negative => cases negative <;> exact of_decide_eq_true rfl
  | nan => exact of_decide_eq_true rfl

theorem Coord.quoted_wkt (c : Coord) : Quoted c.wkt c.wkt [] :=
  .unmarked_append c.x.isUnmarked_plain
    (.cons (by decide) (.of_isUnmarked c.y.isUnmarked_plain))

theorem Text.Quoted.commaSeparated {α : Type*} {text : α → List Char} {items : List α}
    (h : ∀ a ∈ items, Quoted (text a) (text a) []) :
    Quoted (commaSeparated (items.map text)) (commaSeparated (items.map text)) [] := by
  have hnone : items.flatMap (fun _ => ([] : List String)) = [] :=
    List.flatMap_eq_nil_iff.mpr fun _ _ => rfl
  rw [← hnone]
  exact .intercalate (by decide) (by decide) h

namespace Geometry

theorem quoted_positionsWkt (positions : List Coord) :
    Quoted (positionsWkt positions) (positionsWkt positions) [] :=
  .commaSeparated fun position _ => position.quoted_wkt

theorem quoted_ringsWkt (rings : List (List Coord)) :
    Quoted (ringsWkt rings) (ringsWkt rings) [] :=
  .commaSeparated fun ring _ => (quoted_positionsWkt ring).parenthesized

theorem isUnmarked_keyword (g : Geometry) : IsUnmarked g.keyword := by
  cases g <;> exact of_decide_eq_true rfl

theorem quoted_wkt_of_body {g : Geometry} (h : Quoted g.wktBody g.wktBody []) :
    Quoted g.wkt g.wkt [] :=
  .unmarked_append g.isUnmarked_keyword h.parenthesized

mutual

theorem quoted_wktBody : ∀ g : Geometry, Quoted g.wktBody g.wktBody []
  | point position => position.quoted_wkt
  | lineString positions => quoted_positionsWkt positions
  | multiPoint positions => quoted_positionsWkt positions
  | polygon rings => quoted_ringsWkt rings
  | multiLineString rings => quoted_ringsWkt rings
  | multiPolygon polygons =>
    .commaSeparated fun polygon _ => (quoted_ringsWkt polygon).parenthesized
  | collection parts => by
    rw [wktBody, partsWkt_eq_map]
    exact .commaSeparated fun part hpart => quoted_wkt_of_body (quoted_partBody parts part hpart)

theorem quoted_partBody : ∀ parts : List Geometry, ∀ part ∈ parts,
    Quoted part.wktBody part.wktBody []
  | [] => List.forall_mem_nil _
  | part :: rest => List.forall_mem_cons.mpr ⟨quoted_wktBody part, quoted_partBody rest⟩

end

theorem quoted_wkt (g : Geometry) : Quoted g.wkt g.wkt [] := quoted_wkt_of_body g.quoted_wktBody

end Geometry

theorem SpatialOperand.quoted_cql : ∀ operand : SpatialOperand,
    Quoted operand.cql operand.cql []
  | plain geometry => geometry.quoted_wkt
  | buffered geometry distance =>
    .unmarked_append (by decide) (geometry.quoted_wkt.separated (by decide) (by decide)
      (.of_isUnmarked distance.isUnmarked_plain)).parenthesized

namespace Literal

def strings : Literal → List String
  | text value => [value]
  | number _ | bool _ => []

def withoutStrings : Literal → Literal
  | text _ => text ""
  | number value => number value
  | bool value => bool value

theorem quoted_cql : ∀ a : Literal, Quoted a.cql a.withoutStrings.cql a.strings
  | text value => .literal value
  | number value => .of_isUnmarked value.isUnmarked_plain
  | bool true => .of_isUnmarked (by decide)
  | bool false => .of_isUnmarked (by decide)

end Literal

namespace Test

/-- The strings of a test in the order in which they are written, patterns among them. -/
def strings : Test → List String
  | compare _ value => value.strings
  | between lower upper => lower.strings ++ upper.strings
  | like pattern _ => [pattern]
  | oneOf values => values.flatMap Literal.strings
  | isNull | intersects _ => []

/-- A test with nothing in its strings. -/
def withoutStrings : Test → Test
  | compare op value => compare op value.withoutStrings
  | between lower upper => between lower.withoutStrings upper.withoutStrings
  | like _ ignoreCase => like "" ignoreCase
  | oneOf values => oneOf (values.map Literal.withoutStrings)
  | isNull => isNull
  | intersects operand => intersects operand

variable (test : Test) (negated : Bool)

theorem isUnmarked_verb : IsUnmarked test.verb.toList := by
  have hverbs : ∀ word ∈ verbs, IsUnmarked word.toList := by decide
  exact hverbs test.verb test.verb_mem

theorem isUnmarked_negation : IsUnmarked (test.negation negated) := by
  rcases negation_cases negated test with h | h <;> rw [h] <;> decide

theorem verb_withoutStrings : test.withoutStrings.verb = test.verb := by
  cases test <;> rfl

theorem negation_withoutStrings : test.withoutStrings.negation negated = test.negation negated := by
  cases test <;> rfl

theorem quoted_object :
    Quoted (test.object negated) (test.withoutStrings.object negated) test.strings := by
  cases test with
  | compare op value => exact value.quoted_cql
  | between lower upper =>
    exact lower.quoted_cql.separated (by decide) (by decide) upper.quoted_cql
  | like pattern ignoreCase => exact .literal pattern
  | oneOf values =>
    rw [object, withoutStrings, object, List.map_map]
    exact (Quoted.intercalate (by decide) (by decide) fun value _ => value.quoted_cql).parenthesized
  | isNull => cases negated <;> exact .of_isUnmarked (by decide)
  | intersects operand => exact operand.quoted_cql

theorem quoted_clause :
    Quoted (test.clause negated) (test.withoutStrings.clause negated) test.strings := by
  rw [clause, clause, verb_withoutStrings, negation_withoutStrings, List.append_assoc,
    List.append_assoc]
  exact .unmarked_append (test.isUnmarked_negation negated)
    (.unmarked_append test.isUnmarked_verb (.cons (by decide) (test.quoted_object negated)))

end Test

namespace Predicate

/-- The strings that a node itself has. -/
def ownStrings : Predicate → List String
  | atom _ test => test.strings
  | junction _ _ | not _ => []

/-- The strings of a predicate: those of a node before those of its arguments, and the arguments
from left to right. -/
def strings (p : Predicate) : List String := p.nodes.flatMap ownStrings

mutual

/-- A predicate with nothing in its strings. Predicates that differ in their strings alone are the
same without them. -/
def withoutStrings : Predicate → Predicate
  | junction operator args => junction operator (withoutStringsOfArgs args)
  | not arg => not (withoutStrings arg)
  | atom property test => atom property test.withoutStrings

def withoutStringsOfArgs : List Predicate → List Predicate
  | [] => []
  | arg :: rest => withoutStrings arg :: withoutStringsOfArgs rest

end

theorem withoutStringsOfArgs_eq_map (args : List Predicate) :
    withoutStringsOfArgs args = args.map withoutStrings := by
  induction args with
  | nil => rfl
  | cons arg args ih => rw [withoutStringsOfArgs, ih, List.map_cons]

theorem strings_junction (operator : Connective) (args : List Predicate) :
    (junction operator args).strings = args.flatMap strings := by
  have hargs : (junction operator args).strings = (nodesOfArgs args).flatMap ownStrings := rfl
  rw [hargs, nodesOfArgs_eq_flatMap, List.flatMap_assoc]
  rfl

theorem strings_atom (property : String) (test : Test) :
    (atom property test).strings = test.strings := List.append_nil _

/-- All property names are without parentheses and quotes. -/
def HasUnmarkedNames (p : Predicate) : Prop :=
  ∀ node ∈ p.nodes, ∀ name ∈ node.property?, IsUnmarked name.toList

theorem HasUnmarkedNames.not {arg : Predicate} (h : arg.not.HasUnmarkedNames) :
    arg.HasUnmarkedNames :=
  fun node hnode => h node (List.mem_cons_of_mem _ hnode)

theorem HasUnmarkedNames.args {operator : Connective} {args : List Predicate}
    (h : (junction operator args).HasUnmarkedNames) : ∀ arg ∈ args, arg.HasUnmarkedNames := by
  intro arg harg node hnode
  have hmem : node ∈ nodesOfArgs args := by
    rw [nodesOfArgs_eq_flatMap]
    exact List.mem_flatMap_of_mem harg hnode
  exact h node (List.mem_cons_of_mem _ hmem)

theorem HasUnmarkedNames.atom {property : String} {test : Test}
    (h : (Predicate.atom property test).HasUnmarkedNames) : IsUnmarked property.toList :=
  h _ List.mem_cons_self property rfl

end Predicate

namespace Sentence

variable {property : String}

theorem quoted_clause (hproperty : IsUnmarked property.toList) (negated : Bool) (test : Test) :
    Quoted (clause property negated test).body (clause property negated test.withoutStrings).body
      test.strings :=
  .unmarked_append hproperty (.cons (by decide) (test.quoted_clause negated))

theorem quoted_call (hproperty : IsUnmarked property.toList) (operand : SpatialOperand) :
    Quoted (call property operand).body (call property operand).body [] := by
  have hinside := (Quoted.of_isUnmarked hproperty).separated
    (show IsUnmarked ", ".toList by decide) (by decide) operand.quoted_cql
  exact .unmarked_append (by decide) hinside.parenthesized

theorem quoted_negation {arg : Predicate}
    (h : Quoted arg.cql arg.withoutStrings.cql arg.strings) :
    Quoted (negation arg).body (negation arg.withoutStrings).body arg.strings :=
  .unmarked_append (by decide) h

theorem quoted_junction (operator : Connective) {args : List Predicate}
    (h : ∀ arg ∈ args, Quoted arg.cql arg.withoutStrings.cql arg.strings) :
    Quoted (junction operator args).body (junction operator (args.map withoutStrings)).body
      (args.flatMap strings) := by
  have hunmarked : IsUnmarked (separator operator) := by cases operator <;> decide
  have hne : separator operator ≠ [] := by cases operator <;> decide
  have hjoined := Quoted.intercalate hunmarked hne h
  rwa [body_junction, body_junction, List.map_map]

end Sentence

namespace Predicate

theorem quoted_cql_of_body {p : Predicate}
    (h : Quoted p.sentence.body p.withoutStrings.sentence.body p.strings) :
    Quoted p.cql p.withoutStrings.cql p.strings := by
  rw [cql_eq_body, cql_eq_body]
  exact h.parenthesized

theorem quoted_atom {property : String} (hproperty : IsUnmarked property.toList) (test : Test) :
    Quoted (atom property test).sentence.body (atom property test).withoutStrings.sentence.body
      (atom property test).strings := by
  rw [strings_atom]
  cases test with
  | intersects operand => exact Sentence.quoted_call hproperty operand
  | _ => exact Sentence.quoted_clause hproperty false _

theorem quoted_not {arg : Predicate} (hnames : arg.HasUnmarkedNames)
    (h : Quoted arg.sentence.body arg.withoutStrings.sentence.body arg.strings) :
    Quoted arg.not.sentence.body arg.not.withoutStrings.sentence.body arg.strings := by
  have hnot := Sentence.quoted_negation (quoted_cql_of_body h)
  cases arg with
  | junction operator args => exact hnot
  | not arg => exact hnot
  | atom property test =>
    cases test with
    | compare op value => exact hnot
    | intersects operand => exact hnot
    | _ =>
      rw [strings_atom]
      exact Sentence.quoted_clause hnames.atom true _

mutual

/-- Between its parentheses the text of a predicate is quoted, and around the strings it is the text
of the predicate without them. -/
theorem quoted_body : ∀ p : Predicate, p.HasUnmarkedNames →
    Quoted p.sentence.body p.withoutStrings.sentence.body p.strings
  | junction operator args, h => by
    rw [withoutStrings, withoutStringsOfArgs_eq_map, strings_junction]
    exact Sentence.quoted_junction operator fun arg harg =>
      quoted_cql_of_body (quoted_bodyOfArgs args h.args arg harg)
  | not arg, h => quoted_not h.not (quoted_body arg h.not)
  | atom property test, h => quoted_atom h.atom test

theorem quoted_bodyOfArgs : ∀ args : List Predicate, (∀ arg ∈ args, arg.HasUnmarkedNames) →
    ∀ arg ∈ args, Quoted arg.sentence.body arg.withoutStrings.sentence.body arg.strings
  | [], _ => List.forall_mem_nil _
  | arg :: rest, h => by
    obtain ⟨harg, hrest⟩ := List.forall_mem_cons.mp h
    exact List.forall_mem_cons.mpr ⟨quoted_body arg harg, quoted_bodyOfArgs rest hrest⟩

end

theorem hasUnmarkedNames_iff {p : Predicate} :
    p.HasUnmarkedNames ↔ ∀ name ∈ p.properties, IsUnmarked name.toList := by
  simp only [HasUnmarkedNames, p.isCollected_properties.mem_iff, Option.mem_def,
    forall_exists_index, and_imp]
  exact ⟨fun h name node hnode hname => h node hnode name hname,
    fun h node hnode name hname => h name node hnode hname⟩

mutual

theorem nodes_withoutStrings : ∀ p : Predicate,
    p.withoutStrings.nodes = p.nodes.map withoutStrings
  | junction operator args => by
    rw [withoutStrings, nodes, nodes, nodesOfArgs_withoutStrings args, List.map_cons,
      withoutStrings]
  | not arg => by
    rw [withoutStrings, nodes, nodes, nodes_withoutStrings arg, List.map_cons, withoutStrings]
  | atom property test => rfl

theorem nodesOfArgs_withoutStrings : ∀ args : List Predicate,
    nodesOfArgs (withoutStringsOfArgs args) = (nodesOfArgs args).map withoutStrings
  | [] => rfl
  | arg :: rest => by
    rw [withoutStringsOfArgs, nodesOfArgs, nodesOfArgs, nodes_withoutStrings arg,
      nodesOfArgs_withoutStrings rest, List.map_append]

end

theorem property?_withoutStrings (p : Predicate) : p.withoutStrings.property? = p.property? := by
  cases p <;> rfl

theorem hasUnmarkedNames_withoutStrings {p : Predicate} :
    p.withoutStrings.HasUnmarkedNames ↔ p.HasUnmarkedNames := by
  simp only [HasUnmarkedNames, nodes_withoutStrings, List.forall_mem_map, property?_withoutStrings]

/-- A predicate is read as its strings, in what is written without them. -/
theorem read?_cql {p : Predicate} (h : p.HasUnmarkedNames) :
    read? false p.cql = some ⟨p.withoutStrings.cql, p.strings.map String.toList⟩ := by
  have hread := (quoted_cql_of_body (p.quoted_body h)).read [] nofun
  rw [List.append_nil] at hread
  rw [hread]
  simp [read?, Reading.before]

theorem outside_cql {p : Predicate} (h : p.HasUnmarkedNames) :
    outside false p.cql = outside false p.withoutStrings.cql :=
  (outside_frame (read?_cql h)).symm

/-- The text of a predicate is one group in parentheses and ends outside of its literals. These
stand for the strings of the predicate, and the text around them stays when the strings change. -/
theorem cql_enclosed {p : Predicate} (h : ∀ name ∈ p.properties, IsUnmarked name.toList) :
    (∃ body inner, p.cql = parenthesized body ∧
        places ⟨false, 0⟩ p.cql = inner ++ [⟨false, 0⟩] ∧ ∀ place ∈ inner, 0 < place.depth) ∧
      ∃ frame, read? false p.cql = some ⟨frame, p.strings.map String.toList⟩ ∧
        ∀ q : Predicate, q.withoutStrings = p.withoutStrings →
          read? false q.cql = some ⟨frame, q.strings.map String.toList⟩ ∧
            outside false q.cql = outside false p.cql := by
  have hnames := hasUnmarkedNames_iff.mpr h
  obtain ⟨inner, hplaces⟩ := (p.quoted_body hnames).exists_places_parenthesized
  rw [← cql_eq_body] at hplaces
  refine ⟨⟨_, inner, p.cql_eq_body, hplaces⟩, _, read?_cql hnames, fun q hq => ?_⟩
  have hnames' : q.HasUnmarkedNames := by
    rw [← hasUnmarkedNames_withoutStrings, hq]
    exact hasUnmarkedNames_withoutStrings.mpr hnames
  have hread := read?_cql hnames'
  rw [hq] at hread
  exact ⟨hread, by rw [outside_cql hnames', outside_cql hnames, hq]⟩

/-- A predicate with quotes, parentheses and words of the language in its strings. -/
def withQuotes : Predicate :=
  .junction .or
    [.not (.atom "name" (.like "%') OR ('" true)),
      .atom "owner" (.oneOf [.text "O'Brien", .text "''", .bool true, .text ""]),
      .not (.atom "note" (.compare .equal (.text ") AND (")))]

theorem cql_withQuotes :
    (∀ name ∈ withQuotes.properties, IsUnmarked name.toList) ∧
      (∃ body inner, withQuotes.cql = parenthesized body ∧
        places ⟨false, 0⟩ withQuotes.cql = inner ++ [⟨false, 0⟩] ∧
          ∀ place ∈ inner, 0 < place.depth) ∧
      withQuotes.cql = ("((name NOT ILIKE '%'') OR (''') OR " ++
        "(owner IN ('O''Brien','''''',true,'')) OR (NOT (note = ') AND (')))").toList ∧
      read? false withQuotes.cql = some
        ⟨"((name NOT ILIKE '') OR (owner IN ('','',true,'')) OR (NOT (note = '')))".toList,
          ["%') OR ('", "O'Brien", "''", "", ") AND ("].map String.toList⟩ := by
  have hnames : ∀ name ∈ withQuotes.properties, IsUnmarked name.toList := by decide +kernel
  exact ⟨hnames, (cql_enclosed hnames).1, by decide +kernel, by decide +kernel⟩

end Predicate
end FilterForest
