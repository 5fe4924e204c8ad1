import FilterForest.Predicate.Cql2Json
import FilterForest.Proofs.Predicate.Walk

/-!
# The names in a predicate

Collecting the properties of a predicate is a visit of all its nodes, with the names that were seen
so far as the state. They are always the different names of the nodes visited so far, in the order
in which these were first met. In JSON the same names are found, and nothing but names is, under the
key `property`.
-/
namespace FilterForest

namespace Json

mutual

/-- The values of all members with a key, at any depth. -/
def valuesUnder (key : String) : Json → List Json
  | array items => valuesUnderInItems key items
  | object members => valuesUnderInMembers key members
  | null | bool _ | integer _ | real _ | string _ | unreadable => []

def valuesUnderInItems (key : String) : List Json → List Json
  | [] => []
  | item :: rest => valuesUnder key item ++ valuesUnderInItems key rest

def valuesUnderInMembers (key : String) : List (String × Json) → List Json
  | [] => []
  | (name, value) :: rest =>
    (if name = key then [value] else []) ++ valuesUnder key value ++ valuesUnderInMembers key rest

end

theorem valuesUnderInItems_eq_flatMap (key : String) (items : List Json) :
    valuesUnderInItems key items = items.flatMap (valuesUnder key) := by
  induction items with
  | nil => rfl
  | cons item rest ih => rw [valuesUnderInItems, ih, List.flatMap_cons]

theorem valuesUnder_array (key : String) (items : List Json) :
    (array items).valuesUnder key = items.flatMap (valuesUnder key) := by
  rw [valuesUnder, valuesUnderInItems_eq_flatMap]

theorem valuesUnder_array_map {α : Type} (key : String) (write : α → Json) (as : List α) :
    (array (as.map write)).valuesUnder key = as.flatMap fun a => (write a).valuesUnder key := by
  rw [valuesUnder_array, List.flatMap_map]

@[simp] theorem valuesUnder_string (key s : String) : (string s).valuesUnder key = [] := rfl

@[simp] theorem valuesUnder_bool (key : String) (b : Bool) : (bool b).valuesUnder key = [] := rfl

@[simp] theorem valuesUnder_number (key : String) (x : Binary64) :
    (number x).valuesUnder key = [] := by
  unfold number
  split
  · rfl
  · split <;> rfl

theorem valuesUnder_operation (name : String) (args : List Json) :
    (operation name args).valuesUnder "property" = args.flatMap (valuesUnder "property") := by
  simp [operation, valuesUnder, valuesUnderInMembers, valuesUnderInItems_eq_flatMap]

theorem valuesUnder_property (name : String) :
    (Json.property name).valuesUnder "property" = [string name] := rfl

end Json

open Json

theorem Coord.valuesUnder_toJson (key : String) (c : Coord) : c.toJson.valuesUnder key = [] := by
  simp [toJson, valuesUnder_array, valuesUnder_number]

namespace Geometry

theorem valuesUnder_positionsJson (key : String) (positions : List Coord) :
    (positionsJson positions).valuesUnder key = [] := by
  simp [positionsJson, valuesUnder_array_map, Coord.valuesUnder_toJson]

theorem valuesUnder_ringsJson (key : String) (rings : List (List Coord)) :
    (ringsJson rings).valuesUnder key = [] := by
  simp [ringsJson, valuesUnder_array_map, valuesUnder_positionsJson]

theorem valuesUnder_withCoordinates (name : String) (coordinates : Json) :
    (withCoordinates name coordinates).valuesUnder "property" =
      coordinates.valuesUnder "property" := by
  simp [withCoordinates, valuesUnder, valuesUnderInMembers]

mutual

theorem valuesUnder_toJson : ∀ g : Geometry, g.toJson.valuesUnder "property" = []
  | point position => by
    rw [toJson, valuesUnder_withCoordinates, Coord.valuesUnder_toJson]
  | lineString positions | multiPoint positions => by
    rw [toJson, valuesUnder_withCoordinates, valuesUnder_positionsJson]
  | polygon rings | multiLineString rings => by
    rw [toJson, valuesUnder_withCoordinates, valuesUnder_ringsJson]
  | multiPolygon polygons => by
    simp [toJson, valuesUnder_withCoordinates, valuesUnder_array_map, valuesUnder_ringsJson]
  | collection parts => by
    have hparts := valuesUnder_partsJson parts
    simp [toJson, valuesUnder, valuesUnderInMembers, hparts]

theorem valuesUnder_partsJson : ∀ parts : List Geometry,
    valuesUnderInItems "property" (partsJson parts) = []
  | [] => rfl
  | part :: rest => by
    rw [partsJson, valuesUnderInItems, valuesUnder_toJson part, valuesUnder_partsJson rest,
      List.append_nil]

end

end Geometry

theorem Literal.valuesUnder_toJson (key : String) (a : Literal) :
    a.toJson.valuesUnder key = [] := by
  cases a with
  | text s => rfl
  | number x => exact valuesUnder_number key x
  | bool b => rfl

theorem SpatialOperand.valuesUnder_toJson (a : SpatialOperand) :
    a.toJson.valuesUnder "property" = [] := by
  cases a with
  | plain g => exact g.valuesUnder_toJson
  | buffered g x =>
    simp [toJson, valuesUnder, valuesUnderInMembers, valuesUnderInItems, g.valuesUnder_toJson,
      valuesUnder_number]

theorem Test.valuesUnder_toJson (property : String) (test : Test) :
    (test.toJson property).valuesUnder "property" = [.string property] := by
  cases test <;>
    simp [toJson, valuesUnder_operation, valuesUnder_property, valuesUnder_array_map,
      Literal.valuesUnder_toJson, SpatialOperand.valuesUnder_toJson]

namespace Predicate

mutual

/-- In JSON the names stand in the order of a walk. -/
theorem valuesUnder_toJson : ∀ p : Predicate,
    p.toJson.valuesUnder "property" = (p.nodes.filterMap property?).map Json.string
  | junction operator args => by
    rw [toJson, valuesUnder_operation, valuesUnder_jsonOfArgs args]
    rfl
  | not arg => by
    rw [toJson, valuesUnder_operation, List.flatMap_singleton, valuesUnder_toJson arg]
    rfl
  | atom property test => Test.valuesUnder_toJson property test

theorem valuesUnder_jsonOfArgs : ∀ args : List Predicate,
    (jsonOfArgs args).flatMap (valuesUnder "property") =
      ((nodesOfArgs args).filterMap property?).map Json.string
  | [] => rfl
  | arg :: rest => by
    rw [jsonOfArgs, nodesOfArgs, List.flatMap_cons, List.filterMap_append, List.map_append,
      valuesUnder_toJson arg, valuesUnder_jsonOfArgs rest]

end

theorem mem_insertName {names : List String} {name other : String} :
    other ∈ insertName names name ↔ other ∈ names ∨ other = name := by
  unfold insertName
  split
  · next h => exact ⟨Or.inl, fun hor => hor.elim id (· ▸ h)⟩
  · rw [List.mem_append, List.mem_singleton]

/-- Adds the name that a node has to the names seen so far. -/
def collect (names : List String) (node : Predicate) : List String :=
  match node.property? with
  | some name => insertName names name
  | none => names

/-- A visit adds no name or a new one at the end. -/
theorem collect_eq (names : List String) (node : Predicate) :
    collect names node = names ∨ ∃ name, name ∉ names ∧ collect names node = names ++ [name] := by
  unfold collect
  split
  · next name h =>
    by_cases hname : name ∈ names
    · exact .inl (if_pos hname)
    · exact .inr ⟨name, hname, if_neg hname⟩
  · exact .inl rfl

theorem mem_collect {names : List String} {node : Predicate} {name : String} :
    name ∈ collect names node ↔ name ∈ names ∨ node.property? = some name := by
  unfold collect
  split
  · next other h => rw [h, mem_insertName, Option.some_inj, eq_comm (a := name)]
  · next h => simp [h]

theorem properties_eq_foldl (p : Predicate) : p.properties = p.nodes.foldl collect [] := by
  rw [properties, List.foldl_filterMap]
  congr 1
  funext names node
  cases h : node.property? <;> simp [collect, h]

/-- The number of nodes that are visited before the first with a name. -/
def firstNamed (visited : List Predicate) (name : String) : ℕ :=
  visited.findIdx fun node => node.property? = some name

/-- The different names of the nodes visited so far, in the order they were first met. -/
structure IsCollected (visited : List Predicate) (names : List String) : Prop where
  nodup : names.Nodup
  ascending : names.Pairwise fun a b => firstNamed visited a < firstNamed visited b
  mem_iff : ∀ name, name ∈ names ↔ ∃ node ∈ visited, node.property? = some name

theorem isCollected_nil : IsCollected [] [] := ⟨.nil, .nil, by simp⟩

variable {visited : List Predicate} {names : List String} {name : String}

theorem firstNamed_lt_length_iff :
    firstNamed visited name < visited.length ↔ ∃ node ∈ visited, node.property? = some name := by
  rw [firstNamed, List.findIdx_lt_length]
  simp only [decide_eq_true_eq]

theorem firstNamed_concat_eq (node : Predicate) :
    firstNamed (visited ++ [node]) name =
      if firstNamed visited name < visited.length then firstNamed visited name
      else firstNamed [node] name + visited.length :=
  List.findIdx_append

namespace IsCollected

theorem firstNamed_concat (h : IsCollected visited names) (hname : name ∈ names)
    (node : Predicate) : firstNamed (visited ++ [node]) name = firstNamed visited name := by
  have hlt := firstNamed_lt_length_iff.mpr ((h.mem_iff name).mp hname)
  rw [firstNamed_concat_eq, if_pos hlt]

theorem ascending_concat (h : IsCollected visited names) (node : Predicate) :
    names.Pairwise fun a b =>
      firstNamed (visited ++ [node]) a < firstNamed (visited ++ [node]) b := by
  refine h.ascending.imp_of_mem fun {a b} ha hb hlt => ?_
  rwa [h.firstNamed_concat ha, h.firstNamed_concat hb]

theorem firstNamed_lt_of_not_mem (h : IsCollected visited names) {other : String}
    (hname : name ∈ names) (hother : other ∉ names) (node : Predicate) :
    firstNamed (visited ++ [node]) name < firstNamed (visited ++ [node]) other := by
  have hlt := firstNamed_lt_length_iff.mpr ((h.mem_iff name).mp hname)
  have hnew := mt firstNamed_lt_length_iff.mp (mt (h.mem_iff other).mpr hother)
  rw [h.firstNamed_concat hname, firstNamed_concat_eq, if_neg hnew]
  omega

theorem visit (h : IsCollected visited names) (node : Predicate) :
    IsCollected (visited ++ [node]) (collect names node) := by
  have hmem : ∀ name, name ∈ collect names node ↔
      ∃ other ∈ visited ++ [node], other.property? = some name := by
    intro name
    rw [mem_collect, h.mem_iff]
    simp [or_and_right, exists_or]
  have hbefore := h.ascending_concat node
  obtain hsame | ⟨name, hnew, hmore⟩ := collect_eq names node
  · rw [hsame] at hmem ⊢
    exact ⟨h.nodup, hbefore, hmem⟩
  · rw [hmore] at hmem ⊢
    refine ⟨List.concat_eq_append ▸ h.nodup.concat hnew, ?_, hmem⟩
    refine List.pairwise_append.mpr ⟨hbefore, List.pairwise_singleton _ _, ?_⟩
    intro other hother last hlast
    rw [List.mem_singleton.mp hlast]
    exact h.firstNamed_lt_of_not_mem hother hnew node

/-- A walk from any state of the collection adds the names of its nodes. -/
theorem walk (h : IsCollected visited names) (p : Predicate) :
    IsCollected (visited ++ p.nodes) (p.walk collect names) := by
  rw [walk_eq_foldl]
  generalize p.nodes = nodes
  -- What was visited before grows with every node, so the induction is over any state.
  induction nodes generalizing visited names with
  | nil => rwa [List.append_nil]
  | cons node rest ih =>
    rw [List.append_cons]
    exact ih (h.visit node)

end IsCollected

theorem walk_collect (p : Predicate) : p.walk collect [] = p.properties := by
  rw [walk_eq_foldl, properties_eq_foldl]

theorem isCollected_properties (p : Predicate) : IsCollected p.nodes p.properties := by
  rw [← walk_collect]
  exact isCollected_nil.walk p

theorem mem_valuesUnder_toJson_iff {p : Predicate} {value : Json} :
    value ∈ p.toJson.valuesUnder "property" ↔ ∃ name ∈ p.properties, value = .string name := by
  simp only [valuesUnder_toJson, List.mem_map, List.mem_filterMap,
    p.isCollected_properties.mem_iff, eq_comm (a := value)]

/-- The nodes of a predicate stand at its places, and in the order of the places. -/
structure StandsInPlaces (p : Predicate) : Prop where
  nodes : p.located.map Prod.snd = p.nodes
  length : p.located.length = p.size
  /-- A node is before its arguments, and the arguments are from left to right. -/
  ascending : (p.located.map Prod.fst).Pairwise (· < ·)
  mem_iff : ∀ place node, (place, node) ∈ p.located ↔ p.at? place = some node

theorem standsInPlaces (p : Predicate) : p.StandsInPlaces where
  nodes := p.map_snd_located
  length := by rw [← List.length_map Prod.snd, map_snd_located, length_nodes]
  ascending := p.pairwise_places
  mem_iff := p.mem_located

/-- The properties of a predicate are the names that a walk comes to, each where it is first met. -/
structure HasPropertiesInOrder (p : Predicate) : Prop where
  walk : p.walk collect [] = p.properties
  nodup : p.properties.Nodup
  ascending : p.properties.Pairwise fun a b => firstNamed p.nodes a < firstNamed p.nodes b
  json : ∀ value, value ∈ p.toJson.valuesUnder "property" ↔
    ∃ name ∈ p.properties, value = .string name

theorem hasPropertiesInOrder (p : Predicate) : p.HasPropertiesInOrder where
  walk := p.walk_collect
  nodup := p.isCollected_properties.nodup
  ascending := p.isCollected_properties.ascending
  json _ := mem_valuesUnder_toJson_iff

/-- A walk shows a visitor the nodes of a predicate one by one, as many as it has, each at its
place. Collecting names in a walk gives the properties, which are exactly those that JSON has under
the key `property`. -/
theorem walk_visits_places_and_collects {σ : Type*} (visit : σ → Predicate → σ) (start : σ)
    (p : Predicate) :
    p.walk visit start = p.nodes.foldl visit start ∧ p.StandsInPlaces ∧ p.HasPropertiesInOrder :=
  ⟨walk_eq_foldl visit p start, p.standsInPlaces, p.hasPropertiesInOrder⟩

example :
    (junction .and [atom "a" .isNull, junction .or [atom "b" .isNull, not (atom "a" .isNull)]]
      ).properties = ["a", "b"] := by decide

end Predicate
end FilterForest
