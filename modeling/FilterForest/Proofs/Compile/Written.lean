import FilterForest.Proofs.Compile.Tests
import FilterForest.Proofs.Forest.Matching
import FilterForest.Proofs.Snapshot.Text

/-!
# Snapshots as they are written

In JSON a number that is not finite is null, whatever it is, and a sum with such a number is not
finite either. So what a layer compiles to has the same form in JSON for all snapshots with the same
text: filters, groups and the walk over them are alike up to the buffers.
-/
namespace FilterForest

open Predicate

theorem Json.number_of_not_isFinite {x : Binary64} (h : x.isFinite = false) : number x = null := by
  cases x with
  | finite negative m => contradiction
  | infinite negative => rfl
  | nan => rfl

theorem Json.number_asWritten (x : Binary64) : number x.asWritten = number x := by
  cases x <;> rfl

theorem Binary64.isFinite_add_of_right {x y : Binary64} (h : y.isFinite = false) :
    (x + y).isFinite = false := by
  cases y with
  | finite negative m => contradiction
  | infinite negative =>
    cases x with
    | finite _ _ => rfl
    | infinite negative' => cases negative <;> cases negative' <;> rfl
    | nan => rfl
  | nan => cases x <;> rfl

theorem Json.number_add_asWritten (x y : Binary64) : number (x + y.asWritten) = number (x + y) := by
  cases hy : y.isFinite with
  | true => rw [Binary64.asWritten_of_isFinite hy]
  | false =>
    have hwritten := (Binary64.isFinite_asWritten y).trans hy
    rw [number_of_not_isFinite (Binary64.isFinite_add_of_right hy),
      number_of_not_isFinite (Binary64.isFinite_add_of_right hwritten)]

/-- The form in JSON of what a step compiles to. -/
def Traced.json (t : Traced Predicate) : Option Json := t.result.map Predicate.toJson

namespace Predicate

theorem toJson_combine_congr {operator : Connective} {args args' : List Predicate}
    (h : args.map toJson = args'.map toJson) :
    (combine operator args).map toJson = (combine operator args').map toJson := by
  match args, args' with
  | [], [] => rfl
  | [arg], [arg'] => simpa using h
  | first :: second :: rest, first' :: second' :: rest' =>
    simp only [combine_cons_cons, Option.map_some, toJson, jsonOfArgs_eq_map, h]
  | [], _ :: _ => simp at h
  | _ :: _, [] => simp at h
  | [_], _ :: _ :: _ => simp at h
  | _ :: _ :: _, [_] => simp at h

end Predicate

theorem map_toJson_filterMap_congr {α β : Type} {compile : α → Traced Predicate}
    {compile' : β → Traced Predicate} {change : α → β} {as : List α}
    (h : ∀ a ∈ as, (compile' (change a)).json = (compile a).json) :
    ((as.map change).filterMap fun b => (compile' b).result).map Predicate.toJson =
      (as.filterMap fun a => (compile a).result).map Predicate.toJson := by
  rw [List.map_filterMap, List.map_filterMap, List.filterMap_map]
  exact List.filterMap_congr h

namespace SpatialFilter

variable (f : SpatialFilter)

theorem distance?_asWritten : f.asWritten.distance? = f.distance?.map Binary64.asWritten := by
  obtain ⟨columns, geometries, _ | x⟩ := f
  · rfl
  · cases x with
    | finite negative m =>
      simp [distance?, asWritten, Binary64.asWritten, Binary64.isFinite, Option.filter]
    | infinite negative => rfl
    | nan => rfl

theorem toJson_baseOperand_asWritten (g : Geometry) :
    (f.asWritten.baseOperand g).toJson = (f.baseOperand g).toJson := by
  unfold baseOperand
  rw [distance?_asWritten]
  cases f.distance? with
  | none => rfl
  | some x => simp only [Option.map_some, SpatialOperand.toJson, Json.number_asWritten]

theorem toJson_circleOperand_asWritten (c : Circle) :
    (f.asWritten.circleOperand c).toJson = (f.circleOperand c).toJson := by
  have hdistance : f.asWritten.distance?.getD .zero = (f.distance?.getD .zero).asWritten := by
    rw [distance?_asWritten]
    cases f.distance? <;> rfl
  simp only [circleOperand, SpatialOperand.toJson, hdistance, Json.number_add_asWritten]

theorem toJson_operandList_asWritten :
    f.asWritten.operandList.map SpatialOperand.toJson =
      f.operandList.map SpatialOperand.toJson := by
  have hbases : f.asWritten.bases = f.bases := rfl
  have hcircles : f.asWritten.circles = f.circles := rfl
  rw [operandList, operandList, hbases, hcircles, List.map_append, List.map_append, List.map_map,
    List.map_map]
  congr 1
  · cases Geometry.collect f.bases with
    | none => rfl
    | some g => simp [toJson_baseOperand_asWritten]
  · exact List.map_congr_left fun c _ => f.toJson_circleOperand_asWritten c

theorem toJson_intersections (columns : List String) (operands : List SpatialOperand) :
    (intersections columns operands).map Predicate.toJson =
      (operands.map SpatialOperand.toJson).flatMap fun operand => columns.map fun column =>
        Json.operation "s_intersects" [.property column, operand] := by
  simp only [intersections, List.map_flatMap, List.map_map, List.flatMap_map]
  rfl

theorem json_compile_asWritten (layer : LayerId) :
    (f.asWritten.compile layer).json = (f.compile layer).json := by
  have hcolumns : f.asWritten.columnsFor layer = f.columnsFor layer := rfl
  rw [Traced.json, Traced.json, result_compile, result_compile, hcolumns]
  apply toJson_combine_congr
  rw [toJson_intersections, toJson_intersections, f.toJson_operandList_asWritten]

end SpatialFilter

namespace Filter

variable (f : Filter)

theorem json_compile_asWritten (layer : LayerId) :
    (f.asWritten.compile layer).json = (f.compile layer).json := by
  obtain ⟨id, disabled, a | s⟩ := f
  · rfl
  · exact s.json_compile_asWritten layer

theorem isActive_asWritten : f.asWritten.isActive = f.isActive := by
  obtain ⟨id, disabled, a | s⟩ := f <;> rfl

theorem generatedBy_asWritten : f.asWritten.generatedBy = f.generatedBy := by
  obtain ⟨id, disabled, a | s⟩ := f <;> rfl

end Filter

namespace FilterGroup

variable (layer : LayerId) (g : FilterGroup)

theorem filter_asWritten {p : Filter → Bool} (hp : ∀ f : Filter, p f.asWritten = p f) :
    g.asWritten.filters.filter p = (g.filters.filter p).map Filter.asWritten := by
  rw [asWritten, List.filter_map]
  congr 2
  funext f
  exact hp f

theorem toJson_alternatives_asWritten (f : Filter) :
    (g.asWritten.alternatives layer f.asWritten).map Predicate.toJson =
      (g.alternatives layer f).map Predicate.toJson := by
  rw [alternatives, alternatives, g.filter_asWritten, ← List.map_cons]
  · exact map_toJson_filterMap_congr fun other _ => other.json_compile_asWritten layer
  · intro other
    rw [other.isActive_asWritten, other.generatedBy_asWritten]

theorem toJson_ownConditions_asWritten :
    (g.asWritten.ownConditions layer).map Predicate.toJson =
      (g.ownConditions layer).map Predicate.toJson := by
  rw [ownConditions, ownConditions, g.filter_asWritten, List.filterMap_map, List.map_filterMap,
    List.map_filterMap]
  · exact List.filterMap_congr fun f _ =>
      toJson_combine_congr (g.toJson_alternatives_asWritten layer f)
  · intro f
    rw [f.isActive_asWritten, f.generatedBy_asWritten]

end FilterGroup

def Node.asWritten : Node → Node := Node.mapGroup FilterGroup.asWritten

namespace Visit

variable (layer : LayerId)

mutual

theorem json_compile_asWritten : ∀ visit : Visit,
    (compile layer (visit.map Node.asWritten)).json = (compile layer visit).json
  | again node => rfl
  | cut node => by
    rw [map, Traced.json, Traced.json, result_compile_cut, result_compile_cut]
    exact toJson_combine_congr (node.group.toJson_ownConditions_asWritten layer)
  | entered node children => by
    rw [map, Traced.json, Traced.json, result_compile_entered, result_compile_entered]
    apply toJson_combine_congr
    rw [List.map_append, List.map_append, List.map_filterMap, List.map_filterMap]
    exact congrArg₂ (· ++ ·) (node.group.toJson_ownConditions_asWritten layer)
      (json_compileEach_asWritten children)

theorem json_compileEach_asWritten : ∀ visits : List Visit,
    (mapAll Node.asWritten visits).filterMap (fun visit => (compile layer visit).json) =
      visits.filterMap fun visit => (compile layer visit).json
  | [] => rfl
  | visit :: rest => by
    rw [mapAll, List.filterMap_cons, List.filterMap_cons, json_compile_asWritten visit,
      json_compileEach_asWritten rest]

end

end Visit

namespace Snapshot

variable (groups : Snapshot) (layer : LayerId)

theorem ofSnapshot_asWritten : Forest.ofSnapshot groups.asWritten layer =
    (Forest.ofSnapshot groups layer).mapGroup FilterGroup.asWritten := by
  have hlayers : ∀ g : FilterGroup, g.asWritten.layers = g.layers := fun _ => rfl
  exact Forest.ofSnapshot_map hlayers groups

/-- Compiling a layer gives the same in JSON for a snapshot and for what is left of it in a text. -/
theorem json_compile_asWritten (maxDepth : ℕ) :
    (groups.asWritten.compile layer maxDepth).json = (groups.compile layer maxDepth).json := by
  have hmatches : (Forest.ofSnapshot groups layer).Matches
      ((Forest.ofSnapshot groups layer).mapGroup FilterGroup.asWritten) (fun _ => True)
      Node.asWritten :=
    Forest.matches_mapGroup (fun _ => rfl) fun _ => rfl
  have hwalk : groups.asWritten.visits layer maxDepth =
      Visit.mapAll Node.asWritten (groups.visits layer maxDepth) := by
    rw [visits, ofSnapshot_asWritten]
    exact hmatches.walk (Forest.roots_mapGroup fun _ => rfl) (fun _ _ => trivial) maxDepth
  rw [Traced.json, Traced.json, result_compile, result_compile, hwalk]
  apply toJson_combine_congr
  rw [List.map_filterMap, List.map_filterMap]
  exact Visit.json_compileEach_asWritten layer _

end Snapshot
end FilterForest
