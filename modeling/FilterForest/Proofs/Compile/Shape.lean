import FilterForest.Proofs.Compile.Filters
import FilterForest.Proofs.Predicate.Shape

/-!
# The shape of a compiled predicate

Joining keeps a good shape and adds one level. A filter takes two levels, the alternatives to it a
third, each group on a path one more, and the roots together a last one. So the height of what a
layer compiles to is bounded by the depth of the walk, whatever the links between the groups.
-/
namespace FilterForest

open Traced Predicate

/-- Predicates of good shape and bounded height. -/
structure Predicate.Fits (levels : ℕ) (p : Predicate) : Prop where
  wellShaped : p.WellShaped
  height_le : p.height ≤ levels

namespace Predicate

theorem Fits.mono {m n : ℕ} {p : Predicate} (h : p.Fits m) (hle : m ≤ n) : p.Fits n :=
  ⟨h.wellShaped, h.height_le.trans hle⟩

theorem fits_atom {property : String} {test : Test} (h : test.WellShaped) :
    (atom property test).Fits 1 :=
  ⟨.atom h, le_rfl⟩

theorem fits_combine {operator : Connective} {levels : ℕ} {args : List Predicate}
    (h : ∀ arg ∈ args, arg.Fits levels) : ∀ p ∈ combine operator args, p.Fits (levels + 1) := by
  intro p hp
  match args with
  | [] => contradiction
  | [arg] =>
    obtain rfl := Option.some.inj hp
    exact (h arg List.mem_cons_self).mono (Nat.le_succ levels)
  | first :: second :: rest =>
    obtain rfl := Option.some.inj hp
    have hheight := heightOfArgs_le fun arg harg => (h arg harg).height_le
    refine ⟨.junction (by simp) fun arg harg => (h arg harg).wellShaped, ?_⟩
    rw [height]
    omega

theorem IsTestOf.fits {property : String} {p : Predicate} (h : p.IsTestOf property) :
    p.Fits 2 := by
  have hshape : ∀ {test : Test}, test.IsOfProperty → test.WellShaped := by
    intro test htest
    cases htest with
    | oneOf hne _ => exact hne
    | _ => trivial
  cases h with
  | plain h => exact (fits_atom (hshape h)).mono one_le_two
  | negated h clausal => exact ⟨.not clausal (hshape h), le_rfl⟩

end Predicate

theorem Geometry.IsReadable.isSingle {g : Geometry} (h : g.IsReadable) : g.IsSingle := by
  cases g with
  | collection parts => contradiction
  | _ => trivial

theorem Geometry.isOneOrMany_collect {parts : List Geometry} (h : ∀ part ∈ parts, part.IsSingle) :
    ∀ g ∈ collect parts, g.IsOneOrMany := by
  intro g hg
  match parts with
  | [] => contradiction
  | [part] =>
    obtain rfl := Option.some.inj hg
    exact .one (h part List.mem_cons_self)
  | first :: second :: rest =>
    obtain rfl := Option.some.inj hg
    exact .many (by simp) h

namespace SpatialFilter

variable (f : SpatialFilter)

theorem isOneOrMany_of_mem_operandList :
    ∀ operand ∈ f.operandList, operand.geometry.IsOneOrMany := by
  rw [f.forall_mem_operandList_iff]
  refine ⟨fun g hg => ?_, fun c _ => .one trivial⟩
  have hcollected := Geometry.isOneOrMany_collect
    (fun part hpart => (f.isReadable_of_mem_bases hpart).isSingle) g hg
  unfold baseOperand
  split
  · exact hcollected
  · exact hcollected

theorem fits_compile (layer : LayerId) : (f.compile layer).Yields (Fits 2) := by
  unfold Yields
  rw [f.result_compile layer]
  apply fits_combine
  intro p hp
  obtain ⟨operand, hoperand, hp⟩ := List.mem_flatMap.mp hp
  obtain ⟨column, _, rfl⟩ := List.mem_map.mp hp
  exact fits_atom (f.isOneOrMany_of_mem_operandList operand hoperand)

end SpatialFilter

variable (layer : LayerId)

theorem Filter.fits_compile (f : Filter) : (f.compile layer).Yields (Fits 2) := by
  unfold compile
  split
  · exact fun p hp => (AttributeFilter.yields_compile _ p hp).fits
  · exact SpatialFilter.fits_compile _ layer

namespace FilterGroup

variable (g : FilterGroup)

theorem fits_ownConditions : ∀ p ∈ g.ownConditions layer, p.Fits 3 := by
  intro p hp
  obtain ⟨f, _, hcombine⟩ := List.mem_filterMap.mp hp
  refine fits_combine ?_ p hcombine
  intro alternative halternative
  obtain ⟨other, _, hother⟩ := List.mem_filterMap.mp halternative
  exact other.fits_compile layer alternative hother

end FilterGroup

namespace Visit

mutual

/-- A group on the longest path adds one level to the three of its own conditions. -/
theorem fits_compile : ∀ visit : Visit, (compile layer visit).Yields (Fits (visit.height + 3))
  | again node => yields_dropped _
  | cut node => by
    unfold Yields
    rw [result_compile_cut]
    exact fits_combine (node.group.fits_ownConditions layer)
  | entered node children => by
    have hle : heightOfAll children + 3 + 1 = (entered node children).height + 3 := by
      rw [height]
      omega
    unfold Yields
    rw [result_compile_entered, ← hle]
    refine fits_combine (List.forall_mem_append.mpr ⟨fun p hp => ?_, fun p hp => ?_⟩)
    · exact (node.group.fits_ownConditions layer p hp).mono (Nat.le_add_left 3 _)
    · obtain ⟨visit, hvisit, hresult⟩ := List.mem_filterMap.mp hp
      exact fits_compileEach children visit hvisit p hresult

theorem fits_compileEach : ∀ visits : List Visit, ∀ visit ∈ visits,
    (compile layer visit).Yields (Fits (heightOfAll visits + 3))
  | [] => nofun
  | first :: rest => by
    refine List.forall_mem_cons.mpr ⟨fun p hp => ?_, fun visit hvisit p hp => ?_⟩
    · exact (fits_compile first p hp).mono (Nat.add_le_add_right (le_max_left _ _) 3)
    · exact (fits_compileEach rest visit hvisit p hp).mono
        (Nat.add_le_add_right (le_max_right _ _) 3)

end

end Visit

namespace Snapshot

/-- What a layer compiles to has a good shape and writes no negation before a text in parentheses,
and it is four levels higher at most than the walk over the groups is deep. -/
theorem compile_wellShaped {groups : Snapshot} {layer : LayerId} {maxDepth : ℕ} {p : Predicate}
    (h : (groups.compile layer maxDepth).result = some p) :
    p.WellShaped ∧
      (∀ arg : Predicate, arg.not ∈ p.nodes →
        arg.not.cql ≠ Text.parenthesized ("NOT ".toList ++ arg.cql)) ∧
      p.height ≤ max 1 maxDepth + 4 := by
  have hvisits : ∀ visit ∈ groups.visits layer maxDepth,
      (visit.compile layer).Yields (Fits (max 1 maxDepth + 3)) := by
    intro visit hvisit q hq
    exact (visit.fits_compile layer q hq).mono
      (Nat.add_le_add_right (height_le_of_mem_visits hvisit) 3)
  have hfits : p.Fits (max 1 maxDepth + 3 + 1) := by
    rw [result_compile] at h
    refine fits_combine (fun q hq => ?_) p h
    obtain ⟨visit, hvisit, hresult⟩ := List.mem_filterMap.mp hq
    exact hvisits visit hvisit q hresult
  refine ⟨hfits.wellShaped, fun arg harg => ?_, hfits.height_le⟩
  exact (hfits.wellShaped.of_mem_nodes _ harg).cql_not_ne

/-- A group two levels down with an inverted range, an alternative to it and a list of values, and
beside its parent and another root a filter with two points and a circle. -/
def atFullHeight : Snapshot :=
  [⟨"root", .ofList [1], [⟨"f", false, .property (.ofCondition "p" .string .isNull)⟩], .or, none⟩,
    ⟨"child", .ofList [1],
      [⟨"range", false,
          .property ⟨"q", .numeric .integer, .between, true, false, ["1", "2"], none⟩⟩,
        ⟨"other", false, .property ⟨"q", .boolean, .isTrue, true, false, [], some "range"⟩⟩,
        ⟨"list", false, .property ⟨"r", .string, .uniqueValues, true, false, ["a"], none⟩⟩],
      .and, some "root"⟩,
    ⟨"drawn", .ofList [1], [⟨"s", false, .spatial ⟨[⟨1, ["geom"]⟩],
      [⟨"a", "POINT(1 2)"⟩, ⟨"b", "POINT(3 4)"⟩, ⟨"c", "CIRCLE(0 0 5)"⟩], none⟩⟩], .and, none⟩]

theorem compile_atFullHeight : ∃ p, (atFullHeight.compile 1 2).result = some p ∧
    p.height = max 1 2 + 4 ∧ p.WellShaped ∧
    (∀ arg : Predicate, arg.not ∈ p.nodes →
      arg.not.cql ≠ Text.parenthesized ("NOT ".toList ++ arg.cql)) ∧
    p.height ≤ max 1 2 + 4 := by
  have hheight :
      (atFullHeight.compile 1 2).result.any (fun p => p.height = max 1 2 + 4) = true := by
    decide +kernel
  obtain ⟨p, hp, hheight⟩ := (Option.any_eq_true _ _).mp hheight
  exact ⟨p, hp, of_decide_eq_true hheight, compile_wellShaped hp⟩

end Snapshot
end FilterForest
