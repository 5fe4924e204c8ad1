import FilterForest.Filter.Spatial

/-!
# Sets of layers

A finite set of layers as its members in ascending order.
-/

namespace FilterForest

structure LayerSet where
  toList : List LayerId
  ascending : toList.Pairwise (· < ·)
deriving DecidableEq

namespace LayerSet

def empty : LayerSet := ⟨[], .nil⟩

instance : Membership LayerId LayerSet := ⟨fun s layer => layer ∈ s.toList⟩

instance (layer : LayerId) (s : LayerSet) : Decidable (layer ∈ s) :=
  inferInstanceAs (Decidable (layer ∈ s.toList))

/-- Puts a layer in its place in an ascending list. -/
def insertInto (layer : LayerId) : List LayerId → List LayerId
  | [] => [layer]
  | head :: rest =>
    if layer < head then layer :: head :: rest
    else if layer = head then head :: rest
    else head :: insertInto layer rest

theorem mem_insertInto {layer other : LayerId} {layers : List LayerId} :
    other ∈ insertInto layer layers ↔ other = layer ∨ other ∈ layers := by
  induction layers with
  | nil => simp [insertInto]
  | cons head rest ih =>
    unfold insertInto
    split
    · simp
    · split
      · next h => simp [h]
      · simp [ih, or_left_comm]

theorem pairwise_insertInto {layer : LayerId} {layers : List LayerId}
    (h : layers.Pairwise (· < ·)) : (insertInto layer layers).Pairwise (· < ·) := by
  induction layers with
  | nil => simp [insertInto]
  | cons head rest ih =>
    obtain ⟨hhead, hrest⟩ := List.pairwise_cons.1 h
    unfold insertInto
    split
    · next hlt =>
      refine List.pairwise_cons.2 ⟨fun other hother => ?_, h⟩
      rcases List.mem_cons.1 hother with rfl | hother
      · exact hlt
      · exact Int64.lt_trans hlt (hhead other hother)
    · next hnot =>
      split
      · exact h
      · next hne =>
        refine List.pairwise_cons.2 ⟨fun other hother => ?_, ih hrest⟩
        rcases mem_insertInto.1 hother with rfl | hother
        · exact Int64.lt_of_le_of_ne (Int64.not_lt.1 hnot) (Ne.symm hne)
        · exact hhead other hother

def insert (layer : LayerId) (s : LayerSet) : LayerSet :=
  ⟨insertInto layer s.toList, pairwise_insertInto s.ascending⟩

@[simp] theorem mem_insert {layer other : LayerId} {s : LayerSet} :
    other ∈ s.insert layer ↔ other = layer ∨ other ∈ s :=
  mem_insertInto

def ofList (layers : List LayerId) : LayerSet := layers.foldr insert empty

@[simp] theorem mem_ofList {layer : LayerId} {layers : List LayerId} :
    layer ∈ ofList layers ↔ layer ∈ layers := by
  induction layers with
  | nil => exact Iff.rfl
  | cons head rest ih => simp [ofList, ← ih]

end LayerSet
end FilterForest
