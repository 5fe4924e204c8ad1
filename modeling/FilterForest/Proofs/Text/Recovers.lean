import FilterForest.Geometry
import Mathlib.Data.List.Forall2

/-!
# Reading what was written

Some values read back from their text as equal ones, and the text of the others does not read. Where
this holds of the elements of a list and the reader goes through the list, it holds of the list.
-/
namespace FilterForest

/-- What came of reading the text of a value: one equal to it if it can be read, else nothing. -/
def Recovers {α : Type} (same : α → α → Bool) (readable : Prop) (a : α) : Option α → Prop
  | some b => readable ∧ same b a = true
  | none => ¬ readable

/-- A list that is not empty, with all elements of a kind. -/
def Filled {α : Type} (p : α → Prop) (as : List α) : Prop := as ≠ [] ∧ ∀ a ∈ as, p a

variable {α β : Type} {same : α → α → Bool} {readable : α → Prop} {read : β → Option α}

theorem Recovers.exists_same {p : Prop} {a : α} {result : Option α}
    (h : Recovers same p a result) (hp : p) : ∃ b, result = some b ∧ same b a = true := by
  cases result with
  | none => exact absurd hp h
  | some b => exact ⟨b, rfl, h.2⟩

theorem Recovers.map {same' : β → β → Bool} {p : Prop} {f : α → β} {a : α} {result : Option α}
    (h : Recovers same p a result) (hsame : ∀ b, same' (f b) (f a) = same b a) :
    Recovers same' p (f a) (result.map f) := by
  cases result with
  | none => exact h
  | some b => exact ⟨h.1, (hsame b).trans h.2⟩

/-- Lists are read element by element, and one that does not read is enough for none. -/
theorem recovers_mapM {write : α → β} (as : List α)
    (h : ∀ a ∈ as, Recovers same (readable a) a (read (write a))) :
    Recovers (sameList same) (∀ a ∈ as, readable a) as (as.mapM fun a => read (write a)) := by
  induction as with
  | nil => exact ⟨by simp, rfl⟩
  | cons a as ih =>
    obtain ⟨hfirst, hothers⟩ := List.forall_mem_cons.mp h
    have hrest := ih hothers
    rw [List.mapM_cons]
    cases hread : read (write a) with
    | none =>
      rw [hread] at hfirst
      exact fun hall => hfirst (hall a List.mem_cons_self)
    | some b =>
      rw [hread] at hfirst
      cases hreads : as.mapM fun a => read (write a) with
      | none =>
        rw [hreads] at hrest
        exact fun hall => hrest fun c hc => hall c (List.mem_cons_of_mem _ hc)
      | some bs =>
        rw [hreads] at hrest
        exact ⟨List.forall_mem_cons.mpr ⟨hfirst.1, hrest.1⟩,
          Bool.and_eq_true_iff.mpr ⟨hfirst.2, hrest.2⟩⟩

theorem mapM_eq_some_iff_forall₂ {bs : List β} {as : List α} :
    bs.mapM read = some as ↔ List.Forall₂ (fun b a => read b = some a) bs as := by
  constructor
  · intro h
    induction bs generalizing as with
    | nil =>
      obtain rfl := Option.some.inj h
      exact .nil
    | cons b bs ih =>
      rw [List.mapM_cons] at h
      obtain ⟨first, hfirst, h⟩ := Option.bind_eq_some_iff.mp h
      obtain ⟨others, hothers, h⟩ := Option.bind_eq_some_iff.mp h
      obtain rfl := Option.some.inj h
      exact .cons hfirst (ih hothers)
  · intro h
    induction h with
    | nil => rfl
    | cons hfirst _ ih =>
      rw [List.mapM_cons, hfirst, ih]
      rfl

theorem mapM_map_eq_some {write : α → β} {as : List α}
    (h : ∀ a ∈ as, read (write a) = some a) : (as.map write).mapM read = some as := by
  induction as with
  | nil => rfl
  | cons a as ih =>
    obtain ⟨hfirst, hothers⟩ := List.forall_mem_cons.mp h
    rw [List.map_cons, List.mapM_cons, hfirst, ih hothers]
    rfl

theorem exists_of_mem_mapM {bs : List β} {as : List α} {a : α} (h : bs.mapM read = some as)
    (ha : a ∈ as) : ∃ b ∈ bs, read b = some a := by
  rw [mapM_eq_some_iff_forall₂] at h
  induction h with
  | nil => contradiction
  | cons hfirst _ ih =>
    rcases List.mem_cons.mp ha with rfl | ha
    · exact ⟨_, List.mem_cons_self, hfirst⟩
    · obtain ⟨b, hb, hread⟩ := ih ha
      exact ⟨b, List.mem_cons_of_mem _ hb, hread⟩

theorem isEmpty_eq_of_sameList {as bs : List α} (h : sameList same bs as = true) :
    bs.isEmpty = as.isEmpty := by
  cases as with
  | nil => cases bs <;> first | rfl | contradiction
  | cons a as => cases bs <;> first | rfl | contradiction

theorem Recovers.filled {as : List α} {result : Option (List α)}
    (h : Recovers (sameList same) (∀ a ∈ as, readable a) as result) :
    Recovers (sameList same) (Filled readable as) as (result.filter fun bs => !bs.isEmpty) := by
  cases result with
  | none => exact fun hfilled => h hfilled.2
  | some bs =>
    obtain ⟨hall, hsame⟩ := h
    have hempty := isEmpty_eq_of_sameList hsame
    cases as with
    | nil =>
      rw [Option.filter_some, hempty]
      exact fun hfilled => hfilled.1 rfl
    | cons a as =>
      rw [Option.filter_some, hempty]
      exact ⟨⟨List.cons_ne_nil _ _, hall⟩, hsame⟩

end FilterForest
