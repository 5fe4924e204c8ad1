import FilterForest.Event

/-!
# Traced results

A result that may be missing, with the events that led to it. A step that has no result ends a
sequence of steps, but the events up to it are kept; steps that do not depend on one another are
collected, and each that fails leaves only its events.
-/

namespace FilterForest

structure Traced (α : Type) where
  result : Option α
  events : List Event

namespace Traced

variable {α β : Type}

protected def pure (a : α) : Traced α := ⟨some a, []⟩

def nothing : Traced α := ⟨none, []⟩

def dropped (e : Event) : Traced α := ⟨none, [e]⟩

def ofOption (result : Option α) : Traced α := ⟨result, []⟩

/-- A result, or a report that there is none. -/
def orDrop (result : Option α) (e : Event) : Traced α :=
  match result with
  | some a => .pure a
  | none => dropped e

def log (events : List Event) : Traced Unit := ⟨some (), events⟩

protected def bind (t : Traced α) (next : α → Traced β) : Traced β :=
  match t.result with
  | some a => ⟨(next a).result, t.events ++ (next a).events⟩
  | none => ⟨none, t.events⟩

instance : Monad Traced where
  pure := Traced.pure
  bind := Traced.bind

def collect (steps : List (Traced α)) : Traced (List α) :=
  ⟨some (steps.filterMap Traced.result), steps.flatMap Traced.events⟩

@[simp] theorem result_pure (a : α) : (pure a : Traced α).result = some a := rfl

@[simp] theorem events_pure (a : α) : (pure a : Traced α).events = [] := rfl

@[simp] theorem result_nothing : (nothing : Traced α).result = none := rfl

@[simp] theorem events_nothing : (nothing : Traced α).events = [] := rfl

@[simp] theorem result_dropped (e : Event) : (dropped e : Traced α).result = none := rfl

@[simp] theorem events_dropped (e : Event) : (dropped e : Traced α).events = [e] := rfl

@[simp] theorem result_ofOption (result : Option α) : (ofOption result).result = result := rfl

@[simp] theorem events_ofOption (result : Option α) : (ofOption result).events = [] := rfl

@[simp] theorem result_orDrop (result : Option α) (e : Event) :
    (orDrop result e).result = result := by
  cases result <;> rfl

@[simp] theorem result_log (events : List Event) : (log events).result = some () := rfl

@[simp] theorem events_log (events : List Event) : (log events).events = events := rfl

@[simp] theorem result_bind (t : Traced α) (next : α → Traced β) :
    (t >>= next).result = t.result.bind fun a => (next a).result := by
  simp only [bind, Traced.bind]
  split <;> simp [*]

theorem events_bind_of_some {t : Traced α} {a : α} (next : α → Traced β) (h : t.result = some a) :
    (t >>= next).events = t.events ++ (next a).events := by
  simp [bind, Traced.bind, h]

theorem events_bind_of_none {t : Traced α} (next : α → Traced β) (h : t.result = none) :
    (t >>= next).events = t.events := by
  simp [bind, Traced.bind, h]

theorem mem_events_bind {t : Traced α} {next : α → Traced β} {e : Event} (h : e ∈ t.events) :
    e ∈ (t >>= next).events := by
  cases hresult : t.result with
  | none => rwa [events_bind_of_none next hresult]
  | some a =>
    rw [events_bind_of_some next hresult]
    exact List.mem_append_left _ h

@[simp] theorem result_collect (steps : List (Traced α)) :
    (collect steps).result = some (steps.filterMap Traced.result) := rfl

@[simp] theorem events_collect (steps : List (Traced α)) :
    (collect steps).events = steps.flatMap Traced.events := rfl

end Traced
end FilterForest
