import FilterForest.Predicate
import Mathlib.Data.List.Nodup

/-!
# Walking a predicate

A place in a predicate is the list of the numbers of the arguments to go to, from the top down. In
the order of lists a place comes before all places below it, and what is below an argument before
what is below a later one. A walk visits the nodes in this order of their places, each place once,
and it visits as many nodes as the predicate has.
-/
namespace FilterForest
namespace Predicate

/-- The arguments of a node, from left to right. -/
def args : Predicate → List Predicate
  | junction _ args => args
  | not arg => [arg]
  | atom _ _ => []

def at? (p : Predicate) : List ℕ → Option Predicate
  | [] => some p
  | i :: below => p.args[i]?.bind fun arg => arg.at? below

/-- The nodes of an argument of that number, at their places in the whole. -/
def underArg (i : ℕ) (entries : List (List ℕ × Predicate)) : List (List ℕ × Predicate) :=
  entries.map (Prod.map (i :: ·) id)

@[simp] theorem map_fst_underArg (i : ℕ) (entries : List (List ℕ × Predicate)) :
    (underArg i entries).map Prod.fst = (entries.map Prod.fst).map (i :: ·) := by
  simp [underArg]

@[simp] theorem map_snd_underArg (i : ℕ) (entries : List (List ℕ × Predicate)) :
    (underArg i entries).map Prod.snd = entries.map Prod.snd := by
  simp [underArg]

mutual

/-- The nodes with their places, in the order of a walk. -/
def located : Predicate → List (List ℕ × Predicate)
  | junction operator args => ([], junction operator args) :: locatedFrom 0 args
  | not arg => ([], not arg) :: underArg 0 (located arg)
  | atom property test => [([], atom property test)]

/-- The nodes of arguments, the first of which has the number `i`. -/
def locatedFrom (i : ℕ) : List Predicate → List (List ℕ × Predicate)
  | [] => []
  | arg :: rest => underArg i (located arg) ++ locatedFrom (i + 1) rest

end

section

variable {σ : Type*} (visit : σ → Predicate → σ)

mutual

/-- Shows a visitor a node, and then all nodes of its arguments. -/
def walk : Predicate → σ → σ
  | junction operator args, state => walkEach args (visit state (junction operator args))
  | not arg, state => walk arg (visit state (not arg))
  | atom property test, state => visit state (atom property test)

def walkEach : List Predicate → σ → σ
  | [], state => state
  | arg :: rest, state => walkEach rest (walk arg state)

end

mutual

theorem walk_eq_foldl : ∀ (p : Predicate) (state : σ),
    p.walk visit state = p.nodes.foldl visit state
  | junction operator args, state => by
    rw [walk, nodes, List.foldl_cons, walkEach_eq_foldl args]
  | not arg, state => by rw [walk, nodes, List.foldl_cons, walk_eq_foldl arg]
  | atom property test, state => rfl

theorem walkEach_eq_foldl : ∀ (args : List Predicate) (state : σ),
    walkEach visit args state = (nodesOfArgs args).foldl visit state
  | [], state => rfl
  | arg :: rest, state => by
    rw [walkEach, nodesOfArgs, List.foldl_append, walk_eq_foldl arg, walkEach_eq_foldl rest]

end

end

theorem nodesOfArgs_eq_flatMap (args : List Predicate) :
    nodesOfArgs args = args.flatMap nodes := by
  induction args with
  | nil => rfl
  | cons arg rest ih => rw [nodesOfArgs, ih, List.flatMap_cons]

mutual

theorem length_nodes : ∀ p : Predicate, p.nodes.length = p.size
  | junction operator args => by
    rw [nodes, size, List.length_cons, length_nodesOfArgs args, Nat.add_comm]
  | not arg => by rw [nodes, size, List.length_cons, length_nodes arg, Nat.add_comm]
  | atom property test => rfl

theorem length_nodesOfArgs : ∀ args : List Predicate,
    (nodesOfArgs args).length = sizeOfArgs args
  | [] => rfl
  | arg :: rest => by
    rw [nodesOfArgs, sizeOfArgs, List.length_append, length_nodes arg, length_nodesOfArgs rest]

end

mutual

theorem map_snd_located : ∀ p : Predicate, p.located.map Prod.snd = p.nodes
  | junction operator args => by
    rw [located, nodes, List.map_cons, map_snd_locatedFrom 0 args]
  | not arg => by rw [located, nodes, List.map_cons, map_snd_underArg, map_snd_located arg]
  | atom property test => rfl

theorem map_snd_locatedFrom : ∀ (i : ℕ) (args : List Predicate),
    (locatedFrom i args).map Prod.snd = nodesOfArgs args
  | _, [] => rfl
  | i, arg :: rest => by
    rw [locatedFrom, nodesOfArgs, List.map_append, map_snd_underArg, map_snd_located arg,
      map_snd_locatedFrom (i + 1) rest]

end

theorem located_eq (p : Predicate) : p.located = ([], p) :: locatedFrom 0 p.args := by
  cases p with
  | junction operator args => rfl
  | not arg => rw [located, args, locatedFrom, locatedFrom, List.append_nil]
  | atom property test => rfl

mutual

/-- A fact holds of all predicates if a node has it whenever all its arguments have it. -/
theorem induction_on_args {motive : Predicate → Prop}
    (step : ∀ p : Predicate, (∀ arg ∈ p.args, motive arg) → motive p) : ∀ p : Predicate, motive p
  | junction _ args => step _ (forall_mem_args step args)
  | not arg => step _ (List.forall_mem_singleton.mpr (induction_on_args step arg))
  | atom _ _ => step _ (List.forall_mem_nil _)

theorem forall_mem_args {motive : Predicate → Prop}
    (step : ∀ p : Predicate, (∀ arg ∈ p.args, motive arg) → motive p) :
    ∀ args : List Predicate, ∀ arg ∈ args, motive arg
  | [] => List.forall_mem_nil _
  | arg :: rest => List.forall_mem_cons.mpr ⟨induction_on_args step arg, forall_mem_args step rest⟩

end

variable {first : ℕ} {args : List Predicate}

theorem mem_locatedFrom {place : List ℕ} {node : Predicate} :
    (place, node) ∈ locatedFrom first args ↔ ∃ i below arg,
      place = (first + i) :: below ∧ args[i]? = some arg ∧ (below, node) ∈ arg.located := by
  induction args generalizing first with
  | nil => simp [locatedFrom]
  | cons head rest ih =>
    rw [locatedFrom, List.mem_append, ih]
    constructor
    · rintro (hhead | ⟨i, below, arg, rfl, harg, hnode⟩)
      · obtain ⟨⟨below, node⟩, hnode, heq⟩ := List.mem_map.mp hhead
        obtain ⟨rfl, rfl⟩ := Prod.mk.inj heq
        exact ⟨0, below, head, rfl, rfl, hnode⟩
      · exact ⟨i + 1, below, arg, by rw [Nat.add_right_comm, Nat.add_assoc], harg, hnode⟩
    · rintro ⟨i, below, arg, rfl, harg, hnode⟩
      cases i with
      | zero =>
        obtain rfl := Option.some.inj harg
        exact .inl (List.mem_map.mpr ⟨(below, node), hnode, rfl⟩)
      | succ i =>
        exact .inr ⟨i, below, arg, by rw [Nat.add_right_comm, Nat.add_assoc], harg, hnode⟩

/-- The walk comes to exactly the places there are. -/
theorem mem_located (p : Predicate) : ∀ place node,
    (place, node) ∈ p.located ↔ p.at? place = some node := by
  induction p using induction_on_args with
  | step p ih =>
    intro place node
    rw [located_eq, List.mem_cons, mem_locatedFrom]
    cases place with
    | nil => simp [at?, eq_comm]
    | cons i below =>
      -- The place is not the top, so it is below the argument of its first number.
      rw [at?, Option.bind_eq_some_iff]
      constructor
      · rintro (htop | ⟨_, _, arg, heq, harg, hnode⟩)
        · exact nomatch (Prod.mk.inj htop).1
        · obtain ⟨rfl, rfl⟩ := List.cons.inj heq
          rw [Nat.zero_add]
          exact ⟨arg, harg, (ih arg (List.mem_of_getElem? harg) _ _).mp hnode⟩
      · rintro ⟨arg, harg, hnode⟩
        refine .inr ⟨i, below, arg, by rw [Nat.zero_add], harg, ?_⟩
        exact (ih arg (List.mem_of_getElem? harg) _ _).mpr hnode

theorem pairwise_places_locatedFrom
    (h : ∀ arg ∈ args, (arg.located.map Prod.fst).Pairwise (· < ·)) :
    ((locatedFrom first args).map Prod.fst).Pairwise (· < ·) := by
  induction args generalizing first with
  | nil => exact .nil
  | cons arg rest ih =>
    obtain ⟨harg, hrest⟩ := List.forall_mem_cons.mp h
    rw [locatedFrom, List.map_append, List.pairwise_append]
    -- Below one argument the order is that of its places, and later arguments have greater numbers.
    refine ⟨?_, ih hrest, ?_⟩
    · rw [map_fst_underArg, List.pairwise_map]
      exact harg.imp fun hlt => List.cons_lt_cons_iff.mpr (.inr ⟨rfl, hlt⟩)
    · intro place hplace later hlater
      rw [map_fst_underArg] at hplace
      obtain ⟨below, -, rfl⟩ := List.mem_map.mp hplace
      obtain ⟨⟨later, node⟩, hnode, rfl⟩ := List.mem_map.mp hlater
      obtain ⟨i, other, arg, rfl, -, -⟩ := mem_locatedFrom.mp hnode
      exact List.cons_lt_cons_iff.mpr (.inl (by omega))

/-- A walk comes to the places in ascending order. -/
theorem pairwise_places (p : Predicate) : (p.located.map Prod.fst).Pairwise (· < ·) := by
  induction p using induction_on_args with
  | step p ih =>
    rw [located_eq, List.map_cons, List.pairwise_cons]
    refine ⟨?_, pairwise_places_locatedFrom ih⟩
    intro place hplace
    obtain ⟨⟨place, node⟩, hnode, rfl⟩ := List.mem_map.mp hplace
    obtain ⟨i, below, arg, rfl, -, -⟩ := mem_locatedFrom.mp hnode
    exact List.nil_lt_cons _ _

end Predicate
end FilterForest
