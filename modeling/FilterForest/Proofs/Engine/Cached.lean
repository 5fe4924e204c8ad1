import FilterForest.Engine
import FilterForest.Proofs.Engine.Key
import FilterForest.Proofs.Forest.Matching

/-!
# Answers of an engine with a cache

Calls on an engine come in any order, and the cache is filled, emptied and filled again. After all
of them an entry is what every result with its key is computed to. So an engine with a cache answers
like one without, as long as no buffer is infinite or NaN.
-/
namespace FilterForest

inductive Call
  | compile (groups : Snapshot) (format : Format)
  | compileLayer (groups : Snapshot) (layer : LayerId) (format : Format)
  | predicate (groups : Snapshot) (layer : LayerId)
  | get (key : String)
  | size
  | clear

/-- What a call answers. Only an engine with a cache has entries and a size. -/
inductive Answer
  | outputs (value : List (LayerId × Output))
  | output (value : Option Output)
  | predicate (value : Option Predicate)
  | entry (value : Option (Option (Option Output)))
  | size (value : Option ℕ)
  | cleared

namespace Call

def HasFiniteBuffers : Call → Prop
  | compile groups _ | compileLayer groups _ _ => groups.HasFiniteBuffers
  | predicate _ _ | get _ | size | clear => True

/-- The calls that answer with output. -/
def IsCompilation : Call → Prop
  | compile _ _ | compileLayer _ _ _ => True
  | predicate _ _ | get _ | size | clear => False

end Call

namespace Engine

/-- The answer of an engine to a call. -/
def answer (engine : Engine) : Call → Answer
  | .compile groups format => .outputs (engine.compile groups format).value
  | .compileLayer groups layer format => .output (engine.compileLayer groups layer format).value
  | .predicate groups layer => .predicate (engine.predicate groups layer).result
  | .get key => .entry (engine.cache.map (·.find? key))
  | .size => .size (engine.cache.map Cache.size)
  | .clear => .cleared

/-- The engine as a call leaves it. -/
def next (engine : Engine) : Call → Engine
  | .compile groups format => (engine.compile groups format).engine
  | .compileLayer groups layer format => (engine.compileLayer groups layer format).engine
  | .predicate _ _ | .get _ | .size => engine
  | .clear => engine.clearCache

/-- The engine as calls in turn leave it. -/
def after (engine : Engine) (calls : List Call) : Engine := calls.foldl next engine

/-- Calls in turn with their answers. -/
def transcript (engine : Engine) : List Call → List (Call × Answer)
  | [] => []
  | call :: rest => (call, engine.answer call) :: transcript (engine.next call) rest

/-- Every entry is what each result with its key is computed to. -/
def IsSound (engine : Engine) (cache : Cache) : Prop :=
  ∀ groups layer format output, groups.HasFiniteBuffers →
    cache.find? (Cache.key groups layer format) = some output →
      output = (engine.compute groups layer format).result

variable {engine reference : Engine} {cache : Cache}
variable {groups : Snapshot} {layer : LayerId} {format : Format}

theorem compute_applicable (engine : Engine) (groups : Snapshot) (layer : LayerId)
    (format : Format) :
    engine.compute (groups.applicable layer) layer format = engine.compute groups layer format := by
  rw [compute, compute, predicate, predicate, Snapshot.compile_applicable]

theorem result_compute : (engine.compute groups layer format).result =
    (engine.predicate groups layer).result.map (Output.render format) := by
  rw [compute, Traced.result_bind]
  cases (engine.predicate groups layer).result <;> rfl

theorem compute_eq_of_key {groups' : Snapshot} {layer' : LayerId} {format' : Format}
    (h : groups.HasFiniteBuffers) (h' : groups'.HasFiniteBuffers)
    (hkey : Cache.key groups layer format = Cache.key groups' layer' format') :
    engine.compute groups layer format = engine.compute groups' layer' format' := by
  obtain ⟨rfl, rfl, hgroups⟩ := Cache.key_inj h h' hkey
  rw [← compute_applicable engine groups, hgroups, compute_applicable]

theorem isSound_empty (engine : Engine) : engine.IsSound .empty := by
  intro groups layer format output _ hfind
  rw [Cache.find?_empty] at hfind
  contradiction

/-- An insertion keeps a cache sound, also the one that empties it first. -/
theorem IsSound.insert (hsound : engine.IsSound cache) (h : groups.HasFiniteBuffers) :
    engine.IsSound (cache.insert (Cache.key groups layer format)
      (engine.compute groups layer format).result) := by
  intro groups' layer' format' output h' hfind
  obtain ⟨hkey, rfl⟩ | hbefore := cache.find?_insert_eq_some hfind
  · rw [compute_eq_of_key h h' hkey]
  · exact hsound groups' layer' format' output h' hbefore

/-- An engine that compiles as deep as another and keeps a cache that is sound for it. -/
structure Caches (reference engine : Engine) : Prop where
  depth_eq : engine.options.maxGroupDepth = reference.options.maxGroupDepth
  sound : ∃ cache, engine.cache = some cache ∧ reference.IsSound cache

theorem Caches.compute_eq (h : reference.Caches engine) :
    engine.compute groups layer format = reference.compute groups layer format := by
  rw [compute, compute, predicate, predicate, h.depth_eq]

theorem compileLayer_of_none (h : engine.cache = none) : engine.compileLayer groups layer format =
    ⟨(engine.compute groups layer format).result, engine,
      (engine.compute groups layer format).events⟩ := by
  unfold compileLayer
  simp only [h]

/-- What compiling one layer does to an engine with a sound cache. -/
theorem Caches.compileLayer (hcaches : reference.Caches engine) (h : groups.HasFiniteBuffers)
    (layer : LayerId) (format : Format) :
    (engine.compileLayer groups layer format).value =
        (reference.compute groups layer format).result ∧
      reference.Caches (engine.compileLayer groups layer format).engine ∧
      (engine.compileLayer groups layer format).engine.cache.map
          (·.find? (Cache.key groups layer format)) =
        some (some (reference.compute groups layer format).result) := by
  obtain ⟨cache, hcache, hsound⟩ := hcaches.sound
  unfold Engine.compileLayer
  simp only [hcache, hcaches.compute_eq]
  cases hfind : cache.find? (Cache.key groups layer format) with
  | some output =>
    have houtput := hsound groups layer format output h hfind
    exact ⟨houtput, hcaches, by simp only [hcache, Option.map_some, hfind, houtput]⟩
  | none =>
    refine ⟨rfl, ⟨hcaches.depth_eq, _, rfl, hsound.insert h⟩, ?_⟩
    simp only [Option.map_some, Cache.find?_insert_self]

/-- Compiling layers in turn fills the cache, and answers as if there were none. -/
theorem Caches.compileLayers (hnone : reference.cache = none) (h : groups.HasFiniteBuffers)
    (layers : List LayerId) (hcaches : reference.Caches engine) :
    (compileLayers groups format layers engine).value =
        (Engine.compileLayers groups format layers reference).value ∧
      reference.Caches (Engine.compileLayers groups format layers engine).engine := by
  induction layers generalizing engine with
  | nil => exact ⟨rfl, hcaches⟩
  | cons layer layers ih =>
    obtain ⟨hvalue, hnext, _⟩ := hcaches.compileLayer h layer format
    obtain ⟨hrest, hlast⟩ := ih hnext
    simp only [Engine.compileLayers, compileLayer_of_none hnone]
    exact ⟨by rw [hvalue, hrest], hlast⟩

theorem Caches.next (hnone : reference.cache = none) (hcaches : reference.Caches engine)
    {call : Call} (h : call.HasFiniteBuffers) : reference.Caches (engine.next call) := by
  cases call with
  | compile groups format => exact (hcaches.compileLayers hnone h groups.layers.toList).2
  | compileLayer groups layer format => exact (hcaches.compileLayer h layer format).2.1
  | clear =>
    obtain ⟨cache, hcache, _⟩ := hcaches.sound
    refine ⟨hcaches.depth_eq, .empty, ?_, isSound_empty reference⟩
    rw [Engine.next, clearCache, hcache, Option.map_some]
  | predicate groups layer => exact hcaches
  | get key => exact hcaches
  | size => exact hcaches

/-- A sound cache does not show in the answer to a compilation. -/
theorem Caches.answer (hnone : reference.cache = none) (hcaches : reference.Caches engine)
    {call : Call} (h : call.HasFiniteBuffers) (hcompilation : call.IsCompilation) :
    engine.answer call = reference.answer call := by
  cases call with
  | compile groups format =>
    exact congrArg Answer.outputs (hcaches.compileLayers hnone h groups.layers.toList).1
  | compileLayer groups layer format =>
    rw [Engine.answer, Engine.answer, (hcaches.compileLayer h layer format).1,
      compileLayer_of_none hnone]
  | predicate groups layer => contradiction
  | get key => contradiction
  | size => contradiction
  | clear => contradiction

theorem Caches.after (hnone : reference.cache = none) {calls : List Call}
    (h : ∀ call ∈ calls, call.HasFiniteBuffers) (hcaches : reference.Caches engine) :
    reference.Caches (engine.after calls) := by
  induction calls generalizing engine with
  | nil => exact hcaches
  | cons call calls ih =>
    obtain ⟨hcall, hcalls⟩ := List.forall_mem_cons.mp h
    exact ih hcalls (hcaches.next hnone hcall)

theorem Caches.transcript (hnone : reference.cache = none) {calls : List Call}
    (h : ∀ call ∈ calls, call.HasFiniteBuffers) (hcaches : reference.Caches engine) :
    ∀ entry ∈ engine.transcript calls, entry.1.IsCompilation →
      entry.2 = reference.answer entry.1 := by
  induction calls generalizing engine with
  | nil => exact fun entry hentry => nomatch hentry
  | cons call calls ih =>
    obtain ⟨hcall, hcalls⟩ := List.forall_mem_cons.mp h
    intro entry hentry hcompilation
    rcases List.mem_cons.mp hentry with rfl | hrest
    · exact hcaches.answer hnone hcall hcompilation
    · exact ih hcalls (hcaches.next hnone hcall) entry hrest hcompilation

theorem caches_ofOptions {options : Options} (hcache : options.cache = true) :
    (ofOptions { options with cache := false }).Caches (ofOptions options) where
  depth_eq := rfl
  sound := by
    refine ⟨.empty, ?_, isSound_empty _⟩
    rw [ofOptions, if_pos hcache]

theorem after_append (engine : Engine) (calls calls' : List Call) :
    engine.after (calls ++ calls') = (engine.after calls).after calls' :=
  List.foldl_append

/-- Whatever calls an engine with a cache is given, it answers every compilation like the engine
without one, and right after a layer is compiled its cache has the answer. -/
theorem transcript_eq_uncached {options : Options} (hcache : options.cache = true)
    {calls : List Call} (hcalls : ∀ call ∈ calls, call.HasFiniteBuffers) :
    (∀ entry ∈ (ofOptions options).transcript calls, entry.1.IsCompilation →
      entry.2 = (ofOptions { options with cache := false }).answer entry.1) ∧
    ∀ before groups layer format, before ++ [.compileLayer groups layer format] <+: calls →
      ∃ output,
        ((ofOptions options).after before).answer (.compileLayer groups layer format) =
          .output output ∧
        ((ofOptions options).after (before ++ [.compileLayer groups layer format])).answer
          (.get (Cache.key groups layer format)) = .entry (some (some output)) := by
  have hcaches := caches_ofOptions hcache
  have hnone : (ofOptions { options with cache := false }).cache = none := rfl
  refine ⟨hcaches.transcript hnone hcalls, ?_⟩
  intro before groups layer format hinit
  have hbefore : ∀ call ∈ before, call.HasFiniteBuffers :=
    fun call hcall => hcalls call (hinit.subset (List.mem_append_left _ hcall))
  have hgroups : groups.HasFiniteBuffers :=
    hcalls _ (hinit.subset (List.mem_append_right _ List.mem_cons_self))
  obtain ⟨hvalue, _, hfind⟩ := (hcaches.after hnone hbefore).compileLayer hgroups layer format
  refine ⟨_, rfl, ?_⟩
  rw [after_append, hvalue]
  exact congrArg Answer.entry hfind

/-- A group with one spatial filter, whose buffer is zero. -/
def nearby : Snapshot :=
  [⟨"a", .ofList [1], [⟨"near", false, .spatial ⟨[⟨1, ["geom"]⟩], [⟨"here", "POINT(1 2)"⟩],
    some .zero⟩⟩], .and, none⟩]

/-- Calls that fill a cache, look into it, empty it and fill it again. -/
def nearbyCalls : List Call :=
  [.compileLayer nearby 1 .cql, .get (Cache.key nearby 1 .cql), .size, .compile nearby .cql, .clear,
    .predicate nearby 1, .compile nearby .cql2Json]

theorem hasFiniteBuffers_nearby : nearby.HasFiniteBuffers := by
  simp [nearby, Snapshot.HasFiniteBuffers, Filter.HasFiniteBuffer, SpatialFilter.HasFiniteBuffer,
    Binary64.zero, Binary64.isFinite]

theorem transcript_nearbyCalls :
    (∀ entry ∈ (ofOptions ⟨3, true, true⟩).transcript nearbyCalls, entry.1.IsCompilation →
      entry.2 = (ofOptions ⟨3, true, false⟩).answer entry.1) ∧
    ∃ output,
      (ofOptions ⟨3, true, true⟩).answer (.compileLayer nearby 1 .cql) = .output output ∧
      ((ofOptions ⟨3, true, true⟩).next (.compileLayer nearby 1 .cql)).answer
        (.get (Cache.key nearby 1 .cql)) = .entry (some (some output)) := by
  have hcalls : ∀ call ∈ nearbyCalls, call.HasFiniteBuffers := by
    simp [nearbyCalls, Call.HasFiniteBuffers, hasFiniteBuffers_nearby]
  have hcache : (⟨3, true, true⟩ : Options).cache = true := rfl
  obtain ⟨hanswers, hfind⟩ := transcript_eq_uncached hcache hcalls
  exact ⟨hanswers, hfind [] nearby 1 .cql (List.prefix_append _ _)⟩

end Engine
end FilterForest
