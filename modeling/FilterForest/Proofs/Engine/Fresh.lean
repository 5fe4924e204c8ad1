import FilterForest.Proofs.Engine.Cached

/-!
# Entries that are right

A cache may hold what it likes under other keys: an answer is right if the entry under its own key
is. This holds on a fresh engine for all snapshots, and keeps holding while only snapshots are
compiled that give the same where they have the same key. After calls with finite buffers it holds
for all snapshots with finite buffers.
-/
namespace FilterForest.Engine

/-- The outputs of layers, computed anew. -/
def computeEach (engine : Engine) (groups : Snapshot) (format : Format) (layers : List LayerId) :
    List (LayerId × Output) :=
  layers.filterMap fun layer =>
    (engine.compute groups layer format).result.map fun output => (layer, output)

/-- The cache has no entry for a result, or the result. -/
def IsRightAt (engine : Engine) (groups : Snapshot) (layer : LayerId) (format : Format) : Prop :=
  ∀ cache output, engine.cache = some cache →
    cache.find? (Cache.key groups layer format) = some output →
      output = (engine.compute groups layer format).result

variable {engine : Engine} {groups groups' : Snapshot} {layer layer' : LayerId}
variable {format format' : Format} {options : Options}

theorem compute_congr {engine' : Engine} (h : engine.options = engine'.options) :
    engine.compute groups layer format = engine'.compute groups layer format := by
  rw [compute, compute, predicate, predicate, h]

theorem compute_eq_of_compile
    (h : ∀ maxDepth, groups.compile layer maxDepth = groups'.compile layer maxDepth)
    (engine : Engine) (format : Format) :
    engine.compute groups layer format = engine.compute groups' layer format := by
  rw [compute, compute, predicate, predicate, h]

theorem computeEach_congr {engine' : Engine} (h : engine.options = engine'.options)
    (layers : List LayerId) :
    engine.computeEach groups format layers = engine'.computeEach groups format layers := by
  simp only [computeEach, compute_congr h]

section Options

variable (engine groups layer format)

theorem options_compileLayer :
    (engine.compileLayer groups layer format).engine.options = engine.options := by
  unfold compileLayer
  split
  · rfl
  · dsimp only
    split <;> rfl

theorem options_compileLayers (layers : List LayerId) :
    (compileLayers groups format layers engine).engine.options = engine.options := by
  induction layers generalizing engine with
  | nil => rfl
  | cons layer layers ih => rw [compileLayers, ih, options_compileLayer]

end Options

theorem compileLayers_of_none (h : engine.cache = none) (layers : List LayerId) :
    (compileLayers groups format layers engine).engine = engine := by
  induction layers with
  | nil => rfl
  | cons layer layers ih => rw [compileLayers, compileLayer_of_none h, ih]

theorem next_of_none (h : engine.cache = none) (call : Call) : engine.next call = engine := by
  cases call with
  | compile groups format => exact compileLayers_of_none h _
  | compileLayer groups layer format => rw [next, compileLayer_of_none h]
  | clear =>
    obtain ⟨options, cache⟩ := engine
    obtain rfl : cache = none := h
    rfl
  | predicate | get | size => rfl

theorem after_of_none (h : engine.cache = none) (calls : List Call) :
    engine.after calls = engine := by
  induction calls with
  | nil => rfl
  | cons call calls ih => rw [after, List.foldl_cons, next_of_none h, ← after, ih]

theorem isRightAt_ofOptions : (ofOptions options).IsRightAt groups layer format := by
  intro cache output hcache hfind
  unfold ofOptions at hcache
  split at hcache
  · rw [← Option.some.inj hcache, Cache.find?_empty] at hfind
    contradiction
  · contradiction

namespace IsRightAt

/-- An engine whose entry is right gives what it would compute anew. -/
theorem value_compileLayer (h : engine.IsRightAt groups layer format) :
    (engine.compileLayer groups layer format).value =
      (engine.compute groups layer format).result := by
  unfold compileLayer
  split
  · rfl
  · next cache hcache =>
    dsimp only
    split
    · next output hfind => exact h cache output hcache hfind
    · rfl

/-- Compiling another layer or another snapshot keeps an entry right, if what has the same key is
the same. -/
theorem compileLayer (h : engine.IsRightAt groups' layer' format')
    (hsame : Cache.key groups layer format = Cache.key groups' layer' format' →
      (engine.compute groups layer format).result =
        (engine.compute groups' layer' format').result) :
    (engine.compileLayer groups layer format).engine.IsRightAt groups' layer' format' := by
  intro cache' output' hcache' hfind'
  rw [compute_congr (engine.options_compileLayer groups layer format)]
  unfold Engine.compileLayer at hcache'
  split at hcache'
  · exact h cache' output' hcache' hfind'
  · next cache hcache =>
    dsimp only at hcache'
    split at hcache'
    · exact h cache' output' hcache' hfind'
    · rw [← Option.some.inj hcache'] at hfind'
      obtain ⟨hkey, rfl⟩ | hbefore := cache.find?_insert_eq_some hfind'
      · exact hsame hkey
      · exact h cache output' hcache hbefore

theorem compileLayers (h : engine.IsRightAt groups' layer format)
    (hsame : (engine.compute groups layer format).result =
      (engine.compute groups' layer format).result) (layers : List LayerId) :
    (compileLayers groups format layers engine).engine.IsRightAt groups' layer format := by
  induction layers generalizing engine with
  | nil => exact h
  | cons first layers ih =>
    rw [Engine.compileLayers]
    apply ih
    · apply h.compileLayer
      intro hkey
      obtain ⟨rfl, _, _⟩ := Cache.key_eq_iff.mp hkey
      exact hsame
    · have hoptions := engine.options_compileLayer groups first format
      rwa [compute_congr hoptions, compute_congr hoptions]

end IsRightAt

/-- An engine whose entries are right for all layers of a snapshot gives what it would compute. -/
theorem value_compileLayers (layers : List LayerId)
    (h : ∀ layer, engine.IsRightAt groups layer format) :
    (compileLayers groups format layers engine).value =
      engine.computeEach groups format layers := by
  induction layers generalizing engine with
  | nil => rfl
  | cons first layers ih =>
    have hnext : ∀ layer,
        (engine.compileLayer groups first format).engine.IsRightAt groups layer format := by
      intro layer
      apply (h layer).compileLayer
      intro hkey
      obtain ⟨rfl, _, _⟩ := Cache.key_eq_iff.mp hkey
      rfl
    rw [compileLayers, ih hnext, (h first).value_compileLayer,
      computeEach_congr (engine.options_compileLayer groups first format), computeEach, computeEach,
      List.filterMap_cons]
    cases (engine.compute groups first format).result <;> rfl

theorem value_compile (h : ∀ layer, engine.IsRightAt groups layer format) :
    (engine.compile groups format).value =
      engine.computeEach groups format groups.layers.toList :=
  value_compileLayers groups.layers.toList h

theorem Caches.isRightAt {reference : Engine} (hcaches : reference.Caches engine)
    (h : groups.HasFiniteBuffers) : engine.IsRightAt groups layer format := by
  intro cache output hcache hfind
  obtain ⟨sound, hsome, hsound⟩ := hcaches.sound
  obtain rfl := Option.some.inj (hcache.symm.trans hsome)
  rw [hcaches.compute_eq]
  exact hsound groups layer format output h hfind

/-- Whatever finite buffers an engine was given before, its entries are right for those to come. -/
theorem isRightAt_after {calls : List Call} (hcalls : ∀ call ∈ calls, call.HasFiniteBuffers)
    (h : groups.HasFiniteBuffers) :
    ((ofOptions options).after calls).IsRightAt groups layer format := by
  cases hcache : options.cache with
  | true => exact ((caches_ofOptions hcache).after rfl hcalls).isRightAt h
  | false =>
    have hnone : (ofOptions options).cache = none := by
      rw [ofOptions, hcache]
      rfl
    rw [after_of_none hnone]
    exact isRightAt_ofOptions

end FilterForest.Engine
