import FilterForest.Engine.Cache
import Mathlib.Data.List.Induction
import Mathlib.Data.List.Nodup

/-!
# Histories of a cache

What a cache holds after insertions, lookups and clearings in any order. It never holds more than
its capacity, it answers with the last value that was inserted under a key, and an entry is lost in
two ways only: the cache is cleared, or something is inserted into a full cache.
-/
namespace FilterForest
namespace Cache

inductive Operation
  | insert (key : String) (value : Option Output)
  | find (key : String)
  | size
  | clear

/-- Whether an operation leaves what was inserted under a key as the last under it. -/
def Operation.Spares (key : String) : Operation → Prop
  | insert other _ => other ≠ key
  | find _ | size => True
  | clear => False

/-- A cache as an operation leaves it. -/
def perform (cache : Cache) : Operation → Cache
  | .insert key value => cache.insert key value
  | .find _ | .size => cache
  | .clear => .empty

/-- A new cache after operations in turn. -/
def ofHistory (history : List Operation) : Cache := history.foldl perform .empty

theorem ofHistory_concat (history : List Operation) (op : Operation) :
    ofHistory (history ++ [op]) = (ofHistory history).perform op :=
  List.foldl_concat ..

/-- Nothing that happened before a cache was cleared shows in it. -/
theorem ofHistory_clear (history since : List Operation) :
    ofHistory (history ++ .clear :: since) = ofHistory since := by
  rw [ofHistory, List.foldl_append, List.foldl_cons]
  rfl

variable {cache : Cache} {key : String} {value : Option Output}

theorem find?_eq_some_iff : cache.find? key = some value ↔ (key, value) ∈ cache.entries := by
  constructor
  · intro h
    obtain ⟨entry, hentry, rfl⟩ := Option.map_eq_some_iff.mp h
    obtain rfl : entry.1 = key := by simpa using List.find?_some hentry
    exact List.mem_of_find?_eq_some hentry
  · intro h
    cases hentry : cache.entries.find? fun entry => entry.1 = key with
    | none => simpa using List.find?_eq_none.mp hentry _ h
    | some entry =>
      have hkey : entry.1 = key := by simpa using List.find?_some hentry
      have heq : entry = (key, value) :=
        List.inj_on_of_nodup_map cache.nodup_keys (List.mem_of_find?_eq_some hentry) h hkey
      rw [find?, hentry, heq, Option.map_some]

theorem entries_insert_of_full (hfull : capacity ≤ cache.size) (key : String)
    (value : Option Output) : (cache.insert key value).entries = [(key, value)] := by
  rw [insert, dif_pos hfull]

theorem entries_insert_of_new (hroom : cache.size < capacity)
    (hnew : key ∉ cache.entries.map Prod.fst) (value : Option Output) :
    (cache.insert key value).entries = (key, value) :: cache.entries := by
  have hwithout : cache.without key = cache.entries := by
    refine List.filter_eq_self.mpr fun entry hentry => ?_
    simp only [ne_eq, decide_not, Bool.not_eq_true', decide_eq_false_iff_not]
    rintro rfl
    exact hnew (List.mem_map_of_mem hentry)
  simp only [insert, dif_neg (Nat.not_le.mpr hroom), hwithout]

/-- Entries with different keys are all kept, up to the capacity. -/
theorem entries_ofHistory_insertions {entries : List (String × Option Output)}
    (hkeys : (entries.map Prod.fst).Nodup) (hroom : entries.length ≤ capacity) :
    (ofHistory (entries.map fun entry => .insert entry.1 entry.2)).entries = entries.reverse := by
  induction entries using List.reverseRecOn with
  | nil => rfl
  | append_singleton entries entry ih =>
    rw [List.map_append, List.nodup_append'] at hkeys
    rw [List.length_append, List.length_singleton] at hroom
    have hbefore := ih hkeys.1 (by omega)
    have hsize :
        (ofHistory (entries.map fun entry => .insert entry.1 entry.2)).size < capacity := by
      rw [size, hbefore, List.length_reverse]
      omega
    have hnew : entry.1 ∉ (entries.reverse).map Prod.fst := by
      rw [List.map_reverse, List.mem_reverse]
      exact fun hmem => hkeys.2.2 hmem List.mem_cons_self
    rw [List.map_append, List.map_singleton, ofHistory_concat, perform,
      entries_insert_of_new hsize (hbefore ▸ hnew), hbefore, List.reverse_concat]

/-- What is found after an operation was just inserted, or was there before and is still the last
under its key. -/
theorem find?_perform_eq_some {op : Operation} (h : (cache.perform op).find? key = some value) :
    op = .insert key value ∨ cache.find? key = some value ∧ op.Spares key := by
  cases op with
  | insert other inserted =>
    by_cases hkey : other = key
    · subst hkey
      rw [perform, find?_insert_self] at h
      exact .inl (by rw [Option.some.inj h])
    · obtain ⟨heq, -⟩ | hbefore := cache.find?_insert_eq_some h
      · exact absurd heq hkey
      · exact .inr ⟨hbefore, hkey⟩
  | find other => exact .inr ⟨h, trivial⟩
  | size => exact .inr ⟨h, trivial⟩
  | clear => contradiction

theorem eq_clear_or_full_of_lost {op : Operation} (h : cache.find? key = some value)
    (hlost : (cache.perform op).find? key = none) :
    op = .clear ∨ ∃ other inserted, op = .insert other inserted ∧ capacity ≤ cache.size := by
  cases op with
  | insert other inserted =>
    refine .inr ⟨other, inserted, rfl, ?_⟩
    by_contra hroom
    by_cases hkey : other = key
    · rw [hkey, perform, find?_insert_self] at hlost
      contradiction
    · rw [perform, cache.find?_insert_of_ne inserted hkey (Nat.not_le.mp hroom), h] at hlost
      contradiction
  | find other => rw [perform, h] at hlost; contradiction
  | size => rw [perform, h] at hlost; contradiction
  | clear => exact .inl rfl

/-- What is found after a history is the last value that was inserted under the key, and the cache
was not cleared since. -/
theorem exists_insert_of_find?_ofHistory {history : List Operation}
    (h : (ofHistory history).find? key = some value) :
    ∃ before since, history = before ++ .insert key value :: since ∧
      ∀ op ∈ since, op.Spares key := by
  induction history using List.reverseRecOn with
  | nil => contradiction
  | append_singleton history op ih =>
    rw [ofHistory_concat] at h
    rcases find?_perform_eq_some h with rfl | ⟨hbefore, hspares⟩
    · exact ⟨history, [], rfl, List.forall_mem_nil _⟩
    · obtain ⟨before, since, rfl, hsince⟩ := ih hbefore
      refine ⟨before, since ++ [op], by simp, ?_⟩
      exact List.forall_mem_append.mpr ⟨hsince, List.forall_mem_singleton.mpr hspares⟩

/-- After any history a cache has at most 1024 entries, and what it finds under a key is the last
value inserted under it, with no clearing since. Right after an insertion its value is found. An
entry is lost only when the cache is cleared, or by an insertion when there are 1024 entries, and
such an insertion leaves nothing but what it inserted. -/
theorem ofHistory_remembers_last (history : List Operation) :
    (ofHistory history).size ≤ 1024 ∧
    (∀ key value, (ofHistory history).find? key = some value →
      ∃ before since, history = before ++ .insert key value :: since ∧
        ∀ op ∈ since, op.Spares key) ∧
    (∀ key value, (ofHistory (history ++ [.insert key value])).find? key = some value) ∧
    (∀ key value op, (ofHistory history).find? key = some value →
      (ofHistory (history ++ [op])).find? key = none →
        op = .clear ∨ ∃ other inserted, op = .insert other inserted ∧
          (ofHistory history).size = 1024) ∧
    ((ofHistory history).size = 1024 → ∀ key value,
      (ofHistory (history ++ [.insert key value])).entries = [(key, value)]) := by
  have hsize : (ofHistory history).size ≤ 1024 := (ofHistory history).length_le
  refine ⟨hsize, fun key value => exists_insert_of_find?_ofHistory, ?_, ?_, ?_⟩
  · intro key value
    rw [ofHistory_concat, perform, find?_insert_self]
  · intro key value op h hlost
    rw [ofHistory_concat] at hlost
    obtain rfl | ⟨other, inserted, rfl, hfull⟩ := eq_clear_or_full_of_lost h hlost
    · exact .inl rfl
    · exact .inr ⟨other, inserted, rfl, Nat.le_antisymm hsize hfull⟩
  · intro hfull key value
    rw [ofHistory_concat, perform, entries_insert_of_full (Nat.le_of_eq hfull.symm)]

/-- A key of as many letters as a number says. -/
def letters (n : ℕ) : String := .ofList (List.replicate n 'k')

def cacheful : List (String × Option Output) := (List.range 1024).map fun n => (letters n, none)

/-- A key is inserted twice and looked up, the cache is cleared, and then it is filled. -/
def refilled : List Operation :=
  [.insert "k" none, .insert "k" (some (.cql "(a IS NULL)")), .find "k", .size] ++
    .clear :: cacheful.map fun entry => .insert entry.1 entry.2

theorem ofHistory_remembers_last_refilled :
    (ofHistory refilled).find? "kk" = some none ∧
    (∃ before since, refilled = before ++ .insert "kk" none :: since ∧
      ∀ op ∈ since, op.Spares "kk") ∧
    (ofHistory (refilled ++ [.insert "k" none])).find? "kk" = none ∧
    (ofHistory refilled).size = 1024 ∧
    (ofHistory (refilled ++ [.insert "k" none])).entries = [("k", none)] := by
  have hkeys : (cacheful.map Prod.fst).Nodup := by
    rw [cacheful, List.map_map]
    refine List.nodup_range.map fun m n h => ?_
    simpa using congrArg List.length (String.ofList_injective h)
  have hlength : cacheful.length = 1024 := by
    rw [cacheful, List.length_map, List.length_range]
  have hentries : (ofHistory refilled).entries = cacheful.reverse := by
    rw [refilled, ofHistory_clear, entries_ofHistory_insertions hkeys (Nat.le_of_eq hlength)]
  have hfound : (ofHistory refilled).find? "kk" = some none := by
    rw [find?_eq_some_iff, hentries, List.mem_reverse]
    exact List.mem_map.mpr ⟨2, List.mem_range.mpr (by omega), rfl⟩
  have hfull : (ofHistory refilled).size = 1024 := by
    rw [size, hentries, List.length_reverse, hlength]
  have hlost : (ofHistory (refilled ++ [.insert "k" none])).find? "kk" = none := by
    rw [ofHistory_concat]
    exact find?_insert_of_full _ _ (by decide) (Nat.le_of_eq hfull.symm)
  obtain ⟨-, hlast, -, hloses, honly⟩ := ofHistory_remembers_last refilled
  obtain hclear | ⟨other, inserted, -, hsize⟩ := hloses "kk" none _ hfound hlost
  · cases hclear
  · exact ⟨hfound, hlast "kk" none hfound, hlost, hsize, honly hsize "k" none⟩

end Cache
end FilterForest
