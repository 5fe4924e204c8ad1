import FilterForest.Engine.Output
import FilterForest.Snapshot.Printer

/-!
# Cache

Results by key, at most `Cache.capacity` of them, each key once. An entry can say that there is no
output. When the cache is full, the next insertion empties it first.
-/

namespace FilterForest

/-- The number of entries at which a cache is full. -/
def Cache.capacity : Nat := 1024

structure Cache where
  entries : List (String × Option Output)
  nodup_keys : (entries.map Prod.fst).Nodup
  length_le : entries.length ≤ Cache.capacity

namespace Cache

def empty : Cache := ⟨[], .nil, by decide⟩

variable (cache : Cache)

def size : Nat := cache.entries.length

def isEmpty : Bool := cache.entries.isEmpty

def isFull : Bool := capacity ≤ cache.size

def find? (key : String) : Option (Option Output) :=
  (cache.entries.find? fun entry => entry.1 = key).map Prod.snd

@[simp] theorem find?_empty (key : String) : empty.find? key = none := rfl

def without (key : String) : List (String × Option Output) :=
  cache.entries.filter fun entry => entry.1 ≠ key

theorem without_sublist (key : String) : (cache.without key).Sublist cache.entries :=
  List.filter_sublist

theorem not_mem_keys_without (key : String) : key ∉ (cache.without key).map Prod.fst := by
  simp [without]

/-- Puts an entry in place of any other under its key, after emptying a full cache. -/
def insert (key : String) (value : Option Output) : Cache :=
  if h : capacity ≤ cache.size then
    ⟨[(key, value)], by simp, by simp [capacity]⟩
  else
    ⟨(key, value) :: cache.without key,
      List.nodup_cons.2 ⟨cache.not_mem_keys_without key,
        cache.nodup_keys.sublist ((cache.without_sublist key).map Prod.fst)⟩,
      Nat.succ_le_of_lt (Nat.lt_of_le_of_lt (cache.without_sublist key).length_le
        (Nat.lt_of_not_le h))⟩

@[simp] theorem find?_insert_self (key : String) (value : Option Output) :
    (cache.insert key value).find? key = some value := by
  unfold insert
  split <;> simp [find?]

theorem find?_insert_of_ne {key other : String} (value : Option Output) (hne : key ≠ other)
    (hroom : cache.size < capacity) :
    (cache.insert key value).find? other = cache.find? other := by
  have hfind : (cache.without key).find? (·.1 = other) = cache.entries.find? (·.1 = other) := by
    rw [without, List.find?_filter]
    congr 1
    funext entry
    by_cases h : entry.1 = other
    · simp [h, hne.symm]
    · simp [h]
  simp [insert, Nat.not_le.2 hroom, find?, hne, hfind]

theorem find?_insert_of_full {key other : String} (value : Option Output) (hne : key ≠ other)
    (hfull : capacity ≤ cache.size) : (cache.insert key value).find? other = none := by
  simp [insert, hfull, find?, hne]

theorem find?_insert_eq_some {key other : String} {value output : Option Output}
    (h : (cache.insert key value).find? other = some output) :
    key = other ∧ output = value ∨ cache.find? other = some output := by
  by_cases hkey : key = other
  · rw [hkey, find?_insert_self] at h
    exact .inl ⟨hkey, (Option.some.inj h).symm⟩
  · rcases Nat.lt_or_ge cache.size capacity with hroom | hfull
    · exact .inr (cache.find?_insert_of_ne value hkey hroom ▸ h)
    · rw [cache.find?_insert_of_full value hkey hfull] at h
      contradiction

/-- The key of a result: the layer, the format, and the groups that apply to the layer as they are
written in a snapshot. -/
def key (groups : Snapshot) (layer : LayerId) (format : Format) : String :=
  .ofList (Decimal.integer layer.toInt ++ ':' :: format.name.toList ++
    ':' :: Snapshot.text (groups.filter fun g => g.appliesTo layer))

end Cache
end FilterForest
