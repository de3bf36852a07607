-- The service that keeps the successful materializations of one snapshot
-- (`service.rs`).
import NixosDockers.Lib.HashMaps
import NixosDockers.DevEnv.Snapshot

open rust_text hash_maps

namespace dev_env

/-- A kept materialization. Instants are in nanoseconds. -/
structure CacheEntry where
  value : Materialization
  last_used : Nat
  sensitive_bytes : Nat
  deriving DecidableEq

structure MaterializationService where
  materializer : Materializer
  cache : HashMap MaterializationKey CacheEntry := ∅
  sensitive_bytes : Nat := 0
  max_entries : Nat := 128
  max_sensitive_bytes : Nat := 8 * 1024 * 1024
  ttl : Option Nat := some (900 * 1000000000)

/-- `sensitive_bytes`. -/
def sensitiveBytes (materialization : Materialization) : Nat :=
  ((materialization.environment.values.toList.filter fun entry =>
    entry.2.sensitivity ≠ .Public).map fun entry => byteLen entry.1 + byteLen entry.2.value).sum

namespace MaterializationService

def new (materializer : Materializer) : MaterializationService := { materializer }

def removeExpired (now : Nat) (service : MaterializationService) : MaterializationService :=
  match service.ttl with
  | none => service
  | some ttl =>
    let cache := service.cache.retain fun _ entry => now - entry.last_used ≤ ttl
    { service with cache, sensitive_bytes := (cache.entries.map (·.2.sensitive_bytes)).sum }

def cached (now : Nat) (service : MaterializationService) (key : MaterializationKey) :
    Option Materialization × MaterializationService :=
  let service := service.removeExpired now
  match service.cache.lookup key with
  | none => (none, service)
  | some entry =>
    (some entry.value,
      { service with cache := service.cache.insert key { entry with last_used := now } })

/-- One round of the loop of `evict_to_limits`; there is none when the limits are met or nothing
is left. -/
def evictOldest (service : MaterializationService) : Option MaterializationService :=
  if service.cache.entries.length > service.max_entries ∨
      service.sensitive_bytes > service.max_sensitive_bytes then
    match service.cache.entries.argmin (·.2.last_used) with
    | none => none
    | some oldest =>
      some { service with
        cache := service.cache.erase oldest.1
        sensitive_bytes := service.sensitive_bytes - oldest.2.sensitive_bytes }
  else none

/-- The rounds of `evict_to_limits`. Each removes an entry, so there are at most as many rounds as
entries. -/
def evictRounds : Nat → MaterializationService → MaterializationService
  | 0, service => service
  | rounds + 1, service =>
    match service.evictOldest with
    | none => service
    | some next => evictRounds rounds next

def evictToLimits (service : MaterializationService) : MaterializationService :=
  evictRounds service.cache.entries.length service

def cacheSuccess (now : Nat) (service : MaterializationService) (key : MaterializationKey)
    (materialization : Materialization) : MaterializationService :=
  let size := sensitiveBytes materialization
  if size > service.max_sensitive_bytes then service
  else
    let previous := match service.cache.lookup key with
      | none => 0
      | some entry => entry.sensitive_bytes
    evictToLimits { service with
      cache := service.cache.insert key {
        value := materialization
        last_used := now
        sensitive_bytes := size }
      sensitive_bytes := service.sensitive_bytes - previous + size }

/-! ## What is kept -/

/-- The materialization that is kept under a key. -/
def value (service : MaterializationService) (key : MaterializationKey) :
    Option Materialization :=
  (service.cache.lookup key).map (·.value)

variable {service : MaterializationService} {key other : MaterializationKey}
  {materialization kept : Materialization} {now : Nat}

theorem value_eq_some_iff : service.value key = some materialization ↔
    ∃ entry, service.cache.lookup key = some entry ∧ entry.value = materialization := by
  unfold value
  rw [Option.map_eq_some_iff]

@[simp] theorem value_new (materializer : Materializer) : (new materializer).value key = none := rfl

@[simp] theorem removeExpired_materializer :
    (service.removeExpired now).materializer = service.materializer := by
  unfold removeExpired
  split <;> rfl

theorem lookup_of_removeExpired {entry : CacheEntry}
    (h : (service.removeExpired now).cache.lookup key = some entry) :
    service.cache.lookup key = some entry := by
  unfold removeExpired at h
  split at h
  · exact h
  · exact HashMap.lookup_of_retain h

@[simp] theorem cached_materializer :
    (service.cached now key).2.materializer = service.materializer := by
  unfold cached
  dsimp only
  split <;> simp

/-- A hit is what was kept. -/
theorem cached_hit (h : (service.cached now key).1 = some materialization) :
    service.value key = some materialization := by
  unfold cached at h
  dsimp only at h
  split at h
  · cases h
  · rename_i entry hentry
    obtain rfl := Option.some.inj h
    exact value_eq_some_iff.mpr ⟨entry, lookup_of_removeExpired hentry, rfl⟩

/-- A look-up keeps nothing new. -/
theorem value_of_cached (h : (service.cached now key).2.value other = some materialization) :
    service.value other = some materialization := by
  obtain ⟨entry, hentry, rfl⟩ := value_eq_some_iff.mp h
  unfold cached at hentry
  dsimp only at hentry
  split at hentry
  · exact value_eq_some_iff.mpr ⟨entry, lookup_of_removeExpired hentry, rfl⟩
  · rename_i found hfound
    rcases HashMap.lookup_of_insert hentry with ⟨rfl, rfl⟩ | ⟨-, hold⟩
    · exact value_eq_some_iff.mpr ⟨found, lookup_of_removeExpired hfound, rfl⟩
    · exact value_eq_some_iff.mpr ⟨entry, lookup_of_removeExpired hold, rfl⟩

/-- A round of the eviction removes one entry and changes no other. -/
theorem evictOldest_some {next : MaterializationService} (h : service.evictOldest = some next) :
    ∃ oldest ∈ service.cache.entries, next = { service with
      cache := service.cache.erase oldest.1
      sensitive_bytes := service.sensitive_bytes - oldest.2.sensitive_bytes } := by
  unfold evictOldest at h
  split_ifs at h
  split at h
  · cases h
  · rename_i oldest holdest
    exact ⟨oldest, List.argmin_mem holdest, (Option.some.inj h).symm⟩

theorem evictRounds_materializer (rounds : Nat) :
    (evictRounds rounds service).materializer = service.materializer := by
  induction rounds generalizing service with
  | zero => rfl
  | succ rounds ih =>
    unfold evictRounds
    split
    · rfl
    · rename_i next hnext
      obtain ⟨oldest, -, rfl⟩ := evictOldest_some hnext
      exact ih

theorem lookup_of_evictRounds {rounds : Nat} {entry : CacheEntry}
    (h : (evictRounds rounds service).cache.lookup key = some entry) :
    service.cache.lookup key = some entry := by
  induction rounds generalizing service with
  | zero => exact h
  | succ rounds ih =>
    unfold evictRounds at h
    split at h
    · exact h
    · rename_i next hnext
      obtain ⟨oldest, -, rfl⟩ := evictOldest_some hnext
      exact HashMap.lookup_of_erase (ih h)

@[simp] theorem cacheSuccess_materializer :
    (service.cacheSuccess now key materialization).materializer = service.materializer := by
  unfold cacheSuccess
  dsimp only
  split
  · rfl
  · exact evictRounds_materializer _

/-- Of what is kept after a success, only the new materialization is new, and only under its
key. -/
theorem value_of_cacheSuccess
    (h : (service.cacheSuccess now key materialization).value other = some kept) :
    service.value other = some kept ∨ other = key ∧ kept = materialization := by
  unfold cacheSuccess at h
  dsimp only at h
  split at h
  · exact Or.inl h
  · obtain ⟨entry, hentry, rfl⟩ := value_eq_some_iff.mp h
    rcases HashMap.lookup_of_insert (lookup_of_evictRounds hentry) with ⟨rfl, rfl⟩ | ⟨-, hold⟩
    · exact Or.inr ⟨rfl, rfl⟩
    · exact Or.inl (value_eq_some_iff.mpr ⟨entry, hold, rfl⟩)

end MaterializationService

end dev_env
