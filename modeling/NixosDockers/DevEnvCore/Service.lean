-- The cache of materializations (`service.rs`): what is kept, for how long, and what is removed to
-- keep to the limits.
import NixosDockers.DevEnv.Snapshot
import NixosDockers.DevEnvCore.Paths
import NixosDockers.Lib.Eviction

open rust_text dev_env_model hash_maps
open dev_env (MaterializationKey)

namespace dev_env_core

/-! ## The service -/

/-- `Materialization`, without its diagnostics. -/
structure Materialization where
  environment : MaterializedEnv

/-- One more than the greatest `usize`. -/
def usizeRange : ℕ := 2 ^ 64

def saturatingAdd (a b : ℕ) : ℕ := min (a + b) (usizeRange - 1)

theorem saturatingAdd_of_lt {a b : ℕ} (h : a + b < usizeRange) : saturatingAdd a b = a + b :=
  min_eq_left (Nat.le_sub_one_of_lt h)

/-- `sensitive_bytes`. A sum that is too large wraps. -/
def sensitiveBytes (materialization : Materialization) : ℕ :=
  ((materialization.environment.values.toList.filter fun entry =>
      entry.2.sensitivity ≠ .Public).map fun entry =>
    saturatingAdd (byteLen entry.1) (byteLen entry.2.value)).sum % usizeRange

structure CacheEntry where
  value : Materialization
  last_used : ℕ
  sensitive_bytes : ℕ

structure ServiceState where
  cache : HashMap MaterializationKey CacheEntry
  sensitive_bytes : ℕ

/-- The service with its limits, of which the first is never 0. Times are in nanoseconds. -/
structure MaterializationService where
  state : ServiceState
  max_entries : UInt64
  max_sensitive_bytes : UInt64
  ttl : Option ℕ
  max_entries_pos : 0 < max_entries.toNat

structure MaterializationServiceResult where
  materialization : Materialization
  cache_hit : Bool

inductive MaterializationServiceError where
  | Core (error : CoreError)
  | SharedFailure (code message : String)

namespace MaterializationService

def new : MaterializationService where
  state := ⟨∅, 0⟩
  max_entries := 128
  max_sensitive_bytes := 8 * 1024 * 1024
  ttl := some (900 * 10 ^ 9)
  max_entries_pos := by decide

def withLimits (service : MaterializationService) (max_entries : UInt64) (ttl : Option ℕ) :
    MaterializationService :=
  { service with
    max_entries := if max_entries = 0 then 1 else max_entries
    ttl
    max_entries_pos := by
      split_ifs with hzero
      · decide
      · exact Nat.pos_of_ne_zero fun h => hzero (UInt64.toNat_inj.mp h) }

def withSensitiveByteLimit (service : MaterializationService) (max_sensitive_bytes : UInt64) :
    MaterializationService :=
  { service with max_sensitive_bytes }

def clear (service : MaterializationService) : MaterializationService :=
  { service with state := ⟨∅, 0⟩ }

/-! ### Eviction -/

variable (iteration : Iteration MaterializationKey CacheEntry)

/-- One round of the loop of `evict_to_limits`, with no result when the loop ends. -/
def evictRound (service : MaterializationService) : Option MaterializationService :=
  let ⟨cache, sensitive_bytes⟩ := service.state
  if service.max_entries.toNat < HashMap.len cache ∨
      service.max_sensitive_bytes.toNat < sensitive_bytes then
    (iteration.oldest CacheEntry.last_used cache).bind fun oldest =>
      (cache.lookup oldest).map fun entry =>
        { service with state := ⟨cache.erase oldest, sensitive_bytes - entry.sensitive_bytes⟩ }
  else none

variable {iteration} {service next : MaterializationService} {key : MaterializationKey}

/-- What a round does: the entry that was not used for longest is removed. -/
theorem evictRound_spec (h : evictRound iteration service = some next) : ∃ oldest entry,
    service.state.cache.lookup oldest = some entry ∧
      (∀ other kept, service.state.cache.lookup other = some kept →
        entry.last_used ≤ kept.last_used) ∧
      next = { service with state := ⟨service.state.cache.erase oldest,
        service.state.sensitive_bytes - entry.sensitive_bytes⟩ } := by
  unfold evictRound at h
  dsimp only at h
  split_ifs at h with hover
  obtain ⟨oldest, holdest, hround⟩ := Option.bind_eq_some_iff.mp h
  obtain ⟨entry, hentry, rfl⟩ := Option.map_eq_some_iff.mp hround
  obtain ⟨value, hvalue, hleast⟩ := iteration.oldest_spec CacheEntry.last_used holdest
  obtain rfl := Option.some.inj (hentry.symm.trans hvalue)
  exact ⟨oldest, entry, hentry, hleast, rfl⟩

/-- The loop ends within the limits, or with an empty cache. -/
theorem evictRound_none (h : evictRound iteration service = none) :
    HashMap.len service.state.cache ≤ service.max_entries.toNat ∧
      service.state.sensitive_bytes ≤ service.max_sensitive_bytes.toNat ∨
    service.state.cache = ∅ := by
  unfold evictRound at h
  dsimp only at h
  split_ifs at h with hover
  · rw [Option.bind_eq_none_iff] at h
    cases holdest : iteration.oldest CacheEntry.last_used service.state.cache with
    | none => exact Or.inr (iteration.oldest_eq_none CacheEntry.last_used holdest)
    | some oldest =>
      obtain ⟨entry, hentry, -⟩ := iteration.oldest_spec CacheEntry.last_used holdest
      have hround := h oldest holdest
      rw [hentry] at hround
      cases hround
  · rw [not_or, Nat.not_lt, Nat.not_lt] at hover
    exact Or.inl hover

theorem evictRound_len (h : evictRound iteration service = some next) :
    HashMap.len next.state.cache < HashMap.len service.state.cache := by
  obtain ⟨oldest, entry, hentry, -, rfl⟩ := evictRound_spec h
  have hlen := HashMap.len_erase hentry
  dsimp only
  omega

variable (iteration) in
/-- `evict_to_limits`. -/
def evictToLimits (service : MaterializationService) : MaterializationService :=
  match _ : evictRound iteration service with
  | none => service
  | some next => evictToLimits next
termination_by HashMap.len service.state.cache
decreasing_by exact evictRound_len ‹_›

/-- What eviction leaves: some of the entries, none of which was used before one that is gone. -/
structure Evicted (service left : MaterializationService) : Prop where
  limits : left.max_entries = service.max_entries ∧
    left.max_sensitive_bytes = service.max_sensitive_bytes ∧ left.ttl = service.ttl
  kept : ∀ key entry, left.state.cache.lookup key = some entry →
    service.state.cache.lookup key = some entry
  least : ∀ key entry, service.state.cache.lookup key = some entry →
    left.state.cache.lookup key = none → ∀ other kept,
      left.state.cache.lookup other = some kept → entry.last_used ≤ kept.last_used
  ended : HashMap.len left.state.cache ≤ service.max_entries.toNat ∧
      left.state.sensitive_bytes ≤ service.max_sensitive_bytes.toNat ∨ left.state.cache = ∅

theorem evictToLimits_evicted (iteration : Iteration MaterializationKey CacheEntry)
    (service : MaterializationService) : Evicted service (evictToLimits iteration service) := by
  fun_induction evictToLimits iteration service with
  | case1 service hround =>
    refine ⟨⟨rfl, rfl, rfl⟩, fun _ _ h => h, fun key entry hentry hgone => ?_,
      evictRound_none hround⟩
    rw [hentry] at hgone
    cases hgone
  | case2 service next hround ih =>
    obtain ⟨oldest, removed, hremoved, hleast, rfl⟩ := evictRound_spec hround
    refine ⟨ih.limits, fun key entry hentry => ?_, fun key entry hentry hgone other kept hkept => ?_,
      ih.ended⟩
    · exact HashMap.lookup_of_erase (ih.kept key entry hentry)
    · by_cases hkey : key = oldest
      · subst hkey
        obtain rfl := Option.some.inj (hentry.symm.trans hremoved)
        exact hleast other kept (HashMap.lookup_of_erase (ih.kept other kept hkept))
      · refine ih.least key entry ?_ hgone other kept hkept
        exact (AList.lookup_erase_ne hkey).trans hentry

/-! ### Expiry -/

/-- `remove_expired`. The sum wraps as the one of `sensitive_bytes` does. -/
def removeExpired (service : MaterializationService) (now : ℕ) : MaterializationService :=
  match service.ttl with
  | none => service
  | some ttl =>
    let cache := HashMap.retain service.state.cache fun _ entry => now - entry.last_used ≤ ttl
    { service with state := ⟨cache, HashMap.total CacheEntry.sensitive_bytes cache % usizeRange⟩ }

/-- `cached`, which looks at the clock for what is expired and for a hit. -/
def cached (service : MaterializationService) (key : MaterializationKey) (now hit : ℕ) :
    Option Materialization × MaterializationService :=
  let service := service.removeExpired now
  match service.state.cache.lookup key with
  | none => (none, service)
  | some entry =>
    (some entry.value, { service with
      state := { service.state with
        cache := service.state.cache.insert key { entry with last_used := hit } } })

/-- The state of `cache_success` before it evicts. -/
def stored (service : MaterializationService) (key : MaterializationKey)
    (materialization : Materialization) (now : ℕ) : MaterializationService :=
  let size := sensitiveBytes materialization
  let sensitive_bytes := match service.state.cache.lookup key with
    | some previous => service.state.sensitive_bytes - previous.sensitive_bytes
    | none => service.state.sensitive_bytes
  { service with
    state := ⟨service.state.cache.insert key ⟨materialization, now, size⟩,
      saturatingAdd sensitive_bytes size⟩ }

/-- `cache_success`. -/
def cacheSuccess (iteration : Iteration MaterializationKey CacheEntry)
    (service : MaterializationService) (key : MaterializationKey) (materialization : Materialization)
    (now : ℕ) : MaterializationService :=
  if service.max_sensitive_bytes.toNat < sensitiveBytes materialization then service
  else evictToLimits iteration (service.stored key materialization now)

/-- `prepare`, where `materialized` is what the materializer gives for a key that is not cached. -/
def prepare (iteration : Iteration MaterializationKey CacheEntry) (service : MaterializationService)
    (key : MaterializationKey) (materialized : Except CoreError Materialization) (now hit saved : ℕ) :
    Except MaterializationServiceError MaterializationServiceResult × MaterializationService :=
  match key.validate with
  | .error error => (.error (.SharedFailure "DEVENV-E-MODEL" error.message), service)
  | .ok () =>
    match service.cached key now hit with
    | (some value, service) => (.ok ⟨value, true⟩, service)
    | (none, service) =>
      match materialized with
      | .error error => (.error (.Core error), service)
      | .ok value => (.ok ⟨value, false⟩, service.cacheSuccess iteration key value saved)

end MaterializationService

end dev_env_core
