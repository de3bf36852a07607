-- Runs of the cache of materializations: what it serves and what it counts
-- after any calls in any order.
import NixosDockers.DevEnvCore.Service

open rust_text dev_env_model hash_maps
open dev_env (MaterializationKey)

namespace dev_env_core

/-! ## Calls and what they leave behind -/

/-- A call of the service, with the times it reads and the order in which it passes through the
cache. -/
inductive CacheCall where
  | Cached (key : MaterializationKey) (now hit : ℕ)
  | CacheSuccess (iteration : Iteration MaterializationKey CacheEntry) (key : MaterializationKey)
      (materialization : Materialization) (now : ℕ)
  | Prepare (iteration : Iteration MaterializationKey CacheEntry) (key : MaterializationKey)
      (materialized : Except CoreError Materialization) (now hit saved : ℕ)
  | Clear

/-- What the clock shows during a call. -/
def CacheCall.readings : CacheCall → List ℕ
  | .Cached _ now hit => [now, hit]
  | .CacheSuccess _ _ _ now => [now]
  | .Prepare _ _ _ now hit saved => [now, hit, saved]
  | .Clear => []

inductive CacheEvent where
  | Stored (key : MaterializationKey) (materialization : Materialization) (time : ℕ)
  | Hit (key : MaterializationKey) (time : ℕ)

namespace CacheEvent

def key : CacheEvent → MaterializationKey
  | .Stored key _ _ => key
  | .Hit key _ => key

def time : CacheEvent → ℕ
  | .Stored _ _ time => time
  | .Hit _ time => time

def storedValue : CacheEvent → Option Materialization
  | .Stored _ materialization _ => some materialization
  | .Hit _ _ => none

end CacheEvent

/-- The value that was stored last for a key, where the newest event comes first. -/
def latestStored (events : List CacheEvent) (key : MaterializationKey) : Option Materialization :=
  (events.filter fun event => event.key = key).findSome? CacheEvent.storedValue

/-- When a key was last stored or hit. -/
def lastTouched (events : List CacheEvent) (key : MaterializationKey) : Option ℕ :=
  (events.find? fun event => event.key = key).map CacheEvent.time

section Events

variable {events : List CacheEvent} {event : CacheEvent} {key other : MaterializationKey}
  {materialization : Materialization} {time : ℕ}

theorem latestStored_other (h : event.key ≠ key) :
    latestStored (event :: events) key = latestStored events key := by
  unfold latestStored
  rw [List.filter_cons_of_neg (by simpa using h)]

theorem lastTouched_other (h : event.key ≠ key) :
    lastTouched (event :: events) key = lastTouched events key := by
  unfold lastTouched
  rw [List.find?_cons_of_neg (by simpa using h)]

@[simp] theorem latestStored_stored :
    latestStored (.Stored key materialization time :: events) key = some materialization := by
  unfold latestStored
  rw [List.filter_cons_of_pos (by simp [CacheEvent.key])]
  rfl

@[simp] theorem latestStored_hit :
    latestStored (.Hit key time :: events) key = latestStored events key := by
  unfold latestStored
  rw [List.filter_cons_of_pos (by simp [CacheEvent.key])]
  rfl

@[simp] theorem lastTouched_self (h : event.key = key) :
    lastTouched (event :: events) key = some event.time := by
  unfold lastTouched
  rw [List.find?_cons_of_pos (by simpa using h)]
  rfl

end Events

namespace MaterializationService

/-- The event of `cache_success`, which stores nothing that is over the limit on its own. -/
def stores (service : MaterializationService) (key : MaterializationKey)
    (materialization : Materialization) (now : ℕ) : List CacheEvent :=
  if service.max_sensitive_bytes.toNat < sensitiveBytes materialization then []
  else [.Stored key materialization now]

/-- One call, with the event it leaves. -/
def call (service : MaterializationService) : CacheCall → MaterializationService × List CacheEvent
  | .Cached key now hit =>
    let ⟨found, next⟩ := service.cached key now hit
    (next, if found.isSome then [.Hit key hit] else [])
  | .CacheSuccess iteration key materialization now =>
    (service.cacheSuccess iteration key materialization now, service.stores key materialization now)
  | .Prepare iteration key materialized now hit saved =>
    let ⟨result, next⟩ := service.prepare iteration key materialized now hit saved
    (next, match result with
      | .ok ⟨_, true⟩ => [.Hit key hit]
      | .ok ⟨materialization, false⟩ => service.stores key materialization saved
      | .error _ => [])
  | .Clear => (service.clear, [])

/-- All calls in turn. -/
def run (service : MaterializationService) (events : List CacheEvent) :
    List CacheCall → MaterializationService × List CacheEvent
  | [] => (service, events)
  | call :: rest =>
    let ⟨next, event⟩ := service.call call
    run next (event ++ events) rest

/-- An insertion leaves a sum of sensitive sizes that a `usize` holds. -/
def Room (service : MaterializationService) (key : MaterializationKey)
    (materialization : Materialization) : Prop :=
  sensitiveBytes materialization ≤ service.max_sensitive_bytes.toNat →
    HashMap.total CacheEntry.sensitive_bytes (service.state.cache.erase key) +
      sensitiveBytes materialization < usizeRange

/-- The insertion of a call, when it makes one, has room. -/
def CallRoom (service : MaterializationService) : CacheCall → Prop
  | .CacheSuccess _ key materialization _ => service.Room key materialization
  | .Prepare _ key materialized now hit _ => ∀ materialization,
      key.validate = .ok () → (service.cached key now hit).1 = none →
        materialized = .ok materialization → (service.cached key now hit).2.Room key materialization
  | _ => True

/-- Every insertion of a run has room. -/
def RunRoom (service : MaterializationService) : List CacheCall → Prop
  | [] => True
  | call :: rest => service.CallRoom call ∧ RunRoom (service.call call).1 rest

/-! ## What is cached was stored last -/

/-- The entries of a cache are what the events say. -/
def Recorded (events : List CacheEvent) (cache : HashMap MaterializationKey CacheEntry) : Prop :=
  ∀ key entry, cache.lookup key = some entry →
    entry.sensitive_bytes = sensitiveBytes entry.value ∧
      latestStored events key = some entry.value ∧ lastTouched events key = some entry.last_used

structure Sound (service : MaterializationService) (events : List CacheEvent) : Prop where
  len_le : HashMap.len service.state.cache ≤ service.max_entries.toNat
  recorded : Recorded events service.state.cache

variable {service next : MaterializationService} {events : List CacheEvent}
  {key : MaterializationKey} {materialization : Materialization} {now hit saved : ℕ}
  {iteration : Iteration MaterializationKey CacheEntry}
  {cache left : HashMap MaterializationKey CacheEntry}

/-- Dropping entries keeps the others as they were. -/
theorem Recorded.of_kept (h : Recorded events cache)
    (hkept : ∀ key entry, left.lookup key = some entry → cache.lookup key = some entry) :
    Recorded events left :=
  fun key entry hentry => h key entry (hkept key entry hentry)

/-- An entry that agrees with a new event on its key. -/
theorem Recorded.insert {event : CacheEvent} {entry : CacheEntry} (h : Recorded events cache)
    (hkey : event.key = key) (htime : event.time = entry.last_used)
    (hvalue : latestStored (event :: events) key = some entry.value)
    (hsize : entry.sensitive_bytes = sensitiveBytes entry.value) :
    Recorded (event :: events) (cache.insert key entry) := by
  intro other kept hkept
  obtain ⟨rfl, rfl⟩ | ⟨hother, hkept⟩ := HashMap.lookup_of_insert hkept
  · exact ⟨hsize, hvalue, by rw [lastTouched_self hkey, htime]⟩
  · have hne : event.key ≠ other := fun h => hother (h.symm.trans hkey)
    rw [latestStored_other hne, lastTouched_other hne]
    exact h other kept hkept

/-! ### Expiry -/

theorem removeExpired_limits (service : MaterializationService) (now : ℕ) :
    (service.removeExpired now).max_entries = service.max_entries ∧
    (service.removeExpired now).max_sensitive_bytes = service.max_sensitive_bytes ∧
    (service.removeExpired now).ttl = service.ttl := by
  unfold removeExpired
  split <;> exact ⟨rfl, rfl, rfl⟩

/-- What is left was used within the time to live. -/
theorem removeExpired_kept {entry : CacheEntry}
    (h : (service.removeExpired now).state.cache.lookup key = some entry) :
    service.state.cache.lookup key = some entry ∧
      ∀ ttl, service.ttl = some ttl → now - entry.last_used ≤ ttl := by
  unfold removeExpired at h
  cases httl : service.ttl with
  | none =>
    rw [httl] at h
    exact ⟨h, fun _ => nofun⟩
  | some ttl =>
    rw [httl] at h
    refine ⟨HashMap.lookup_of_retain h, fun _ hsame => ?_⟩
    cases hsame
    simpa using HashMap.keep_of_retain h

theorem removeExpired_len :
    HashMap.len (service.removeExpired now).state.cache ≤ HashMap.len service.state.cache := by
  unfold removeExpired
  split
  · exact le_rfl
  · exact HashMap.len_retain_le

theorem Sound.removeExpired (h : service.Sound events) (now : ℕ) :
    (service.removeExpired now).Sound events := by
  refine ⟨?_, h.recorded.of_kept fun key entry hentry => (removeExpired_kept hentry).1⟩
  rw [(removeExpired_limits service now).1]
  exact removeExpired_len.trans h.len_le

/-! ### Hits -/

theorem cached_of_none (h : (service.removeExpired now).state.cache.lookup key = none) :
    service.cached key now hit = (none, service.removeExpired now) := by
  unfold cached
  dsimp only
  rw [h]

theorem cached_of_some {entry : CacheEntry}
    (h : (service.removeExpired now).state.cache.lookup key = some entry) :
    service.cached key now hit = (some entry.value, { service.removeExpired now with
      state := { (service.removeExpired now).state with
        cache := (service.removeExpired now).state.cache.insert key
          { entry with last_used := hit } } }) := by
  unfold cached
  dsimp only
  rw [h]

/-- A hit gives the value that was stored last, within its time to live. -/
theorem cached_value (hsound : service.Sound events)
    (h : (service.cached key now hit).1 = some materialization) :
    latestStored events key = some materialization ∧
      ∃ touched, lastTouched events key = some touched ∧
        ∀ ttl, service.ttl = some ttl → now - touched ≤ ttl := by
  cases hlookup : (service.removeExpired now).state.cache.lookup key with
  | none =>
    rw [cached_of_none hlookup] at h
    cases h
  | some entry =>
    rw [cached_of_some hlookup] at h
    cases h
    obtain ⟨hentry, httl⟩ := removeExpired_kept hlookup
    obtain ⟨-, hvalue, htouched⟩ := hsound.recorded key entry hentry
    exact ⟨hvalue, entry.last_used, htouched, httl⟩

theorem Sound.cached (h : service.Sound events) (key : MaterializationKey) (now hit : ℕ) :
    (service.cached key now hit).2.Sound
      ((if (service.cached key now hit).1.isSome then [.Hit key hit] else []) ++ events) := by
  have hexpired := h.removeExpired now
  cases hlookup : (service.removeExpired now).state.cache.lookup key with
  | none =>
    rw [cached_of_none hlookup]
    exact hexpired
  | some entry =>
    rw [cached_of_some hlookup]
    obtain ⟨hsize, hvalue, -⟩ := hexpired.recorded key entry hlookup
    refine ⟨?_, hexpired.recorded.insert rfl rfl (latestStored_hit.trans hvalue) hsize⟩
    refine le_trans (le_of_eq ?_) hexpired.len_le
    exact HashMap.len_insert hlookup

/-! ### Insertions -/

theorem Sound.cacheSuccess (h : service.Sound events) :
    (service.cacheSuccess iteration key materialization now).Sound
      (service.stores key materialization now ++ events) := by
  unfold MaterializationService.cacheSuccess stores
  split_ifs with hover
  · exact h
  · have hevicted := evictToLimits_evicted iteration (service.stored key materialization now)
    have hstored : Recorded (.Stored key materialization now :: events)
        (service.stored key materialization now).state.cache :=
      h.recorded.insert rfl rfl latestStored_stored rfl
    refine ⟨?_, hstored.of_kept hevicted.kept⟩
    rw [hevicted.limits.1]
    obtain ⟨hlen, -⟩ | hempty := hevicted.ended
    · exact hlen
    · rw [hempty]
      exact Nat.zero_le _

/-! ### Requests -/

variable {materialized : Except CoreError Materialization}

/-- What a request does: it is refused, it hits, it fails, or it stores what it made. -/
theorem prepare_cases (service : MaterializationService)
    (iteration : Iteration MaterializationKey CacheEntry) (key : MaterializationKey)
    (materialized : Except CoreError Materialization) (now hit saved : ℕ) :
    (∃ error, service.prepare iteration key materialized now hit saved = (.error error, service)) ∨
    (∃ value, (service.cached key now hit).1 = some value ∧
      service.prepare iteration key materialized now hit saved =
        (.ok ⟨value, true⟩, (service.cached key now hit).2)) ∨
    ((service.cached key now hit).1 = none ∧ ∃ error,
      service.prepare iteration key materialized now hit saved =
        (.error error, (service.cached key now hit).2)) ∨
    (key.validate = .ok () ∧ (service.cached key now hit).1 = none ∧ ∃ value,
      materialized = .ok value ∧
      service.prepare iteration key materialized now hit saved = (.ok ⟨value, false⟩,
        (service.cached key now hit).2.cacheSuccess iteration key value saved)) := by
  unfold prepare
  cases hkey : key.validate with
  | error error => exact Or.inl ⟨_, rfl⟩
  | ok =>
    obtain ⟨found, next⟩ := service.cached key now hit
    cases found with
    | some value => exact Or.inr (Or.inl ⟨value, rfl, rfl⟩)
    | none =>
      cases materialized with
      | error error => exact Or.inr (Or.inr (Or.inl ⟨rfl, _, rfl⟩))
      | ok value => exact Or.inr (Or.inr (Or.inr ⟨rfl, rfl, value, rfl, rfl⟩))

/-- Only a cached value is a hit. -/
theorem cached_of_prepare (h : (service.prepare iteration key materialized now hit saved).1 =
    .ok ⟨materialization, true⟩) : (service.cached key now hit).1 = some materialization := by
  obtain ⟨error, heq⟩ | ⟨value, hfound, heq⟩ | ⟨-, error, heq⟩ | ⟨-, -, value, -, heq⟩ :=
    prepare_cases service iteration key materialized now hit saved
  all_goals
    rw [heq] at h
    cases h
  exact hfound

theorem cached_limits (service : MaterializationService) (key : MaterializationKey) (now hit : ℕ) :
    (service.cached key now hit).2.max_entries = service.max_entries ∧
    (service.cached key now hit).2.max_sensitive_bytes = service.max_sensitive_bytes ∧
    (service.cached key now hit).2.ttl = service.ttl := by
  unfold cached
  dsimp only
  split <;> exact removeExpired_limits service now

theorem cacheSuccess_limits (service : MaterializationService)
    (iteration : Iteration MaterializationKey CacheEntry) (key : MaterializationKey)
    (materialization : Materialization) (now : ℕ) :
    (service.cacheSuccess iteration key materialization now).max_entries = service.max_entries ∧
      (service.cacheSuccess iteration key materialization now).max_sensitive_bytes =
        service.max_sensitive_bytes ∧
      (service.cacheSuccess iteration key materialization now).ttl = service.ttl := by
  unfold cacheSuccess
  split_ifs
  · exact ⟨rfl, rfl, rfl⟩
  · exact (evictToLimits_evicted iteration _).limits

/-- The events of `prepare` are those of the calls it makes. -/
theorem Sound.call (h : service.Sound events) (call : CacheCall) :
    (service.call call).1.Sound ((service.call call).2 ++ events) := by
  cases call with
  | Cached key now hit => exact h.cached key now hit
  | CacheSuccess iteration key materialization now => exact h.cacheSuccess
  | Clear => exact ⟨Nat.zero_le _, fun _ _ => nofun⟩
  | Prepare iteration key materialized now hit saved =>
    have hcached := h.cached key now hit
    unfold MaterializationService.call
    dsimp only
    obtain ⟨error, heq⟩ | ⟨value, hfound, heq⟩ | ⟨hmiss, error, heq⟩ | ⟨-, hmiss, value, -, heq⟩ :=
      prepare_cases service iteration key materialized now hit saved
    all_goals rw [heq]
    · exact h
    · rw [hfound] at hcached
      exact hcached
    · rw [hmiss] at hcached
      exact hcached
    · rw [hmiss] at hcached
      have hstores : service.stores key value saved =
          (service.cached key now hit).2.stores key value saved := by
        unfold stores
        rw [(cached_limits service key now hit).2.1]
      dsimp only
      rw [hstores]
      exact Sound.cacheSuccess hcached

theorem call_limits (service : MaterializationService) (call : CacheCall) :
    (service.call call).1.max_entries = service.max_entries ∧
      (service.call call).1.max_sensitive_bytes = service.max_sensitive_bytes ∧
      (service.call call).1.ttl = service.ttl := by
  cases call with
  | Cached key now hit => exact cached_limits service key now hit
  | CacheSuccess iteration key materialization now =>
    exact cacheSuccess_limits service iteration key materialization now
  | Clear => exact ⟨rfl, rfl, rfl⟩
  | Prepare iteration key materialized now hit saved =>
    have hlimits := cached_limits service key now hit
    unfold MaterializationService.call
    dsimp only
    obtain ⟨error, heq⟩ | ⟨value, -, heq⟩ | ⟨-, error, heq⟩ | ⟨-, -, value, -, heq⟩ :=
      prepare_cases service iteration key materialized now hit saved
    all_goals rw [heq]
    · exact ⟨rfl, rfl, rfl⟩
    · exact hlimits
    · exact hlimits
    · obtain ⟨hmax, hbytes, httl⟩ := cacheSuccess_limits (service.cached key now hit).2 iteration
        key value saved
      exact ⟨hmax.trans hlimits.1, hbytes.trans hlimits.2.1, httl.trans hlimits.2.2⟩

/-! ## The counter -/

/-- The counter is the sum of the sizes, within the limit. -/
structure Exact (service : MaterializationService) : Prop where
  counted : service.state.sensitive_bytes =
    HashMap.total CacheEntry.sensitive_bytes service.state.cache
  limited : service.state.sensitive_bytes ≤ service.max_sensitive_bytes.toNat

theorem Exact.removeExpired (h : service.Exact) (now : ℕ) : (service.removeExpired now).Exact := by
  unfold MaterializationService.removeExpired
  split
  · exact h
  · next ttl _ =>
    have hle := HashMap.total_retain_le service.state.cache CacheEntry.sensitive_bytes
      fun _ entry => decide (now - entry.last_used ≤ ttl)
    have hlimit := service.max_sensitive_bytes.toNat_lt
    rw [← h.counted] at hle
    have hmod := Nat.mod_eq_of_lt ((hle.trans h.limited).trans_lt hlimit)
    exact ⟨hmod, hmod.trans_le (hle.trans h.limited)⟩

theorem Exact.cached (h : service.Exact) (key : MaterializationKey) (now hit : ℕ) :
    (service.cached key now hit).2.Exact := by
  have hexpired := h.removeExpired now
  cases hlookup : (service.removeExpired now).state.cache.lookup key with
  | none =>
    rw [cached_of_none hlookup]
    exact hexpired
  | some entry =>
    rw [cached_of_some hlookup]
    refine ⟨hexpired.counted.trans ?_, hexpired.limited⟩
    rw [HashMap.total_insert, HashMap.total_erase _ hlookup]

/-- Each round of eviction takes the size of its entry from both sides. -/
theorem counted_evictToLimits (iteration : Iteration MaterializationKey CacheEntry)
    (h : service.state.sensitive_bytes =
      HashMap.total CacheEntry.sensitive_bytes service.state.cache) :
    (evictToLimits iteration service).state.sensitive_bytes =
      HashMap.total CacheEntry.sensitive_bytes (evictToLimits iteration service).state.cache := by
  fun_induction evictToLimits iteration service with
  | case1 service hround => exact h
  | case2 service next hround ih =>
    obtain ⟨oldest, entry, hentry, -, rfl⟩ := evictRound_spec hround
    refine ih ?_
    have htotal := HashMap.total_erase CacheEntry.sensitive_bytes hentry
    dsimp only
    omega

/-- A replaced entry is not counted twice. -/
theorem counted_stored (now : ℕ) (h : service.Exact) (hroom : service.Room key materialization)
    (hsize : sensitiveBytes materialization ≤ service.max_sensitive_bytes.toNat) :
    (service.stored key materialization now).state.sensitive_bytes =
      HashMap.total CacheEntry.sensitive_bytes
        (service.stored key materialization now).state.cache := by
  have hlt := hroom hsize
  have hcounted := h.counted
  unfold stored
  dsimp only
  rw [HashMap.total_insert]
  cases hlookup : service.state.cache.lookup key with
  | none =>
    rw [HashMap.erase_of_lookup_none hlookup, ← hcounted] at hlt ⊢
    exact (saturatingAdd_of_lt hlt).trans (Nat.add_comm _ _)
  | some previous =>
    have htotal := HashMap.total_erase CacheEntry.sensitive_bytes hlookup
    have hrest : service.state.sensitive_bytes - previous.sensitive_bytes =
        HashMap.total CacheEntry.sensitive_bytes (service.state.cache.erase key) := by omega
    dsimp only
    rw [hrest, saturatingAdd_of_lt hlt, Nat.add_comm]

theorem Exact.cacheSuccess (h : service.Exact) (hroom : service.Room key materialization) :
    (service.cacheSuccess iteration key materialization now).Exact := by
  unfold MaterializationService.cacheSuccess
  split_ifs with hover
  · exact h
  · have hcounted := counted_evictToLimits iteration
      (counted_stored now h hroom (Nat.not_lt.mp hover))
    have hevicted := evictToLimits_evicted iteration (service.stored key materialization now)
    refine ⟨hcounted, ?_⟩
    rw [hevicted.limits.2.1]
    obtain ⟨-, hbytes⟩ | hempty := hevicted.ended
    · exact hbytes
    · rw [hcounted, hempty]
      exact Nat.zero_le _

theorem Exact.call {call : CacheCall} (h : service.Exact) (hroom : service.CallRoom call) :
    (service.call call).1.Exact := by
  cases call with
  | Cached key now hit => exact h.cached key now hit
  | CacheSuccess iteration key materialization now => exact h.cacheSuccess hroom
  | Clear => exact ⟨rfl, Nat.zero_le _⟩
  | Prepare iteration key materialized now hit saved =>
    have hcached := h.cached key now hit
    unfold MaterializationService.call
    dsimp only
    obtain ⟨error, heq⟩ | ⟨value, -, heq⟩ | ⟨-, error, heq⟩ | ⟨hkey, hmiss, value, hvalue, heq⟩ :=
      prepare_cases service iteration key materialized now hit saved
    all_goals rw [heq]
    · exact h
    · exact hcached
    · exact hcached
    · exact Exact.cacheSuccess hcached (hroom value hkey hmiss hvalue)

/-- Under half the range, an insertion always has room. -/
theorem Exact.room (h : service.Exact)
    (hhalf : 2 * service.max_sensitive_bytes.toNat < usizeRange) :
    service.Room key materialization := by
  intro hsize
  have hcounted := h.counted
  have hlimited := h.limited
  have herase : HashMap.total CacheEntry.sensitive_bytes (service.state.cache.erase key) ≤
      HashMap.total CacheEntry.sensitive_bytes service.state.cache := by
    cases hlookup : service.state.cache.lookup key with
    | none => rw [HashMap.erase_of_lookup_none hlookup]
    | some previous =>
      rw [HashMap.total_erase _ hlookup]
      omega
  omega

/-! ## Runs -/

variable {start : MaterializationService} {calls : List CacheCall}

theorem run_sound (h : service.Sound events) (calls : List CacheCall) :
    (service.run events calls).1.Sound (service.run events calls).2 := by
  induction calls generalizing service events with
  | nil => exact h
  | cons call rest ih => exact ih (h.call call)

theorem run_exact (events : List CacheEvent) (h : service.Exact) (hroom : service.RunRoom calls) :
    (service.run events calls).1.Exact := by
  induction calls generalizing service events with
  | nil => exact h
  | cons call rest ih => exact ih _ (h.call hroom.1) hroom.2

theorem run_limits (service : MaterializationService) (events : List CacheEvent)
    (calls : List CacheCall) : (service.run events calls).1.max_entries = service.max_entries ∧
      (service.run events calls).1.max_sensitive_bytes = service.max_sensitive_bytes ∧
      (service.run events calls).1.ttl = service.ttl := by
  induction calls generalizing service events with
  | nil => exact ⟨rfl, rfl, rfl⟩
  | cons call rest ih =>
    obtain ⟨hmax, hbytes, httl⟩ := ih (service.call call).1 ((service.call call).2 ++ events)
    obtain ⟨hmax', hbytes', httl'⟩ := call_limits service call
    exact ⟨hmax.trans hmax', hbytes.trans hbytes', httl.trans httl'⟩

theorem runRoom_of_half (h : service.Exact)
    (hhalf : 2 * service.max_sensitive_bytes.toNat < usizeRange) : service.RunRoom calls := by
  induction calls generalizing service with
  | nil => trivial
  | cons call rest ih =>
    have hroom : service.CallRoom call := by
      cases call with
      | Cached | Clear => trivial
      | CacheSuccess iteration key materialization now => exact h.room hhalf
      | Prepare iteration key materialized now hit saved =>
        intro materialization _ _ _
        refine (h.cached key now hit).room ?_
        rwa [(cached_limits service key now hit).2.1]
    refine ⟨hroom, ih (h.call hroom) ?_⟩
    rwa [(call_limits service call).2.1]

theorem stores_time {event : CacheEvent} (h : event ∈ service.stores key materialization now) :
    event.time = now := by
  unfold stores at h
  split_ifs at h
  · cases h
  · rw [List.mem_singleton.mp h]
    rfl

theorem call_time {call : CacheCall} {event : CacheEvent} (h : event ∈ (service.call call).2) :
    event.time ∈ call.readings := by
  cases call with
  | Cached key now hit =>
    unfold MaterializationService.call at h
    dsimp only at h
    split_ifs at h
    · rw [List.mem_singleton.mp h]
      simp [CacheCall.readings, CacheEvent.time]
    · cases h
  | CacheSuccess iteration key materialization now =>
    rw [stores_time h]
    exact List.mem_singleton_self now
  | Clear => cases h
  | Prepare iteration key materialized now hit saved =>
    unfold MaterializationService.call at h
    dsimp only at h
    obtain ⟨error, heq⟩ | ⟨value, -, heq⟩ | ⟨-, error, heq⟩ | ⟨-, -, value, -, heq⟩ :=
      prepare_cases service iteration key materialized now hit saved
    all_goals rw [heq] at h
    · cases h
    · rw [List.mem_singleton.mp h]
      simp [CacheCall.readings, CacheEvent.time]
    · cases h
    · rw [stores_time h]
      simp [CacheCall.readings]

theorem run_time {event : CacheEvent} (h : event ∈ (service.run events calls).2) :
    event ∈ events ∨ event.time ∈ calls.flatMap CacheCall.readings := by
  induction calls generalizing service events with
  | nil => exact Or.inl h
  | cons call rest ih =>
    rw [List.flatMap_cons, List.mem_append]
    obtain hevent | htime := ih h
    · obtain hcall | hbefore := List.mem_append.mp hevent
      · exact Or.inr (Or.inl (call_time hcall))
      · exact Or.inl hbefore
    · exact Or.inr (Or.inr htime)

theorem lastTouched_mem {touched : ℕ} (h : lastTouched events key = some touched) :
    ∃ event ∈ events, event.time = touched := by
  obtain ⟨event, hfind, htime⟩ := Option.map_eq_some_iff.mp h
  exact ⟨event, List.mem_of_find?_eq_some hfind, htime⟩

/-! ## What the cache promises -/

/-- A round of eviction removes an entry that was not used after any other. -/
def RemovesOldest (before after : MaterializationService) : Prop :=
  ∃ oldest entry, before.state.cache.lookup oldest = some entry ∧
    (∀ other kept, before.state.cache.lookup other = some kept →
      entry.last_used ≤ kept.last_used) ∧
    after.state.cache = before.state.cache.erase oldest

/-- The loop ends after some rounds, when there is nothing to remove. -/
theorem evictToLimits_rounds (iteration : Iteration MaterializationKey CacheEntry)
    (service : MaterializationService) :
    Relation.ReflTransGen RemovesOldest service (evictToLimits iteration service) ∧
      evictRound iteration (evictToLimits iteration service) = none := by
  fun_induction evictToLimits iteration service with
  | case1 service hround => exact ⟨.refl, hround⟩
  | case2 service next hround ih =>
    obtain ⟨oldest, entry, hentry, hleast, rfl⟩ := evictRound_spec hround
    exact ⟨.head ⟨oldest, entry, hentry, hleast, rfl⟩ ih.1, ih.2⟩

/-- After any calls, the cache serves only the value that was stored last, within its time to live;
it keeps to its limits, and what it removes for them was not used for longest. Its counter is exact
as long as no insertion brings the sensitive bytes to more than a counter holds. -/
theorem cache_serves_the_latest (start : MaterializationService) (calls : List CacheCall)
    (hfresh : start.state = ⟨∅, 0⟩) :
    let ⟨service, events⟩ := start.run [] calls
    HashMap.len service.state.cache ≤ start.max_entries.toNat ∧
    (start.RunRoom calls →
      service.state.sensitive_bytes =
        HashMap.total (fun entry => sensitiveBytes entry.value) service.state.cache ∧
      service.state.sensitive_bytes ≤ start.max_sensitive_bytes.toNat) ∧
    (2 * start.max_sensitive_bytes.toNat < usizeRange → start.RunRoom calls) ∧
    (∀ key entry, service.state.cache.lookup key = some entry →
      lastTouched events key = some entry.last_used) ∧
    (∀ iteration before,
      Relation.ReflTransGen RemovesOldest before (evictToLimits iteration before) ∧
      evictRound iteration (evictToLimits iteration before) = none) ∧
    (∀ key now hit value, (calls.flatMap CacheCall.readings ++ [now]).Pairwise (· ≤ ·) →
      ((service.cached key now hit).1 = some value ∨
        ∃ iteration materialized saved,
          (service.prepare iteration key materialized now hit saved).1 = .ok ⟨value, true⟩) →
      latestStored events key = some value ∧
        ∃ touched ≤ now, lastTouched events key = some touched ∧
          ∀ ttl, start.ttl = some ttl → now ≤ touched + ttl) := by
  have hempty : start.Sound [] := by
    refine ⟨?_, ?_⟩
    · rw [hfresh]
      exact Nat.zero_le _
    · rw [hfresh]
      exact fun _ _ => nofun
  have hexact : start.Exact := by
    refine ⟨?_, ?_⟩
    · rw [hfresh]
      rfl
    · rw [hfresh]
      exact Nat.zero_le _
  have hsound := run_sound hempty calls
  have htimes := @run_time start [] calls
  obtain ⟨hmax, hbytes, httl⟩ := run_limits start [] calls
  generalize hrun : start.run [] calls = final at hsound htimes hmax hbytes httl
  obtain ⟨service, events⟩ := final
  dsimp only at hsound htimes hmax hbytes httl ⊢
  refine ⟨?_, fun hroom => ?_, fun hhalf => runRoom_of_half hexact hhalf,
    fun key entry hentry => (hsound.recorded key entry hentry).2.2,
    evictToLimits_rounds, fun key now hit value hclock hserved => ?_⟩
  · rw [← hmax]
    exact hsound.len_le
  · have hcount := run_exact [] hexact hroom
    rw [hrun] at hcount
    rw [← hbytes]
    refine ⟨hcount.counted.trans ?_, hcount.limited⟩
    exact HashMap.total_congr fun key entry hentry => (hsound.recorded key entry hentry).1
  · have hcached : (service.cached key now hit).1 = some value :=
      hserved.elim id fun ⟨_, _, _, hprepare⟩ => cached_of_prepare hprepare
    obtain ⟨hlatest, touched, htouched, hlive⟩ := cached_value hsound hcached
    obtain ⟨event, hevent, rfl⟩ := lastTouched_mem htouched
    have hreading := (htimes hevent).resolve_left List.not_mem_nil
    have hbefore :=
      (List.pairwise_append.mp hclock).2.2 _ hreading now (List.mem_singleton_self now)
    refine ⟨hlatest, event.time, hbefore, htouched, fun ttl hstart => ?_⟩
    have hwithin := hlive ttl (httl.trans hstart)
    omega

/-! ### One value under many keys -/

def listed : Iteration MaterializationKey CacheEntry :=
  ⟨fun cache => cache.entries, fun _ => .refl _⟩

def keyOfGeneration (n : ℕ) : MaterializationKey :=
  (dev_env.MaterializationKeyBuilder.new ⟨UInt64.ofNat n⟩ "/" "/" "bash"
    { uid := 0, gid := 0, user := "root", home := "/root" }).key

/-- An environment with one secret of some length. -/
def secretOfLength (length : ℕ) : Materialization where
  environment := ⟨(∅ : Std.ExtTreeMap String EnvValue).insert "S"
    ⟨String.ofList (List.replicate length 'x'), none, .Secret, none⟩⟩

/-- A service with two places. -/
def twoPlaces : MaterializationService := new.withLimits 2 (some 300)

/-- The third value takes the place of the second one, as the first one was served since. -/
def fewCalls : List CacheCall := [
  .CacheSuccess listed (keyOfGeneration 1) (secretOfLength 3) 0,
  .CacheSuccess listed (keyOfGeneration 2) (secretOfLength 4) 1,
  .Cached (keyOfGeneration 1) 2 2,
  .CacheSuccess listed (keyOfGeneration 3) (secretOfLength 5) 3]

theorem second_value_is_evicted :
    let ⟨service, events⟩ := twoPlaces.run [] fewCalls
    (service.state.cache.lookup (keyOfGeneration 2) = none ∧
      service.state.sensitive_bytes = 10) ∧
    HashMap.len service.state.cache ≤ twoPlaces.max_entries.toNat ∧
    service.state.sensitive_bytes =
      HashMap.total (fun entry => sensitiveBytes entry.value) service.state.cache ∧
    ∃ value, (service.cached (keyOfGeneration 1) 4 4).1 = some value ∧
      latestStored events (keyOfGeneration 1) = some value ∧
      ∃ touched ≤ 4, lastTouched events (keyOfGeneration 1) = some touched ∧
        4 ≤ touched + 300 := by
  have hevicted : ((twoPlaces.run [] fewCalls).1.state.cache.lookup (keyOfGeneration 2)).isNone =
      true := by
    decide +kernel
  have hbytes : (twoPlaces.run [] fewCalls).1.state.sensitive_bytes = 10 := by
    decide +kernel
  have hhit : ((twoPlaces.run [] fewCalls).1.cached (keyOfGeneration 1) 4 4).1.isSome = true := by
    decide +kernel
  obtain ⟨value, hvalue⟩ := Option.isSome_iff_exists.mp hhit
  obtain ⟨hlen, hcounted, hroom, -, -, hserved⟩ := cache_serves_the_latest twoPlaces fewCalls rfl
  obtain ⟨hlatest, touched, hbefore, htouched, hlive⟩ := hserved (keyOfGeneration 1) 4 4 value
    (by decide) (.inl hvalue)
  exact ⟨⟨Option.isNone_iff_eq_none.mp hevicted, hbytes⟩, hlen, (hcounted (hroom (by decide))).1,
    value, hvalue, hlatest, touched, hbefore, htouched, hlive 300 rfl⟩

theorem keyOfGeneration_ne {n other : ℕ} (hne : n ≠ other) (hn : n < usizeRange)
    (hother : other < usizeRange) : keyOfGeneration n ≠ keyOfGeneration other := by
  intro h
  have hvalue : UInt64.ofNat n = UInt64.ofNat other :=
    congrArg (fun key : MaterializationKey => key.generation.value) h
  rw [← UInt64.toNat_inj, UInt64.toNat_ofNat', UInt64.toNat_ofNat'] at hvalue
  exact hne ((Nat.mod_eq_of_lt hn).symm.trans (hvalue.trans (Nat.mod_eq_of_lt hother)))

theorem byteLen_replicate (length : ℕ) :
    byteLen (String.ofList (List.replicate length 'x')) = length := by
  unfold byteLen
  rw [String.utf8ByteSize_ofList]
  induction length with
  | zero => rfl
  | succ length ih =>
    rw [List.replicate_succ, String.utf8Len_cons, ih]
    rfl

theorem sensitiveBytes_secretOfLength {length : ℕ} (h : length + 1 < usizeRange) :
    sensitiveBytes (secretOfLength length) = length + 1 := by
  have hlist : (secretOfLength length).environment.values.toList =
      [("S", ⟨String.ofList (List.replicate length 'x'), none, .Secret, none⟩)] := rfl
  unfold sensitiveBytes
  rw [hlist]
  have hname : byteLen "S" = 1 := rfl
  have hsize : saturatingAdd 1 length = length + 1 := by
    rw [saturatingAdd_of_lt (by omega), Nat.add_comm]
  simp only [ne_eq, reduceCtorEq, not_false_eq_true, decide_true, List.filter_cons_of_pos,
    List.filter_nil, List.map_cons, List.map_nil, List.sum_singleton, hname, byteLen_replicate,
    hsize]
  exact Nat.mod_eq_of_lt h

theorem evictToLimits_of_within (hlen : HashMap.len service.state.cache ≤ service.max_entries.toNat)
    (hbytes : service.state.sensitive_bytes ≤ service.max_sensitive_bytes.toNat) :
    evictToLimits iteration service = service := by
  have hround : evictRound iteration service = none := by
    unfold evictRound
    dsimp only
    exact if_neg (not_or.mpr ⟨Nat.not_lt.mpr hlen, Nat.not_lt.mpr hbytes⟩)
  unfold evictToLimits
  split
  · rfl
  · next hnext =>
    rw [hround] at hnext
    cases hnext

/-- The service with the greatest limits. -/
def unlimited : MaterializationService :=
  (new.withLimits 0xFFFFFFFFFFFFFFFF none).withSensitiveByteLimit 0xFFFFFFFFFFFFFFFF

/-- The state after one value was stored under so many keys. -/
structure Filled (service : MaterializationService) (materialization : Materialization) (n : ℕ) :
    Prop where
  limits : service.max_entries.toNat = usizeRange - 1 ∧
    service.max_sensitive_bytes.toNat = usizeRange - 1
  len : HashMap.len service.state.cache = n
  total : HashMap.total (fun entry => sensitiveBytes entry.value) service.state.cache =
    n * sensitiveBytes materialization
  counter : service.state.sensitive_bytes ≤ usizeRange - 1
  fresh : ∀ other, n ≤ other → other < usizeRange →
    service.state.cache.lookup (keyOfGeneration other) = none

theorem Filled.cacheSuccess {n : ℕ} (h : service.Filled materialization n)
    (iteration : Iteration MaterializationKey CacheEntry) (now : ℕ) (hn : n + 1 < usizeRange)
    (hsize : sensitiveBytes materialization < usizeRange) :
    (service.cacheSuccess iteration (keyOfGeneration n) materialization now).Filled materialization
      (n + 1) := by
  have hnone := h.fresh n le_rfl (Nat.lt_of_succ_lt hn)
  have hlimits := h.limits
  have hlen :
      HashMap.len (service.stored (keyOfGeneration n) materialization now).state.cache = n + 1 := by
    unfold stored
    dsimp only
    rw [HashMap.len_eq_total, HashMap.total_insert, HashMap.erase_of_lookup_none hnone,
      ← HashMap.len_eq_total, h.len, Nat.add_comm]
  have hcounter : (service.stored (keyOfGeneration n) materialization now).state.sensitive_bytes ≤
      usizeRange - 1 := by
    unfold stored saturatingAdd
    exact min_le_right _ _
  have hstored : service.cacheSuccess iteration (keyOfGeneration n) materialization now =
      service.stored (keyOfGeneration n) materialization now := by
    unfold MaterializationService.cacheSuccess
    rw [if_neg (by omega)]
    refine evictToLimits_of_within ?_ ?_
    · rw [hlen]
      exact (Nat.le_sub_one_of_lt hn).trans hlimits.1.ge
    · exact hcounter.trans hlimits.2.ge
  rw [hstored]
  refine ⟨hlimits, hlen, ?_, hcounter, fun other hother hrange => ?_⟩
  · unfold stored
    dsimp only
    rw [HashMap.total_insert, HashMap.erase_of_lookup_none hnone, h.total, Nat.succ_mul,
      Nat.add_comm]
  · unfold stored
    dsimp only
    rw [AList.lookup_insert_ne (keyOfGeneration_ne (by omega) hrange (Nat.lt_of_succ_lt hn))]
    exact h.fresh other (Nat.le_of_succ_le hother) hrange

/-- One value stored under the keys of some generations. -/
def storeUnder (materialization : Materialization) (first count : ℕ) : List CacheCall :=
  (List.range' first count).map fun n =>
    .CacheSuccess listed (keyOfGeneration n) materialization 0

theorem Filled.run {first : ℕ} (h : service.Filled materialization first)
    (events : List CacheEvent) (count : ℕ) (hrange : first + count < usizeRange)
    (hsize : sensitiveBytes materialization < usizeRange) :
    (service.run events (storeUnder materialization first count)).1.Filled materialization
      (first + count) := by
  induction count generalizing service events first with
  | zero => exact h
  | succ count ih =>
    have hfirst := h.cacheSuccess listed 0 (by omega) hsize
    have hsum : first + (count + 1) = first + 1 + count := by omega
    rw [hsum] at hrange ⊢
    exact ih hfirst _ hrange

/-- A counter cannot hold the sizes of one large value under many keys, which share it. -/
theorem counter_falls_behind : ¬ ∀ (start : MaterializationService) (calls : List CacheCall),
    start.state = ⟨∅, 0⟩ → (calls.flatMap CacheCall.readings).Pairwise (· ≤ ·) →
      (start.run [] calls).1.state.sensitive_bytes =
        HashMap.total (fun entry => sensitiveBytes entry.value)
          (start.run [] calls).1.state.cache := by
  intro hall
  have hbytes : sensitiveBytes (secretOfLength (2 ^ 40 - 1)) = 2 ^ 40 :=
    sensitiveBytes_secretOfLength (by decide)
  have hstart : unlimited.Filled (secretOfLength (2 ^ 40 - 1)) 0 :=
    ⟨⟨rfl, rfl⟩, rfl, (Nat.zero_mul _).symm, Nat.zero_le _, fun _ _ _ => rfl⟩
  have hfilled := hstart.run [] (2 ^ 24) (by decide)
    (hbytes.trans_lt (by decide))
  have hclock : ((storeUnder (secretOfLength (2 ^ 40 - 1)) 0 (2 ^ 24)).flatMap
      CacheCall.readings).Pairwise (· ≤ ·) := by
    refine List.pairwise_of_forall_mem_list fun first hfirst second _ => ?_
    obtain ⟨call, hcall, hreading⟩ := List.mem_flatMap.mp hfirst
    obtain ⟨n, -, rfl⟩ := List.mem_map.mp hcall
    rw [List.mem_singleton.mp hreading]
    exact Nat.zero_le second
  have hequal := hall unlimited _ rfl hclock
  have hcounter := hfilled.counter
  rw [hequal, hfilled.total, hbytes] at hcounter
  exact absurd hcounter (by decide)

end MaterializationService

end dev_env_core
