-- Where the calls of the supervisor are, and in which order its workers are started, in
-- every run (`dev-env-provider`: `command.rs`).
import NixosDockers.DevEnvProvider.Supervisor

open dev_env traces

namespace dev_env_provider

namespace ProcessExecutor

namespace State

variable {s s' : State} {e : Event}

/-! ## Where a call is -/

def phaseOf (s : State) (n : ℕ) : Option Phase := (s.calls[n]?).map Call.phase

theorem phaseOf_eq {n : ℕ} {request : CommandRequest} {identity : Option EffectiveIdentity}
    {phase : Phase} (h : s.calls[n]? = some ⟨request, identity, phase⟩) :
    s.phaseOf n = some phase := by
  rw [phaseOf, h, Option.map_some]

theorem phaseOf_setPhase {n m : ℕ} {phase : Phase} :
    (s.setPhase n phase).phaseOf m =
      if n = m then (s.phaseOf m).map fun _ => phase else s.phaseOf m := by
  simp only [phaseOf, setPhase, List.getElem?_modify]
  cases s.calls[m]? <;> by_cases h : n = m <;> simp [h]

theorem phaseOf_setPhase_self {n : ℕ} {phase before : Phase} (h : s.phaseOf n = some before) :
    (s.setPhase n phase).phaseOf n = some phase := by
  rw [phaseOf_setPhase, if_pos rfl, h, Option.map_some]

theorem phaseOf_setPhase_of_ne {n m : ℕ} {phase : Phase} (h : n ≠ m) :
    (s.setPhase n phase).phaseOf m = s.phaseOf m := by
  rw [phaseOf_setPhase, if_neg h]

theorem phaseOf_append {call : Call} {n : ℕ} (h : s.phaseOf n ≠ none) :
    ({ s with calls := s.calls ++ [call] } : State).phaseOf n = s.phaseOf n := by
  have hlt : n < s.calls.length := by
    by_contra hge
    exact h (by rw [phaseOf, List.getElem?_eq_none (by omega), Option.map_none])
  rw [phaseOf, phaseOf, List.getElem?_append_left hlt]

theorem phaseOf_dropReceiver {n : ℕ} :
    s.dropReceiver.phaseOf n =
      if n ∈ queued s.queue then (s.phaseOf n).map fun _ => .Waiting .Dropped
      else s.phaseOf n := by
  simp only [phaseOf, dropReceiver, List.getElem?_mapIdx]
  cases s.calls[n]? <;> by_cases h : n ∈ queued s.queue <;> simp [h]

/-- The calls whose replies are still owed, in the order in which they come. -/
def pending (s : State) : List ℕ := s.actor.held ++ queued s.queue

/-- The call waits and nothing has come back. -/
def Unanswered (s : State) (n : ℕ) : Prop := s.phaseOf n = some (.Waiting .Open)

/-- Each unanswered call stands in the channel or with the actor, once, and no other does. -/
structure Placed (s : State) : Prop where
  nodup : s.pending.Nodup
  unanswered : ∀ n, n ∈ s.pending ↔ s.Unanswered n

theorem unanswered_append {call : Call} {n : ℕ} (h : call.phase ≠ .Waiting .Open) :
    ({ s with calls := s.calls ++ [call] } : State).Unanswered n ↔ s.Unanswered n := by
  unfold Unanswered phaseOf
  dsimp only
  rcases Nat.lt_trichotomy n s.calls.length with hlt | heq | hgt
  · rw [List.getElem?_append_left hlt]
  · subst heq
    simp [h]
  · rw [List.getElem?_eq_none (by simp; omega), List.getElem?_eq_none (by omega)]

theorem unanswered_setPhase {n m : ℕ} {before phase : Phase} (h : s.phaseOf n = some before)
    (hbefore : before ≠ .Waiting .Open) (hphase : phase ≠ .Waiting .Open) :
    (s.setPhase n phase).Unanswered m ↔ s.Unanswered m := by
  unfold Unanswered
  by_cases hm : n = m
  · subst hm
    rw [phaseOf_setPhase_self h, h]
    simp [hbefore, hphase]
  · rw [phaseOf_setPhase_of_ne hm]

theorem Placed.of_same (h : s.Placed) (hpending : s'.pending = s.pending)
    (hsame : ∀ n, s'.Unanswered n ↔ s.Unanswered n) : s'.Placed where
  nodup := hpending ▸ h.nodup
  unanswered n := by rw [hpending, hsame, h.unanswered]

/-- The call that is first in line gets its reply. -/
theorem Placed.of_reply {n : ℕ} {slot : Slot} {rest : List ℕ} (h : s.Placed)
    (hpending : s.pending = n :: rest) (hrest : s'.pending = rest) (hslot : slot ≠ .Open)
    (hphase : ∀ m, s'.phaseOf m = (s.setPhase n (.Waiting slot)).phaseOf m) : s'.Placed := by
  have hnodup := h.nodup
  rw [hpending, List.nodup_cons] at hnodup
  have hself : s.phaseOf n = some (.Waiting .Open) :=
    (h.unanswered n).mp (by rw [hpending]; exact List.mem_cons_self)
  refine ⟨hrest ▸ hnodup.2, fun m => ?_⟩
  unfold Unanswered
  rw [hrest, hphase]
  by_cases hm : n = m
  · subst hm
    rw [phaseOf_setPhase_self hself]
    simp [hnodup.1, hslot]
  · have hother := h.unanswered m
    rw [hpending, List.mem_cons] at hother
    rw [phaseOf_setPhase_of_ne hm]
    constructor
    · intro hmem
      exact hother.mp (.inr hmem)
    · intro hopen
      exact (hother.mpr hopen).resolve_left (Ne.symm hm)

@[simp] theorem pending_setPhase {n : ℕ} {phase : Phase} : (s.setPhase n phase).pending = s.pending :=
  rfl

@[simp] theorem queued_append_stop {queue : List SupervisorMessage} :
    queued (queue ++ [.Stop]) = queued queue := by
  simp [queued, SupervisorMessage.reply]

@[simp] theorem queued_cons_stop {queue : List SupervisorMessage} :
    queued (.Stop :: queue) = queued queue := rfl

@[simp] theorem queued_cons_execute {queue : List SupervisorMessage} {request : CommandRequest}
    {identity : Option EffectiveIdentity} {n : ℕ} :
    queued (.Execute request identity n :: queue) = n :: queued queue := rfl

theorem Placed.sent {n : ℕ} {request : CommandRequest} {identity : Option EffectiveIdentity}
    (hs : s.Placed) (h : s.calls[n]? = some ⟨request, identity, .Admitted⟩) :
    (((s.setPhase n (.Waiting .Open)).enqueue (.Execute request identity n)).note
      (.Queued n)).Placed := by
  have hpending : (((s.setPhase n (.Waiting .Open)).enqueue (.Execute request identity n)).note
      (.Queued n)).pending = s.pending ++ [n] := by
    simp [pending, enqueue, note, setPhase, queued, SupervisorMessage.reply]
  have hphase := phaseOf_eq h
  have hnew : n ∉ s.pending := by
    rw [hs.unanswered, Unanswered, hphase]
    simp
  refine ⟨?_, fun m => ?_⟩
  · rw [hpending]
    exact List.nodup_append_comm.mp (List.nodup_cons.mpr ⟨hnew, hs.nodup⟩)
  · rw [hpending, List.mem_append, List.mem_singleton, hs.unanswered]
    change _ ↔ (s.setPhase n (.Waiting .Open)).Unanswered m
    unfold Unanswered
    by_cases hm : n = m
    · subst hm
      simp [phaseOf_setPhase_self hphase]
    · rw [phaseOf_setPhase_of_ne hm]
      simp [Ne.symm hm]

theorem Placed.dropped (hs : s.Placed) (hactor : s.actor = .Leaving) : s.dropReceiver.Placed := by
  refine ⟨List.nodup_nil, fun n => ?_⟩
  have hpending : s.pending = queued s.queue := by
    rw [pending, hactor]
    rfl
  have hunanswered := hs.unanswered n
  rw [hpending] at hunanswered
  have hgone : ¬ s.dropReceiver.Unanswered n := by
    unfold Unanswered
    rw [phaseOf_dropReceiver]
    split
    · cases s.phaseOf n <;> simp
    · rename_i hnot
      exact fun hopen => hnot (hunanswered.mpr hopen)
  exact iff_of_false (List.not_mem_nil) hgone

theorem Placed.moves (h : Moves s e s') (hs : s.Placed) : s'.Placed := by
  cases h with
  | invalid => exact hs.of_same rfl fun n => unanswered_append nofun
  | valid => exact hs.of_same rfl fun n => unanswered_append nofun
  | turnedAway h | admitted h | unsent h =>
    exact hs.of_same rfl fun m => unanswered_setPhase (phaseOf_eq h) nofun nofun
  | answered h | forgotten h =>
    exact hs.of_same rfl fun m => unanswered_setPhase (phaseOf_eq h) nofun nofun
  | sent h hended => exact hs.sent h
  | stopFirst | stopAgain | stopUnsent | handle | noHandle | joined =>
    exact hs.of_same rfl fun m => Iff.rfl
  | stopSent h hended =>
    exact hs.of_same (by simp [pending, enqueue, setStop]) fun m => Iff.rfl
  | picked hactor hqueue | drained hactor hqueue =>
    exact hs.of_same (by simp [pending, hactor, hqueue, Actor.held, note]) fun m => Iff.rfl
  | takenStop hactor hqueue | drainedStop hactor hqueue =>
    exact hs.of_same (by simp [pending, hactor, hqueue, Actor.held]) fun m => Iff.rfl
  | late hactor | cleared hactor | unencoded hactor | launched hactor =>
    exact hs.of_same (by simp [pending, hactor, Actor.held, note]) fun m => Iff.rfl
  | drainedAll hactor | responded hactor | overruled hactor | upheld hactor | returned hactor
  | failed hactor =>
    exact hs.of_same (by simp [pending, hactor, Actor.held, note]) fun m => Iff.rfl
  | replied hactor | refused hactor =>
    exact @Placed.of_reply s _ _ (.Sent _) _ hs (by rw [pending, hactor]; rfl) rfl nofun
      fun m => rfl
  | left hactor => exact hs.dropped hactor

/-! ## The history -/

def accepted (log : List Entry) : List ℕ := log.filterMap Entry.queued
def taken (log : List Entry) : List ℕ := log.filterMap Entry.taken
def started (log : List Entry) : List ℕ := log.filterMap Entry.started

@[simp] theorem note_log {entry : Entry} : (s.note entry).log = s.log ++ [entry] := rfl

@[simp] theorem setPhase_log {n : ℕ} {phase : Phase} : (s.setPhase n phase).log = s.log := rfl

@[simp] theorem enqueue_log {message : SupervisorMessage} : (s.enqueue message).log = s.log := rfl

variable {log : List Entry} {entry : Entry}

@[simp] theorem accepted_concat :
    accepted (log ++ [entry]) = accepted log ++ entry.queued.toList := by
  simp only [accepted, List.filterMap_append]
  cases h : entry.queued <;> simp [h]

@[simp] theorem taken_concat : taken (log ++ [entry]) = taken log ++ entry.taken.toList := by
  simp only [taken, List.filterMap_append]
  cases h : entry.taken <;> simp [h]

@[simp] theorem started_concat :
    started (log ++ [entry]) = started log ++ entry.started.toList := by
  simp only [started, List.filterMap_append]
  cases h : entry.started <;> simp [h]

theorem mem_started {n : ℕ} : n ∈ started log ↔ ∃ frame, Entry.Started n frame ∈ log := by
  simp only [started, List.mem_filterMap]
  constructor
  · rintro ⟨entry, hentry, hstarted⟩
    cases entry with
    | Started m frame =>
      obtain rfl : m = n := Option.some.inj hstarted
      exact ⟨frame, hentry⟩
    | Queued | Taken | Finished => cases hstarted
  · rintro ⟨frame, hentry⟩
    exact ⟨_, hentry, rfl⟩

/-- The actor takes the messages in the order in which they were sent, and loses those that
come after its last look only. -/
structure InOrder (s : State) : Prop where
  ended : s.actor = .Ended → s.queue = []
  order : ∃ lost, taken s.log ++ queued s.queue ++ lost = accepted s.log ∧
    (s.actor ≠ .Ended → lost = [])

theorem InOrder.moves (h : Moves s e s') (hs : s.InOrder) : s'.InOrder := by
  obtain ⟨hended, lost, horder, hlost⟩ := hs
  cases h with
  | invalid | valid | turnedAway | admitted | unsent | answered | forgotten | stopFirst
  | stopAgain | stopUnsent | handle | noHandle | joined => exact ⟨hended, lost, horder, hlost⟩
  | stopSent h hne =>
    refine ⟨fun h => absurd h hne, lost, ?_, hlost⟩
    change taken s.log ++ queued (s.queue ++ [.Stop]) ++ lost = accepted s.log
    rwa [queued_append_stop]
  | sent h hne =>
    refine ⟨fun h => absurd h hne, [], ?_, fun _ => rfl⟩
    rw [note_log, accepted_concat, taken_concat]
    have hall := hlost hne
    subst hall
    change taken s.log ++ _ ++ queued (s.queue ++ [_]) ++ [] = accepted s.log ++ [_]
    rw [← horder]
    simp [queued, SupervisorMessage.reply, Entry.taken]
  | picked hactor hqueue | drained hactor hqueue =>
    rename_i request identity n queue
    have hall := hlost (by rw [hactor]; nofun)
    subst hall
    refine ⟨nofun, [], ?_, fun _ => rfl⟩
    rw [note_log, accepted_concat, taken_concat]
    change taken s.log ++ [n] ++ queued queue ++ [] = accepted s.log ++ []
    rw [← horder, hqueue]
    simp
  | takenStop hactor hqueue =>
    refine ⟨nofun, lost, ?_, fun _ => hlost (by rw [hactor]; nofun)⟩
    rw [hqueue] at horder
    exact horder
  | drainedStop hactor hqueue =>
    refine ⟨fun h => absurd (hactor.symm.trans h) nofun, lost, ?_, hlost⟩
    rw [hqueue] at horder
    exact horder
  | late hactor | cleared hactor | unencoded hactor | replied hactor | drainedAll hactor
  | refused hactor | responded hactor | upheld hactor =>
    exact ⟨nofun, lost, horder, fun _ => hlost (by rw [hactor]; nofun)⟩
  | launched hactor | overruled hactor | returned hactor | failed hactor =>
    refine ⟨nofun, lost, ?_, fun _ => hlost (by rw [hactor]; nofun)⟩
    rw [note_log, accepted_concat, taken_concat]
    change taken s.log ++ [] ++ queued s.queue ++ lost = accepted s.log ++ []
    simpa using horder
  | left hactor =>
    refine ⟨fun _ => rfl, queued s.queue ++ lost, ?_, fun h => absurd rfl h⟩
    change taken s.log ++ [] ++ (queued s.queue ++ lost) = accepted s.log
    rw [← horder]
    simp

/-! ## A call keeps what it was made with -/

theorem getElem?_setPhase {n m : ℕ} {phase : Phase} :
    (s.setPhase n phase).calls[m]? =
      (s.calls[m]?).map fun call => if n = m then { call with phase } else call := by
  simp only [setPhase, List.getElem?_modify]
  cases s.calls[m]? <;> rfl

theorem call_setPhase {n m : ℕ} {phase : Phase} {call : Call} (h : s.calls[m]? = some call) :
    ∃ after, (s.setPhase n phase).calls[m]? = some { call with phase := after } := by
  rw [getElem?_setPhase, h, Option.map_some]
  by_cases hm : n = m
  · exact ⟨phase, by rw [if_pos hm]⟩
  · exact ⟨call.phase, by rw [if_neg hm]⟩

theorem call_append {new call : Call} {m : ℕ} (h : s.calls[m]? = some call) :
    ∃ after, (s.calls ++ [new])[m]? = some { call with phase := after } := by
  obtain ⟨hlt, -⟩ := List.getElem?_eq_some_iff.mp h
  exact ⟨call.phase, by rw [List.getElem?_append_left hlt, h]⟩

theorem call_dropReceiver {m : ℕ} {call : Call} (h : s.calls[m]? = some call) :
    ∃ after, s.dropReceiver.calls[m]? = some { call with phase := after } := by
  simp only [dropReceiver, List.getElem?_mapIdx, h, Option.map_some]
  by_cases hm : m ∈ queued s.queue
  · exact ⟨.Waiting .Dropped, by rw [if_pos hm]⟩
  · exact ⟨call.phase, by rw [if_neg hm]⟩

theorem Moves.call_kept {n : ℕ} {call : Call} (h : Moves s e s') (hcall : s.calls[n]? = some call) :
    ∃ after, s'.calls[n]? = some { call with phase := after } := by
  cases h with
  | invalid | valid => exact call_append hcall
  | turnedAway | admitted | unsent | sent | answered | forgotten | replied | refused =>
    exact call_setPhase hcall
  | left => exact call_dropReceiver hcall
  | stopFirst | stopAgain | stopUnsent | stopSent | handle | noHandle | joined | picked | takenStop
  | late | cleared | unencoded | launched | drainedAll | drained | drainedStop | responded
  | overruled | upheld | returned | failed => exact ⟨call.phase, hcall⟩

end State

/-- The call has nothing more to send. -/
def Phase.past : Phase → Bool
  | .Validated | .Admitted => false
  | .Waiting _ | .Returned _ => true

namespace State

variable {s s' : State} {e : Event}

def Past (s : State) (n : ℕ) : Prop := ∃ phase, s.phaseOf n = some phase ∧ phase.past = true

theorem past_setPhase {n m : ℕ} {phase : Phase} (hpast : n = m → phase.past = true)
    (hm : s.Past m) : (s.setPhase n phase).Past m := by
  obtain ⟨old, hold, holdpast⟩ := hm
  by_cases heq : n = m
  · subst heq
    exact ⟨phase, phaseOf_setPhase_self hold, hpast rfl⟩
  · exact ⟨old, by rw [phaseOf_setPhase_of_ne heq, hold], holdpast⟩

theorem past_append {call : Call} {n : ℕ} (h : s.Past n) :
    ({ s with calls := s.calls ++ [call] } : State).Past n := by
  obtain ⟨phase, hphase, hpast⟩ := h
  exact ⟨phase, by rw [phaseOf_append (by rw [hphase]; nofun), hphase], hpast⟩

theorem past_dropReceiver {n : ℕ} (h : s.Past n) : s.dropReceiver.Past n := by
  obtain ⟨phase, hphase, hpast⟩ := h
  unfold Past
  rw [phaseOf_dropReceiver, hphase]
  split
  · exact ⟨_, rfl, rfl⟩
  · exact ⟨phase, rfl, hpast⟩

theorem Moves.past {n : ℕ} (h : Moves s e s') (hn : s.Past n) : s'.Past n := by
  cases h with
  | invalid | valid => exact past_append hn
  | turnedAway | unsent | sent | answered | forgotten | replied | refused =>
    exact past_setPhase (fun _ => rfl) hn
  | admitted h =>
    refine past_setPhase (fun heq => ?_) hn
    subst heq
    obtain ⟨phase, hphase, hpast⟩ := hn
    rw [phaseOf_eq h] at hphase
    cases hphase
    cases hpast
  | left => exact past_dropReceiver hn
  | stopFirst | stopAgain | stopUnsent | stopSent | handle | noHandle | joined | picked | takenStop
  | late | cleared | unencoded | launched | drainedAll | drained | drainedStop | responded
  | overruled | upheld | returned | failed => exact hn

/-- No call sends twice. -/
structure SentOnce (s : State) : Prop where
  nodup : (accepted s.log).Nodup
  past : ∀ n ∈ accepted s.log, s.Past n

theorem SentOnce.moves (h : Moves s e s') (hs : s.SentOnce) : s'.SentOnce := by
  have hpast : ∀ n ∈ accepted s.log, s'.Past n := fun n hn => h.past (hs.past n hn)
  cases h with
  | sent h =>
    rename_i n request identity hne
    have hphase := phaseOf_eq h
    have hnew : n ∉ accepted s.log := by
      intro hmem
      obtain ⟨phase, hsame, hpast⟩ := hs.past n hmem
      rw [hphase] at hsame
      cases hsame
      cases hpast
    refine ⟨?_, fun m hm => ?_⟩
    · rw [note_log, accepted_concat]
      exact List.nodup_append_comm.mp (List.nodup_cons.mpr ⟨hnew, hs.nodup⟩)
    · rw [note_log, accepted_concat] at hm
      rcases List.mem_append.mp hm with hm | hm
      · exact hpast m hm
      · obtain rfl : m = n := by simpa [Entry.queued] using hm
        exact ⟨.Waiting .Open, phaseOf_setPhase_self hphase, rfl⟩
  | picked | launched | drained | overruled | returned | failed =>
    refine ⟨?_, fun m hm => hpast m ?_⟩
    · rw [note_log, accepted_concat]
      simpa [Entry.queued] using hs.nodup
    · rw [note_log, accepted_concat] at hm
      simpa [Entry.queued] using hm
  | invalid | valid | turnedAway | admitted | unsent | answered | forgotten | stopFirst | stopAgain
  | stopUnsent | stopSent | handle | noHandle | joined | takenStop | late | cleared | unencoded
  | replied | drainedAll | drainedStop | refused | left | responded | upheld =>
    exact ⟨hs.nodup, hpast⟩

end State

/-- The message that the actor has taken and has started nothing for. -/
def Actor.carried : Actor → Option (CommandRequest × Option EffectiveIdentity × ℕ)
  | .Received request identity n | .Launching request identity n => some (request, identity, n)
  | _ => none

/-- The call that the actor has taken last and has started nothing for. -/
def Actor.fresh : Actor → Option ℕ
  | .Received _ _ n | .Launching _ _ n | .Refusing n => some n
  | _ => none

namespace State

variable {s s' : State} {e : Event}

/-- The messages carry what their calls were made with. -/
structure Carried (s : State) : Prop where
  queue : ∀ request identity n, .Execute request identity n ∈ s.queue →
    ∃ phase, s.calls[n]? = some ⟨request, identity, phase⟩
  actor : ∀ request identity n, s.actor.carried = some (request, identity, n) →
    ∃ phase, s.calls[n]? = some ⟨request, identity, phase⟩

theorem Carried.moves (h : Moves s e s') (hs : s.Carried) : s'.Carried := by
  have hkept : ∀ request identity (n : ℕ) (phase : Phase),
      s.calls[n]? = some ⟨request, identity, phase⟩ →
      ∃ phase, s'.calls[n]? = some ⟨request, identity, phase⟩ :=
    fun request identity n phase hcall => h.call_kept hcall
  have hqueue : ∀ request identity n, .Execute request identity n ∈ s.queue →
      ∃ phase, s'.calls[n]? = some ⟨request, identity, phase⟩ := by
    intro request identity n hmem
    obtain ⟨phase, hcall⟩ := hs.queue request identity n hmem
    exact hkept _ _ _ _ hcall
  have hactor : ∀ request identity n, s.actor.carried = some (request, identity, n) →
      ∃ phase, s'.calls[n]? = some ⟨request, identity, phase⟩ := by
    intro request identity n heq
    obtain ⟨phase, hcall⟩ := hs.actor request identity n heq
    exact hkept _ _ _ _ hcall
  cases h with
  | invalid | valid | turnedAway | admitted | unsent | answered | forgotten | stopFirst | stopAgain
  | stopUnsent | handle | noHandle | joined => exact ⟨hqueue, hactor⟩
  | sent h =>
    rename_i m request identity hne
    refine ⟨fun request' identity' n hmem => ?_, hactor⟩
    rcases List.mem_append.mp hmem with hold | hnew
    · exact hqueue _ _ _ hold
    · cases List.mem_singleton.mp hnew
      exact hkept _ _ _ _ h
  | stopSent h =>
    refine ⟨fun request identity n hmem => ?_, hactor⟩
    rcases List.mem_append.mp hmem with hold | hnew
    · exact hqueue _ _ _ hold
    · cases List.mem_singleton.mp hnew
  | picked _ htake =>
    refine ⟨fun request identity n hmem => hqueue _ _ _ ?_, fun request identity n heq => ?_⟩
    · rw [htake]
      exact List.mem_cons_of_mem _ hmem
    · cases heq
      exact hqueue _ _ _ (by rw [htake]; exact List.mem_cons_self)
  | takenStop _ htake | drained _ htake =>
    refine ⟨fun request identity n hmem => hqueue _ _ _ ?_, nofun⟩
    rw [htake]
    exact List.mem_cons_of_mem _ hmem
  | drainedStop _ htake =>
    refine ⟨fun request identity n hmem => hqueue _ _ _ ?_, hactor⟩
    rw [htake]
    exact List.mem_cons_of_mem _ hmem
  | cleared hnow =>
    refine ⟨hqueue, fun request identity n heq => hactor request identity n ?_⟩
    rw [hnow]
    exact heq
  | late | unencoded | launched | replied | drainedAll | refused | responded | overruled | upheld
  | returned | failed => exact ⟨hqueue, fun _ _ _ heq => nomatch heq⟩
  | left => exact ⟨fun _ _ _ hmem => absurd hmem List.not_mem_nil, nofun⟩

/-- The workers are started in the order of the messages, each for the request of its call. -/
structure Served (s : State) : Prop where
  sublist : (started s.log).Sublist (taken s.log)
  fresh : ∀ n, s.actor.fresh = some n →
    ∃ rest, taken s.log = rest ++ [n] ∧ (started s.log).Sublist rest
  framed : ∀ n frame, .Started n frame ∈ s.log → ∃ call, s.calls[n]? = some call ∧
    (WorkerRequest.fromCommand call.request call.identity).encode = .ok frame

theorem Served.moves (h : Moves s e s') (hcarried : s.Carried) (hs : s.Served) : s'.Served := by
  have hframed : ∀ n frame, .Started n frame ∈ s.log → ∃ call, s'.calls[n]? = some call ∧
      (WorkerRequest.fromCommand call.request call.identity).encode = .ok frame := by
    intro n frame hmem
    obtain ⟨call, hcall, hencode⟩ := hs.framed n frame hmem
    obtain ⟨after, hafter⟩ := h.call_kept hcall
    exact ⟨_, hafter, hencode⟩
  cases h with
  | invalid | valid | turnedAway | admitted | unsent | answered | forgotten | stopFirst | stopAgain
  | stopUnsent | stopSent | handle | noHandle | joined | drainedStop =>
    exact ⟨hs.sublist, hs.fresh, hframed⟩
  | sent h =>
    refine ⟨by simpa [Entry.taken, Entry.started] using hs.sublist, fun m hm => ?_, fun m frame hm => ?_⟩
    · simpa [Entry.taken, Entry.started] using hs.fresh m hm
    · exact hframed m frame (by simpa using hm)
  | picked hactor | drained hactor =>
    rename_i request identity n queue hqueue
    refine ⟨?_, fun m hm => ?_, fun m frame hm => hframed m frame (by simpa using hm)⟩
    · simpa [Entry.taken, Entry.started] using hs.sublist.trans (List.sublist_append_left _ _)
    · obtain rfl : n = m := Option.some.inj hm
      exact ⟨taken s.log, by simp [Entry.taken], by simpa [Entry.started] using hs.sublist⟩
  | takenStop | late | unencoded | replied | drainedAll | refused | left | responded | upheld =>
    exact ⟨hs.sublist, nofun, hframed⟩
  | cleared hactor =>
    refine ⟨hs.sublist, fun n hn => hs.fresh n ?_, hframed⟩
    rw [hactor]
    exact hn
  | launched hactor hencode =>
    rename_i request identity n frame
    obtain ⟨rest, hrest, hsublist⟩ := hs.fresh n (by rw [hactor]; rfl)
    refine ⟨?_, nofun, fun m other hm => ?_⟩
    · simpa [Entry.taken, Entry.started, hrest] using hsublist
    · rw [note_log, List.mem_append, List.mem_singleton] at hm
      rcases hm with hold | hnew
      · exact hframed m other hold
      · cases hnew
        obtain ⟨phase, hcall⟩ := hcarried.actor _ _ _ (by rw [hactor]; rfl)
        exact ⟨_, hcall, hencode⟩
  | overruled hactor | returned hactor | failed hactor =>
    exact ⟨by simpa [Entry.taken, Entry.started] using hs.sublist, nofun,
      fun m frame hm => hframed m frame (by simpa using hm)⟩

end State

end ProcessExecutor

end dev_env_provider
