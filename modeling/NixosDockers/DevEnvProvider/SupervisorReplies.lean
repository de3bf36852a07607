-- The replies of the supervisor: each comes from the worker of its own call or tells that
-- there is none (`dev-env-provider`: `command.rs`).
import NixosDockers.DevEnvProvider.SupervisorCalls

open dev_env traces

namespace dev_env_provider

namespace ProcessExecutor

namespace State

variable {s s' : State} {e : Event}

/-! ## The replies -/

/-- The reply of the call is fixed: the actor is about to send it, or it lies in the reply
channel, or the call has returned it. -/
def Answered (s : State) (n : ℕ) (reply : Reply) : Prop :=
  s.actor = .Replying n reply ∨ s.phaseOf n = some (.Waiting (.Sent reply)) ∨
    s.phaseOf n = some (.Returned reply)

/-- The reply of a call for which no worker is started. -/
def Refused (call : Call) (reply : Reply) : Prop :=
  reply = stopped ∨
    (∃ error, call.request.validate = .error error ∧ reply = .error (.Command error)) ∨
    ∃ error, (WorkerRequest.fromCommand call.request call.identity).encode = .error error ∧
      reply = .error (.Command error)

/-- A change of another call, or of one whose reply is not there yet, changes no reply. -/
theorem reply_setPhase {n m : ℕ} {before phase : Phase} {reply : Reply}
    (hbefore : s.phaseOf m = some before) (hsent : before ≠ .Waiting (.Sent reply))
    (hreturned : before ≠ .Returned reply)
    (h : s.phaseOf n = some (.Waiting (.Sent reply)) ∨ s.phaseOf n = some (.Returned reply)) :
    (s.setPhase m phase).phaseOf n = some (.Waiting (.Sent reply)) ∨
      (s.setPhase m phase).phaseOf n = some (.Returned reply) := by
  by_cases hm : m = n
  · subst hm
    rw [hbefore] at h
    rcases h with h | h
    · exact absurd (Option.some.inj h) hsent
    · exact absurd (Option.some.inj h) hreturned
  · rwa [phaseOf_setPhase_of_ne hm]

theorem Placed.held {n : ℕ} (hs : s.Placed) (h : s.actor.held = [n]) :
    s.phaseOf n = some (.Waiting .Open) :=
  (hs.unanswered n).mp (by rw [pending, h]; exact List.mem_cons_self)

theorem Moves.reply_kept {n : ℕ} {reply : Reply} (h : Moves s e s') (hs : s.Placed)
    (hreply : s.phaseOf n = some (.Waiting (.Sent reply)) ∨ s.phaseOf n = some (.Returned reply)) :
    s'.phaseOf n = some (.Waiting (.Sent reply)) ∨ s'.phaseOf n = some (.Returned reply) := by
  have hsome : s.phaseOf n ≠ none := by
    rcases hreply with h | h <;> rw [h] <;> nofun
  cases h with
  | invalid | valid =>
    rw [phaseOf_append hsome]
    exact hreply
  | turnedAway h | admitted h | unsent h | sent h | forgotten h =>
    exact reply_setPhase (phaseOf_eq h) nofun nofun hreply
  | answered h =>
    rename_i m request identity other
    by_cases hm : m = n
    · subst hm
      rw [phaseOf_eq h] at hreply
      rcases hreply with hreply | hreply
      · cases hreply
        exact .inr (phaseOf_setPhase_self (phaseOf_eq h))
      · cases hreply
    · rwa [phaseOf_setPhase_of_ne hm]
  | replied hactor | refused hactor =>
    exact reply_setPhase (hs.held (by rw [hactor]; rfl)) nofun nofun hreply
  | left hactor =>
    rw [phaseOf_dropReceiver, if_neg]
    · exact hreply
    · intro hmem
      have hopen := (hs.unanswered n).mp (List.mem_append_right _ hmem)
      rw [Unanswered] at hopen
      rw [hopen] at hreply
      rcases hreply with hreply | hreply <;> cases hreply
  | stopFirst | stopAgain | stopUnsent | stopSent | handle | noHandle | joined | picked | takenStop
  | late | cleared | unencoded | launched | drainedAll | drained | drainedStop | responded
  | overruled | upheld | returned | failed => exact hreply

theorem Moves.answered_kept {n : ℕ} {reply : Reply} (h : Moves s e s') (hs : s.Placed)
    (hreply : s.Answered n reply) : s'.Answered n reply := by
  rcases hreply with hactor | hreply
  · have hphase := hs.held (n := n) (by rw [hactor]; rfl)
    cases h with
    | invalid | valid | turnedAway | admitted | unsent | sent | answered | forgotten | stopFirst
    | stopAgain | stopUnsent | stopSent | handle | noHandle | joined => exact .inl hactor
    | replied hnow =>
      cases hactor.symm.trans hnow
      exact .inr (.inl (phaseOf_setPhase_self hphase))
    | picked hnow | takenStop hnow | late hnow | cleared hnow | unencoded hnow | launched hnow
    | drainedAll hnow | drained hnow | drainedStop hnow | refused hnow | left hnow | responded hnow
    | overruled hnow | upheld hnow | returned hnow | failed hnow =>
      cases hactor.symm.trans hnow
  · exact .inr (h.reply_kept hs hreply)

theorem Moves.log_kept {entry : Entry} (h : Moves s e s') (hmem : entry ∈ s.log) :
    entry ∈ s'.log := by
  cases h with
  | sent | picked | launched | drained | overruled | returned | failed =>
    exact List.mem_append_left _ hmem
  | invalid | valid | turnedAway | admitted | unsent | answered | forgotten | stopFirst | stopAgain
  | stopUnsent | stopSent | handle | noHandle | joined | takenStop | late | cleared | unencoded
  | replied | drainedAll | drainedStop | refused | left | responded | upheld => exact hmem

/-- What the laws need of a state beside its replies. -/
structure Good (s : State) : Prop where
  placed : s.Placed
  in_order : s.InOrder
  sent_once : s.SentOnce
  carried : s.Carried
  served : s.Served

theorem Good.moves (h : Moves s e s') (hs : s.Good) : s'.Good where
  placed := hs.placed.moves h
  in_order := hs.in_order.moves h
  sent_once := hs.sent_once.moves h
  carried := hs.carried.moves h
  served := hs.served.moves h hs.carried

theorem Good.taken_nodup (hs : s.Good) : (taken s.log ++ queued s.queue).Nodup := by
  obtain ⟨lost, horder, -⟩ := hs.in_order.order
  have hnodup := hs.sent_once.nodup
  rw [← horder] at hnodup
  exact hnodup.of_append_left

theorem Good.started_past {n : ℕ} (hs : s.Good) (h : n ∈ started s.log) : s.Past n := by
  obtain ⟨lost, horder, -⟩ := hs.in_order.order
  apply hs.sent_once.past
  rw [← horder]
  exact List.mem_append_left _ (List.mem_append_left _ (hs.served.sublist.subset h))

theorem Good.fresh_notMem {n : ℕ} (hs : s.Good) (h : s.actor.fresh = some n) :
    n ∉ started s.log := by
  obtain ⟨rest, hrest, hsublist⟩ := hs.served.fresh n h
  have hnodup := hs.taken_nodup.of_append_left
  rw [hrest] at hnodup
  exact fun hmem => (List.nodup_append.mp hnodup).2.2 n (hsublist.subset hmem) n (by simp) rfl

theorem Good.queued_notMem {n : ℕ} (hs : s.Good) (h : n ∈ queued s.queue) :
    n ∉ started s.log := fun hmem =>
  (List.nodup_append.mp hs.taken_nodup).2.2 n (hs.served.sublist.subset hmem) n h rfl

theorem Moves.started_new {n : ℕ} (h : Moves s e s') (hn : n ∈ started s'.log) :
    n ∈ started s.log ∨ s.actor.held = [n] ∧ s.actor.fresh = some n := by
  cases h with
  | launched hactor =>
    rw [note_log, started_concat] at hn
    rcases List.mem_append.mp hn with hold | hnew
    · exact .inl hold
    · cases List.mem_singleton.mp hnew
      exact .inr (by rw [hactor]; exact ⟨rfl, rfl⟩)
  | sent | picked | drained | overruled | returned | failed =>
    exact .inl (by simpa [Entry.started] using hn)
  | invalid | valid | turnedAway | admitted | unsent | answered | forgotten | stopFirst | stopAgain
  | stopUnsent | stopSent | handle | noHandle | joined | takenStop | late | cleared | unencoded
  | replied | drainedAll | drainedStop | refused | left | responded | upheld => exact .inl hn

/-- No worker runs for a call whose phase says that nothing is owed. -/
theorem Moves.notMem_started {n : ℕ} {phase : Phase} (h : Moves s e s') (hs : s.Good)
    (hn : n ∉ started s.log) (hphase : s.phaseOf n = some phase) (hne : phase ≠ .Waiting .Open) :
    n ∉ started s'.log := by
  intro hmem
  rcases h.started_new hmem with hold | ⟨hheld, -⟩
  · exact hn hold
  · rw [hs.placed.held hheld] at hphase
    exact hne (Option.some.inj hphase).symm

theorem Good.notMem_of_phase {n : ℕ} {phase : Phase} (hs : s.Good)
    (hphase : s.phaseOf n = some phase) (hpast : phase.past = false) : n ∉ started s.log := by
  intro hmem
  obtain ⟨other, hother, hothers⟩ := hs.started_past hmem
  rw [hphase] at hother
  cases hother
  rw [hpast] at hothers
  cases hothers

end State

/-- The call for which a worker is started, up to its result. -/
def Actor.working : Actor → Option ℕ
  | .Working n | .Responded n _ | .Returning n _ => some n
  | _ => none

namespace State

variable {s s' : State} {e : Event}

/-- Each reply is the end of the worker of its call, or a refusal. -/
structure Settled (s : State) : Prop where
  finished : ∀ n ∈ started s.log,
    (∃ reply, .Finished n reply ∈ s.log) ∨ s.actor.working = some n
  delivered : ∀ n reply, .Finished n reply ∈ s.log → s.Answered n reply
  working : ∀ n, s.actor.working = some n → n ∈ started s.log
  worked : ∀ n reply, .Finished n reply ∈ s.log → n ∈ started s.log
  dropped : ∀ n, s.phaseOf n = some (.Waiting .Dropped) → n ∉ started s.log
  explained : ∀ n reply, s.Answered n reply → .Finished n reply ∈ s.log ∨
    n ∉ started s.log ∧ ∃ call, s.calls[n]? = some call ∧ Refused call reply

theorem Moves.finished_kept (h : Moves s e s') (hs : s.Settled) :
    ∀ n ∈ started s'.log,
      (∃ reply, .Finished n reply ∈ s'.log) ∨ s'.actor.working = some n := by
  intro n hn
  have hold : n ∈ started s.log →
      (∃ reply, .Finished n reply ∈ s'.log) ∨ s.actor.working = some n := by
    intro hmem
    refine (hs.finished n hmem).imp_left ?_
    rintro ⟨reply, hreply⟩
    exact ⟨reply, h.log_kept hreply⟩
  cases h with
  | invalid | valid | turnedAway | admitted | unsent | answered | forgotten | stopFirst | stopAgain
  | stopUnsent | stopSent | handle | noHandle | joined => exact hold hn
  | sent => exact hold (by simpa [Entry.started] using hn)
  | launched hactor =>
    rw [note_log, started_concat] at hn
    rcases List.mem_append.mp hn with hmem | hmem
    · exact .inl ((hold hmem).resolve_right (by rw [hactor]; rintro ⟨⟩))
    · cases List.mem_singleton.mp hmem
      exact .inr rfl
  | responded hactor | upheld hactor =>
    rw [hactor] at hold
    exact hold hn
  | overruled hactor | returned hactor | failed hactor =>
    refine (hold (by simpa [Entry.started] using hn)).elim .inl fun hworking => ?_
    rw [hactor] at hworking
    cases Option.some.inj hworking
    exact .inl ⟨_, List.mem_append_right _ (List.mem_singleton.mpr rfl)⟩
  | picked hactor | drained hactor =>
    exact .inl ((hold (by simpa [Entry.started] using hn)).resolve_right (by rw [hactor]; rintro ⟨⟩))
  | takenStop hactor | late hactor | cleared hactor | unencoded hactor | replied hactor
  | drainedAll hactor | drainedStop hactor | refused hactor | left hactor =>
    exact .inl ((hold hn).resolve_right (by rw [hactor]; rintro ⟨⟩))

theorem Moves.started_kept {n : ℕ} (h : Moves s e s') (hn : n ∈ started s.log) :
    n ∈ started s'.log := by
  obtain ⟨frame, hframe⟩ := mem_started.mp hn
  exact mem_started.mpr ⟨frame, h.log_kept hframe⟩

theorem Moves.working_kept (h : Moves s e s') (hs : s.Settled) :
    ∀ n, s'.actor.working = some n → n ∈ started s'.log := by
  intro n hworking
  have hold : s.actor.working = some n → n ∈ started s'.log :=
    fun hworking => h.started_kept (hs.working n hworking)
  cases h with
  | launched =>
    cases hworking
    rw [note_log, started_concat]
    exact List.mem_append_right _ (List.mem_singleton.mpr rfl)
  | invalid | valid | turnedAway | admitted | unsent | sent | answered | forgotten | stopFirst
  | stopAgain | stopUnsent | stopSent | handle | noHandle | joined | drainedStop =>
    exact hold hworking
  | responded hactor | upheld hactor =>
    rw [hactor] at hold
    exact hold hworking
  | picked | takenStop | late | cleared | unencoded | replied | drainedAll | drained | refused | left
  | overruled | returned | failed => cases hworking

theorem Moves.worked_kept (h : Moves s e s') (hs : s.Settled) :
    ∀ n reply, .Finished n reply ∈ s'.log → n ∈ started s'.log := by
  intro n reply hmem
  have hold : .Finished n reply ∈ s.log → n ∈ started s'.log :=
    fun hmem => h.started_kept (hs.worked n reply hmem)
  have hworking : s.actor.working = some n → n ∈ started s'.log :=
    fun hworking => h.started_kept (hs.working n hworking)
  cases h with
  | overruled hactor | returned hactor | failed hactor =>
    rcases List.mem_append.mp hmem with hmem | hmem
    · exact hold hmem
    · cases List.mem_singleton.mp hmem
      exact hworking (by rw [hactor]; rfl)
  | sent | picked | launched | drained =>
    rcases List.mem_append.mp hmem with hmem | hmem
    · exact hold hmem
    · cases List.mem_singleton.mp hmem
  | invalid | valid | turnedAway | admitted | unsent | answered | forgotten | stopFirst | stopAgain
  | stopUnsent | stopSent | handle | noHandle | joined | takenStop | late | cleared | unencoded
  | replied | drainedAll | drainedStop | refused | left | responded | upheld => exact hold hmem

theorem Moves.delivered_kept (h : Moves s e s') (hgood : s.Good) (hs : s.Settled) :
    ∀ n reply, .Finished n reply ∈ s'.log → s'.Answered n reply := by
  intro n reply hmem
  have hold : .Finished n reply ∈ s.log → s'.Answered n reply :=
    fun hmem => h.answered_kept hgood.placed (hs.delivered n reply hmem)
  cases h with
  | overruled | returned | failed =>
    rcases List.mem_append.mp hmem with hmem | hmem
    · exact hold hmem
    · cases List.mem_singleton.mp hmem
      exact .inl rfl
  | sent | picked | launched | drained =>
    rcases List.mem_append.mp hmem with hmem | hmem
    · exact hold hmem
    · cases List.mem_singleton.mp hmem
  | invalid | valid | turnedAway | admitted | unsent | answered | forgotten | stopFirst | stopAgain
  | stopUnsent | stopSent | handle | noHandle | joined | takenStop | late | cleared | unencoded
  | replied | drainedAll | drainedStop | refused | left | responded | upheld => exact hold hmem

theorem phaseOf_new {call : Call} {n : ℕ} {phase : Phase}
    (h : ({ s with calls := s.calls ++ [call] } : State).phaseOf n = some phase) :
    s.phaseOf n = some phase ∨
      s.phaseOf n = none ∧ (s.calls ++ [call])[n]? = some call ∧ call.phase = phase := by
  by_cases hlt : n < s.calls.length
  · left
    rwa [phaseOf, List.getElem?_append_left hlt] at h
  · right
    have heq : n = s.calls.length := by
      by_contra hne
      rw [phaseOf, List.getElem?_eq_none (by simp; omega)] at h
      cases h
    subst heq
    rw [phaseOf] at h
    simpa [phaseOf] using h

theorem phaseOf_changed {n m : ℕ} {phase after : Phase}
    (h : (s.setPhase m phase).phaseOf n = some after) :
    s.phaseOf n = some after ∨ m = n ∧ phase = after := by
  by_cases hm : m = n
  · rw [phaseOf_setPhase, if_pos hm] at h
    obtain ⟨old, -, hafter⟩ := Option.map_eq_some_iff.mp h
    exact .inr ⟨hm, hafter⟩
  · rw [phaseOf_setPhase_of_ne hm] at h
    exact .inl h

theorem Moves.dropped_kept (h : Moves s e s') (hgood : s.Good) (hs : s.Settled) :
    ∀ n, s'.phaseOf n = some (.Waiting .Dropped) → n ∉ started s'.log := by
  intro n hphase
  have hold : s.phaseOf n = some (.Waiting .Dropped) → n ∉ started s'.log :=
    fun hphase => h.notMem_started hgood (hs.dropped n hphase) hphase nofun
  have hset : ∀ m phase, phase ≠ .Waiting .Dropped →
      (s.setPhase m phase).phaseOf n = some (.Waiting .Dropped) → n ∉ started s'.log :=
    fun m phase hne hafter => hold ((phaseOf_changed hafter).resolve_right fun h => hne h.2)
  cases h with
  | invalid | valid =>
    rcases phaseOf_new hphase with hbefore | ⟨-, -, hnew⟩
    · exact hold hbefore
    · cases hnew
  | turnedAway | unsent | forgotten => exact hset _ (.Returned stopped) nofun hphase
  | admitted => exact hset _ .Admitted nofun hphase
  | sent => exact hset _ (.Waiting .Open) nofun hphase
  | answered => exact hset _ (.Returned _) nofun hphase
  | replied => exact hset _ (.Waiting (.Sent _)) nofun hphase
  | refused => exact hset _ (.Waiting (.Sent stopped)) nofun hphase
  | left hactor =>
    rw [phaseOf_dropReceiver] at hphase
    split at hphase
    · rename_i hmem
      exact hgood.queued_notMem hmem
    · exact hold hphase
  | stopFirst | stopAgain | stopUnsent | stopSent | handle | noHandle | joined | picked | takenStop
  | late | cleared | unencoded | launched | drainedAll | drained | drainedStop | responded
  | overruled | upheld | returned | failed => exact hold hphase

theorem reply_changed {n m : ℕ} {phase : Phase} {reply : Reply}
    (h : (s.setPhase m phase).phaseOf n = some (.Waiting (.Sent reply)) ∨
      (s.setPhase m phase).phaseOf n = some (.Returned reply)) :
    (s.phaseOf n = some (.Waiting (.Sent reply)) ∨ s.phaseOf n = some (.Returned reply)) ∨
      m = n ∧ (phase = .Waiting (.Sent reply) ∨ phase = .Returned reply) := by
  rcases h with h | h
  · exact (phaseOf_changed h).imp .inl (And.imp_right .inl)
  · exact (phaseOf_changed h).imp .inr (And.imp_right .inr)

theorem Moves.answered_notMem {n : ℕ} {reply : Reply} (h : Moves s e s') (hgood : s.Good)
    (hreply : s.Answered n reply) (hn : n ∉ started s.log) : n ∉ started s'.log := by
  rcases hreply with hactor | hphase | hphase
  · intro hmem
    rcases h.started_new hmem with hold | ⟨-, hfresh⟩
    · exact hn hold
    · rw [hactor] at hfresh
      cases hfresh
  · exact h.notMem_started hgood hn hphase nofun
  · exact h.notMem_started hgood hn hphase nofun

theorem exists_call_of_phase {n : ℕ} {phase : Phase} (h : s.phaseOf n = some phase) :
    ∃ request identity, s.calls[n]? = some ⟨request, identity, phase⟩ := by
  obtain ⟨⟨request, identity, other⟩, hcall, rfl⟩ := Option.map_eq_some_iff.mp h
  exact ⟨request, identity, hcall⟩

theorem Moves.explained_kept (h : Moves s e s') (hgood : s.Good) (hs : s.Settled) :
    ∀ n reply, s'.Answered n reply → .Finished n reply ∈ s'.log ∨
      n ∉ started s'.log ∧ ∃ call, s'.calls[n]? = some call ∧ Refused call reply := by
  intro n reply hanswered
  have hold : s.Answered n reply → .Finished n reply ∈ s'.log ∨
      n ∉ started s'.log ∧ ∃ call, s'.calls[n]? = some call ∧ Refused call reply := by
    intro hbefore
    rcases hs.explained n reply hbefore with hmem | ⟨hn, call, hcall, hrefused⟩
    · exact .inl (h.log_kept hmem)
    · obtain ⟨after, hafter⟩ := h.call_kept hcall
      exact .inr ⟨h.answered_notMem hgood hbefore hn, _, hafter, hrefused⟩
  -- a call that is turned away with the reply of a supervisor that has stopped
  have hturned : ∀ call, s.calls[n]? = some call → n ∉ started s'.log → reply = stopped →
      .Finished n reply ∈ s'.log ∨
        n ∉ started s'.log ∧ ∃ call, s'.calls[n]? = some call ∧ Refused call reply := by
    intro call hcall hn hstopped
    obtain ⟨after, hafter⟩ := h.call_kept hcall
    exact .inr ⟨hn, _, hafter, .inl hstopped⟩
  cases h with
  | invalid hinvalid =>
    rcases hanswered with hactor | hphase | hphase
    · exact hold (.inl hactor)
    · rcases phaseOf_new hphase with hbefore | ⟨-, -, hnew⟩
      · exact hold (.inr (.inl hbefore))
      · cases hnew
    · rcases phaseOf_new hphase with hbefore | ⟨hnone, hcall, hnew⟩
      · exact hold (.inr (.inr hbefore))
      · cases hnew
        refine .inr ⟨fun hmem => ?_, _, hcall, .inr (.inl ⟨_, hinvalid, rfl⟩)⟩
        obtain ⟨phase, hphase, -⟩ := hgood.started_past hmem
        rw [hnone] at hphase
        cases hphase
  | valid =>
    rcases hanswered with hactor | hphase | hphase
    · exact hold (.inl hactor)
    · rcases phaseOf_new hphase with hbefore | ⟨-, -, hnew⟩
      · exact hold (.inr (.inl hbefore))
      · cases hnew
    · rcases phaseOf_new hphase with hbefore | ⟨-, -, hnew⟩
      · exact hold (.inr (.inr hbefore))
      · cases hnew
  | turnedAway hcall | unsent hcall =>
    rcases hanswered with hactor | hreply
    · exact hold (.inl hactor)
    · rcases reply_changed hreply with hbefore | ⟨rfl, hnew | hnew⟩
      · exact hold (.inr hbefore)
      · cases hnew
      · cases hnew
        exact hturned _ hcall (hgood.notMem_of_phase (phaseOf_eq hcall) rfl) rfl
  | admitted hcall =>
    rcases hanswered with hactor | hreply
    · exact hold (.inl hactor)
    · rcases reply_changed hreply with hbefore | ⟨-, hnew | hnew⟩
      · exact hold (.inr hbefore)
      · cases hnew
      · cases hnew
  | sent hcall =>
    rcases hanswered with hactor | hreply
    · exact hold (.inl hactor)
    · rcases @reply_changed s n _ (.Waiting .Open) reply hreply with hbefore | ⟨-, hnew | hnew⟩
      · exact hold (.inr hbefore)
      · cases hnew
      · cases hnew
  | answered hcall =>
    rcases hanswered with hactor | hreply
    · exact hold (.inl hactor)
    · rcases reply_changed hreply with hbefore | ⟨rfl, hnew | hnew⟩
      · exact hold (.inr hbefore)
      · cases hnew
      · cases hnew
        exact hold (.inr (.inl (phaseOf_eq hcall)))
  | forgotten hcall =>
    rcases hanswered with hactor | hreply
    · exact hold (.inl hactor)
    · rcases reply_changed hreply with hbefore | ⟨rfl, hnew | hnew⟩
      · exact hold (.inr hbefore)
      · cases hnew
      · cases hnew
        exact hturned _ hcall (hs.dropped _ (phaseOf_eq hcall)) rfl
  | late hactor =>
    rcases hanswered with hnow | hreply
    · cases hnow
      obtain ⟨phase, hcall⟩ := hgood.carried.actor _ _ _ (by rw [hactor]; rfl)
      exact hturned _ hcall (hgood.fresh_notMem (by rw [hactor]; rfl)) rfl
    · exact hold (.inr hreply)
  | unencoded hactor hencode =>
    rcases hanswered with hnow | hreply
    · cases hnow
      obtain ⟨phase, hcall⟩ := hgood.carried.actor _ _ _ (by rw [hactor]; rfl)
      exact .inr ⟨hgood.fresh_notMem (by rw [hactor]; rfl), _, hcall,
        .inr (.inr ⟨_, hencode, rfl⟩)⟩
    · exact hold (.inr hreply)
  | replied hactor =>
    rcases hanswered with hnow | hreply
    · cases hnow
    · rcases @reply_changed s n _ (.Waiting (.Sent _)) reply hreply with hbefore | ⟨rfl, hnew | hnew⟩
      · exact hold (.inr hbefore)
      · cases hnew
        exact hold (.inl hactor)
      · cases hnew
  | refused hactor =>
    rcases hanswered with hnow | hreply
    · cases hnow
    · rcases @reply_changed s n _ (.Waiting (.Sent stopped)) reply hreply with
        hbefore | ⟨rfl, hnew | hnew⟩
      · exact hold (.inr hbefore)
      · cases hnew
        obtain ⟨request, identity, hcall⟩ := exists_call_of_phase (hgood.placed.held (by rw [hactor]; rfl))
        exact hturned _ hcall (hgood.fresh_notMem (by rw [hactor]; rfl)) rfl
      · cases hnew
  | left hactor =>
    rcases hanswered with hnow | hreply
    · cases hnow
    · rw [phaseOf_dropReceiver] at hreply
      split at hreply
      · rcases hreply with hreply | hreply <;>
          obtain ⟨-, -, hnew⟩ := Option.map_eq_some_iff.mp hreply <;> cases hnew
      · exact hold (.inr hreply)
  | overruled hactor | returned hactor | failed hactor =>
    rcases hanswered with hnow | hreply
    · cases hnow
      exact .inl (List.mem_append_right _ (List.mem_singleton.mpr rfl))
    · exact hold (.inr hreply)
  | stopFirst | stopAgain | stopUnsent | stopSent | handle | noHandle | joined | drainedStop =>
    exact hold hanswered
  | picked | takenStop | cleared | launched | drainedAll | drained | responded | upheld =>
    rcases hanswered with hnow | hreply
    · cases hnow
    · exact hold (.inr hreply)

theorem Settled.moves (h : Moves s e s') (hgood : s.Good) (hs : s.Settled) : s'.Settled where
  finished := h.finished_kept hs
  delivered := h.delivered_kept hgood hs
  working := h.working_kept hs
  worked := h.worked_kept hs
  dropped := h.dropped_kept hgood hs
  explained := h.explained_kept hgood hs

/-! ## The laws of every run -/

theorem good_initial : Good {} where
  placed := ⟨List.nodup_nil, by simp [pending, Actor.held, queued, Unanswered, phaseOf]⟩
  in_order := ⟨fun _ => rfl, [], rfl, fun _ => rfl⟩
  sent_once := ⟨List.nodup_nil, by simp [accepted]⟩
  carried := ⟨by simp, nofun⟩
  served := ⟨List.Sublist.refl _, nofun, by simp⟩

theorem settled_initial : Settled {} where
  finished := by simp [started]
  delivered := by simp
  working := nofun
  worked := by simp
  dropped := by simp [started]
  explained := by simp [Answered, phaseOf]

theorem settled_of_run {events : List Event} (h : follow step {} events = some s) :
    s.Good ∧ s.Settled :=
  @follow_kept _ _ step (fun s => s.Good ∧ s.Settled)
    (fun _ _ _ hstep hs => ⟨hs.1.moves (moves_of_step hstep), hs.2.moves (moves_of_step hstep) hs.1⟩)
    _ _ _ h ⟨good_initial, settled_initial⟩

theorem Answered.unique {n : ℕ} {reply other : Reply} (hs : s.Placed) (h : s.Answered n reply)
    (h' : s.Answered n other) : other = reply := by
  rcases h with hactor | h
  · rcases h' with hactor' | h'
    · cases hactor.symm.trans hactor'
      rfl
    · have hopen := hs.held (n := n) (by rw [hactor]; rfl)
      rw [hopen] at h'
      rcases h' with h' | h' <;> cases h'
  · rcases h' with hactor' | h'
    · have hopen := hs.held (n := n) (by rw [hactor']; rfl)
      rw [hopen] at h
      rcases h with h | h <;> cases h
    · rcases h with h | h <;> rcases h' with h' | h' <;> cases h.symm.trans h' <;> rfl

theorem Good.started_sublist (hs : s.Good) : (started s.log).Sublist (accepted s.log) := by
  obtain ⟨lost, horder, -⟩ := hs.in_order.order
  rw [← horder, List.append_assoc]
  exact hs.served.sublist.trans (List.sublist_append_left _ _)

/-- In every order of steps each call sends one message at most, the workers are started in the
order of the messages, each for the request of its own call, no result of a worker is lost, and
a reply is the one result of the call's own worker, or a refusal of a call without a worker. -/
theorem replies_come_from_own_workers {events : List Event} (h : follow step {} events = some s) :
    (accepted s.log).Nodup ∧ (started s.log).Sublist (accepted s.log) ∧
    (∀ n frame, .Started n frame ∈ s.log → ∃ call, s.calls[n]? = some call ∧
      (WorkerRequest.fromCommand call.request call.identity).encode = .ok frame) ∧
    (∀ n reply, .Finished n reply ∈ s.log → s.Answered n reply) ∧
    ∀ n reply, s.Answered n reply →
      (n ∈ started s.log ∧ .Finished n reply ∈ s.log ∧
        ∀ other, .Finished n other ∈ s.log → other = reply) ∨
      (n ∉ started s.log ∧ ∃ call, s.calls[n]? = some call ∧ Refused call reply) := by
  obtain ⟨hgood, hs⟩ := settled_of_run h
  refine ⟨hgood.sent_once.nodup, hgood.started_sublist, hgood.served.framed, hs.delivered,
    fun n reply hreply => ?_⟩
  rcases hs.explained n reply hreply with hmem | hrefused
  · refine .inl ⟨hs.worked n reply hmem, hmem, fun other hother => ?_⟩
    exact hreply.unique hgood.placed (hs.delivered n other hother)
  · exact .inr hrefused

/-- A worker is started for the first call, behind the swap of the flag; the second call sends its
message behind the one to stop. -/
def twoCalls : List Event :=
  [.Call { program := "git", cwd := [47] } none, .Call { program := "nix", cwd := [47] } none,
    .Load 0, .Load 1, .Send 0, .Act, .Act, .Stop, .Act, .SendStop 0, .Send 1,
    .Respond (.ok ⟨some 0, false, [], []⟩), .Act, .Act, .Act, .Act, .Act, .Act, .Act, .Lock 0, .Join 0,
    .Receive 0, .Receive 1]

theorem two_calls_are_answered :
    ∃ s, follow step {} twoCalls = some s ∧ started s.log = [0] ∧ accepted s.log = [0, 1] ∧
      ∀ n reply, s.Answered n reply →
        (n ∈ started s.log ∧ .Finished n reply ∈ s.log ∧
          ∀ other, .Finished n other ∈ s.log → other = reply) ∨
        (n ∉ started s.log ∧ ∃ call, s.calls[n]? = some call ∧ Refused call reply) := by
  obtain ⟨⟨s, hrun⟩, hlogs⟩ : (∃ s, follow step {} twoCalls = some s) ∧
      (follow step {} twoCalls).map (fun s => (started s.log, accepted s.log)) =
        some ([0], [0, 1]) :=
    ⟨Option.isSome_iff_exists.mp rfl, rfl⟩
  rw [hrun, Option.map_some, Option.some.injEq, Prod.mk.injEq] at hlogs
  exact ⟨s, hrun, hlogs.1, hlogs.2, (replies_come_from_own_workers hrun).2.2.2.2⟩

end State

end ProcessExecutor

end dev_env_provider
