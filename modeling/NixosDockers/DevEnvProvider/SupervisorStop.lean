-- `stop` beside the calls of the supervisor: nothing starts or succeeds after it that was not
-- past the check of the flag, and everyone comes to an end (`dev-env-provider`: `command.rs`).
import NixosDockers.DevEnvProvider.SupervisorReplies

open dev_env traces

namespace dev_env_provider

namespace ProcessExecutor

/-! ## Stopping -/

/-- The actor has seen the message to stop. -/
def Actor.leaving : Actor → Bool
  | .Draining | .Refusing _ | .Leaving | .Ended => true
  | _ => false

theorem Actor.leaving_of_ended {actor : Actor} (h : actor = .Ended) : actor.leaving = true := by
  rw [h]
  rfl

namespace State

variable {s s' : State} {e : Event}

/-- The flag is set before the message to stop is sent, and this message comes. -/
structure Flagged (s : State) : Prop where
  called : s.stops ≠ [] → s.stopping = true
  flag : .Stop ∈ s.queue ∨ s.actor.leaving = true → s.stopping = true
  coming : s.stopping = true →
    (∃ k : ℕ, s.stops[k]? = some .Sending) ∨ .Stop ∈ s.queue ∨ s.actor.leaving = true

/-- The mutex of the join handle. -/
structure Mutex (s : State) : Prop where
  thread : s.thread = true → s.locked = false
  free : s.thread = false → s.locked = true ∨ s.actor = .Ended
  joining : s.locked = true ↔ ∃ k : ℕ, s.stops[k]? = some .Joining
  single : ∀ k k' : ℕ, s.stops[k]? = some .Joining → s.stops[k']? = some .Joining → k = k'
  returned : ∀ k : ℕ, s.stops[k]? = some .Returned → s.actor = .Ended

theorem stop_of_setStop {k m : ℕ} {stop after : Stopper}
    (h : (s.stops.set k stop)[m]? = some after) :
    m ≠ k ∧ s.stops[m]? = some after ∨ m = k ∧ stop = after := by
  rw [List.getElem?_set] at h
  split at h
  · rename_i heq
    split at h
    · exact .inr ⟨heq.symm, Option.some.inj h⟩
    · cases h
  · rename_i hne
    exact .inl ⟨Ne.symm hne, h⟩

theorem stop_of_append {stop after : Stopper} {m : ℕ}
    (h : (s.stops ++ [stop])[m]? = some after) : s.stops[m]? = some after ∨ stop = after := by
  rw [List.getElem?_append] at h
  split at h
  · exact .inl h
  · rw [List.getElem?_singleton] at h
    split at h
    · exact .inr (Option.some.inj h)
    · cases h

theorem sending_kept {k m : ℕ} {before after : Stopper} (hm : s.stops[m]? = some .Sending)
    (hk : s.stops[k]? = some before) (hbefore : before ≠ .Sending) :
    (s.stops.set k after)[m]? = some .Sending := by
  have hne : k ≠ m := by
    rintro rfl
    rw [hk] at hm
    exact hbefore (Option.some.inj hm)
  rw [List.getElem?_set_ne hne, hm]

theorem ne_nil_of_stop {k : ℕ} {stop : Stopper} (h : s.stops[k]? = some stop) : s.stops ≠ [] := by
  intro hnil
  rw [hnil] at h
  cases h

theorem Flagged.moves (h : Moves s e s') (hs : s.Flagged) : s'.Flagged := by
  cases h with
  | invalid | valid | turnedAway | admitted | unsent | answered | forgotten =>
    exact ⟨hs.called, hs.flag, hs.coming⟩
  | sent =>
    refine ⟨hs.called, fun hstop => hs.flag (hstop.imp_left fun hmem => ?_), fun hflag => ?_⟩
    · simpa [enqueue, note, setPhase] using hmem
    · exact (hs.coming hflag).imp_right (Or.imp_left (List.mem_append_left _))
  | stopFirst =>
    exact ⟨fun _ => rfl, fun _ => rfl, fun _ => .inl ⟨s.stops.length, by simp⟩⟩
  | stopAgain hflag =>
    refine ⟨fun _ => hflag, hs.flag, fun _ => (hs.coming hflag).imp_left ?_⟩
    rintro ⟨k, hk⟩
    obtain ⟨hlt, -⟩ := List.getElem?_eq_some_iff.mp hk
    exact ⟨k, by rw [List.getElem?_append_left hlt, hk]⟩
  | stopUnsent hk hended =>
    exact ⟨fun _ => hs.called (ne_nil_of_stop hk), hs.flag,
      fun _ => .inr (.inr (Actor.leaving_of_ended hended))⟩
  | stopSent hk hne =>
    exact ⟨fun _ => hs.called (ne_nil_of_stop hk), fun _ => hs.called (ne_nil_of_stop hk),
      fun _ => .inr (.inl (List.mem_append_right _ (List.mem_singleton.mpr rfl)))⟩
  | handle hk | noHandle hk | joined hk =>
    refine ⟨fun _ => hs.called (ne_nil_of_stop hk), hs.flag, fun hflag => ?_⟩
    refine (hs.coming hflag).imp_left ?_
    rintro ⟨m, hm⟩
    exact ⟨m, sending_kept hm hk (by rintro ⟨⟩)⟩
  | picked hactor hqueue =>
    refine ⟨hs.called, fun hstop => hs.flag (.inl ?_), fun hflag => ?_⟩
    · rw [hqueue]
      exact List.mem_cons_of_mem _ (hstop.resolve_right (by rintro ⟨⟩))
    · rcases hs.coming hflag with hsending | hmem | hleaving
      · exact .inl hsending
      · rw [hqueue] at hmem
        exact .inr (.inl ((List.mem_cons.mp hmem).resolve_left (by rintro ⟨⟩)))
      · rw [hactor] at hleaving
        cases hleaving
  | takenStop hactor hqueue =>
    have hflag := hs.flag (.inl (by rw [hqueue]; exact List.mem_cons_self))
    exact ⟨hs.called, fun _ => hflag, fun _ => .inr (.inr rfl)⟩
  | late hactor | cleared hactor | unencoded hactor | launched hactor | replied hactor
  | responded hactor | overruled hactor | upheld hactor | returned hactor | failed hactor =>
    refine ⟨hs.called, fun hstop => hs.flag (.inl (hstop.resolve_right (by rintro ⟨⟩))), fun hflag => ?_⟩
    refine (hs.coming hflag).imp_right fun hcoming => .inl (hcoming.resolve_right ?_)
    rw [hactor]
    rintro ⟨⟩
  | drainedAll hactor | drained hactor | refused hactor | left hactor =>
    have hflag := hs.flag (.inr (by rw [hactor]; rfl))
    exact ⟨hs.called, fun _ => hflag, fun _ => .inr (.inr rfl)⟩
  | drainedStop hactor =>
    have hleaving : s.actor.leaving = true := by rw [hactor]; rfl
    exact ⟨hs.called, fun _ => hs.flag (.inr hleaving), fun _ => .inr (.inr hleaving)⟩

theorem Moves.ended_kept (h : Moves s e s') (hended : s.actor = .Ended) : s'.actor = .Ended := by
  cases h with
  | invalid | valid | turnedAway | admitted | unsent | sent | answered | forgotten | stopFirst
  | stopAgain | stopUnsent | stopSent | handle | noHandle | joined => exact hended
  | picked hactor | takenStop hactor | late hactor | cleared hactor | unencoded hactor
  | launched hactor | replied hactor | drainedAll hactor | drained hactor | drainedStop hactor
  | refused hactor | left hactor | responded hactor | overruled hactor | upheld hactor
  | returned hactor | failed hactor => cases hended.symm.trans hactor

/-- A step of `stop` away from the mutex, which leaves what `stops` the callers are at. -/
theorem Mutex.of_stops {stops : List Stopper} (hs : s.Mutex)
    (hjoining : ∀ k : ℕ, stops[k]? = some .Joining ↔ s.stops[k]? = some .Joining)
    (hreturned : ∀ k : ℕ, stops[k]? = some .Returned →
      s.stops[k]? = some .Returned ∨ s.actor = .Ended)
    (hstops : s'.stops = stops) (hthread : s'.thread = s.thread) (hlocked : s'.locked = s.locked)
    (hactor : s'.actor = s.actor) : s'.Mutex := by
  refine ⟨?_, ?_, ?_, fun k k' h h' => ?_, fun k hk => ?_⟩
  · rw [hthread, hlocked]
    exact hs.thread
  · rw [hthread, hlocked, hactor]
    exact hs.free
  · rw [hlocked, hs.joining, hstops]
    simp only [hjoining]
  · rw [hstops, hjoining] at h h'
    exact hs.single k k' h h'
  · rw [hstops] at hk
    rw [hactor]
    exact (hreturned k hk).elim (hs.returned k) id

theorem Mutex.of_append {stop : Stopper} (hs : s.Mutex) (hjoining : stop ≠ .Joining)
    (hreturned : stop ≠ .Returned) (hstops : s'.stops = s.stops ++ [stop])
    (hthread : s'.thread = s.thread) (hlocked : s'.locked = s.locked)
    (hactor : s'.actor = s.actor) : s'.Mutex := by
  refine hs.of_stops (fun k => ⟨fun hk => ?_, fun hk => ?_⟩) (fun k hk => ?_) hstops hthread
    hlocked hactor
  · exact (stop_of_append hk).resolve_right hjoining
  · obtain ⟨hlt, -⟩ := List.getElem?_eq_some_iff.mp hk
    rw [List.getElem?_append_left hlt, hk]
  · exact .inl ((stop_of_append hk).resolve_right hreturned)

/-- A caller of `stop` that does not hold the mutex goes on. -/
theorem Mutex.of_locking {k : ℕ} {before after : Stopper} (hs : s.Mutex)
    (hk : s.stops[k]? = some before) (hbefore : before ≠ .Joining) (hafter : after ≠ .Joining)
    (hreturned : after = .Returned → s.actor = .Ended) (hstops : s'.stops = s.stops.set k after)
    (hthread : s'.thread = s.thread) (hlocked : s'.locked = s.locked)
    (hactor : s'.actor = s.actor) : s'.Mutex := by
  refine hs.of_stops (fun m => ⟨fun hm => ?_, fun hm => ?_⟩) (fun m hm => ?_) hstops hthread
    hlocked hactor
  · rcases stop_of_setStop hm with ⟨-, hold⟩ | ⟨-, hnew⟩
    · exact hold
    · exact absurd hnew hafter
  · have hne : k ≠ m := by
      rintro rfl
      rw [hk] at hm
      exact hbefore (Option.some.inj hm)
    rw [List.getElem?_set_ne hne, hm]
  · rcases stop_of_setStop hm with ⟨-, hold⟩ | ⟨-, hnew⟩
    · exact .inl hold
    · exact .inr (hreturned hnew)

theorem Mutex.moves (h : Moves s e s') (hs : s.Mutex) : s'.Mutex := by
  have hended := h.ended_kept
  cases h with
  | stopFirst => exact @Mutex.of_append s _ .Sending hs nofun nofun rfl rfl rfl rfl
  | stopAgain => exact @Mutex.of_append s _ .Locking hs nofun nofun rfl rfl rfl rfl
  | stopUnsent hk | stopSent hk =>
    exact @Mutex.of_locking s _ _ _ .Locking hs hk nofun nofun nofun rfl rfl rfl rfl
  | handle hk hfree hthread =>
    rename_i n
    have hnone : ∀ m : ℕ, s.stops[m]? ≠ some .Joining := fun m hm => by
      have hlocked := hs.joining.mpr ⟨m, hm⟩
      rw [hfree] at hlocked
      cases hlocked
    have honly : ∀ m : ℕ, (s.stops.set n .Joining)[m]? = some .Joining → m = n := fun m hm =>
      (stop_of_setStop hm).elim (fun hold => absurd hold.2 (hnone m)) And.left
    refine ⟨nofun, fun _ => .inl rfl, ⟨fun _ => ⟨n, ?_⟩, fun _ => rfl⟩, fun k k' h h' => ?_, ?_⟩
    · obtain ⟨hlt, -⟩ := List.getElem?_eq_some_iff.mp hk
      exact List.getElem?_set_self hlt
    · rw [honly k h, honly k' h']
    · intro m hm
      rcases stop_of_setStop hm with ⟨-, hold⟩ | ⟨-, hnew⟩
      · exact hs.returned m hold
      · cases hnew
  | noHandle hk hfree hthread =>
    have hnow : s.actor = .Ended := (hs.free hthread).resolve_left (by rw [hfree]; nofun)
    exact @Mutex.of_locking s _ _ _ .Returned hs hk nofun nofun (fun _ => hnow) rfl rfl rfl rfl
  | joined hk hnow =>
    rename_i n
    have hnone : ∀ m : ℕ, (s.stops.set n .Returned)[m]? ≠ some .Joining := fun m hm => by
      rcases stop_of_setStop hm with ⟨hne, hold⟩ | ⟨-, hnew⟩
      · exact hne (hs.single m _ hold hk)
      · cases hnew
    refine ⟨fun _ => rfl, fun _ => .inr hnow, ⟨nofun, ?_⟩, fun k k' h => absurd h (hnone k),
      fun _ _ => hnow⟩
    rintro ⟨m, hm⟩
    exact absurd hm (hnone m)
  | invalid | valid | turnedAway | admitted | unsent | sent | answered | forgotten | picked
  | takenStop | late | cleared | unencoded | launched | replied | drainedAll | drained | drainedStop
  | refused | left | responded | overruled | upheld | returned | failed =>
    exact ⟨hs.thread, fun h => (hs.free h).imp_right hended, hs.joining, hs.single,
      fun k hk => hended (hs.returned k hk)⟩

end State

/-- The worker that the actor has still to start, past its check of the flag. -/
def Actor.launching : Actor → List ℕ
  | .Launching _ _ n => [n]
  | _ => []

def Actor.returning : Actor → Option (ℕ × Reply)
  | .Returning n response => some (n, response)
  | _ => none

namespace State

variable {s s' : State} {e : Event}

/-- A worker has succeeded, or its success is past the last check of the flag. -/
def Succeeded (s : State) (n : ℕ) (output : CommandOutput) : Prop :=
  .Finished n (.ok output) ∈ s.log ∨ s.actor.returning = some (n, .ok output)

/-- Between two states with the flag set: no worker is started but the one that was past the
check, and none succeeds but the one whose success was past its own. -/
structure WindsDown (s s' : State) : Prop where
  flag : s'.stopping = true
  kept : started s.log <+: started s'.log
  started : started s'.log ++ s'.actor.launching <+: started s.log ++ s.actor.launching
  succeeded : ∀ n output, s'.Succeeded n output → s.Succeeded n output

theorem WindsDown.of_actor (hflag : s'.stopping = true)
    (hstarted : State.started s'.log = State.started s.log)
    (hfinished : ∀ n output, .Finished n (.ok output) ∈ s'.log → .Finished n (.ok output) ∈ s.log)
    (hlaunching : s'.actor.launching = [] ∨ s'.actor = s.actor)
    (hreturning : s'.actor.returning = none ∨ s'.actor = s.actor) : s.WindsDown s' := by
  refine ⟨hflag, hstarted ▸ List.prefix_rfl, ?_, fun n output h => ?_⟩
  · rw [hstarted]
    rcases hlaunching with hnone | hsame
    · rw [hnone, List.append_nil]
      exact List.prefix_append _ _
    · rw [hsame]
  · refine h.imp (hfinished n output) fun h => ?_
    rcases hreturning with hnone | hsame
    · rw [hnone] at h
      cases h
    · rwa [hsame] at h

theorem WindsDown.trans {s'' : State} (h : s.WindsDown s') (h' : s'.WindsDown s'') :
    s.WindsDown s'' where
  flag := h'.flag
  kept := h.kept.trans h'.kept
  started := h'.started.trans h.started
  succeeded n output hlast := h.succeeded n output (h'.succeeded n output hlast)

theorem Moves.windsDown (h : Moves s e s') (hflag : s.stopping = true) : s.WindsDown s' := by
  have hnew : ∀ {entry : Entry}, (∀ n output, entry ≠ .Finished n (.ok output)) → ∀ n output,
      .Finished n (.ok output) ∈ s.log ++ [entry] → .Finished n (.ok output) ∈ s.log := by
    intro entry hentry n output hmem
    rcases List.mem_append.mp hmem with hmem | hmem
    · exact hmem
    · exact absurd (List.mem_singleton.mp hmem).symm (hentry n output)
  cases h with
  | stopFirst => exact .of_actor rfl rfl (fun _ _ hmem => hmem) (.inr rfl) (.inr rfl)
  | invalid | valid | turnedAway | admitted | unsent | answered | forgotten | stopAgain
  | stopUnsent | stopSent | handle | noHandle | joined | drainedStop =>
    exact .of_actor hflag rfl (fun _ _ hmem => hmem) (.inr rfl) (.inr rfl)
  | takenStop | late | unencoded | replied | drainedAll | refused | left | responded =>
    exact .of_actor hflag rfl (fun _ _ hmem => hmem) (.inl rfl) (.inl rfl)
  | cleared hactor hnot | upheld hactor hnot =>
    rw [hflag] at hnot
    cases hnot
  | sent =>
    exact .of_actor hflag (by simp [Entry.started]) (hnew (by rintro _ _ ⟨⟩)) (.inr rfl) (.inr rfl)
  | picked | drained | overruled | failed =>
    exact .of_actor hflag (by simp [Entry.started]) (hnew (by rintro _ _ ⟨⟩)) (.inl rfl) (.inl rfl)
  | launched hactor =>
    rename_i request identity n frame hencode
    refine ⟨hflag, ?_, ?_, fun m output h => .inl ?_⟩
    · rw [note_log, started_concat]
      exact List.prefix_append _ _
    · rw [note_log, started_concat, hactor]
      exact (List.append_nil _).symm ▸ List.prefix_rfl
    · exact hnew (by rintro _ _ ⟨⟩) m output (h.resolve_right (by rintro ⟨⟩))
  | returned hactor =>
    rename_i n response
    refine ⟨hflag, ?_, ?_, fun m output h => ?_⟩
    · rw [note_log, started_concat]
      exact List.prefix_append _ _
    · rw [note_log, started_concat, hactor]
      exact (List.append_nil _).symm ▸ List.prefix_rfl
    · rcases List.mem_append.mp (h.resolve_right (by rintro ⟨⟩)) with hold | hnow
      · exact .inl hold
      · cases List.mem_singleton.mp hnow
        exact .inr (by rw [hactor]; rfl)

/-! ## Every call returns -/

end State

/-- The steps that a caller has left, its message apart. -/
def Phase.work : Phase → ℕ
  | .Validated => 10
  | .Admitted => 9
  | .Waiting _ => 1
  | .Returned _ => 0

def Stopper.work : Stopper → ℕ
  | .Sending => 6
  | .Locking => 2
  | .Joining => 1
  | .Returned => 0

def SupervisorMessage.work : SupervisorMessage → ℕ
  | .Execute _ _ _ => 7
  | .Stop => 3

def Actor.work : Actor → ℕ
  | .Receiving | .Ended => 0
  | .Received _ _ _ => 6
  | .Launching _ _ _ => 5
  | .Working _ => 4
  | .Responded _ _ | .Refusing _ => 3
  | .Returning _ _ | .Draining => 2
  | .Replying _ _ | .Leaving => 1

/-- A new call of `execute_request` or of `stop`. -/
def Event.entry : Event → Bool
  | .Call _ _ | .Stop => true
  | _ => false

namespace State

variable {s s' : State} {e : Event}

/-- A bound on the steps that are left while no call is made. -/
def work (s : State) : ℕ :=
  (s.calls.map fun call => call.phase.work).sum + (s.stops.map Stopper.work).sum +
    (s.queue.map SupervisorMessage.work).sum + s.actor.work

theorem work_setPhase {n : ℕ} {request : CommandRequest} {identity : Option EffectiveIdentity}
    {before phase : Phase} (h : s.calls[n]? = some ⟨request, identity, before⟩) :
    (s.setPhase n phase).work + before.work = s.work + phase.work := by
  have hsum := sum_modify (fun call : Call => call.phase.work)
    (fun call => { call with phase }) h
  simp only [work, setPhase] at hsum ⊢
  omega

theorem work_setStop {k : ℕ} {before stop : Stopper} (h : s.stops[k]? = some before) :
    (s.setStop k stop).work + before.work = s.work + stop.work := by
  have hsum := sum_modify Stopper.work (fun _ => stop) h
  rw [← List.set_eq_modify] at hsum
  simp only [work, setStop]
  omega

theorem work_setPhase_lt {n : ℕ} {request : CommandRequest} {identity : Option EffectiveIdentity}
    {before phase : Phase} (h : s.calls[n]? = some ⟨request, identity, before⟩)
    (hless : phase.work < before.work) : (s.setPhase n phase).work < s.work := by
  have hwork := @work_setPhase s _ _ _ _ phase h
  omega

theorem work_setStop_lt {k : ℕ} {before stop : Stopper} (h : s.stops[k]? = some before)
    (hless : stop.work < before.work) : (s.setStop k stop).work < s.work := by
  have hwork := @work_setStop s _ _ stop h
  omega

theorem work_enqueue {message : SupervisorMessage} :
    (s.enqueue message).work = s.work + message.work := by
  simp only [work, enqueue, List.map_append, List.sum_append, List.map_cons, List.map_nil,
    List.sum_cons, List.sum_nil]
  omega

theorem work_note {entry : Entry} : (s.note entry).work = s.work := rfl

/-- The calls that are forgotten with the receiver wait as before. -/
theorem Placed.work_dropped (hs : s.Placed) :
    s.dropReceiver.calls.map (fun call => call.phase.work) =
      s.calls.map fun call => call.phase.work := by
  refine List.ext_getElem? fun n => ?_
  simp only [dropReceiver, List.getElem?_map, List.getElem?_mapIdx, Option.map_map]
  cases hcall : s.calls[n]? with
  | none => rfl
  | some call =>
    by_cases hmem : n ∈ queued s.queue
    · have hopen := (hs.unanswered n).mp (List.mem_append_right _ hmem)
      rw [Unanswered, phaseOf, hcall, Option.map_some] at hopen
      simp [hmem, Option.some.inj hopen, Phase.work]
    · simp [hmem]

theorem Moves.work_lt (h : Moves s e s') (hentry : e.entry = false) (hs : s.Placed) :
    s'.work < s.work := by
  cases h with
  | invalid | valid | stopFirst | stopAgain => cases hentry
  | turnedAway hcall | unsent hcall | forgotten hcall | admitted hcall =>
    exact work_setPhase_lt hcall (by decide)
  | answered hcall => exact work_setPhase_lt hcall Nat.one_pos
  | sent hcall =>
    have hwork := @work_setPhase s _ _ _ _ (.Waiting .Open) hcall
    rw [work_note, work_enqueue]
    simp only [SupervisorMessage.work, Phase.work] at hwork ⊢
    omega
  | stopUnsent hk => exact work_setStop_lt hk (by decide)
  | stopSent hk =>
    have hwork := @work_setStop s _ _ .Locking hk
    rw [work_enqueue]
    simp only [SupervisorMessage.work, Stopper.work] at hwork ⊢
    omega
  | handle hk => exact @work_setStop_lt s _ _ .Joining hk (by decide)
  | noHandle hk => exact work_setStop_lt hk (by decide)
  | joined hk => exact @work_setStop_lt s _ _ .Returned hk (by decide)
  | picked hactor hqueue | takenStop hactor hqueue | drained hactor hqueue
  | drainedStop hactor hqueue =>
    simp only [work, note, hactor, hqueue, List.map_cons, List.sum_cons, Actor.work,
      SupervisorMessage.work]
    omega
  | late hactor | cleared hactor | unencoded hactor | launched hactor | drainedAll hactor
  | responded hactor | overruled hactor | upheld hactor | returned hactor | failed hactor =>
    simp only [work, note, hactor, Actor.work]
    omega
  | replied hactor =>
    rename_i n reply
    obtain ⟨request, identity, hcall⟩ := exists_call_of_phase (hs.held (by rw [hactor]; rfl))
    have hwork := @work_setPhase s _ _ _ _ (.Waiting (.Sent reply)) hcall
    simp only [work, setPhase, hactor, Phase.work, Actor.work] at hwork ⊢
    omega
  | refused hactor =>
    obtain ⟨request, identity, hcall⟩ := exists_call_of_phase (hs.held (by rw [hactor]; rfl))
    have hwork := @work_setPhase s _ _ _ _ (.Waiting (.Sent stopped)) hcall
    simp only [work, setPhase, hactor, Phase.work, Actor.work] at hwork ⊢
    omega
  | left hactor =>
    have hsum := congrArg List.sum hs.work_dropped
    simp only [work, dropReceiver, hactor, Actor.work, List.map_nil, List.sum_nil] at hsum ⊢
    omega

/-! ## The laws of every run -/

/-- All that a run keeps. -/
structure Lawful (s : State) : Prop where
  good : s.Good
  settled : s.Settled
  flagged : s.Flagged
  mutex : s.Mutex

theorem lawful_initial : Lawful {} where
  good := good_initial
  settled := settled_initial
  flagged := ⟨fun h => absurd rfl h, by simp [Actor.leaving], nofun⟩
  mutex := ⟨fun _ => rfl, nofun, by simp, by simp, by simp⟩

theorem Lawful.step (h : s.step e = some s') (hs : s.Lawful) : s'.Lawful where
  good := hs.good.moves (moves_of_step h)
  settled := hs.settled.moves (moves_of_step h) hs.good
  flagged := hs.flagged.moves (moves_of_step h)
  mutex := hs.mutex.moves (moves_of_step h)

theorem lawful_of_run {events : List Event} (h : follow step {} events = some s) : s.Lawful :=
  follow_kept (fun _ _ _ hstep hs => Lawful.step hstep hs) h lawful_initial

theorem windsDown_of_run {events : List Event} (h : follow step s events = some s')
    (hflag : s.stopping = true) : s.WindsDown s' := by
  induction events generalizing s with
  | nil =>
    obtain rfl := Option.some.inj h
    exact ⟨hflag, List.prefix_rfl, List.prefix_rfl, fun _ _ h => h⟩
  | cons e events ih =>
    obtain ⟨next, hnext, hrest⟩ := Option.bind_eq_some_iff.mp h
    have hstep := (moves_of_step hnext).windsDown hflag
    exact hstep.trans (ih hrest hstep.flag)

/-- Once the flag is set no worker starts any more, but for the one that the actor is about to
start past its check of the flag, and none succeeds any more, but for the one whose success the
actor is about to return past its last check. Once a call of `stop` has returned, the actor has
ended, the channel is empty and nobody waits for a reply. -/
theorem stop_is_final {events later : List Event} (h : follow step {} events = some s)
    (hlater : follow step s later = some s') (hflag : s.stopping = true) :
    (started s'.log = started s.log ∨ ∃ request identity n,
      s.actor = .Launching request identity n ∧ started s'.log = started s.log ++ [n]) ∧
    (∀ n output, .Finished n (.ok output) ∈ s'.log →
      .Finished n (.ok output) ∈ s.log ∨ s.actor = .Returning n (.ok output)) ∧
    ∀ k : ℕ, s'.stops[k]? = some .Returned →
      s'.actor = .Ended ∧ s'.queue = [] ∧ ∀ n, ¬ s'.Unanswered n := by
  have hdown := windsDown_of_run hlater hflag
  have hs := lawful_of_run (follow_append h hlater)
  refine ⟨?_, fun n output hmem => ?_, fun k hk => ?_⟩
  · have hbound := (List.prefix_append _ _).trans hdown.started
    cases hactor : s.actor with
    | Launching request identity n =>
      rw [hactor] at hbound
      rcases List.prefix_concat_iff.mp hbound with hall | hnone
      · exact .inr ⟨request, identity, n, rfl, hall⟩
      · exact .inl (hnone.eq_of_length_le hdown.kept.length_le)
    | _ =>
      rw [hactor] at hbound
      change started s'.log <+: started s.log ++ [] at hbound
      rw [List.append_nil] at hbound
      exact .inl (hbound.eq_of_length_le hdown.kept.length_le)
  · refine (hdown.succeeded n output (.inl hmem)).imp_right fun hreturning => ?_
    cases hactor : s.actor with
    | Returning m response =>
      rw [hactor] at hreturning
      cases hreturning
      rfl
    | _ =>
      rw [hactor] at hreturning
      cases hreturning
  · have hended := hs.mutex.returned k hk
    have hempty := hs.good.in_order.ended hended
    refine ⟨hended, hempty, fun n hn => ?_⟩
    have hmem := (hs.good.placed.unanswered n).mpr hn
    rw [pending, hended, hempty] at hmem
    cases hmem

/-- The run of two calls, up to the flag and after it. -/
def untilStop : List Event := twoCalls.take 8
def afterStop : List Event := twoCalls.drop 8

theorem second_call_finds_the_end :
    ∃ s s', follow step {} untilStop = some s ∧ follow step s afterStop = some s' ∧
      s'.stops[0]? = some .Returned ∧ started s'.log = [0] ∧
      (started s'.log = started s.log ∨ ∃ request identity n,
        s.actor = .Launching request identity n ∧ started s'.log = started s.log ++ [n]) ∧
      s'.actor = .Ended ∧ s'.queue = [] ∧ ∀ n, ¬ s'.Unanswered n := by
  obtain ⟨s, hs⟩ : ∃ s, follow step {} untilStop = some s := Option.isSome_iff_exists.mp rfl
  have hrest : ((follow step {} untilStop).bind fun s => follow step s afterStop).isSome = true :=
    rfl
  have hstops : ((follow step {} untilStop).bind fun s => (follow step s afterStop).map
    fun s' => (s.stopping, s'.stops, started s'.log)) = some (true, [.Returned], [0]) := rfl
  rw [hs, Option.bind_some] at hrest hstops
  obtain ⟨s', hs'⟩ := Option.isSome_iff_exists.mp hrest
  rw [hs', Option.map_some, Option.some.injEq, Prod.mk.injEq, Prod.mk.injEq] at hstops
  have hreturned : s'.stops[0]? = some .Returned := by rw [hstops.2.1]; rfl
  obtain ⟨hstarted, -, hfinal⟩ := stop_is_final hs hs' hstops.1
  exact ⟨s, s', hs, hs', hreturned, hstops.2.2, hstarted, hfinal 0 hreturned⟩

/-- Every call of `execute_request` and of `stop` has returned. -/
structure Quiet (s : State) : Prop where
  calls : ∀ (n : ℕ) phase, s.phaseOf n = some phase → ∃ reply, phase = .Returned reply
  stops : ∀ (k : ℕ) stop, s.stops[k]? = some stop → stop = .Returned

theorem actor_of_stuck (hstuck : ∀ e : Event, e.entry = false → s.step e = none)
    (hs : s.Lawful) : (s.actor = .Receiving ∨ s.actor = .Ended) ∧ s.queue = [] := by
  have hact : s.act = none := hstuck .Act rfl
  have hfail : s.fail .SupervisorStopped = none := hstuck (.Fail _) rfl
  unfold act at hact
  split at hact
  · rename_i hactor hqueue
    exact ⟨.inl hactor, hqueue⟩
  · cases hact
  · cases hact
  · split at hact <;> cases hact
  · split at hact <;> cases hact
  · rename_i hactor
    rw [fail, hactor] at hfail
    cases hfail
  · split at hact <;> cases hact
  · cases hact
  · cases hact
  · cases hact
  · cases hact
  · cases hact
  · cases hact
  · cases hact
  · rename_i hactor
    exact ⟨.inr hactor, hs.good.in_order.ended hactor⟩

/-- Where only the actor's end can still come, no caller of `stop` waits for it. -/
theorem no_joiner_of_stuck (hstuck : ∀ e : Event, e.entry = false → s.step e = none)
    (hs : s.Lawful) (k : ℕ) : s.stops[k]? ≠ some .Joining := by
  intro hk
  obtain ⟨hactor, hqueue⟩ := actor_of_stuck hstuck hs
  have hjoin : s.join k = none := hstuck (.Join k) rfl
  rw [join, hk] at hjoin
  dsimp only at hjoin
  split at hjoin
  · cases hjoin
  · rename_i hnot
    have hreceiving := hactor.resolve_right fun hended => hnot (Actor.ended_iff.mpr hended)
    rcases hs.flagged.coming (hs.flagged.called (ne_nil_of_stop hk)) with ⟨m, hm⟩ | hmem | hleaving
    · have hsend : s.sendStop m = none := hstuck (.SendStop m) rfl
      rw [sendStop, hm] at hsend
      cases hsend
    · rw [hqueue] at hmem
      cases hmem
    · rw [hreceiving] at hleaving
      cases hleaving

theorem quiet_of_stuck (hstuck : ∀ e : Event, e.entry = false → s.step e = none)
    (hs : s.Lawful) : s.Quiet := by
  obtain ⟨hactor, hqueue⟩ := actor_of_stuck hstuck hs
  constructor
  · intro n phase hphase
    obtain ⟨request, identity, hcall⟩ := exists_call_of_phase hphase
    have hload : s.load n = none := hstuck (.Load n) rfl
    have hsend : s.send n = none := hstuck (.Send n) rfl
    have hreceive : s.receive n = none := hstuck (.Receive n) rfl
    rw [load, hcall] at hload
    rw [send, hcall] at hsend
    rw [receive, hcall] at hreceive
    cases phase with
    | Validated => cases hload
    | Admitted =>
      dsimp only at hsend
      split at hsend <;> cases hsend
    | Waiting slot =>
      cases slot with
      | Open =>
        have hmem := (hs.good.placed.unanswered n).mpr hphase
        rw [pending, hqueue] at hmem
        rcases hactor with hactor | hactor <;> rw [hactor] at hmem <;> cases hmem
      | Sent reply => cases hreceive
      | Dropped => cases hreceive
    | Returned reply => exact ⟨reply, rfl⟩
  · intro k stop hk
    have hjoiner := no_joiner_of_stuck hstuck hs
    cases stop with
    | Sending =>
      have hsend : s.sendStop k = none := hstuck (.SendStop k) rfl
      rw [sendStop, hk] at hsend
      cases hsend
    | Locking =>
      have hlock : s.lock k = none := hstuck (.Lock k) rfl
      rw [lock, hk] at hlock
      dsimp only at hlock
      split at hlock
      · rename_i hlocked
        obtain ⟨m, hm⟩ := hs.mutex.joining.mp hlocked
        exact absurd hm (hjoiner m)
      · split at hlock <;> cases hlock
    | Joining => exact absurd hk (hjoiner k)
    | Returned => rfl

/-- Nobody is kept waiting. From every state that can be reached, the steps that are no new
calls come to an end, and when none of them is left every call has returned. -/
theorem every_call_returns {events : List Event} (h : follow step {} events = some s) :
    (∀ later s', (∀ e ∈ later, e.entry = false) → follow step s later = some s' →
      later.length ≤ s.work ∧ ((∀ e : Event, e.entry = false → s'.step e = none) → s'.Quiet)) ∧
    ∃ later s', (∀ e ∈ later, e.entry = false) ∧ follow step s later = some s' ∧ s'.Quiet := by
  have hs := lawful_of_run h
  have hstep : ∀ (s : State) (e : Event) (s' : State), s.step e = some s' → s.Lawful → s'.Lawful :=
    fun _ _ _ hstep hs => hs.step hstep
  have hlower : ∀ (s : State) (e : Event) (s' : State), e.entry = false → s.step e = some s' →
      s.Lawful → s'.work < s.work :=
    fun _ _ _ hentry hstep hs => (moves_of_step hstep).work_lt hentry hs.good.placed
  constructor
  · intro later s' hlater hrun
    have hlength := follow_length_le hstep hlower hrun hlater hs
    exact ⟨by omega, fun hstuck => quiet_of_stuck hstuck (follow_kept hstep hrun hs)⟩
  · obtain ⟨later, s', hlater, hrun, hstuck⟩ := exists_quiet hstep hlower s hs
    exact ⟨later, s', hlater, hrun, quiet_of_stuck hstuck (follow_kept hstep hrun hs)⟩

theorem stopped_calls_return :
    ∃ s, follow step {} untilStop = some s ∧ ∃ later s', (∀ e ∈ later, e.entry = false) ∧
      follow step s later = some s' ∧ s'.Quiet := by
  obtain ⟨s, hs⟩ : ∃ s, follow step {} untilStop = some s := Option.isSome_iff_exists.mp rfl
  exact ⟨s, hs, (every_call_returns hs).2⟩

end State

end ProcessExecutor

end dev_env_provider
