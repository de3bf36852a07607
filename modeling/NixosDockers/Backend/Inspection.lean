-- The questions about the backend (`server/inspection.rs`): the pages of the
-- plan and the report of `doctor`.
import NixosDockers.Backend.Runtime

open bootstrap_model init_core rust_text

namespace init_backend

def MAX_PLAN_PAGE_ACTIONS : Nat := 256

def MAX_RESPONSE_FRAME_BYTES : Nat := 8 * 1024 * 1024

/-- The lengths of JSON texts: of the message with a response, and of an action. -/
structure JsonLengths where
  message : ServerResponse → Nat
  action : PlannedAction → Nat

def BackendRuntime.status (runtime : BackendRuntime) : BackendStatus where
  state := runtime.state
  profile := runtime.profile
  snapshot_id := runtime.snapshot_id
  active_connections := runtime.active_connections

def invalidCursor : BackendError :=
  backendError "invalid_cursor" false "plan cursor does not match the current backend snapshot"

/-- The first page names any snapshot or none, and a later page the current one. -/
def cursorMatches (runtime : BackendRuntime) (requested_snapshot : Option String) (offset : Nat) :
    Bool :=
  offset ≤ runtime.plan.actions.length &&
    (if offset = 0 then requested_snapshot.all (· = runtime.snapshot_id)
    else requested_snapshot = some runtime.snapshot_id)

/-- The page with some actions from a place of the plan on. -/
def pageOf (runtime : BackendRuntime) (offset count : Nat) : PlanPage where
  online := true
  profile := runtime.profile
  snapshot_id := runtime.snapshot_id
  offset
  next_offset :=
    if offset + count < runtime.plan.actions.length then some (offset + count) else none
  total_actions := runtime.plan.actions.length
  actions := (runtime.plan.actions.drop offset).take count

def actionTooLarge (lengths : JsonLengths) (action : PlannedAction) : BackendError :=
  backendError "response_too_large" false ("plan action " ++ debugText action.id ++
    " serializes to " ++ toString (lengths.action action) ++ " bytes and exceeds the " ++
    toString MAX_RESPONSE_FRAME_BYTES ++ " byte response frame limit")

/-- The loop over the counts of actions, from the largest down to one. -/
def largestPage (lengths : JsonLengths) (runtime : BackendRuntime) (offset : Nat) :
    Nat → Option ServerResponse
  | 0 => none
  | count + 1 =>
    let response := .PlanPage (pageOf runtime offset (count + 1))
    if lengths.message response ≤ MAX_RESPONSE_FRAME_BYTES then some response
    else largestPage lengths runtime offset count

/-- `plan_page_response`. The page that is past the last action is not measured. -/
def planPageResponse (lengths : JsonLengths) (runtime : BackendRuntime)
    (requested_snapshot : Option String) (offset : Nat) : Except BackendError ServerResponse :=
  if !cursorMatches runtime requested_snapshot offset then .error invalidCursor
  else
    match runtime.plan.actions[offset]? with
    | none => .ok (.PlanPage (pageOf runtime offset 0))
    | some action =>
      let max_count := min (runtime.plan.actions.length - offset) MAX_PLAN_PAGE_ACTIONS
      match largestPage lengths runtime offset max_count with
      | some response => .ok response
      | none => .error (actionTooLarge lengths action)

def doctorResponse (runtime : BackendRuntime) (host : RequestHost) : DoctorReport where
  runtime := runtime.config.handoff.runtime
  found := host.is_file runtime.config.handoff.runtime
  executable := host.is_executable runtime.config.handoff.runtime

end init_backend
