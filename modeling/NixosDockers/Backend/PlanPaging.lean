-- The plan in pages: the loop of the client (`BackendClient::plan`) against the
-- page builder of the server, and why nothing is lost between them.
import NixosDockers.Backend.Client
import NixosDockers.Backend.Identity
import NixosDockers.Backend.Inspection

open bootstrap_model init_core rust_text

namespace init_backend

/-! ## The snapshot id -/

def hashByte (hash : UInt64) (byte : UInt8) : UInt64 :=
  (hash ^^^ byte.toUInt64) * 0x100000001b3

/-- The sixteen hexadecimal digits of a hash. -/
def hexText (hash : UInt64) : String :=
  String.ofList ((List.range 16).map fun place =>
    Nat.digitChar (hash.toNat / 16 ^ (15 - place) % 16))

/-- `snapshot_id`, for the JSON text of the profile, the configuration and the plan. -/
def snapshotId (description : List UInt8) : String :=
  hexText (description.foldl hashByte 0xcbf29ce484222325)

theorem utf8Size_digitChar : ∀ digit < 16, (Nat.digitChar digit).utf8Size = 1 := by decide

/-- A snapshot id is sixteen bytes long. -/
theorem byteLen_snapshotId (description : List UInt8) : byteLen (snapshotId description) = 16 := by
  have hdigits : ∀ (hash : UInt64) (places : List Nat),
      String.utf8Len (places.map fun place => Nat.digitChar (hash.toNat / 16 ^ (15 - place) % 16)) =
        places.length := by
    intro hash places
    induction places with
    | nil => rfl
    | cons place places ih =>
      rw [List.map_cons, String.utf8Len_cons, ih, utf8Size_digitChar _ (Nat.mod_lt _ (by decide))]
      rfl
  unfold snapshotId hexText byteLen
  rw [String.utf8ByteSize_ofList, hdigits]
  rfl

/-! ## The server -/

/-- `validate_message` for a question for the plan. -/
def validatePlanRequest (snapshot_id : Option String) : Except BackendError Unit :=
  if snapshot_id.any fun value => value = "" || byteLen value > 128 then
    .error (backendError "protocol" false "invalid protocol frame: plan snapshot id is invalid")
  else .ok ()

def planReply (lengths : JsonLengths) (runtime : BackendRuntime) (snapshot_id : Option String)
    (offset : Nat) : ServerResponse :=
  match validatePlanRequest snapshot_id with
  | .error error => .Error error
  | .ok () =>
    match planPageResponse lengths runtime snapshot_id offset with
    | .ok response => response
    | .error error => .Error error

/-! ## The client -/

/-- `validate_plan_page`. A length is never so large that the sum of the offset and the number
of actions saturates. -/
def validatePlanPage (page : PlanPage) (expected_snapshot expected_profile : Option String)
    (offset : Nat) : Except BackendClientError Unit :=
  let last := offset + page.actions.length
  if page.actions.length > MAX_PLAN_PAGE_ACTIONS ∨
      page.online = false ∨
      page.offset ≠ offset ∨
      page.snapshot_id = "" ∨
      byteLen page.snapshot_id > 128 ∨
      expected_snapshot.any (· ≠ page.snapshot_id) ∨
      expected_profile.any (· ≠ page.profile) ∨
      page.total_actions < last ∨
      page.next_offset.any (fun next => next ≠ last || next ≤ offset) ∨
      (page.next_offset.isNone ∧ last ≠ page.total_actions) ∨
      (page.next_offset.isSome ∧ page.actions = []) then
    .error .UnexpectedResponse
  else .ok ()

structure PlanReport where
  profile : String
  snapshot_id : String
  actions : List PlannedAction

/-- What the loop has after some pages. -/
structure Paging where
  snapshot_id : Option String := none
  profile : Option String := none
  actions : List PlannedAction := []
  offset : Nat := 0

/-- How the loop ends. The panic is that of the two `expect`. -/
inductive PlanOutcome where
  | Reported (report : PlanReport)
  | Failed (error : BackendClientError)
  | Panicked

/-- A page that was accepted: the end of the loop, or the state for the next page. -/
def takePage (paging : Paging) (page : PlanPage) : PlanOutcome ⊕ Paging :=
  let known : Paging :=
    if paging.snapshot_id.isNone then
      { paging with snapshot_id := some page.snapshot_id, profile := some page.profile }
    else paging
  let actions := known.actions ++ page.actions
  match page.next_offset with
  | some next => .inr { known with actions, offset := next }
  | none =>
    match known.profile, known.snapshot_id with
    | some profile, some snapshot_id => .inl (.Reported { profile, snapshot_id, actions })
    | _, _ => .inl .Panicked

/-- One turn of the loop. -/
def pageTurn (fetch : Option String → Nat → Except BackendClientError ServerResponse)
    (paging : Paging) : PlanOutcome ⊕ Paging :=
  match fetch paging.snapshot_id paging.offset with
  | .error error => .inl (.Failed error)
  | .ok (.PlanPage page) =>
    match validatePlanPage page paging.snapshot_id paging.profile paging.offset with
    | .error error => .inl (.Failed error)
    | .ok () => takePage paging page
  | .ok (.Error error) => .inl (.Failed (.Backend error))
  | .ok _ => .inl (.Failed .UnexpectedResponse)

/-- The loop of `BackendClient::plan`. It has no outcome when the turns run out. -/
def planLoop (fetch : Option String → Nat → Except BackendClientError ServerResponse) :
    Nat → Paging → Option PlanOutcome
  | 0, _ => none
  | turns + 1, paging =>
    match pageTurn fetch paging with
    | .inl outcome => some outcome
    | .inr next => planLoop fetch turns next

/-! ## The pages of the builder -/

section builder

variable {lengths : JsonLengths} {runtime : BackendRuntime} {offset : Nat}

/-- The message with the page is not longer than a frame. -/
def Fits (lengths : JsonLengths) (page : PlanPage) : Prop :=
  lengths.message (.PlanPage page) ≤ MAX_RESPONSE_FRAME_BYTES

theorem largestPage_some {count : Nat} {response : ServerResponse}
    (h : largestPage lengths runtime offset count = some response) :
    ∃ taken, 0 < taken ∧ taken ≤ count ∧ response = .PlanPage (pageOf runtime offset taken) ∧
      Fits lengths (pageOf runtime offset taken) := by
  induction count with
  | zero => cases h
  | succ count ih =>
    unfold largestPage at h
    dsimp only at h
    split_ifs at h with hfits
    · exact ⟨count + 1, by omega, le_rfl, (Option.some.inj h).symm, hfits⟩
    · obtain ⟨taken, hpos, hle, hrest⟩ := ih h
      exact ⟨taken, hpos, by omega, hrest⟩

theorem largestPage_none {count : Nat} (h : largestPage lengths runtime offset count = none)
    {taken : Nat} (hpos : 0 < taken) (hle : taken ≤ count) :
    ¬ Fits lengths (pageOf runtime offset taken) := by
  induction count with
  | zero => omega
  | succ count ih =>
    unfold largestPage at h
    dsimp only at h
    split_ifs at h with hfits
    by_cases hlast : taken = count + 1
    · rw [hlast]
      exact hfits
    · exact ih h (by omega)

theorem length_pageOf {count : Nat} (h : offset + count ≤ runtime.plan.actions.length) :
    (pageOf runtime offset count).actions.length = count := by
  unfold pageOf
  rw [List.length_take, List.length_drop]
  omega

end builder

/-! ## The loop against the builder -/

section paging

variable {lengths : JsonLengths} {runtime : BackendRuntime}

/-- The pages of the server, as the client fetches them. -/
def serverPages (lengths : JsonLengths) (runtime : BackendRuntime) (snapshot_id : Option String)
    (offset : Nat) : Except BackendClientError ServerResponse :=
  .ok (planReply lengths runtime snapshot_id offset)

/-- The snapshot id is one that the protocol takes. -/
structure NamesSnapshot (runtime : BackendRuntime) : Prop where
  nonempty : runtime.snapshot_id ≠ ""
  short : byteLen runtime.snapshot_id ≤ 128

/-- What the client has so far is the plan up to its offset. -/
structure InStep (runtime : BackendRuntime) (paging : Paging) : Prop where
  known : (paging.snapshot_id = none ∧ paging.profile = none ∧ paging.offset = 0) ∨
    (paging.snapshot_id = some runtime.snapshot_id ∧ paging.profile = some runtime.profile ∧
      0 < paging.offset ∧ paging.offset < runtime.plan.actions.length)
  actions : paging.actions = runtime.plan.actions.take paging.offset

def wholePlan (runtime : BackendRuntime) : PlanReport where
  profile := runtime.profile
  snapshot_id := runtime.snapshot_id
  actions := runtime.plan.actions

theorem snapshotId_names (description : List UInt8) (h : runtime.snapshot_id = snapshotId description) :
    NamesSnapshot runtime := by
  have hlength := byteLen_snapshotId description
  rw [← h] at hlength
  refine ⟨fun hempty => ?_, by omega⟩
  rw [hempty] at hlength
  exact absurd hlength (by decide)

/-- A page of the builder passes the check of the client. -/
theorem pageOf_valid (hnames : NamesSnapshot runtime) {paging : Paging} (h : InStep runtime paging)
    {count : Nat} (hcount : count ≤ MAX_PLAN_PAGE_ACTIONS)
    (hend : paging.offset + count ≤ runtime.plan.actions.length)
    (hpos : count = 0 → paging.offset = runtime.plan.actions.length) :
    validatePlanPage (pageOf runtime paging.offset count) paging.snapshot_id paging.profile
      paging.offset = .ok () := by
  have hlength := length_pageOf hend
  have hexpected : paging.snapshot_id.any (· ≠ runtime.snapshot_id) = false ∧
      paging.profile.any (· ≠ runtime.profile) = false := by
    rcases h.known with ⟨hsnapshot, hprofile, _⟩ | ⟨hsnapshot, hprofile, _⟩
    · simp [hsnapshot, hprofile]
    · simp [hsnapshot, hprofile]
  unfold validatePlanPage
  dsimp only
  rw [hlength, if_neg]
  rintro (hmany | hoffline | hoffset | hempty | hlong | hsnapshot | hprofile | htotal | hnext |
    ⟨hnone, hlast⟩ | ⟨hsome, hactions⟩)
  · exact absurd hmany (not_lt.mpr hcount)
  · cases hoffline
  · exact hoffset rfl
  · exact hnames.nonempty hempty
  · exact absurd hlong (not_lt.mpr hnames.short)
  · exact absurd (hexpected.1.symm.trans hsnapshot) (by simp)
  · exact absurd (hexpected.2.symm.trans hprofile) (by simp)
  · exact absurd htotal (not_lt.mpr hend)
  · simp only [pageOf] at hnext
    split_ifs at hnext with hmore
    · by_cases hzero : count = 0
      · have hdone := hpos hzero
        omega
      · simp [hzero] at hnext
    · simp at hnext
  · simp only [pageOf] at hnone hlast
    split_ifs at hnone with hmore
    · cases hnone
    · exact hlast (by omega)
  · rw [hactions] at hlength
    have hdone := hpos hlength.symm
    simp only [pageOf] at hsome
    split_ifs at hsome with hmore
    · omega
    · cases hsome

/-- In step with the plan, the client is sent a page, or the next action does not fit alone. -/
theorem planReply_cases (lengths : JsonLengths) (hnames : NamesSnapshot runtime) {paging : Paging}
    (h : InStep runtime paging) :
    (∃ count, count ≤ MAX_PLAN_PAGE_ACTIONS ∧
      paging.offset + count ≤ runtime.plan.actions.length ∧
      (count = 0 → paging.offset = runtime.plan.actions.length) ∧
      (0 < count → Fits lengths (pageOf runtime paging.offset count)) ∧
      planReply lengths runtime paging.snapshot_id paging.offset =
        .PlanPage (pageOf runtime paging.offset count)) ∨
    ∃ action, runtime.plan.actions[paging.offset]? = some action ∧
      ¬ Fits lengths (pageOf runtime paging.offset 1) ∧
      planReply lengths runtime paging.snapshot_id paging.offset =
        .Error (actionTooLarge lengths action) := by
  have hrequest : validatePlanRequest paging.snapshot_id = .ok () := by
    unfold validatePlanRequest
    rcases h.known with ⟨hsnapshot, _, _⟩ | ⟨hsnapshot, _, _⟩
    · rw [hsnapshot]
      rfl
    · rw [hsnapshot]
      simp [hnames.nonempty, hnames.short]
  have hcursor : cursorMatches runtime paging.snapshot_id paging.offset = true := by
    unfold cursorMatches
    rcases h.known with ⟨hsnapshot, _, hoffset⟩ | ⟨hsnapshot, _, hpos, hlt⟩
    · simp [hsnapshot, hoffset]
    · have hle : paging.offset ≤ runtime.plan.actions.length := by omega
      simp [hsnapshot, hpos.ne', hle]
  have hle : paging.offset ≤ runtime.plan.actions.length := by
    rcases h.known with ⟨_, _, hoffset⟩ | ⟨_, _, _, hlt⟩ <;> omega
  unfold planReply planPageResponse
  simp only [hrequest, hcursor, Bool.not_true, Bool.false_eq_true, if_false]
  cases hnext : runtime.plan.actions[paging.offset]? with
  | none =>
    rw [List.getElem?_eq_none_iff] at hnext
    exact Or.inl ⟨0, by decide, hle, fun _ => by omega, fun hpos => by omega, rfl⟩
  | some action =>
    have hlt := (List.getElem?_eq_some_iff.mp hnext).1
    dsimp only
    cases hpage : largestPage lengths runtime paging.offset
        (min (runtime.plan.actions.length - paging.offset) MAX_PLAN_PAGE_ACTIONS) with
    | some response =>
      obtain ⟨count, hpos, hcount, rfl, hfits⟩ := largestPage_some hpage
      exact Or.inl ⟨count, by omega, by omega, fun hzero => by omega, fun _ => hfits, rfl⟩
    | none =>
      refine Or.inr ⟨action, rfl, largestPage_none hpage one_pos ?_, rfl⟩
      have hmax : 0 < MAX_PLAN_PAGE_ACTIONS := by decide
      omega

/-- After the first page the client knows the snapshot and the profile. -/
theorem takePage_eq {paging : Paging} (h : InStep runtime paging) (count : Nat) :
    takePage paging (pageOf runtime paging.offset count) =
      let actions := paging.actions ++ (pageOf runtime paging.offset count).actions
      if paging.offset + count < runtime.plan.actions.length then
        .inr {
          snapshot_id := some runtime.snapshot_id
          profile := some runtime.profile
          actions
          offset := paging.offset + count }
      else .inl (.Reported {
        profile := runtime.profile
        snapshot_id := runtime.snapshot_id
        actions }) := by
  unfold takePage
  rcases h.known with ⟨hsnapshot, _, _⟩ | ⟨hsnapshot, hprofile, _, _⟩
  · simp only [hsnapshot, Option.isNone_none, if_true]
    split_ifs with hmore
    · simp only [pageOf, if_pos hmore]
    · simp only [pageOf, if_neg hmore]
  · simp only [hsnapshot, hprofile, Option.isNone_some, Bool.false_eq_true, if_false]
    split_ifs with hmore
    · simp only [pageOf, if_pos hmore]
    · simp only [pageOf, if_neg hmore]

/-- One turn ends with the whole plan, goes on in step and further on, or meets an action that
does not fit alone. -/
theorem pageTurn_cases (lengths : JsonLengths) (hnames : NamesSnapshot runtime) {paging : Paging}
    (h : InStep runtime paging) :
    pageTurn (serverPages lengths runtime) paging = .inl (.Reported (wholePlan runtime)) ∨
    (∃ next, pageTurn (serverPages lengths runtime) paging = .inr next ∧ InStep runtime next ∧
      paging.offset < next.offset) ∨
    ∃ action, runtime.plan.actions[paging.offset]? = some action ∧
      ¬ Fits lengths (pageOf runtime paging.offset 1) ∧
      pageTurn (serverPages lengths runtime) paging =
        .inl (.Failed (.Backend (actionTooLarge lengths action))) := by
  rcases planReply_cases lengths hnames h with
    ⟨count, hcount, hend, hzero, _, hreply⟩ | ⟨action, haction, hfits, hreply⟩
  · have hvalid := pageOf_valid hnames h hcount hend hzero
    have hturn : pageTurn (serverPages lengths runtime) paging =
        takePage paging (pageOf runtime paging.offset count) := by
      simp only [pageTurn, serverPages, hreply, hvalid]
    have hactions : paging.actions ++ (pageOf runtime paging.offset count).actions =
        runtime.plan.actions.take (paging.offset + count) := by
      rw [h.actions, List.take_add]
      rfl
    rw [takePage_eq h, hactions] at hturn
    dsimp only at hturn
    by_cases hmore : paging.offset + count < runtime.plan.actions.length
    · rw [if_pos hmore] at hturn
      have hpos : 0 < count := by
        by_contra hnone
        have hdone := hzero (by omega)
        omega
      refine Or.inr (Or.inl ⟨_, hturn, ⟨Or.inr ⟨rfl, rfl, ?_, hmore⟩, rfl⟩, ?_⟩)
      · dsimp only
        omega
      · dsimp only
        omega
    · rw [if_neg hmore, List.take_of_length_le (by omega)] at hturn
      exact Or.inl hturn
  · refine Or.inr (Or.inr ⟨action, haction, hfits, ?_⟩)
    simp only [pageTurn, serverPages, hreply]

/-- The loop is finished after at most one turn for each action that is left, and one more. -/
theorem planLoop_finishes (lengths : JsonLengths) (hnames : NamesSnapshot runtime) {turns : Nat}
    {paging : Paging} (h : InStep runtime paging)
    (hturns : runtime.plan.actions.length < turns + paging.offset) :
    ∃ outcome, planLoop (serverPages lengths runtime) turns paging = some outcome ∧
      (outcome = .Reported (wholePlan runtime) ∨
        ∃ offset action, runtime.plan.actions[offset]? = some action ∧
          ¬ Fits lengths (pageOf runtime offset 1) ∧
          outcome = .Failed (.Backend (actionTooLarge lengths action))) := by
  induction turns generalizing paging with
  | zero =>
    rcases h.known with ⟨_, _, hoffset⟩ | ⟨_, _, _, hlt⟩ <;> omega
  | succ turns ih =>
    unfold planLoop
    rcases pageTurn_cases lengths hnames h with hturn | ⟨next, hturn, hnext, hlt⟩ |
      ⟨action, haction, hfits, hturn⟩
    · rw [hturn]
      exact ⟨_, rfl, Or.inl rfl⟩
    · rw [hturn]
      exact ih hnext (by omega)
    · rw [hturn]
      exact ⟨_, rfl, Or.inr ⟨paging.offset, action, haction, hfits, rfl⟩⟩

theorem planLoop_more {fetch : Option String → Nat → Except BackendClientError ServerResponse}
    {turns : Nat} {paging : Paging} {outcome : PlanOutcome}
    (h : planLoop fetch turns paging = some outcome) {more : Nat} (hle : turns ≤ more) :
    planLoop fetch more paging = some outcome := by
  induction turns generalizing paging more with
  | zero => cases h
  | succ turns ih =>
    obtain ⟨more, rfl⟩ : ∃ rest, more = rest + 1 := ⟨more - 1, by omega⟩
    unfold planLoop at h ⊢
    cases hturn : pageTurn fetch paging with
    | inl ended =>
      rw [hturn] at h
      exact h
    | inr next =>
      rw [hturn] at h
      exact ih h (by omega)

theorem start_inStep (runtime : BackendRuntime) : InStep runtime {} where
  known := Or.inl ⟨rfl, rfl, rfl⟩
  actions := by simp

/-- The loop of the client against the page builder of the server ends, whatever the plan. It
ends with the plan itself, its actions in their order and none lost or repeated, and fails only
where an action does not fit alone, with the error that says so. The check of the client
never rejects a page of the builder, and a page with actions is within the limit of a frame. -/
theorem plan_paging_is_lossless (lengths : JsonLengths) (runtime : BackendRuntime)
    (description : List UInt8) (hsnapshot : runtime.snapshot_id = snapshotId description) :
    (∃ outcome,
      (∀ turns, runtime.plan.actions.length < turns →
        planLoop (serverPages lengths runtime) turns {} = some outcome) ∧
      (outcome = .Reported (wholePlan runtime) ∨
        ∃ offset action, runtime.plan.actions[offset]? = some action ∧
          ¬ Fits lengths (pageOf runtime offset 1) ∧
          outcome = .Failed (.Backend (actionTooLarge lengths action)))) ∧
    ∀ paging page, InStep runtime paging →
      planReply lengths runtime paging.snapshot_id paging.offset = .PlanPage page →
      validatePlanPage page paging.snapshot_id paging.profile paging.offset = .ok () ∧
        (page.actions ≠ [] → Fits lengths page) := by
  have hnames := snapshotId_names description hsnapshot
  constructor
  · have hstart : runtime.plan.actions.length < runtime.plan.actions.length + 1 + 0 := by omega
    obtain ⟨outcome, hfinished, houtcome⟩ :=
      planLoop_finishes lengths hnames (start_inStep runtime) hstart
    exact ⟨outcome, fun turns hturns => planLoop_more hfinished hturns, houtcome⟩
  · intro paging page h hpage
    rcases planReply_cases lengths hnames h with ⟨count, hcount, hend, hzero, hfits, hreply⟩ |
      ⟨action, _, _, hreply⟩
    · obtain rfl := ServerResponse.PlanPage.inj (hreply.symm.trans hpage)
      refine ⟨pageOf_valid hnames h hcount hend hzero, fun hactions => hfits ?_⟩
      have hlength := length_pageOf hend
      by_contra hnone
      exact hactions (List.eq_nil_of_length_eq_zero (by omega))
    · cases hreply.symm.trans hpage

end paging

def plannedDirectory (name : String) : Action where
  id := name
  kind := .FilesystemEnsureDir
  run_as := .Root
  origin := imageOrigin
  path := some ("/" ++ name)
  mode := some "0755"

def directoriesConfig : BootstrapConfig :=
  { aliasConfig with
    actions := aliasConfig.actions ++ ["home", "cache", "data", "log"].map plannedDirectory }

def directoriesRuntime : BackendRuntime :=
  { aliasRuntime with snapshot_id := snapshotId [123, 125], plan := planOf directoriesConfig }

/-- Each action is three MiB long, so that a message takes two of them. -/
def longLengths : JsonLengths where
  message := fun response => match response with
    | .PlanPage page => page.actions.length * (3 * 1024 * 1024)
    | _ => 1
  action := fun _ => 3 * 1024 * 1024

/-- Five actions, in three pages. -/
theorem short_plan_is_paged :
    directoriesRuntime.plan.actions.map PlannedAction.id =
        ["resolve", "home", "cache", "data", "log"] ∧
      planLoop (serverPages longLengths directoriesRuntime) 2 {} = none ∧
      ∃ outcome, (∀ turns, directoriesRuntime.plan.actions.length < turns →
          planLoop (serverPages longLengths directoriesRuntime) turns {} = some outcome) ∧
        outcome = .Reported (wholePlan directoriesRuntime) := by
  have hids : directoriesRuntime.plan.actions.map PlannedAction.id =
      ["resolve", "home", "cache", "data", "log"] := by
    decide +kernel
  have hpages : (planLoop (serverPages longLengths directoriesRuntime) 2 {}).isNone = true := by
    decide +kernel
  obtain ⟨⟨outcome, hfinished, houtcome⟩, _⟩ :=
    plan_paging_is_lossless longLengths directoriesRuntime [123, 125] rfl
  refine ⟨hids, Option.isNone_iff_eq_none.mp hpages, outcome, hfinished,
    houtcome.resolve_right ?_⟩
  rintro ⟨offset, action, _, hfits, _⟩
  refine hfits ?_
  have hlength : (pageOf directoriesRuntime offset 1).actions.length ≤ 1 :=
    List.length_take_le _ _
  change (pageOf directoriesRuntime offset 1).actions.length * (3 * 1024 * 1024) ≤ 8 * 1024 * 1024
  omega

end init_backend
