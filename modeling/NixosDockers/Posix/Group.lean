-- The laws of the `group` file: the members of the group of an identity, and what
-- the other groups keep.
import NixosDockers.Posix.Passwd

open rust_text results

namespace init_posix

/-! ## Entries that were checked -/

/-- What `validate_group_fields` checks of an entry, and that its fields are fields of a line. -/
structure GroupEntry.Valid (entry : GroupEntry) : Prop where
  name : isUserName entry.name = true
  gid : ∃ n, number entry.gid = some n
  members : isAccountField entry.members = true
  member_names : ∀ member ∈ memberList entry.members, isUserName member = true
  free : ∀ field ∈ entry.fields, ':' ∉ field.toList ∧ '\n' ∉ field.toList

def groupTable : Table GroupEntry where
  fields := GroupEntry.fields
  Valid := GroupEntry.Valid
  ne_nil _ := List.cons_ne_nil _ _
  free _ h := h.free
  starts entry h := by
    obtain ⟨c, hhead, hplain⟩ := name_head h.name
    exact ⟨c, Table.head_joined hhead _, hplain⟩
  ends entry h := by
    have hmembers : entry.members.toList.getLast? ≠ some '\r' := by
      intro hlast
      exact (isAccountField_iff.mp h.members).2.2.2 (List.mem_of_getLast? hlast)
    exact Table.last_joined hmembers [entry.name, entry.password, entry.gid]

theorem GroupEntry.ofFields_eq_some_iff {fields : List String} {entry : GroupEntry} :
    GroupEntry.ofFields fields = some entry ↔ fields = entry.fields := by
  constructor
  · intro h
    rw [ofFields.eq_def] at h
    split at h
    · rw [← Option.some.inj h]
      rfl
    · cases h
  · rintro rfl
    rfl

theorem validateMembers_ok_iff {members : List String} {u : PUnit} :
    members.forM validateUserName = .ok u ↔ ∀ member ∈ members, isUserName member = true := by
  rw [forM_ok_iff]
  exact forall₂_congr fun _ _ => validateUserName_ok_iff

theorem validateGroupFields_ok_iff {line : String} (hline : '\n' ∉ line.toList) {line_number : ℕ}
    {entry : GroupEntry} : validateGroupFields (splitChar ':' line) line_number = .ok entry ↔
      splitChar ':' line = entry.fields ∧ entry.Valid := by
  rw [validateGroupFields]
  constructor
  · intro h
    cases hfields : GroupEntry.ofFields (splitChar ':' line) with
    | none =>
      rw [hfields] at h
      cases h
    | some found =>
      rw [hfields] at h
      simp only [bind_ok_iff, pure_ok_iff, validateUserName_ok_iff, validateAccountField_ok_iff,
        requireNumber_ok_iff, validateMembers_ok_iff] at h
      obtain ⟨-, hname, gid, hgid, -, hmembers, -, hall, rfl⟩ := h
      have hsplit := GroupEntry.ofFields_eq_some_iff.mp hfields
      refine ⟨hsplit, hname, ⟨gid, hgid⟩, hmembers, hall, ?_⟩
      intro field hfield
      rw [← hsplit] at hfield
      exact ⟨free_of_mem_splitChar hfield, fun hmem => hline (mem_of_mem_splitChar hfield hmem)⟩
  · rintro ⟨hsplit, hvalid⟩
    rw [GroupEntry.ofFields_eq_some_iff.mpr hsplit]
    obtain ⟨gid, hgid⟩ := hvalid.gid
    simp only [bind_ok_iff, pure_ok_iff, validateUserName_ok_iff, validateAccountField_ok_iff,
      requireNumber_ok_iff, validateMembers_ok_iff]
    exact ⟨(), hvalid.name, gid, hgid, (), hvalid.members, (), hvalid.member_names, trivial⟩

/-! ## The members -/

variable {user field : String}

/-- The members without the repetitions of the user. -/
def dropRepeats (user : String) : Bool → List String → List String
  | _, [] => []
  | seen, member :: rest =>
    if member = user then
      if seen then dropRepeats user true rest else member :: dropRepeats user true rest
    else member :: dropRepeats user seen rest

def mappedMembers (user : String) (members : List String) : List String :=
  dropRepeats user false members ++ if user ∈ members then [] else [user]

theorem memberLoop_ok (user : String) {members : List String} (h : ∀ member ∈ members, isUserName member = true)
    (state : Members) : ∃ state', members.foldlM (memberStep user) state = .ok state' ∧
      state'.reconciled = state.reconciled ++ dropRepeats user state.target_seen members ∧
      state'.target_seen = (state.target_seen || decide (user ∈ members)) ∧
      (state'.changed = (state.changed ||
        decide (1 < members.count user + state.target_seen.toNat))) := by
  induction members generalizing state with
  | nil =>
    refine ⟨state, rfl, by simp [dropRepeats], by simp, ?_⟩
    cases state.target_seen <;> simp
  | cons member members ih =>
    rw [List.forall_mem_cons] at h
    have hstep : ∀ next : Members, memberStep user state member = .ok next →
        (member :: members).foldlM (memberStep user) state = members.foldlM (memberStep user) next := by
      intro next hnext
      rw [List.foldlM_cons, hnext, ok_bind]
    have hname : validateUserName member = .ok () := validateUserName_ok_iff.mpr h.1
    by_cases hmember : member = user
    · cases hseen : state.target_seen with
      | true =>
        have hnext : memberStep user state member = .ok { state with changed := true } := by
          rw [memberStep, hname, ok_bind, if_pos hmember, if_pos hseen]
          rfl
        obtain ⟨state', hrun, hreconciled, htarget, hchanged⟩ := ih h.2 { state with changed := true }
        refine ⟨state', (hstep _ hnext).trans hrun, ?_, ?_, ?_⟩
        · rw [hreconciled, hseen, dropRepeats, if_pos hmember, if_pos rfl]
        · rw [htarget, hseen, Bool.true_or, Bool.true_or]
        · rw [hchanged, hmember, List.count_cons_self, Bool.true_or, Bool.toNat_true, eq_comm]
          simp
      | false =>
        have hnext : memberStep user state member =
            .ok ⟨state.reconciled ++ [member], true, state.changed⟩ := by
          rw [memberStep, hname, ok_bind, if_pos hmember, if_neg (by rw [hseen]; decide)]
          rfl
        obtain ⟨state', hrun, hreconciled, htarget, hchanged⟩ := ih h.2 _
        refine ⟨state', (hstep _ hnext).trans hrun, ?_, ?_, ?_⟩
        · rw [hreconciled, dropRepeats, if_pos hmember, if_neg Bool.false_ne_true, List.append_assoc]
          rfl
        · rw [htarget, hmember]
          simp
        · rw [hchanged, hmember, List.count_cons_self, Bool.toNat_true, Bool.toNat_false, add_zero]
    · have hnext : memberStep user state member =
          .ok { state with reconciled := state.reconciled ++ [member] } := by
        rw [memberStep, hname, ok_bind, if_neg hmember]
        rfl
      obtain ⟨state', hrun, hreconciled, htarget, hchanged⟩ := ih h.2 _
      refine ⟨state', (hstep _ hnext).trans hrun, ?_, ?_, ?_⟩
      · rw [hreconciled, dropRepeats, if_neg hmember, List.append_assoc]
        rfl
      · rw [htarget]
        simp [Ne.symm hmember]
      · rw [hchanged, List.count_cons_of_ne hmember]

theorem mem_of_mem_dropRepeats {seen : Bool} {members : List String} {member : String}
    (h : member ∈ dropRepeats user seen members) : member ∈ members := by
  induction members generalizing seen with
  | nil => exact h
  | cons first members ih =>
    rw [dropRepeats] at h
    split_ifs at h
    · exact List.mem_cons_of_mem _ (ih h)
    all_goals
      rcases List.mem_cons.mp h with rfl | h
      · exact List.mem_cons_self
      · exact List.mem_cons_of_mem _ (ih h)

theorem count_dropRepeats (user : String) (seen : Bool) (members : List String) :
    (dropRepeats user seen members).count user = if !seen && decide (user ∈ members) then 1 else 0 := by
  induction members generalizing seen with
  | nil => cases seen <;> rfl
  | cons first members ih =>
    rw [dropRepeats]
    by_cases hfirst : first = user
    · rw [if_pos hfirst]
      cases seen with
      | true =>
        rw [if_pos rfl, ih]
        rfl
      | false =>
        rw [if_neg Bool.false_ne_true, hfirst, List.count_cons_self, ih]
        simp
    · rw [if_neg hfirst, List.count_cons_of_ne hfirst, ih]
      simp [Ne.symm hfirst]

/-- Members that name the user once stay as they are. -/
theorem dropRepeats_eq_self {seen : Bool} {members : List String}
    (h : members.count user + seen.toNat ≤ 1) : dropRepeats user seen members = members := by
  induction members generalizing seen with
  | nil => rfl
  | cons first members ih =>
    rw [dropRepeats]
    by_cases hfirst : first = user
    · rw [hfirst, List.count_cons_self] at h
      have hseen : seen = false := by
        cases seen with
        | true =>
          rw [Bool.toNat_true] at h
          omega
        | false => rfl
      rw [hseen, Bool.toNat_false] at h
      rw [if_pos hfirst, hseen, if_neg Bool.false_ne_true, ih (by rw [Bool.toNat_true]; omega)]
    · rw [List.count_cons_of_ne hfirst] at h
      rw [if_neg hfirst, ih h]

theorem count_mappedMembers (user : String) (members : List String) :
    (mappedMembers user members).count user = 1 := by
  rw [mappedMembers, List.count_append, count_dropRepeats]
  by_cases h : user ∈ members
  · simp [h]
  · simp [h]

theorem mappedMembers_of_count {members : List String} (h : members.count user = 1) :
    mappedMembers user members = members := by
  have hmem : user ∈ members := List.count_pos_iff.mp (by omega)
  rw [mappedMembers, dropRepeats_eq_self (by rw [Bool.toNat_false]; omega), if_pos hmem,
    List.append_nil]

theorem user_mem_mappedMembers (user : String) (members : List String) :
    user ∈ mappedMembers user members := by
  refine List.count_pos_iff.mp ?_
  rw [count_mappedMembers]
  exact Nat.one_pos

theorem name_mappedMembers (huser : isUserName user = true) {members : List String}
    (h : ∀ member ∈ members, isUserName member = true) :
    ∀ member ∈ mappedMembers user members, isUserName member = true := by
  intro member hmember
  rcases List.mem_append.mp hmember with hold | hnew
  · exact h member (mem_of_mem_dropRepeats hold)
  · split_ifs at hnew
    · cases hnew
    · rw [List.mem_singleton.mp hnew]
      exact huser

/-- The member list that the group of the identity gets. -/
def mappedField (user field : String) : String :=
  String.intercalate "," (mappedMembers user (memberList field))

/-- Names that are written between commas are read again. -/
theorem memberList_intercalate {members : List String} (hne : members ≠ [])
    (h : ∀ member ∈ members, isUserName member = true) :
    memberList (String.intercalate "," members) = members := by
  have hsplit : splitChar ',' (String.intercalate "," members) = members :=
    splitChar_intercalate hne fun member hmember => (name_free (h member hmember)).2.2
  rw [memberList, hsplit, List.filter_eq_self]
  intro member hmember
  exact decide_eq_true (isUserName_iff.mp (h member hmember)).1

theorem memberList_mappedField (huser : isUserName user = true)
    (h : ∀ member ∈ memberList field, isUserName member = true) :
    memberList (mappedField user field) = mappedMembers user (memberList field) :=
  memberList_intercalate (List.ne_nil_of_mem (user_mem_mappedMembers _ _)) (name_mappedMembers huser h)

theorem mappedField_mappedField (huser : isUserName user = true)
    (h : ∀ member ∈ memberList field, isUserName member = true) :
    mappedField user (mappedField user field) = mappedField user field := by
  rw [mappedField, memberList_mappedField huser h,
    mappedMembers_of_count (count_mappedMembers user _)]
  rfl

/-- A field that needs no change names the user once. -/
theorem count_of_mappedField_eq (huser : isUserName user = true)
    (h : ∀ member ∈ memberList field, isUserName member = true) (hsame : mappedField user field = field) :
    (memberList field).count user = 1 := by
  have hmembers := memberList_mappedField huser h
  rw [hsame] at hmembers
  rw [hmembers, count_mappedMembers]

theorem reconcileMembers_eq (huser : isUserName user = true)
    (h : ∀ member ∈ memberList field, isUserName member = true) (changed : Bool) :
    reconcileMembers user field changed =
      .ok (mappedField user field, changed || decide (mappedField user field ≠ field)) := by
  obtain ⟨state, hrun, hreconciled, htarget, hchanged⟩ := memberLoop_ok user h ⟨[], false, changed⟩
  dsimp only at hreconciled hchanged
  rw [List.nil_append] at hreconciled
  rw [Bool.false_or] at htarget
  rw [Bool.toNat_false, add_zero] at hchanged
  have hfield : ∀ made : Bool, (made = true → mappedField user field ≠ field) →
      setField field (mappedField user field) (changed || made) =
        (mappedField user field, changed || decide (mappedField user field ≠ field)) := by
    intro made hmade
    have hcomm : decide (field ≠ mappedField user field) = decide (mappedField user field ≠ field) :=
      decide_eq_decide.mpr ne_comm
    rw [setField_eq, hcomm]
    cases made with
    | false => rw [Bool.or_false]
    | true => simp [hmade rfl]
  rw [reconcileMembers, hrun, ok_bind, htarget]
  by_cases hmem : user ∈ memberList field
  · rw [decide_eq_true hmem, if_pos rfl]
    dsimp only
    rw [hreconciled, hchanged]
    have hmapped : String.intercalate "," (dropRepeats user false (memberList field)) =
        mappedField user field := by
      rw [mappedField, mappedMembers, if_pos hmem, List.append_nil]
    rw [hmapped, hfield]
    · rfl
    · intro hrepeated hsame
      have hcount := count_of_mappedField_eq huser h hsame
      have := of_decide_eq_true hrepeated
      omega
  · rw [decide_eq_false hmem, if_neg Bool.false_ne_true]
    dsimp only
    rw [hreconciled]
    have hmapped : String.intercalate "," (dropRepeats user false (memberList field) ++ [user]) =
        mappedField user field := by
      rw [mappedField, mappedMembers, if_neg hmem]
    have hset := hfield true fun _ hsame => by
      have hcount := count_of_mappedField_eq huser h hsame
      rw [List.count_eq_zero_of_not_mem hmem] at hcount
      cases hcount
    rw [Bool.or_true] at hset
    rw [hmapped, hset]
    rfl

/-! ## The group of the identity -/

variable {identity : PosixIdentity} {entry : GroupEntry} {view : Option GroupEntry}

def GroupEntry.mapped (entry : GroupEntry) (identity : PosixIdentity) : GroupEntry :=
  if number entry.gid = some identity.gid then
    { entry with members := mappedField identity.user entry.members }
  else entry

@[simp]
theorem GroupEntry.gid_mapped : (entry.mapped identity).gid = entry.gid := by
  rw [mapped]
  split_ifs
  all_goals rfl

@[simp]
theorem GroupEntry.name_mapped : (entry.mapped identity).name = entry.name := by
  rw [mapped]
  split_ifs
  all_goals rfl

theorem isAccountField_of_name (h : isUserName user = true) : isAccountField user = true := by
  obtain ⟨hcolon, hnewline, -⟩ := name_free h
  obtain ⟨-, -, hall⟩ := isUserName_iff.mp h
  refine isAccountField_iff.mpr ⟨hcolon, fun hnul => ?_, hnewline, fun hreturn => ?_⟩
  · exact absurd (hall _ hnul) (by decide)
  · exact absurd (hall _ hreturn) (by decide)

theorem isAccountField_mappedField (huser : isUserName user = true)
    (h : ∀ member ∈ memberList field, isUserName member = true) :
    isAccountField (mappedField user field) = true := by
  have hfree : ∀ c : Char, c ≠ ',' → (∀ name, isUserName name = true → c ∉ name.toList) →
      c ∉ (mappedField user field).toList := by
    intro c hc hname hmem
    have hcomma : ",".toList = [','] := rfl
    rw [mappedField, String.toList_intercalate, hcomma] at hmem
    obtain ⟨part, hpart, hin⟩ := exists_of_mem_intercalate hc hmem
    obtain ⟨member, hmember, rfl⟩ := List.mem_map.mp hpart
    exact hname member (name_mappedMembers huser h member hmember) hin
  have hplain := fun name (hname : isUserName name = true) =>
    isAccountField_iff.mp (isAccountField_of_name hname)
  exact isAccountField_iff.mpr ⟨hfree ':' (by decide) fun name hname => (hplain name hname).1,
    hfree nul (by decide) fun name hname => (hplain name hname).2.1,
    hfree '\n' (by decide) fun name hname => (hplain name hname).2.2.1,
    hfree '\r' (by decide) fun name hname => (hplain name hname).2.2.2⟩

theorem GroupEntry.Valid.mapped (h : entry.Valid) (huser : isUserName identity.user = true) :
    (entry.mapped identity).Valid := by
  rw [GroupEntry.mapped]
  split_ifs
  · have hmembers := isAccountField_mappedField huser h.member_names
    refine ⟨h.name, h.gid, hmembers, ?_, ?_⟩
    · rw [memberList_mappedField huser h.member_names]
      exact name_mappedMembers huser h.member_names
    · have hfree := h.free
      simp only [fields, List.forall_mem_cons] at hfree ⊢
      obtain ⟨hn, hp, hg, -⟩ := hfree
      obtain ⟨hcolon, -, hnewline, -⟩ := isAccountField_iff.mp hmembers
      exact ⟨hn, hp, hg, ⟨hcolon, hnewline⟩, nofun⟩
  · exact h

theorem PosixIdentity.valid_groupEntry (huser : isUserName identity.user = true) :
    identity.groupEntry.Valid := by
  have hempty : isAccountField "" = true := by decide
  have hnone : memberList "" = [] := rfl
  refine ⟨huser, decimal_valid _, hempty, ?_, ?_⟩
  · show ∀ member ∈ memberList "", _
    rw [hnone]
    exact nofun
  · have hname := name_free huser
    simp only [groupEntry, GroupEntry.fields, List.forall_mem_cons]
    exact ⟨⟨hname.1, hname.2.1⟩, by decide, decimal_free _, by decide, nofun⟩

/-- What `reconcile_group` does to the entries. -/
def PosixIdentity.group (identity : PosixIdentity) : Table.Update GroupEntry :=
  ⟨fun entry => number entry.gid = some identity.gid, fun entry => entry.mapped identity,
    identity.groupEntry⟩

theorem PosixIdentity.group_lawful (huser : isUserName identity.user = true) :
    identity.group.Lawful groupTable where
  valid_mapped _ hvalid := GroupEntry.Valid.mapped hvalid huser
  valid_added := valid_groupEntry huser
  mapped_of_not_owns _ hother := if_neg (of_decide_eq_false hother)
  owns_mapped entry := by
    show decide (number (entry.mapped identity).gid = some identity.gid) = _
    rw [GroupEntry.gid_mapped]
    rfl
  owns_added := decide_eq_true (number_decimal identity.gid)

theorem GroupEntry.mapped_mapped (huser : isUserName identity.user = true) (h : entry.Valid) :
    (entry.mapped identity).mapped identity = entry.mapped identity := by
  rw [mapped, gid_mapped]
  split_ifs with hgid
  · rw [mapped, if_pos hgid]
    dsimp only
    rw [mappedField_mappedField huser h.member_names]
  · rfl

/-! ## What the loop does -/

theorem PosixIdentity.group_pass_owned (h : number entry.gid = some identity.gid) (state : Rewriting)
    (line : String) : state.pass groupTable identity.group line (some entry) =
      ⟨state.lines ++ [(entry.mapped identity).line], true,
        state.changed || decide (entry.mapped identity ≠ entry)⟩ := by
  have hfound : identity.group.found (some entry) = true := decide_eq_true h
  rw [Rewriting.pass, hfound, Bool.or_true]
  rfl

theorem PosixIdentity.group_pass_other (h : number entry.gid ≠ some identity.gid) (state : Rewriting)
    (line : String) : state.pass groupTable identity.group line (some entry) = state.push entry.line := by
  have hfound : identity.group.found (some entry) = false := decide_eq_false h
  have hmapped : identity.group.mapped entry = entry := if_neg h
  have hchanges : identity.group.changes (some entry) = false := by
    rw [Table.Update.changes, Option.any_some, hmapped]
    exact decide_eq_false (not_not.mpr rfl)
  rw [Rewriting.pass, hfound, hchanges, Bool.or_false, Bool.or_false, Table.Update.rowOf, hmapped]
  rfl

theorem GroupEntry.mapped_ne_iff (h : number entry.gid = some identity.gid) :
    entry.mapped identity ≠ entry ↔ mappedField identity.user entry.members ≠ entry.members := by
  rw [mapped, if_pos h, ne_eq, GroupEntry.mk.injEq]
  simp

/-- What becomes of a line with a valid entry. -/
def groupEntryLine (identity : PosixIdentity) (state : Rewriting) (entry : GroupEntry)
    (line_number : ℕ) : Except PosixError Rewriting := do
  let gid ← requireNumber entry.gid ("malformed group GID on line " ++ toString (line_number + 1))
  if gid = identity.gid then
    let (members, changed) ← reconcileMembers identity.user entry.members state.changed
    return ⟨state.lines ++ [{ entry with members }.line], true, changed⟩
  else return state.push entry.line

theorem groupLine_ok_iff (huser : isUserName identity.user = true) {state state' : Rewriting}
    {line : String} (hline : '\n' ∉ line.toList) {line_number : ℕ} :
    groupLine identity state line line_number = .ok state' ↔ ∃ view, groupTable.Reads line view ∧
      state' = state.pass groupTable identity.group line view := by
  have hstep : ∀ entry : GroupEntry, entry.Valid → groupEntryLine identity state entry line_number =
      .ok (state.pass groupTable identity.group line (some entry)) := by
    intro entry hvalid
    unfold groupEntryLine
    obtain ⟨gid, hgid⟩ := hvalid.gid
    rw [requireNumber_ok_iff.mpr hgid, ok_bind]
    by_cases hsame : gid = identity.gid
    · have howned : number entry.gid = some identity.gid := by rw [hgid, hsame]
      rw [if_pos hsame, reconcileMembers_eq huser hvalid.member_names, ok_bind,
        identity.group_pass_owned howned, decide_eq_decide.mpr (GroupEntry.mapped_ne_iff howned),
        GroupEntry.mapped, if_pos howned]
      rfl
    · have hother : number entry.gid ≠ some identity.gid := by
        rw [hgid]
        exact fun heq => hsame (Option.some.inj heq)
      rw [if_neg hsame, identity.group_pass_other hother]
      rfl
  rw [groupLine]
  cases hskip : isSkipped line with
  | true =>
    rw [if_pos rfl, Except.ok.injEq]
    constructor
    · rintro rfl
      exact ⟨none, .skipped hskip, (state.pass_none _ _ line).symm⟩
    · rintro ⟨view, hreads, rfl⟩
      cases hreads with
      | skipped => exact (state.pass_none _ _ line).symm
      | entry _ hnot =>
        rw [hskip] at hnot
        cases hnot
  | false =>
    rw [if_neg Bool.false_ne_true, bind_ok_iff]
    constructor
    · rintro ⟨entry, hentry, h⟩
      obtain ⟨hsplit, hvalid⟩ := (validateGroupFields_ok_iff hline).mp hentry
      refine ⟨some entry, .entry entry hskip hsplit hvalid, ?_⟩
      exact (Except.ok.inj ((hstep entry hvalid).symm.trans h)).symm
    · rintro ⟨view, hreads, rfl⟩
      cases hreads with
      | skipped h =>
        rw [hskip] at h
        cases h
      | entry entry _ hsplit hvalid =>
        exact ⟨entry, (validateGroupFields_ok_iff hline).mpr ⟨hsplit, hvalid⟩, hstep entry hvalid⟩

variable {views : List (Option GroupEntry)} {rows : List String}

theorem groupLines_ok_iff (huser : isUserName identity.user = true)
    (hlines : ∀ row ∈ rows, '\n' ∉ row.toList) {state state' : Rewriting} {line_number : ℕ} :
    eachLine (groupLine identity) rows line_number state = .ok state' ↔
      ∃ views, List.Forall₂ groupTable.Reads rows views ∧
        state' = ⟨state.lines ++ List.zipWith (identity.group.rowOf groupTable) rows views,
          state.found || views.any identity.group.found,
          state.changed || views.any identity.group.changes⟩ := by
  induction rows generalizing state line_number with
  | nil =>
    rw [eachLine, Except.ok.injEq]
    constructor
    · rintro rfl
      exact ⟨[], .nil, by simp⟩
    · rintro ⟨views, hviews, rfl⟩
      cases hviews
      simp
  | cons line rows ih =>
    rw [List.forall_mem_cons] at hlines
    simp only [eachLine, bind_ok_iff, groupLine_ok_iff huser hlines.1, ih hlines.2]
    constructor
    · rintro ⟨_, ⟨view, hview, rfl⟩, views, hviews, rfl⟩
      exact ⟨view :: views, .cons hview hviews, by simp [Rewriting.pass, Bool.or_assoc]⟩
    · rintro ⟨_, hviews, rfl⟩
      cases hviews with
      | cons hview hviews =>
        rename_i view views
        exact ⟨_, ⟨view, hview, rfl⟩, views, hviews, by simp [Rewriting.pass, Bool.or_assoc]⟩

/-- Whether a file with these entries is written. -/
def PosixIdentity.rewritesGroup (identity : PosixIdentity) (views : List (Option GroupEntry)) : Bool :=
  views.any identity.group.changes || !views.any identity.group.found

theorem reconcileGroup_ok_iff (huser : isUserName identity.user = true) {contents output : String}
    {changed : Bool} : reconcileGroup contents identity = .ok (output, changed) ↔
      ∃ views, List.Forall₂ groupTable.Reads (lines contents) views ∧
        changed = identity.rewritesGroup views ∧ output = identity.group.output groupTable contents views
          (endsWith contents "\n" || identity.rewritesGroup views) := by
  have hfree : ∀ row ∈ lines contents, '\n' ∉ row.toList := fun row hrow => free_of_mem_lines hrow
  simp only [reconcileGroup, bind_ok_iff, pure_ok_iff, groupLines_ok_iff huser hfree, Prod.mk.injEq]
  constructor
  · rintro ⟨_, ⟨views, hviews, rfl⟩, rfl, rfl⟩
    refine ⟨views, hviews, ?_, ?_⟩
    all_goals
      cases hfound : views.any identity.group.found with
      | true => simp [Rewriting.start, Table.Update.output, Table.Update.newRows, hfound,
          PosixIdentity.rewritesGroup]
      | false =>
        simp [Rewriting.start, Table.Update.output, Table.Update.newRows, hfound,
          PosixIdentity.rewritesGroup]
        try rfl
  · rintro ⟨views, hviews, rfl, rfl⟩
    refine ⟨_, ⟨views, hviews, rfl⟩, ?_, ?_⟩
    all_goals
      cases hfound : views.any identity.group.found with
      | true => simp [Rewriting.start, Table.Update.output, Table.Update.newRows, hfound,
          PosixIdentity.rewritesGroup]
      | false =>
        simp [Rewriting.start, Table.Update.output, Table.Update.newRows, hfound,
          PosixIdentity.rewritesGroup]
        try rfl

/-! ## The groups of a file -/

/-- The group of a line. -/
def groupOf (line : String) : Option GroupEntry :=
  if isSkipped line then none else GroupEntry.ofFields (splitChar ':' line)

def groupsOf (contents : String) : List GroupEntry := (lines contents).filterMap groupOf

/-- The groups of a file have names and gids of their own. -/
structure UniqueGroups (groups : List GroupEntry) : Prop where
  names : (groups.map GroupEntry.name).Nodup
  gids : (groups.map fun group => number group.gid).Nodup

theorem groupOf_eq {line : String} (h : groupTable.Reads line view) : groupOf line = view := by
  cases h with
  | skipped hskip => exact if_pos hskip
  | entry entry hskip hsplit _ =>
    rw [groupOf, if_neg (by rw [hskip]; decide)]
    exact GroupEntry.ofFields_eq_some_iff.mpr hsplit

theorem filterMap_groupOf (h : List.Forall₂ groupTable.Reads rows views) :
    rows.filterMap groupOf = views.reduceOption := by
  induction h with
  | nil => rfl
  | @cons line view _ _ hline _ ih =>
    rw [List.filterMap_cons, groupOf_eq hline, ih]
    cases view with
    | none => rfl
    | some entry => rfl

/-- The groups that are written. -/
def PosixIdentity.newGroups (identity : PosixIdentity) (groups : List GroupEntry) : List GroupEntry :=
  groups.map (fun group => group.mapped identity) ++
    if groups.any identity.group.owns then [] else [identity.groupEntry]

theorem any_reduceOption {E : Type} (p : E → Bool) (views : List (Option E)) :
    views.reduceOption.any p = views.any fun view => view.any p := by
  induction views with
  | nil => rfl
  | cons view views ih =>
    cases view with
    | none => rw [List.reduceOption_cons_of_none, ih, List.any_cons]; rfl
    | some entry => rw [List.reduceOption_cons_of_some, List.any_cons, List.any_cons, ih]; rfl

theorem reduceOption_newViews (views : List (Option GroupEntry)) :
    (identity.group.newViews views).reduceOption = identity.newGroups views.reduceOption := by
  have hany : views.reduceOption.any identity.group.owns = views.any identity.group.found :=
    any_reduceOption _ _
  rw [Table.Update.newViews, List.reduceOption_append, List.reduceOption_map,
    PosixIdentity.newGroups, hany]
  split_ifs
  all_goals rfl

theorem groupsOf_output (huser : isUserName identity.user = true) {contents : String} {newline : Bool}
    (h : List.Forall₂ groupTable.Reads (lines contents) views)
    (hends : newline = false → endsWith contents "\n" = false) :
    groupsOf (identity.group.output groupTable contents views newline) =
      identity.newGroups (groupsOf contents) := by
  rw [groupsOf, groupsOf, filterMap_groupOf h,
    filterMap_groupOf (Table.Update.reads_output (PosixIdentity.group_lawful huser) h hends),
    reduceOption_newViews]

/-- The groups that are written have unique names and gids, one of them has the gid of the identity,
and the others are as they were. -/
structure KeepsGroups (identity : PosixIdentity) (groups groups' : List GroupEntry) : Prop where
  unique : UniqueGroups groups'
  one : ∃ group, groups'.filter (fun group => number group.gid = some identity.gid) = [group]
  others : groups'.filter (fun group => number group.gid ≠ some identity.gid) =
    groups.filter fun group => number group.gid ≠ some identity.gid

variable {groups : List GroupEntry}

theorem names_mapped : (groups.map fun group => group.mapped identity).map GroupEntry.name =
    groups.map GroupEntry.name := by
  rw [List.map_map]
  exact List.map_congr_left fun group _ => GroupEntry.name_mapped

theorem gids_mapped : (groups.map fun group => group.mapped identity).map (fun group => number group.gid) =
    groups.map fun group => number group.gid := by
  rw [List.map_map]
  exact List.map_congr_left fun group _ => by rw [Function.comp_apply, GroupEntry.gid_mapped]

theorem not_owns_iff : groups.any identity.group.owns = false ↔
    some identity.gid ∉ groups.map fun group => number group.gid := by
  rw [List.any_eq_false, List.mem_map]
  constructor
  · rintro h ⟨group, hgroup, hgid⟩
    exact h group hgroup (decide_eq_true hgid)
  · intro h group hgroup howns
    exact h ⟨group, hgroup, of_decide_eq_true howns⟩

theorem others_newGroups : (identity.newGroups groups).filter
    (fun group => number group.gid ≠ some identity.gid) =
      groups.filter fun group => number group.gid ≠ some identity.gid := by
  have hmore : (if groups.any identity.group.owns = true then [] else [identity.groupEntry]).filter
      (fun group => number group.gid ≠ some identity.gid) = [] := by
    split_ifs
    · rfl
    · rw [List.filter_eq_nil_iff]
      intro group hgroup
      rw [List.mem_singleton.mp hgroup]
      simp [PosixIdentity.groupEntry]
  rw [PosixIdentity.newGroups, List.filter_append, hmore, List.append_nil]
  clear hmore
  induction groups with
  | nil => rfl
  | cons group groups ih =>
    by_cases hgid : number group.gid = some identity.gid
    · simpa [hgid] using ih
    · have hsame : group.mapped identity = group := if_neg hgid
      simpa [hsame, hgid] using ih

theorem gids_newGroups (h : (groups.map fun group => number group.gid).Nodup) :
    ((identity.newGroups groups).map fun group => number group.gid).Nodup := by
  rw [PosixIdentity.newGroups, List.map_append, gids_mapped]
  split_ifs with howns
  · rwa [List.map_nil, List.append_nil]
  · have hnone := not_owns_iff.mp (eq_false_of_ne_true howns)
    rw [List.map_singleton, List.nodup_append]
    refine ⟨h, List.nodup_singleton _, ?_⟩
    intro gid hgid other hother heq
    rw [List.mem_singleton.mp hother] at heq
    refine hnone ?_
    have hnew : number identity.groupEntry.gid = some identity.gid := number_decimal _
    rwa [← hnew, ← heq]

theorem one_newGroups (h : (groups.map fun group => number group.gid).Nodup) : ∃ group,
    (identity.newGroups groups).filter (fun group => number group.gid = some identity.gid) = [group] := by
  rw [← List.length_eq_one_iff, ← List.countP_eq_length_filter]
  have hcount : (identity.newGroups groups).countP (fun group => number group.gid = some identity.gid) =
      ((identity.newGroups groups).map fun group => number group.gid).count (some identity.gid) := by
    rw [List.count, List.countP_map]
    exact List.countP_congr fun group _ => by simp
  have hmem : some identity.gid ∈ (identity.newGroups groups).map fun group => number group.gid := by
    rw [PosixIdentity.newGroups, List.map_append, gids_mapped, List.mem_append]
    cases howns : groups.any identity.group.owns with
    | true =>
      left
      by_contra hnone
      rw [not_owns_iff.mpr hnone] at howns
      cases howns
    | false =>
      right
      rw [if_neg Bool.false_ne_true, List.map_singleton, List.mem_singleton]
      exact (number_decimal _).symm
  rw [hcount]
  exact List.count_eq_one_of_mem (gids_newGroups h) hmem

theorem names_newGroups_iff (h : (groups.map GroupEntry.name).Nodup) :
    ((identity.newGroups groups).map GroupEntry.name).Nodup ↔
      (∃ group ∈ groups, number group.gid = some identity.gid) ∨
        ∀ group ∈ groups, group.name ≠ identity.user := by
  rw [PosixIdentity.newGroups, List.map_append, names_mapped]
  cases howns : groups.any identity.group.owns with
  | true =>
    obtain ⟨group, hgroup, hgid⟩ := List.any_eq_true.mp howns
    rw [if_pos rfl, List.map_nil, List.append_nil]
    exact iff_of_true h (Or.inl ⟨group, hgroup, of_decide_eq_true hgid⟩)
  | false =>
    have hnone : ¬ ∃ group ∈ groups, number group.gid = some identity.gid := by
      rintro ⟨group, hgroup, hgid⟩
      exact not_owns_iff.mp howns (List.mem_map.mpr ⟨group, hgroup, hgid⟩)
    rw [if_neg Bool.false_ne_true, List.map_singleton, List.nodup_append, or_iff_right hnone]
    constructor
    · rintro ⟨-, -, hdisjoint⟩ group hgroup hname
      exact hdisjoint _ (List.mem_map.mpr ⟨group, hgroup, rfl⟩) _ List.mem_cons_self hname
    · intro hall
      refine ⟨h, List.nodup_singleton _, ?_⟩
      intro name hname other hother heq
      obtain ⟨group, hgroup, rfl⟩ := List.mem_map.mp hname
      rw [List.mem_singleton.mp hother] at heq
      exact hall group hgroup heq

/-- The `group` file stays well formed exactly when it has the gid, or no group has the user's
name. -/
theorem group_stays_well_formed_iff (huser : isUserName identity.user = true)
    {contents output : String} {changed : Bool}
    (h : reconcileGroup contents identity = .ok (output, changed))
    (hunique : UniqueGroups (groupsOf contents)) :
    KeepsGroups identity (groupsOf contents) (groupsOf output) ↔
      (∃ group ∈ groupsOf contents, number group.gid = some identity.gid) ∨
        ∀ group ∈ groupsOf contents, group.name ≠ identity.user := by
  obtain ⟨views, hviews, -, rfl⟩ := (reconcileGroup_ok_iff huser).mp h
  rw [groupsOf_output huser hviews fun hends => (Bool.or_eq_false_iff.mp hends).1,
    ← names_newGroups_iff hunique.names]
  constructor
  · exact fun hkeeps => hkeeps.unique.names
  · exact fun hnames => ⟨⟨hnames, gids_newGroups hunique.gids⟩, one_newGroups hunique.gids,
      others_newGroups⟩

/-- A group of the user's name with another gid gets a second one of that name. -/
theorem devGroup_is_doubled :
    reconcileGroup "dev:x:50:\n" devIdentity = .ok ("dev:x:50:\ndev:x:1000:\n", true) ∧
      UniqueGroups (groupsOf "dev:x:50:\n") ∧
      ¬ KeepsGroups devIdentity (groupsOf "dev:x:50:\n") (groupsOf "dev:x:50:\ndev:x:1000:\n") := by
  have hbefore : groupsOf "dev:x:50:\n" = [⟨"dev", "x", "50", ""⟩] := by decide
  have hafter : groupsOf "dev:x:50:\ndev:x:1000:\n" =
      [⟨"dev", "x", "50", ""⟩, ⟨"dev", "x", "1000", ""⟩] := by decide
  refine ⟨by decide, ?_, ?_⟩
  · rw [hbefore]
    exact ⟨List.nodup_singleton _, List.nodup_singleton _⟩
  · rw [hafter]
    intro hkeeps
    exact absurd hkeeps.unique.names (by decide)

theorem users_keeps_groups : KeepsGroups devIdentity (groupsOf "users:x:1000:alice,dev,dev\n")
    (groupsOf "users:x:1000:alice,dev\n") := by
  have hrun : reconcileGroup "users:x:1000:alice,dev,dev\n" devIdentity =
      .ok ("users:x:1000:alice,dev\n", true) := by decide
  have hgroups : groupsOf "users:x:1000:alice,dev,dev\n" =
      [⟨"users", "x", "1000", "alice,dev,dev"⟩] := by decide
  refine (group_stays_well_formed_iff (by decide) hrun ?_).mpr ?_
  · rw [hgroups]
    exact ⟨List.nodup_singleton _, List.nodup_singleton _⟩
  · rw [hgroups]
    exact Or.inl ⟨_, List.mem_cons_self, by decide⟩

end init_posix
