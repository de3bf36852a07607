-- The laws of `map_user`: which runs of it leave the account files as they were, and
-- what a run does when it is repeated.
import NixosDockers.Posix.Group

open rust_text results

namespace init_posix

variable {identity : PosixIdentity} {system : AccountSystem} {files : AccountFiles} {plan : AccountPlan}

/-! ## What is written differs -/

theorem GroupEntry.fields_injective : Function.Injective GroupEntry.fields := by
  intro a b h
  have ha := GroupEntry.ofFields_eq_some_iff.mpr (Eq.refl a.fields)
  rw [h, GroupEntry.ofFields_eq_some_iff.mpr (Eq.refl b.fields)] at ha
  exact (Option.some.inj ha).symm

/-- A `passwd` that needs a change is not written as it was. -/
theorem reconcilePasswd_ne (h : identity.Checked) {contents : String}
    {reconciliation : PasswdReconciliation}
    (hok : reconcilePasswd contents identity = .ok reconciliation)
    (hchanged : reconciliation.changed = true) : reconciliation.contents ≠ contents := by
  obtain ⟨views, haccepts, rfl⟩ := reconcilePasswd_ok_iff.mp hok
  dsimp only at hchanged ⊢
  intro hsame
  have hreads := haccepts.reads_again h
  rw [hsame] at hreads
  have hviews := Table.reads_unique PasswdEntry.fields_injective haccepts.reads hreads
  have hchanges := identity.passwd_changes_newViews views
  have hfound := Table.Update.any_found_newViews h.passwd_lawful views
  rw [← hviews] at hchanges hfound
  simp [hchanges, hfound] at hchanged

variable {views : List (Option GroupEntry)} {contents : String}

theorem group_changes_newViews (huser : isUserName identity.user = true)
    (h : List.Forall₂ groupTable.Reads (lines contents) views)
    (hfound : views.any identity.group.found = true) :
    (identity.group.newViews views).any identity.group.changes = false := by
  refine Table.Update.changes_newViews (fun entry hentry => ?_) (Or.inl hfound)
  obtain ⟨line, -, hline⟩ := forall₂_mem_left h hentry
  exact GroupEntry.mapped_mapped huser hline.valid

/-- The group that is added does not name its member, and is changed when it is read again. -/
theorem group_changes_added (huser : isUserName identity.user = true)
    (hfound : views.any identity.group.found = false) :
    (identity.group.newViews views).any identity.group.changes = true := by
  have hnone : memberList "" = [] := rfl
  have hmapped : mappedField identity.user "" = identity.user := by
    rw [mappedField, hnone]
    exact String.intercalate_singleton
  have hgid : number identity.groupEntry.gid = some identity.gid := number_decimal identity.gid
  have hmembers : identity.groupEntry.members = "" := rfl
  have hne : identity.groupEntry.mapped identity ≠ identity.groupEntry := by
    rw [GroupEntry.mapped_ne_iff hgid, hmembers, hmapped]
    exact (isUserName_iff.mp huser).1
  rw [List.any_eq_true]
  refine ⟨some identity.groupEntry, ?_, decide_eq_true hne⟩
  rw [Table.Update.newViews, hfound]
  exact List.mem_append_right _ List.mem_cons_self

theorem rewritesGroup_newViews (huser : isUserName identity.user = true)
    (h : List.Forall₂ groupTable.Reads (lines contents) views) :
    identity.rewritesGroup (identity.group.newViews views) = !views.any identity.group.found := by
  rw [PosixIdentity.rewritesGroup,
    Table.Update.any_found_newViews (PosixIdentity.group_lawful huser), Bool.not_true, Bool.or_false]
  cases hfound : views.any identity.group.found with
  | true => exact group_changes_newViews huser h hfound
  | false => exact group_changes_added huser hfound

theorem reads_groupOutput (huser : isUserName identity.user = true)
    (h : List.Forall₂ groupTable.Reads (lines contents) views) : List.Forall₂ groupTable.Reads
      (lines (identity.group.output groupTable contents views
        (endsWith contents "\n" || identity.rewritesGroup views))) (identity.group.newViews views) :=
  Table.Update.reads_output (PosixIdentity.group_lawful huser) h
    fun hends => (Bool.or_eq_false_iff.mp hends).1

theorem reconcileGroup_ne (huser : isUserName identity.user = true) {output : String}
    (hok : reconcileGroup contents identity = .ok (output, true)) : output ≠ contents := by
  obtain ⟨views, hviews, hchanged, rfl⟩ := (reconcileGroup_ok_iff huser).mp hok
  intro hsame
  have hreads := reads_groupOutput huser hviews
  rw [hsame] at hreads
  have hsameViews := Table.reads_unique GroupEntry.fields_injective hviews hreads
  have hagain := rewritesGroup_newViews huser hviews
  rw [← hsameViews, ← hchanged] at hagain
  have hfound := Table.Update.any_found_newViews (PosixIdentity.group_lawful huser) views
  rw [← hsameViews] at hfound
  rw [hfound] at hagain
  cases hagain

/-! ## What a run writes -/

def AccountPlan.changes (plan : AccountPlan) : Bool := plan.reconciliation.changed || plan.group_changed

/-- The files when nothing fails. -/
def AccountPlan.written (plan : AccountPlan) (files : AccountFiles) : AccountFiles :=
  ⟨if plan.reconciliation.changed then some plan.reconciliation.contents else files.passwd,
    if plan.group_changed then some plan.group_output else files.group⟩

/-- The writes that the plan asks for succeed. -/
def AccountSystem.Writes (system : AccountSystem) (plan : AccountPlan) : Prop :=
  (plan.reconciliation.changed = true → system.replace_passwd = none) ∧
    (plan.group_changed = true → system.replace_group = none)

theorem planAccounts_ok (h : planAccounts system identity files = .ok plan) :
    files.passwd = some plan.passwd ∧
      reconcilePasswd plan.passwd identity = .ok plan.reconciliation ∧
      reconcileGroup (files.group.getD "") identity = .ok (plan.group_output, plan.group_changed) := by
  simp only [planAccounts, bind_ok_iff] at h
  obtain ⟨passwd, hpasswd, reconciliation, hreconciliation, h⟩ := h
  have hread : files.passwd = some passwd := by
    rw [readPasswd] at hpasswd
    split at hpasswd
    · rw [← Except.ok.inj hpasswd]
      assumption
    all_goals cases hpasswd
  have hfound : reconciliation.found_target = true := by
    obtain ⟨views, -, rfl⟩ := reconcilePasswd_ok_iff.mp hreconciliation
    rfl
  rw [hfound] at h
  obtain ⟨group, hgroup, h⟩ := bind_ok_iff.mp h
  obtain ⟨⟨output, changed⟩, houtput, h⟩ := bind_ok_iff.mp h
  have hcontents : files.group.getD "" = group := by
    rw [readGroup] at hgroup
    split at hgroup
    · rename_i hnone
      rw [hnone, ← Except.ok.inj hgroup]
      rfl
    · rename_i hsome _
      rw [hsome, ← Except.ok.inj hgroup]
      rfl
    · cases hgroup
  rw [← Except.ok.inj h, hcontents]
  exact ⟨hread, hreconciliation, houtput⟩

theorem written_of_unchanged (h : plan.changes = false) : plan.written files = files := by
  rw [AccountPlan.changes, Bool.or_eq_false_iff] at h
  rw [AccountPlan.written, h.1, h.2]
  rfl

/-- A plan that changes something does not leave the files as they were. -/
theorem written_ne (hidentity : checkIdentity identity = .ok ())
    (hplan : planAccounts system identity files = .ok plan) (h : plan.changes = true) :
    plan.written files ≠ files := by
  have hchecked := checked_of_checkIdentity hidentity
  obtain ⟨hpasswd, hreconciliation, hgroup⟩ := planAccounts_ok hplan
  intro hsame
  rw [AccountPlan.changes, Bool.or_eq_true] at h
  rcases h with hchanged | hchanged
  · have hfile := congrArg AccountFiles.passwd hsame
    rw [AccountPlan.written, if_pos hchanged, hpasswd] at hfile
    exact reconcilePasswd_ne hchecked hreconciliation hchanged (Option.some.inj hfile)
  · have hfile := congrArg AccountFiles.group hsame
    rw [AccountPlan.written] at hfile
    dsimp only at hfile
    rw [if_pos hchanged] at hfile
    rw [hchanged, ← hfile] at hgroup
    exact reconcileGroup_ne hchecked.user hgroup rfl

theorem commitAccounts_of_writes (h : system.Writes plan) :
    commitAccounts system identity plan files =
      ((do
        verifyMapped identity (system.lookup_user_by_name (plan.written files) identity.user)
        return plan.change), plan.written files) := by
  obtain ⟨hpasswd, hgroup⟩ := h
  rw [commitAccounts, writePasswd]
  cases hreconciliation : plan.reconciliation.changed with
  | true =>
    rw [if_pos rfl, hpasswd hreconciliation]
    dsimp only
    rw [writeGroup]
    cases hchanged : plan.group_changed with
    | true =>
      rw [if_pos rfl, hgroup hchanged]
      simp only [AccountPlan.written, hreconciliation, hchanged, if_pos]
    | false =>
      rw [if_neg Bool.false_ne_true]
      simp only [AccountPlan.written, hreconciliation, hchanged, if_pos, if_neg Bool.false_ne_true]
  | false =>
    rw [if_neg Bool.false_ne_true]
    dsimp only
    rw [writeGroup]
    cases hchanged : plan.group_changed with
    | true =>
      rw [if_pos rfl, hgroup hchanged]
      simp only [AccountPlan.written, hreconciliation, hchanged, if_pos, if_neg Bool.false_ne_true]
    | false =>
      rw [if_neg Bool.false_ne_true]
      simp only [AccountPlan.written, hreconciliation, hchanged, if_neg Bool.false_ne_true]

/-- When a write fails, the files are as they were, unless the rollback fails as well. -/
theorem commitAccounts_of_failure (h : ¬ system.Writes plan) (hpasswd : files.passwd = some plan.passwd) :
    ∃ error files', commitAccounts system identity plan files = (.error error, files') ∧
      (system.restore_passwd = none → files' = files) := by
  have hfiles : files = { files with passwd := some plan.passwd } := by rw [← hpasswd]
  rw [commitAccounts, writePasswd]
  cases hreconciliation : plan.reconciliation.changed with
  | true =>
    rw [if_pos rfl]
    cases hreplace : system.replace_passwd with
    | some source => exact ⟨_, _, rfl, fun _ => rfl⟩
    | none =>
      dsimp only
      have hchanged : plan.group_changed = true := by
        by_contra hno
        exact h ⟨fun _ => hreplace, fun hyes => absurd hyes hno⟩
      have hgroup : ∃ source, system.replace_group = some source := by
        rw [← Option.ne_none_iff_exists']
        exact fun hno => h ⟨fun _ => hreplace, fun _ => hno⟩
      obtain ⟨source, hgroup⟩ := hgroup
      rw [writeGroup, if_pos hchanged, hgroup]
      dsimp only
      rw [if_pos hreconciliation]
      cases hrestore : system.restore_passwd with
      | none => exact ⟨_, _, rfl, fun _ => hfiles.symm⟩
      | some rollback => exact ⟨_, _, rfl, nofun⟩
  | false =>
    rw [if_neg Bool.false_ne_true]
    dsimp only
    have hno : ¬ plan.reconciliation.changed = true := by rw [hreconciliation]; exact Bool.false_ne_true
    have hchanged : plan.group_changed = true := by
      by_contra hnot
      exact h ⟨fun hyes => absurd hyes hno, fun hyes => absurd hyes hnot⟩
    have hgroup : ∃ source, system.replace_group = some source := by
      rw [← Option.ne_none_iff_exists']
      exact fun hnone => h ⟨fun hyes => absurd hyes hno, fun _ => hnone⟩
    obtain ⟨source, hgroup⟩ := hgroup
    rw [writeGroup, if_pos hchanged, hgroup]
    dsimp only
    rw [if_neg hno]
    exact ⟨_, _, rfl, fun _ => rfl⟩

/-! ## Failures -/

/-- The files that a successful run leaves: those of root stay as they are, others hold what was
reconciled, where something had to be changed. -/
def Reconciled (identity : PosixIdentity) (files files' : AccountFiles) : Prop :=
  if identity.isRoot then files' = files
  else ∃ passwd reconciliation output changed, files.passwd = some passwd ∧
    reconcilePasswd passwd identity = .ok reconciliation ∧
    reconcileGroup (files.group.getD "") identity = .ok (output, changed) ∧
    files' = ⟨some (if reconciliation.changed then reconciliation.contents else passwd),
      if changed then some output else files.group⟩

/-- A run that fails leaves the files as they were when the rollback succeeds, and a run that
succeeds leaves them reconciled. -/
def Atomic (system : AccountSystem) (identity : PosixIdentity) (files : AccountFiles) : Prop :=
  (∀ error, (mapUser system identity files).1 = .error error → system.restore_passwd = none →
    (mapUser system identity files).2 = files) ∧
  ∀ change, (mapUser system identity files).1 = .ok change →
    Reconciled identity files (mapUser system identity files).2

/-- Something was written, and what is read back then is not the identity. -/
def VerificationFails (system : AccountSystem) (identity : PosixIdentity) (files : AccountFiles) : Prop :=
  checkIdentity identity = .ok () ∧ identity.isRoot = false ∧
    ∃ plan error, planAccounts system identity files = .ok plan ∧ plan.changes = true ∧
      system.Writes plan ∧
      verifyMapped identity (system.lookup_user_by_name (plan.written files) identity.user) = .error error

theorem atomic_of_error {error : PosixError} (h : mapUser system identity files = (.error error, files)) :
    Atomic system identity files := by
  rw [Atomic, h]
  exact ⟨fun _ _ _ => rfl, nofun⟩

theorem reconciled_of_plan (hroot : identity.isRoot = false)
    (hplan : planAccounts system identity files = .ok plan) :
    Reconciled identity files (plan.written files) := by
  obtain ⟨hpasswd, hreconciliation, hgroup⟩ := planAccounts_ok hplan
  rw [Reconciled, hroot, if_neg Bool.false_ne_true]
  refine ⟨plan.passwd, plan.reconciliation, _, _, hpasswd, hreconciliation, hgroup, ?_⟩
  rw [AccountPlan.written]
  split_ifs
  all_goals first | rfl | rw [hpasswd]

theorem mapUser_of_plan (hidentity : checkIdentity identity = .ok ()) (hroot : identity.isRoot = false)
    (hplan : planAccounts system identity files = .ok plan) :
    mapUser system identity files = commitAccounts system identity plan files := by
  rw [mapUser, hidentity]
  dsimp only
  rw [hroot, if_neg Bool.false_ne_true, hplan]

/-- A run is atomic unless it has written something and then fails in its verification. -/
theorem map_user_is_atomic_iff (system : AccountSystem) (identity : PosixIdentity)
    (files : AccountFiles) : Atomic system identity files ↔
      ¬ (system.restore_passwd = none ∧ VerificationFails system identity files) := by
  cases hidentity : checkIdentity identity with
  | error error =>
    have hrun : mapUser system identity files = (.error error, files) := by rw [mapUser, hidentity]
    refine iff_of_true (atomic_of_error hrun) fun ⟨_, hchecked, _⟩ => ?_
    rw [hidentity] at hchecked
    cases hchecked
  | ok u =>
    cases hroot : identity.isRoot with
    | true =>
      have hrun : mapUser system identity files =
          (.ok ⟨"root POSIX account left unchanged"⟩, files) := by
        rw [mapUser, hidentity]
        dsimp only
        rw [hroot, if_pos rfl]
      refine iff_of_true ?_ fun ⟨_, _, hnot, _⟩ => ?_
      · rw [Atomic, hrun, Reconciled, hroot, if_pos rfl]
        exact ⟨nofun, fun _ _ => rfl⟩
      · rw [hroot] at hnot
        cases hnot
    | false =>
      cases hplan : planAccounts system identity files with
      | error error =>
        have hrun : mapUser system identity files = (.error error, files) := by
          rw [mapUser, hidentity]
          dsimp only
          rw [hroot, if_neg Bool.false_ne_true, hplan]
        refine iff_of_true (atomic_of_error hrun) fun ⟨_, _, _, plan, _, hok, _⟩ => ?_
        rw [hplan] at hok
        cases hok
      | ok plan =>
        have hrun := mapUser_of_plan hidentity hroot hplan
        obtain ⟨hpasswd, -⟩ := planAccounts_ok hplan
        by_cases hwrites : system.Writes plan
        · rw [commitAccounts_of_writes hwrites] at hrun
          cases hverify : verifyMapped identity
              (system.lookup_user_by_name (plan.written files) identity.user) with
          | ok u =>
            rw [hverify] at hrun
            refine iff_of_true ?_ fun ⟨_, _, _, other, error, hok, _, _, herror⟩ => ?_
            · rw [Atomic, hrun]
              exact ⟨nofun, fun _ _ => reconciled_of_plan hroot hplan⟩
            · rw [← Except.ok.inj (hplan.symm.trans hok), hverify] at herror
              cases herror
          | error error =>
            rw [hverify] at hrun
            have hatomic : Atomic system identity files ↔
                (system.restore_passwd = none → plan.written files = files) := by
              rw [Atomic, hrun]
              exact ⟨fun h => h.1 error rfl, fun h => ⟨fun _ _ => h, nofun⟩⟩
            rw [hatomic]
            constructor
            · rintro hsame ⟨hrestore, -, -, other, _, hok, hchanges, -⟩
              rw [← Except.ok.inj (hplan.symm.trans hok)] at hchanges
              exact written_ne hidentity hplan hchanges (hsame hrestore)
            · intro hnot hrestore
              refine written_of_unchanged (eq_false_of_ne_true fun hchanges => hnot ?_)
              exact ⟨hrestore, hidentity, hroot, plan, error, hplan, hchanges, hwrites, hverify⟩
        · obtain ⟨error, files', hcommit, hrestored⟩ := commitAccounts_of_failure hwrites hpasswd
          rw [hcommit] at hrun
          refine iff_of_true ?_ fun ⟨_, _, _, other, _, hok, _, hother, _⟩ => ?_
          · rw [Atomic, hrun]
            exact ⟨fun _ _ => hrestored, nofun⟩
          · rw [← Except.ok.inj (hplan.symm.trans hok)] at hother
            exact hwrites hother

/-- The system on which nothing fails but the reading of `passwd` in the verification. -/
def unreadable : AccountSystem :=
  ⟨none, none, none, none, none, fun _ _ => .error (.Io "Input/output error")⟩

def plainFiles : AccountFiles := ⟨some "root:x:0:0:root:/root:/bin/sh\n", some "users:x:100:\n"⟩

/-- Both files were written, the verification fails, and nothing is restored. -/
theorem unreadable_is_not_atomic :
    (mapUser unreadable devIdentity plainFiles).1 = .error (.Io "Input/output error") ∧
      (mapUser unreadable devIdentity plainFiles).2.group = some "users:x:100:\ndev:x:1000:\n" ∧
      ¬ Atomic unreadable devIdentity plainFiles := by
  have herror : (mapUser unreadable devIdentity plainFiles).1 = .error (.Io "Input/output error") := by
    rfl
  have hgroup : (mapUser unreadable devIdentity plainFiles).2.group =
      some "users:x:100:\ndev:x:1000:\n" := by rfl
  refine ⟨herror, hgroup, fun hatomic => ?_⟩
  have hsame := hatomic.1 _ herror rfl
  rw [hsame] at hgroup
  exact absurd hgroup (by decide)

/-! ## Repeated runs -/

variable {getpwnam : String → Except PosixError (Option PosixUser)}

theorem planAccounts_faithful {passwd output : String} {reconciliation : PasswdReconciliation}
    {changed : Bool} (hpasswd : files.passwd = some passwd)
    (hreconciliation : reconcilePasswd passwd identity = .ok reconciliation)
    (hgroup : reconcileGroup (files.group.getD "") identity = .ok (output, changed)) :
    planAccounts (.faithful getpwnam) identity files = .ok ⟨passwd, reconciliation, output, changed⟩ := by
  have hread : readPasswd (.faithful getpwnam) files = .ok passwd := by
    rw [readPasswd, hpasswd]
    rfl
  have hreadGroup : readGroup (.faithful getpwnam) files = .ok (files.group.getD "") := by
    rw [readGroup]
    cases files.group with
    | none => rfl
    | some contents => rfl
  have hfound : reconciliation.found_target = true := by
    obtain ⟨views, -, rfl⟩ := reconcilePasswd_ok_iff.mp hreconciliation
    rfl
  rw [planAccounts, hread, ok_bind, hreconciliation, ok_bind, hfound]
  show (readGroup _ files >>= _ : Except PosixError AccountPlan) = _
  rw [hreadGroup, ok_bind, hgroup]
  rfl

/-- What a run leaves in `passwd` needs no change. -/
theorem passwd_again (h : identity.Checked) {contents : String} {reconciliation : PasswdReconciliation}
    (hok : reconcilePasswd contents identity = .ok reconciliation) : ∃ again,
      reconcilePasswd (if reconciliation.changed then reconciliation.contents else contents) identity =
        .ok again ∧ again.changed = false := by
  cases hchanged : reconciliation.changed with
  | false => exact ⟨reconciliation, hok, hchanged⟩
  | true =>
    obtain ⟨views, haccepts, rfl⟩ := reconcilePasswd_ok_iff.mp hok
    refine ⟨_, reconcilePasswd_ok_iff.mpr ⟨_, haccepts.again h, rfl⟩, ?_⟩
    rw [identity.passwd_changes_newViews, Table.Update.any_found_newViews h.passwd_lawful]
    rfl

theorem any_found_iff {contents : String} (h : List.Forall₂ groupTable.Reads (lines contents) views) :
    views.any identity.group.found = true ↔
      ∃ group ∈ groupsOf contents, number group.gid = some identity.gid := by
  have hany : views.reduceOption.any identity.group.owns = views.any identity.group.found :=
    any_reduceOption _ _
  rw [groupsOf, filterMap_groupOf h, ← hany, List.any_eq_true]
  exact exists_congr fun group => and_congr_right fun _ => decide_eq_true_iff

/-- What a run leaves in `group` needs a change exactly when the group of the identity was added. -/
theorem group_again (huser : isUserName identity.user = true) {contents output : String} {changed : Bool}
    (hok : reconcileGroup contents identity = .ok (output, changed)) : ∃ output' changed',
      reconcileGroup (if changed then output else contents) identity = .ok (output', changed') ∧
      (changed' = false ↔ ∃ group ∈ groupsOf contents, number group.gid = some identity.gid) := by
  obtain ⟨views, hviews, hchanged, houtput⟩ := (reconcileGroup_ok_iff huser).mp hok
  rw [← any_found_iff hviews]
  cases changed with
  | false =>
    refine ⟨output, false, hok, iff_of_true rfl ?_⟩
    rw [PosixIdentity.rewritesGroup, eq_comm, Bool.or_eq_false_iff, Bool.not_eq_false'] at hchanged
    exact hchanged.2
  | true =>
    have hreads := reads_groupOutput huser hviews
    rw [← houtput] at hreads
    refine ⟨_, _, (reconcileGroup_ok_iff huser).mpr ⟨_, hreads, rfl, rfl⟩, ?_⟩
    rw [rewritesGroup_newViews huser hviews, Bool.not_eq_false']

/-- The files after one more run. -/
def runAgain (getpwnam : String → Except PosixError (Option PosixUser)) (identity : PosixIdentity)
    (files : AccountFiles) : AccountFiles := (mapUser (.faithful getpwnam) identity files).2

theorem faithful_writes (plan : AccountPlan) : (AccountSystem.faithful getpwnam).Writes plan :=
  ⟨fun _ => rfl, fun _ => rfl⟩

theorem mapUser_faithful_ok {change : ActionChange} {files' : AccountFiles}
    (h : mapUser (.faithful getpwnam) identity files = (.ok change, files'))
    (hroot : identity.isRoot = false) : checkIdentity identity = .ok () ∧
      ∃ plan, planAccounts (.faithful getpwnam) identity files = .ok plan ∧
        files' = plan.written files ∧
        verifyMapped identity (lookupUserByName getpwnam files' identity.user) = .ok () := by
  cases hidentity : checkIdentity identity with
  | error error =>
    rw [mapUser, hidentity] at h
    cases (Prod.mk.inj h).1
  | ok u =>
    cases hplan : planAccounts (.faithful getpwnam) identity files with
    | error error =>
      rw [mapUser, hidentity] at h
      dsimp only at h
      rw [hroot, if_neg Bool.false_ne_true, hplan] at h
      cases (Prod.mk.inj h).1
    | ok plan =>
      rw [mapUser_of_plan hidentity hroot hplan, commitAccounts_of_writes (faithful_writes plan)] at h
      obtain ⟨hresult, rfl⟩ := Prod.mk.inj h
      obtain ⟨_, hverify, -⟩ := bind_ok_iff.mp hresult
      exact ⟨rfl, plan, rfl, rfl, hverify⟩

/-- A second run leaves the files as they are when the group was there, and writes otherwise. -/
theorem second_run (hroot : identity.isRoot = false) {change : ActionChange} {files' : AccountFiles}
    (h : mapUser (.faithful getpwnam) identity files = (.ok change, files')) :
    (∃ change', mapUser (.faithful getpwnam) identity files' = (.ok change', files')) ↔
      ∃ group ∈ groupsOf (files.group.getD ""), number group.gid = some identity.gid := by
  obtain ⟨hidentity, plan, hplan, hfiles, hverify⟩ := mapUser_faithful_ok h hroot
  have hchecked := checked_of_checkIdentity hidentity
  obtain ⟨hpasswd, hreconciliation, hgroup⟩ := planAccounts_ok hplan
  obtain ⟨again, hagain, hsame⟩ := passwd_again hchecked hreconciliation
  obtain ⟨output, changed, houtput, hiff⟩ := group_again hchecked.user hgroup
  have hpasswd' : files'.passwd =
      some (if plan.reconciliation.changed then plan.reconciliation.contents else plan.passwd) := by
    rw [hfiles, AccountPlan.written, hpasswd]
    split_ifs
    all_goals rfl
  have hgroup' : files'.group.getD "" =
      if plan.group_changed then plan.group_output else files.group.getD "" := by
    rw [hfiles, AccountPlan.written]
    dsimp only
    split_ifs
    all_goals rfl
  rw [← hgroup'] at houtput
  have hplan' : planAccounts (.faithful getpwnam) identity files' = .ok ⟨_, again, output, changed⟩ :=
    planAccounts_faithful hpasswd' hagain houtput
  rw [← hiff, mapUser_of_plan hidentity hroot hplan', commitAccounts_of_writes (faithful_writes _)]
  cases changed with
  | false =>
    have hunchanged : (AccountPlan.mk (if plan.reconciliation.changed then plan.reconciliation.contents
        else plan.passwd) again output false).written files' = files' :=
      written_of_unchanged (by rw [AccountPlan.changes, hsame]; rfl)
    have hlookup : (AccountSystem.faithful getpwnam).lookup_user_by_name files' identity.user =
        lookupUserByName getpwnam files' identity.user := rfl
    rw [hunchanged, hlookup, hverify]
    exact iff_of_true ⟨_, rfl⟩ rfl
  | true =>
    refine iff_of_false ?_ nofun
    rintro ⟨change', hrun⟩
    exact written_ne hidentity hplan' (Bool.or_true _) (Prod.mk.inj hrun).2

/-- Repeated runs of `map_user` leave the files as the first left them, exactly when the first had
nothing to do because the identity is root, or did not have to add the group. -/
theorem map_user_is_idempotent_iff {change : ActionChange} {files' : AccountFiles}
    (h : mapUser (.faithful getpwnam) identity files = (.ok change, files')) :
    (∀ n, ∃ change', mapUser (.faithful getpwnam) identity ((runAgain getpwnam identity)^[n] files') =
      (.ok change', files')) ↔
      identity.isRoot = true ∨
        ∃ group ∈ groupsOf (files.group.getD ""), number group.gid = some identity.gid := by
  have hrepeat : (∃ change', mapUser (.faithful getpwnam) identity files' = (.ok change', files')) →
      ∀ n, ∃ change', mapUser (.faithful getpwnam) identity
        ((runAgain getpwnam identity)^[n] files') = (.ok change', files') := by
    rintro ⟨change', hrun⟩ n
    have hfixed : (runAgain getpwnam identity)^[n] files' = files' :=
      Function.iterate_fixed (congrArg Prod.snd hrun) n
    rw [hfixed]
    exact ⟨change', hrun⟩
  cases hroot : identity.isRoot with
  | true =>
    refine iff_of_true (hrepeat ?_) (Or.inl rfl)
    cases hidentity : checkIdentity identity with
    | error error =>
      rw [mapUser, hidentity] at h
      cases (Prod.mk.inj h).1
    | ok u =>
      refine ⟨⟨"root POSIX account left unchanged"⟩, ?_⟩
      rw [mapUser, hidentity]
      dsimp only
      rw [hroot, if_pos rfl]
  | false =>
    rw [← second_run hroot h, or_iff_right (by decide)]
    exact ⟨fun hall => hall 0, hrepeat⟩

def firstFiles : AccountFiles :=
  ⟨some "root:x:0:0:root:/root:/bin/sh\ndev:x:1000:1000::/home/dev:/bin/sh\n",
    some "users:x:100:\ndev:x:1000:\n"⟩

/-- The group that the first run adds gets its member in the second. -/
theorem second_run_adds_the_member :
    mapUser (.faithful fun _ => .ok none) devIdentity plainFiles =
      (.ok ⟨"mapped POSIX passwd entry"⟩, firstFiles) ∧
    mapUser (.faithful fun _ => .ok none) devIdentity firstFiles =
      (.ok ⟨"POSIX passwd entry already mapped"⟩,
        { firstFiles with group := some "users:x:100:\ndev:x:1000:dev\n" }) ∧
    some "users:x:100:\ndev:x:1000:dev\n" ≠ firstFiles.group :=
  ⟨rfl, rfl, by decide⟩

theorem users_run_is_idempotent : ∃ change files',
    mapUser (.faithful fun _ => .ok none) devIdentity ⟨some serviceFile, some "users:x:1000:alice\n"⟩ =
      (.ok change, files') ∧
    ∀ n, ∃ change', mapUser (.faithful fun _ => .ok none) devIdentity
      ((runAgain (fun _ => .ok none) devIdentity)^[n] files') = (.ok change', files') := by
  have hrun : mapUser (.faithful fun _ => .ok none) devIdentity
      ⟨some serviceFile, some "users:x:1000:alice\n"⟩ = (.ok ⟨"mapped POSIX passwd entry"⟩,
        ⟨some "root:x:0:0:root:/root:/bin/sh\n# services\n\ndev:x:1000:1000::/home/dev:/bin/sh",
          some "users:x:1000:alice,dev\n"⟩) := rfl
  have hgroups : groupsOf "users:x:1000:alice\n" = [⟨"users", "x", "1000", "alice"⟩] := by
    decide +kernel
  refine ⟨_, _, hrun, (map_user_is_idempotent_iff hrun).mpr (Or.inr ?_)⟩
  show ∃ group ∈ groupsOf "users:x:1000:alice\n", _
  rw [hgroups]
  exact ⟨_, List.mem_cons_self, by decide +kernel⟩

end init_posix
