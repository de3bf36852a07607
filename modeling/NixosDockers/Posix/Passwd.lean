-- The laws of the `passwd` file: what reconciling does to the entries of a file,
-- and that the entry of the identity is found again.
import NixosDockers.Posix.Accounts

open rust_text results

namespace init_posix

/-! ## Fields that were checked -/

theorem validateUserName_ok_iff {user : String} {u : Unit} :
    validateUserName user = .ok u ↔ isUserName user = true := by
  rw [validateUserName]
  split_ifs with h
  · exact iff_of_true rfl h
  · exact iff_of_false nofun h

theorem validateAccountField_ok_iff {field value : String} {u : Unit} :
    validateAccountField field value = .ok u ↔ isAccountField value = true := by
  rw [validateAccountField]
  split_ifs with h
  · exact iff_of_true rfl h
  · exact iff_of_false nofun h

theorem requireNumber_ok_iff {value message : String} {n : UInt32} :
    requireNumber value message = .ok n ↔ number value = some n := by
  rw [requireNumber]
  cases number value with
  | none => exact iff_of_false nofun nofun
  | some found => rw [Except.ok.injEq, Option.some.injEq]

/-- A number is read back as it is written. -/
@[simp]
theorem number_decimal (n : UInt32) : number (decimal n) = some n := by
  rw [number, decimal, parseUnsigned_repr n.toNat_lt, Option.map_some, UInt32.ofNat_toNat]

theorem isUserName_iff {user : String} : isUserName user = true ↔
    user ≠ "" ∧ byteLen user ≤ 32 ∧ ∀ c ∈ user.toList, c.isAlphanum = true ∨ c = '_' ∨ c = '-' := by
  simp [isUserName, List.all_eq_true, and_assoc, or_assoc]

theorem isAccountField_iff {value : String} : isAccountField value = true ↔
    ':' ∉ value.toList ∧ nul ∉ value.toList ∧ '\n' ∉ value.toList ∧ '\r' ∉ value.toList := by
  rw [isAccountField, Bool.not_eq_true', List.any_eq_false]
  constructor
  · intro h
    refine ⟨?_, ?_, ?_, ?_⟩
    all_goals
      intro hmem
      exact h _ hmem (by decide)
  · rintro ⟨hcolon, hnul, hnewline, hreturn⟩ c hc
    simp only [Bool.or_eq_true, decide_eq_true_iff, not_or]
    refine ⟨⟨⟨?_, ?_⟩, ?_⟩, ?_⟩
    all_goals
      rintro rfl
      contradiction

/-- The characters of a name are neither white space nor marks of the file. -/
theorem nameChar_plain {c : Char} (h : c.isAlphanum = true ∨ c = '_' ∨ c = '-') :
    c ≠ '#' ∧ c ≠ ':' ∧ c ≠ ',' ∧ isWhitespace c = false := by
  rcases h with h | rfl | rfl
  · have hcode : 48 ≤ c.toNat ∧ c.toNat ≤ 122 ∧ c.toNat ≠ 58 := by
      simp only [Char.isAlphanum, Char.isAlpha, Char.isUpper, Char.isLower, Char.isDigit,
        Bool.or_eq_true, Bool.and_eq_true, decide_eq_true_iff, ge_iff_le, UInt32.le_iff_toNat_le] at h
      have htoNat : c.val.toNat = c.toNat := rfl
      have hupper : 'A'.val.toNat = 65 ∧ 'Z'.val.toNat = 90 := ⟨rfl, rfl⟩
      have hlower : 'a'.val.toNat = 97 ∧ 'z'.val.toNat = 122 := ⟨rfl, rfl⟩
      have hdigit : '0'.val.toNat = 48 ∧ '9'.val.toNat = 57 := ⟨rfl, rfl⟩
      omega
    refine ⟨?_, ?_, ?_, ?_⟩
    · rintro rfl
      exact absurd hcode.1 (by decide)
    · rintro rfl
      exact hcode.2.2 rfl
    · rintro rfl
      exact absurd hcode.1 (by decide)
    · simp only [isWhitespace, Bool.or_eq_false_iff, Bool.and_eq_false_iff, decide_eq_false_iff_not,
        beq_eq_false_iff_ne]
      omega
  · decide
  · decide

theorem name_head {user : String} (h : isUserName user = true) :
    ∃ c, user.toList.head? = some c ∧ c ≠ '#' ∧ isWhitespace c = false := by
  obtain ⟨hne, -, hall⟩ := isUserName_iff.mp h
  obtain ⟨c, rest, hrest⟩ := List.exists_cons_of_ne_nil (fun hnil => hne (String.toList_eq_nil_iff.mp hnil))
  obtain ⟨hhash, -, -, hwhite⟩ := nameChar_plain (hall c (hrest ▸ List.mem_cons_self))
  exact ⟨c, by rw [hrest]; rfl, hhash, hwhite⟩

theorem name_free {user : String} (h : isUserName user = true) :
    ':' ∉ user.toList ∧ '\n' ∉ user.toList ∧ ',' ∉ user.toList := by
  obtain ⟨-, -, hall⟩ := isUserName_iff.mp h
  refine ⟨?_, ?_, ?_⟩
  all_goals intro hmem
  · exact (nameChar_plain (hall _ hmem)).2.1 rfl
  · exact absurd (nameChar_plain (hall _ hmem)).2.2.2 (by decide)
  · exact (nameChar_plain (hall _ hmem)).2.2.1 rfl

theorem decimal_free (n : UInt32) : ':' ∉ (decimal n).toList ∧ '\n' ∉ (decimal n).toList := by
  have hdecimal := isDecimal_repr n.toNat
  rw [isDecimal, Bool.and_eq_true, List.all_eq_true] at hdecimal
  constructor
  all_goals
    intro hmem
    exact absurd (hdecimal.2 _ hmem) (by decide)

/-! ## Entries that were checked -/

/-- What `validate_passwd_fields` checks of an entry, and that its fields are fields of a line. -/
structure PasswdEntry.Valid (entry : PasswdEntry) : Prop where
  name : isUserName entry.name = true
  uid : ∃ n, number entry.uid = some n
  gid : ∃ n, number entry.gid = some n
  home : isAccountField entry.home = true
  shell : isAccountField entry.shell = true
  free : ∀ field ∈ entry.fields, ':' ∉ field.toList ∧ '\n' ∉ field.toList

def passwdTable : Table PasswdEntry where
  fields := PasswdEntry.fields
  Valid := PasswdEntry.Valid
  ne_nil _ := List.cons_ne_nil _ _
  free _ h := h.free
  starts entry h := by
    obtain ⟨c, hhead, hplain⟩ := name_head h.name
    exact ⟨c, Table.head_joined hhead _, hplain⟩
  ends entry h := by
    have hshell : entry.shell.toList.getLast? ≠ some '\r' := by
      intro hlast
      exact (isAccountField_iff.mp h.shell).2.2.2 (List.mem_of_getLast? hlast)
    exact Table.last_joined hshell
      [entry.name, entry.password, entry.uid, entry.gid, entry.gecos, entry.home]

theorem PasswdEntry.ofFields_eq_some_iff {fields : List String} {entry : PasswdEntry} :
    PasswdEntry.ofFields fields = some entry ↔ fields = entry.fields := by
  constructor
  · intro h
    rw [ofFields.eq_def] at h
    split at h
    · rw [← Option.some.inj h]
      rfl
    · cases h
  · rintro rfl
    rfl

theorem PasswdEntry.fields_injective : Function.Injective PasswdEntry.fields := by
  intro a b h
  have ha := PasswdEntry.ofFields_eq_some_iff.mpr (Eq.refl a.fields)
  rw [h, PasswdEntry.ofFields_eq_some_iff.mpr (Eq.refl b.fields)] at ha
  exact (Option.some.inj ha).symm

theorem validatePasswdFields_ok_iff {line : String} (hline : '\n' ∉ line.toList) {line_number : ℕ}
    {entry : PasswdEntry} : validatePasswdFields (splitChar ':' line) line_number = .ok entry ↔
      splitChar ':' line = entry.fields ∧ entry.Valid := by
  rw [validatePasswdFields]
  constructor
  · intro h
    cases hfields : PasswdEntry.ofFields (splitChar ':' line) with
    | none =>
      rw [hfields] at h
      cases h
    | some found =>
      rw [hfields] at h
      simp only [bind_ok_iff, pure_ok_iff, validateUserName_ok_iff, validateAccountField_ok_iff,
        requireNumber_ok_iff] at h
      obtain ⟨-, hname, uid, huid, gid, hgid, -, hhome, -, hshell, rfl⟩ := h
      have hsplit := PasswdEntry.ofFields_eq_some_iff.mp hfields
      refine ⟨hsplit, hname, ⟨uid, huid⟩, ⟨gid, hgid⟩, hhome, hshell, ?_⟩
      intro field hfield
      rw [← hsplit] at hfield
      exact ⟨free_of_mem_splitChar hfield, fun hmem => hline (mem_of_mem_splitChar hfield hmem)⟩
  · rintro ⟨hsplit, hvalid⟩
    rw [PasswdEntry.ofFields_eq_some_iff.mpr hsplit]
    obtain ⟨uid, huid⟩ := hvalid.uid
    obtain ⟨gid, hgid⟩ := hvalid.gid
    simp only [bind_ok_iff, pure_ok_iff, validateUserName_ok_iff, validateAccountField_ok_iff,
      requireNumber_ok_iff]
    exact ⟨(), hvalid.name, uid, huid, gid, hgid, (), hvalid.home, (), hvalid.shell, trivial⟩

/-! ## The entry of the identity -/

/-- What `map_user` checks of an identity before it reads a file. -/
structure PosixIdentity.Checked (identity : PosixIdentity) : Prop where
  user : isUserName identity.user = true
  home : isAccountField identity.home = true

variable {identity : PosixIdentity} {entry : PasswdEntry} {view : Option PasswdEntry}

def PasswdEntry.mapped (entry : PasswdEntry) (identity : PosixIdentity) : PasswdEntry :=
  if entry.name = identity.user then
    { entry with uid := decimal identity.uid, gid := decimal identity.gid, home := identity.home }
  else entry

@[simp]
theorem PasswdEntry.name_mapped : (entry.mapped identity).name = entry.name := by
  rw [mapped]
  split_ifs
  all_goals rfl

@[simp]
theorem PasswdEntry.mapped_mapped : (entry.mapped identity).mapped identity = entry.mapped identity := by
  rw [mapped, name_mapped]
  split_ifs with h
  · rw [mapped, if_pos h]
  · rfl

theorem setField_eq (field value : String) (changed : Bool) :
    setField field value changed = (value, changed || decide (field ≠ value)) := by
  rw [setField]
  split_ifs with h
  · simp [h]
  · rw [not_not.mp h]
    simp

theorem PasswdEntry.set_eq (h : entry.name = identity.user) (changed : Bool) :
    entry.set identity changed =
      (entry.mapped identity, changed || decide (entry.mapped identity ≠ entry)) := by
  have hchanged : entry.mapped identity ≠ entry ↔ entry.uid ≠ decimal identity.uid ∨
      entry.gid ≠ decimal identity.gid ∨ entry.home ≠ identity.home := by
    rw [mapped, if_pos h, ne_eq, PasswdEntry.mk.injEq]
    constructor
    · intro hne
      by_contra hall
      simp only [not_or, not_not] at hall
      exact hne ⟨rfl, rfl, hall.1.symm, hall.2.1.symm, rfl, hall.2.2.symm, rfl⟩
    · rintro hsome ⟨-, -, huid, hgid, -, hhome, -⟩
      rcases hsome with hne | hne | hne
      · exact hne huid.symm
      · exact hne hgid.symm
      · exact hne hhome.symm
  have hdecide : decide (entry.mapped identity ≠ entry) = (decide (entry.uid ≠ decimal identity.uid) ||
      (decide (entry.gid ≠ decimal identity.gid) || decide (entry.home ≠ identity.home))) := by
    rw [decide_eq_decide.mpr hchanged, Bool.decide_or, Bool.decide_or]
  rw [hdecide]
  simp only [set, setField_eq, mapped, if_pos h, Bool.or_assoc]

theorem decimal_valid (n : UInt32) : ∃ m, number (decimal n) = some m := ⟨n, number_decimal n⟩

theorem PasswdEntry.Valid.mapped (h : entry.Valid) (hidentity : identity.Checked) :
    (entry.mapped identity).Valid := by
  rw [PasswdEntry.mapped]
  split_ifs with hname
  · refine ⟨h.name, decimal_valid _, decimal_valid _, hidentity.home, h.shell, ?_⟩
    have hhome := isAccountField_iff.mp hidentity.home
    have hfree := h.free
    simp only [fields, List.forall_mem_cons] at hfree ⊢
    obtain ⟨hn, hp, -, -, hg, -, hs⟩ := hfree
    exact ⟨hn, hp, decimal_free _, decimal_free _, hg, ⟨hhome.1, hhome.2.2.1⟩, hs⟩
  · exact h

theorem PosixIdentity.Checked.valid_passwdEntry (h : identity.Checked) :
    identity.passwdEntry.Valid := by
  have hshell : isAccountField "/bin/sh" = true := by decide
  refine ⟨h.user, decimal_valid _, decimal_valid _, h.home, hshell, ?_⟩
  have hhome := isAccountField_iff.mp h.home
  have hname := name_free h.user
  simp only [passwdEntry, PasswdEntry.fields, List.forall_mem_cons]
  exact ⟨⟨hname.1, hname.2.1⟩, by decide, decimal_free _, decimal_free _, by decide,
    ⟨hhome.1, hhome.2.2.1⟩, by decide, nofun⟩

theorem PosixIdentity.mapped_passwdEntry : identity.passwdEntry.mapped identity = identity.passwdEntry := by
  rw [PasswdEntry.mapped]
  split_ifs
  all_goals rfl

/-- What `reconcile_passwd` does to the entries. -/
def PosixIdentity.passwd (identity : PosixIdentity) : Table.Update PasswdEntry :=
  ⟨fun entry => entry.name = identity.user, fun entry => entry.mapped identity, identity.passwdEntry⟩

theorem PosixIdentity.Checked.passwd_lawful (h : identity.Checked) :
    identity.passwd.Lawful passwdTable where
  valid_mapped _ hvalid := PasswdEntry.Valid.mapped hvalid h
  valid_added := h.valid_passwdEntry
  mapped_of_not_owns _ hother := if_neg (of_decide_eq_false hother)
  owns_mapped entry := by
    show decide ((entry.mapped identity).name = identity.user) = _
    rw [PasswdEntry.name_mapped]
    rfl
  owns_added := decide_eq_true rfl

/-! ## What the loop does -/

/-- No other user has the uid. -/
def PosixIdentity.Fits (identity : PosixIdentity) (view : Option PasswdEntry) : Prop :=
  ∀ entry, view = some entry → number entry.uid = some identity.uid → entry.name = identity.user

/-- The variables of a loop behind a line. -/
def Rewriting.pass {E : Type} [DecidableEq E] (table : Table E) (update : Table.Update E)
    (state : Rewriting) (line : String) (view : Option E) : Rewriting :=
  ⟨state.lines ++ [update.rowOf table line view], state.found || update.found view,
    state.changed || update.changes view⟩

theorem Rewriting.pass_none {E : Type} [DecidableEq E] (table : Table E) (update : Table.Update E)
    (state : Rewriting) (line : String) : state.pass table update line none = state.push line := by
  simp [pass, Table.Update.rowOf, Table.Update.found, Table.Update.changes, push]

theorem PosixIdentity.pass_owned (h : entry.name = identity.user) (state : Rewriting) (line : String) :
    state.pass passwdTable identity.passwd line (some entry) = ⟨state.lines ++ [(entry.mapped identity).line],
      true, state.changed || decide (entry.mapped identity ≠ entry)⟩ := by
  have hfound : identity.passwd.found (some entry) = true := decide_eq_true h
  rw [Rewriting.pass, hfound, Bool.or_true]
  rfl

theorem PosixIdentity.pass_other (h : entry.name ≠ identity.user) (state : Rewriting) (line : String) :
    state.pass passwdTable identity.passwd line (some entry) = state.push entry.line := by
  have hfound : identity.passwd.found (some entry) = false := decide_eq_false h
  have hmapped : identity.passwd.mapped entry = entry := if_neg h
  have hchanges : identity.passwd.changes (some entry) = false := by
    rw [Table.Update.changes, Option.any_some, hmapped]
    exact decide_eq_false (not_not.mpr rfl)
  rw [Rewriting.pass, hfound, hchanges, Bool.or_false, Bool.or_false, Table.Update.rowOf, hmapped]
  rfl

theorem passwdLine_ok_iff {state state' : Rewriting} {line : String} (hline : '\n' ∉ line.toList)
    {line_number : ℕ} : passwdLine identity state line line_number = .ok state' ↔
      ∃ view, passwdTable.Reads line view ∧ identity.Fits view ∧
        (identity.passwd.found view = true → state.found = false) ∧
        state' = state.pass passwdTable identity.passwd line view := by
  rw [passwdLine]
  cases hskip : isSkipped line with
  | true =>
    rw [if_pos rfl, Except.ok.injEq]
    constructor
    · rintro rfl
      exact ⟨none, .skipped hskip, nofun, nofun, (state.pass_none _ _ line).symm⟩
    · rintro ⟨view, hreads, -, -, rfl⟩
      cases hreads with
      | skipped => exact (state.pass_none _ _ line).symm
      | entry _ hnot =>
        rw [hskip] at hnot
        cases hnot
  | false =>
    rw [if_neg Bool.false_ne_true]
    simp only [bind_ok_iff, validatePasswdFields_ok_iff hline, requireNumber_ok_iff]
    constructor
    · rintro ⟨entry, ⟨hsplit, hvalid⟩, entry_uid, huid, h⟩
      have hreads : passwdTable.Reads line (some entry) := .entry entry hskip hsplit hvalid
      split_ifs at h with hother hname hfound
      · have hstate : state' = _ := (Except.ok.inj h).symm
        refine ⟨some entry, hreads, ?_, fun _ => eq_false_of_ne_true hfound, ?_⟩
        · intro found heq _
          rw [← Option.some.inj heq]
          exact hname
        · rw [hstate, PasswdEntry.set_eq hname, identity.pass_owned hname]
      · refine ⟨some entry, hreads, ?_, ?_, ?_⟩
        · intro found heq hnumber
          rw [← Option.some.inj heq, huid] at hnumber
          exact absurd ⟨Option.some.inj hnumber, hname⟩ hother
        · intro howns
          exact absurd (of_decide_eq_true howns) hname
        · rw [← Except.ok.inj h, identity.pass_other hname]
    · rintro ⟨view, hreads, hfits, hfound, rfl⟩
      cases hreads with
      | skipped h =>
        rw [hskip] at h
        cases h
      | entry entry _ hsplit hvalid =>
        obtain ⟨entry_uid, huid⟩ := hvalid.uid
        refine ⟨entry, ⟨hsplit, hvalid⟩, entry_uid, huid, ?_⟩
        have hother : ¬ (entry_uid = identity.uid ∧ entry.name ≠ identity.user) := by
          rintro ⟨rfl, hne⟩
          exact hne (hfits entry rfl huid)
        rw [if_neg hother]
        split_ifs with hname hstate
        · have := hfound (decide_eq_true hname)
          rw [hstate] at this
          cases this
        · rw [PasswdEntry.set_eq hname, identity.pass_owned hname]
        · rw [identity.pass_other hname]

variable {views : List (Option PasswdEntry)} {rows : List String}

theorem passwdLines_ok_iff (hlines : ∀ row ∈ rows, '\n' ∉ row.toList) {state state' : Rewriting}
    {line_number : ℕ} : eachLine (passwdLine identity) rows line_number state = .ok state' ↔
      ∃ views, List.Forall₂ passwdTable.Reads rows views ∧ (∀ view ∈ views, identity.Fits view) ∧
        views.countP identity.passwd.found + state.found.toNat ≤ 1 ∧
        state' = ⟨state.lines ++ List.zipWith (identity.passwd.rowOf passwdTable) rows views,
          state.found || views.any identity.passwd.found, state.changed || views.any identity.passwd.changes⟩ := by
  induction rows generalizing state line_number with
  | nil =>
    rw [eachLine, Except.ok.injEq]
    constructor
    · rintro rfl
      exact ⟨[], .nil, nofun, by cases state.found <;> simp, by simp⟩
    · rintro ⟨views, hviews, -, -, rfl⟩
      cases hviews
      simp
  | cons line rows ih =>
    rw [List.forall_mem_cons] at hlines
    simp only [eachLine, bind_ok_iff, passwdLine_ok_iff hlines.1, ih hlines.2]
    constructor
    · rintro ⟨_, ⟨view, hview, hfits, hfound, rfl⟩, views, hviews, hall, hcount, rfl⟩
      refine ⟨view :: views, .cons hview hviews, List.forall_mem_cons.mpr ⟨hfits, hall⟩, ?_, ?_⟩
      · rw [List.countP_cons]
        cases howns : identity.passwd.found view with
        | true =>
          rw [Rewriting.pass, howns, Bool.or_true] at hcount
          rw [hfound howns]
          simpa using hcount
        | false =>
          rw [Rewriting.pass, howns, Bool.or_false] at hcount
          simpa using hcount
      · simp [Rewriting.pass, Bool.or_assoc]
    · rintro ⟨_, hviews, hall, hcount, rfl⟩
      cases hviews with
      | cons hview hviews =>
        rename_i view views
        rw [List.forall_mem_cons] at hall
        refine ⟨_, ⟨view, hview, hall.1, ?_, rfl⟩, views, hviews, hall.2, ?_, ?_⟩
        · intro howns
          rw [List.countP_cons, if_pos howns] at hcount
          cases hstate : state.found with
          | false => rfl
          | true =>
            rw [hstate, Bool.toNat_true] at hcount
            omega
        · rw [List.countP_cons] at hcount
          rw [Rewriting.pass]
          cases howns : identity.passwd.found view with
          | true =>
            rw [howns, if_pos rfl] at hcount
            cases hstate : state.found with
            | false =>
              rw [hstate, Bool.toNat_false] at hcount
              rw [Bool.false_or, Bool.toNat_true]
              omega
            | true =>
              rw [hstate, Bool.toNat_true] at hcount
              omega
          | false =>
            rw [howns, if_neg Bool.false_ne_true] at hcount
            rw [Bool.or_false]
            omega
        · simp [Rewriting.pass, Bool.or_assoc]

/-- What was read of a file that is accepted. -/
structure Accepts (identity : PosixIdentity) (rows : List String) (views : List (Option PasswdEntry)) :
    Prop where
  reads : List.Forall₂ passwdTable.Reads rows views
  fits : ∀ view ∈ views, identity.Fits view
  single : views.countP identity.passwd.found ≤ 1

theorem reconcilePasswd_ok_iff {contents : String} {reconciliation : PasswdReconciliation} :
    reconcilePasswd contents identity = .ok reconciliation ↔
      ∃ views, Accepts identity (lines contents) views ∧ reconciliation =
        ⟨identity.passwd.output passwdTable contents views (endsWith contents "\n"),
          views.any identity.passwd.changes || !views.any identity.passwd.found, true⟩ := by
  simp only [reconcilePasswd, bind_ok_iff, pure_ok_iff,
    passwdLines_ok_iff (fun row hrow => free_of_mem_lines hrow)]
  constructor
  · rintro ⟨_, ⟨views, hviews, hfits, hcount, rfl⟩, rfl⟩
    refine ⟨views, ⟨hviews, hfits, by simpa [Rewriting.start] using hcount⟩, ?_⟩
    cases hfound : views.any identity.passwd.found with
    | true => simp [Rewriting.start, Table.Update.output, Table.Update.newRows, hfound]
    | false =>
      simp [Rewriting.start, Table.Update.output, Table.Update.newRows, hfound]
      rfl
  · rintro ⟨views, ⟨hviews, hfits, hcount⟩, rfl⟩
    refine ⟨_, ⟨views, hviews, hfits, by simpa [Rewriting.start] using hcount, rfl⟩, ?_⟩
    cases hfound : views.any identity.passwd.found with
    | true => simp [Rewriting.start, Table.Update.output, Table.Update.newRows, hfound]
    | false =>
      simp [Rewriting.start, Table.Update.output, Table.Update.newRows, hfound]
      rfl

/-! ## What is written is read again -/

/-- The contents that are written are read with the new entries. -/
theorem Accepts.reads_again (h : identity.Checked) {contents : String}
    (haccepts : Accepts identity (lines contents) views) : List.Forall₂ passwdTable.Reads
      (lines (identity.passwd.output passwdTable contents views (endsWith contents "\n")))
      (identity.passwd.newViews views) :=
  Table.Update.reads_output h.passwd_lawful haccepts.reads fun hends => hends

/-! ## The new entries -/

theorem PosixIdentity.fits_map (hfits : identity.Fits view) :
    identity.Fits (view.map fun entry => entry.mapped identity) := by
  intro entry heq hnumber
  obtain ⟨found, hfound, rfl⟩ := Option.map_eq_some_iff.mp heq
  rw [PasswdEntry.name_mapped]
  rw [PasswdEntry.mapped] at hnumber
  split_ifs at hnumber with hname
  · exact hname
  · exact hfits found hfound hnumber

theorem Accepts.fits_newViews (h : Accepts identity rows views) :
    ∀ view ∈ identity.passwd.newViews views, identity.Fits view := by
  intro view hview
  rcases Table.Update.mem_newViews hview with ⟨old, hold, rfl⟩ | ⟨-, rfl⟩
  · exact identity.fits_map (h.fits old hold)
  · intro entry heq _
    rw [← Option.some.inj heq]
    rfl

/-- The new entries are accepted again. -/
theorem Accepts.again (h : identity.Checked) {contents : String}
    (haccepts : Accepts identity (lines contents) views) : Accepts identity
      (lines (identity.passwd.output passwdTable contents views (endsWith contents "\n")))
      (identity.passwd.newViews views) :=
  ⟨haccepts.reads_again h, haccepts.fits_newViews,
    (Table.Update.countP_newViews h.passwd_lawful haccepts.single).le⟩

theorem PosixIdentity.passwd_changes_newViews (identity : PosixIdentity)
    (views : List (Option PasswdEntry)) :
    (identity.passwd.newViews views).any identity.passwd.changes = false :=
  Table.Update.changes_newViews (fun _ _ => PasswdEntry.mapped_mapped) (Or.inr identity.mapped_passwdEntry)

/-! ## Users that are looked up -/

def PasswdEntry.toUser (entry : PasswdEntry) : PosixUser :=
  ⟨entry.name, (number entry.uid).getD 0, (number entry.gid).getD 0, entry.home, entry.shell⟩

/-- A lookup finds the first entry that it looks for. -/
theorem lookupLines_eq (h : List.Forall₂ passwdTable.Reads rows views) (predicate : List String → Bool)
    (line_number : ℕ) : lookupLines predicate rows line_number =
      .ok ((views.reduceOption.find? fun entry => predicate entry.fields).map PasswdEntry.toUser) := by
  induction h generalizing line_number with
  | nil => rfl
  | @cons line view rows views hline _ ih =>
    rw [lookupLines]
    cases hline with
    | skipped hskip =>
      rw [if_pos hskip, ih]
      rfl
    | entry entry hskip hsplit hvalid =>
      obtain ⟨uid, huid⟩ := hvalid.uid
      obtain ⟨gid, hgid⟩ := hvalid.gid
      have hname : entry.name ≠ "" := (isUserName_iff.mp hvalid.name).1
      have hfields : PasswdEntry.ofFields (splitChar ':' line) = some entry :=
        PasswdEntry.ofFields_eq_some_iff.mpr hsplit
      rw [if_neg (by rw [hskip]; decide), hfields]
      dsimp only
      rw [if_neg hname, huid, hgid, Option.elim_some, Option.elim_some, ok_bind, ok_bind,
        List.reduceOption_cons_of_some, List.find?_cons]
      cases hpredicate : predicate entry.fields with
      | true =>
        rw [if_pos rfl, Option.map_some, PasswdEntry.toUser, huid, hgid]
        rfl
      | false => rw [if_neg Bool.false_ne_true, ih]

/-- The entries of a file that is in order: one has the name, and with it all the values. -/
structure Settled (identity : PosixIdentity) (views : List (Option PasswdEntry)) : Prop where
  found : views.any identity.passwd.found = true
  mapped : ∀ entry, some entry ∈ views → entry.mapped identity = entry
  fits : ∀ view ∈ views, identity.Fits view

theorem PasswdEntry.values_of_mapped (hname : entry.name = identity.user)
    (h : entry.mapped identity = entry) : entry.uid = decimal identity.uid ∧
      entry.gid = decimal identity.gid ∧ entry.home = identity.home := by
  rw [mapped, if_pos hname] at h
  rw [← h]
  exact ⟨rfl, rfl, rfl⟩

/-- The user of the identity. -/
structure PosixIdentity.Is (identity : PosixIdentity) (user : PosixUser) : Prop where
  name : user.name = identity.user
  uid : user.uid = identity.uid
  gid : user.gid = identity.gid
  home : user.home = identity.home

theorem PasswdEntry.toUser_is (hname : entry.name = identity.user)
    (h : entry.mapped identity = entry) : identity.Is entry.toUser := by
  obtain ⟨huid, hgid, hhome⟩ := values_of_mapped hname h
  refine ⟨hname, ?_, ?_, hhome⟩
  · rw [toUser, huid, number_decimal]
    rfl
  · rw [toUser, hgid, number_decimal]
    rfl

/-- By its name and by its uid the same user is found. -/
theorem Settled.lookup (h : Settled identity views) : ∃ user, identity.Is user ∧
    (views.reduceOption.find? fun entry => byName identity.user entry.fields).map PasswdEntry.toUser =
      some user ∧
    (views.reduceOption.find? fun entry => byUid identity.uid entry.fields).map PasswdEntry.toUser =
      some user := by
  have hbyName : ∀ entry : PasswdEntry,
      byName identity.user entry.fields = true ↔ entry.name = identity.user := by
    intro entry
    simp [byName, PasswdEntry.fields]
  have hbyUid : ∀ entry ∈ views.reduceOption,
      byName identity.user entry.fields = byUid identity.uid entry.fields := by
    intro entry hentry
    have hmem : some entry ∈ views := List.reduceOption_mem_iff.mp hentry
    rw [Bool.eq_iff_iff, hbyName, byUid, decide_eq_true_iff]
    show _ ↔ number entry.uid = some identity.uid
    constructor
    · intro hname
      rw [(PasswdEntry.values_of_mapped hname (h.mapped entry hmem)).1, number_decimal]
    · exact h.fits _ hmem entry rfl
  obtain ⟨entry, hview, hname⟩ : ∃ entry, some entry ∈ views ∧ entry.name = identity.user := by
    obtain ⟨view, hview, howns⟩ := List.any_eq_true.mp h.found
    cases view with
    | none => cases howns
    | some entry => exact ⟨entry, hview, of_decide_eq_true howns⟩
  have hfind : ∃ found, views.reduceOption.find?
      (fun entry => byName identity.user entry.fields) = some found := by
    rw [← Option.isSome_iff_exists, List.find?_isSome]
    exact ⟨entry, List.reduceOption_mem_iff.mpr hview, (hbyName entry).mpr hname⟩
  obtain ⟨found, hfound⟩ := hfind
  have hmem := List.reduceOption_mem_iff.mp (List.mem_of_find?_eq_some hfound)
  have hpredicate := List.find?_some hfound
  have hfoundName : found.name = identity.user := (hbyName found).mp hpredicate
  refine ⟨found.toUser, PasswdEntry.toUser_is hfoundName (h.mapped found hmem), by rw [hfound]; rfl, ?_⟩
  have hsame : views.reduceOption.find? (fun entry => byUid identity.uid entry.fields) =
      views.reduceOption.find? (fun entry => byName identity.user entry.fields) := by
    refine List.find?_congr fun entry hentry => ?_
    rw [hbyUid entry hentry]
  rw [hsame, hfound]
  rfl

theorem settled_of_unchanged (hfits : ∀ view ∈ views, identity.Fits view)
    (hchanges : views.any identity.passwd.changes = false)
    (hfound : views.any identity.passwd.found = true) : Settled identity views := by
  refine ⟨hfound, fun entry hentry => ?_, hfits⟩
  have hsame := List.any_eq_false.mp hchanges _ hentry
  rw [Table.Update.changes, Option.any_some, decide_eq_true_iff, not_not] at hsame
  exact hsame

theorem Accepts.settled (hchecked : identity.Checked) (h : Accepts identity rows views) :
    Settled identity (identity.passwd.newViews views) :=
  settled_of_unchanged h.fits_newViews (identity.passwd_changes_newViews views)
    (Table.Update.any_found_newViews hchecked.passwd_lawful views)

/-! ## Lines of other users -/

/-- The line of a user. -/
def belongs (user line : String) : Bool :=
  !isSkipped line && decide ((splitChar ':' line).head? = some user)

theorem belongs_eq {line : String} (h : passwdTable.Reads line view) :
    belongs identity.user line = identity.passwd.found view := by
  cases h with
  | skipped hskip =>
    rw [belongs, hskip]
    rfl
  | entry entry hskip hsplit _ =>
    rw [belongs, hskip, hsplit]
    show (true && decide (some entry.name = some identity.user)) = decide (entry.name = identity.user)
    simp

theorem Accepts.other_lines (h : identity.Checked) {contents : String}
    (haccepts : Accepts identity (lines contents) views) :
    ((lines (identity.passwd.output passwdTable contents views (endsWith contents "\n"))).filter
        fun line => !belongs identity.user line).map bare =
      ((lines contents).filter fun line => !belongs identity.user line).map bare :=
  Table.Update.filter_output h.passwd_lawful
    (fun row view hview => by rw [belongs_eq hview]) haccepts.reads fun hends => hends

/-! ## The round trip -/

theorem checkIdentity_ok_iff {u : Unit} : checkIdentity identity = .ok u ↔
    isUserName identity.user = true ∧ isAccountField identity.home = true ∧
      isAbsolute identity.home = true ∧ (identity.uid = 0 ↔ identity.user = "root") := by
  rw [checkIdentity]
  simp only [bind_ok_iff, validateUserName_ok_iff, validateAccountField_ok_iff]
  constructor
  · rintro ⟨-, hname, -, hhome, h⟩
    cases habsolute : isAbsolute identity.home with
    | false =>
      rw [habsolute] at h
      cases h
    | true =>
      rw [habsolute] at h
      by_cases hroot : identity.uid = 0
      · by_cases huser : identity.user = "root"
        · exact ⟨hname, hhome, rfl, iff_of_true hroot huser⟩
        · simp [hroot, huser] at h
      · by_cases huser : identity.user = "root"
        · simp [hroot, huser] at h
        · exact ⟨hname, hhome, rfl, iff_of_false hroot huser⟩
  · rintro ⟨hname, hhome, habsolute, hiff⟩
    refine ⟨(), hname, (), hhome, ?_⟩
    rw [habsolute]
    by_cases hroot : identity.uid = 0
    · simp [hroot, hiff.mp hroot]
      rfl
    · simp [hroot, mt hiff.mpr hroot]
      rfl

theorem checked_of_checkIdentity (h : checkIdentity identity = .ok ()) : identity.Checked :=
  ⟨(checkIdentity_ok_iff.mp h).1, (checkIdentity_ok_iff.mp h).2.1⟩

/-- What is read back of a file in order is verified. -/
theorem verifyMapped_of_settled {contents : String}
    (hreads : List.Forall₂ passwdTable.Reads (lines contents) views) (h : Settled identity views)
    (getpwnam : String → Except PosixError (Option PosixUser)) (group : Option String) :
    verifyMapped identity (lookupUserByName getpwnam ⟨some contents, group⟩ identity.user) = .ok () := by
  obtain ⟨user, his, hfind, -⟩ := h.lookup
  have hlookup : lookupFileUserByName contents identity.user = .ok (some user) := by
    rw [lookupFileUserByName, lookupLines_eq hreads, hfind]
  have hfound : lookupUserByName getpwnam ⟨some contents, group⟩ identity.user = .ok (some user) := by
    rw [lookupUserByName]
    dsimp only
    rw [hlookup]
    rfl
  rw [hfound, verifyMapped, ok_bind]
  dsimp only
  rw [if_neg (by simp [his.uid, his.gid, his.home])]
  rfl

/-- A reconciled `passwd` has the identity under its name and under its uid, keeps the lines of the
others, and needs no second reconciling; so the verification of `map_user` cannot fail. -/
theorem passwd_reconciliation_round_trips {contents : String} {reconciliation : PasswdReconciliation}
    (hidentity : checkIdentity identity = .ok ())
    (h : reconcilePasswd contents identity = .ok reconciliation) :
    (∃ user, identity.Is user ∧
      lookupFileUserByName reconciliation.contents identity.user = .ok (some user) ∧
      lookupFileUserByUid reconciliation.contents identity.uid = .ok (some user)) ∧
    ((lines reconciliation.contents).filter fun line => !belongs identity.user line).map bare =
      ((lines contents).filter fun line => !belongs identity.user line).map bare ∧
    (∃ again, reconcilePasswd reconciliation.contents identity = .ok again ∧ again.changed = false) ∧
    ∀ getpwnam group, verifyMapped identity (lookupUserByName getpwnam
      ⟨some (if reconciliation.changed then reconciliation.contents else contents), group⟩
      identity.user) = .ok () := by
  have hchecked := checked_of_checkIdentity hidentity
  obtain ⟨views, haccepts, rfl⟩ := reconcilePasswd_ok_iff.mp h
  have hreads := haccepts.reads_again hchecked
  refine ⟨?_, haccepts.other_lines hchecked, ?_, ?_⟩
  · obtain ⟨user, his, hname, huid⟩ := (haccepts.settled hchecked).lookup
    refine ⟨user, his, ?_, ?_⟩
    · rw [lookupFileUserByName, lookupLines_eq hreads, hname]
    · rw [lookupFileUserByUid, lookupLines_eq hreads, huid]
  · refine ⟨_, reconcilePasswd_ok_iff.mpr ⟨_, haccepts.again hchecked, rfl⟩, ?_⟩
    rw [identity.passwd_changes_newViews, Table.Update.any_found_newViews hchecked.passwd_lawful]
    rfl
  · intro getpwnam group
    cases hchanged : views.any identity.passwd.changes || !views.any identity.passwd.found with
    | true => exact verifyMapped_of_settled hreads (haccepts.settled hchecked) getpwnam group
    | false =>
      rw [Bool.or_eq_false_iff, Bool.not_eq_false'] at hchanged
      exact verifyMapped_of_settled haccepts.reads
        (settled_of_unchanged haccepts.fits hchanged.1 hchanged.2) getpwnam group

def devIdentity : PosixIdentity := ⟨1000, 1000, "dev", "/home/dev"⟩

def serviceFile : String := "root:x:0:0:root:/root:/bin/sh\n# services\n\ndev:x:+7:7::/srv:/bin/sh"

theorem devIdentity_round_trips : ∃ reconciliation user,
    reconcilePasswd serviceFile devIdentity = .ok reconciliation ∧ devIdentity.Is user ∧
      lookupFileUserByUid reconciliation.contents 1000 = .ok (some user) := by
  obtain ⟨reconciliation, h⟩ := exists_of_isOk (x := reconcilePasswd serviceFile devIdentity)
    (by decide +kernel)
  have hidentity : checkIdentity devIdentity = .ok () := by decide +kernel
  obtain ⟨⟨user, his, -, huid⟩, -⟩ := passwd_reconciliation_round_trips hidentity h
  exact ⟨reconciliation, user, h, his, huid⟩

end init_posix
