-- The laws of `set_user_shell`: which lines of `passwd` it rewrites, and how.
import NixosDockers.Posix.Passwd

open rust_text results

namespace init_posix

variable {user shell line : String} {rows : List String}

/-! ## One line -/

def shellRow (user shell line : String) : String :=
  if belongs user line then joinFields ((splitChar ':' line).set 6 shell) else line

def hasOtherShell (user shell line : String) : Bool :=
  belongs user line && decide ((splitChar ':' line)[6]? ≠ some shell)

/-- The line of the user has a seventh field. -/
def HasShell (user line : String) : Prop := belongs user line = true → 6 < (splitChar ':' line).length

theorem joinFields_splitChar (line : String) : joinFields (splitChar ':' line) = line :=
  intercalate_splitChar ':' line

theorem shellLine_ok_iff {state state' : Rewriting} {line_number : ℕ} :
    shellLine user shell state line line_number = .ok state' ↔ HasShell user line ∧
      state' = ⟨state.lines ++ [shellRow user shell line], state.found || belongs user line,
        state.changed || hasOtherShell user shell line⟩ := by
  rw [shellLine]
  cases hskip : isSkipped line with
  | true =>
    have hbelongs : belongs user line = false := by rw [belongs, hskip]; rfl
    rw [if_pos rfl, Except.ok.injEq, HasShell, shellRow, hasOtherShell, hbelongs]
    simp [Rewriting.push, eq_comm]
  | false =>
    have hbelongs : belongs user line = decide ((splitChar ':' line).head? = some user) := by
      rw [belongs, hskip]
      rfl
    rw [if_neg Bool.false_ne_true, HasShell, shellRow, hasOtherShell, hbelongs]
    dsimp only
    split_ifs with hhead hhead'
    · cases hfield : (splitChar ':' line)[6]? with
      | none =>
        have hshort := List.getElem?_eq_none_iff.mp hfield
        refine iff_of_false (fun h => (by cases h)) fun h => ?_
        have := h.1 (decide_eq_true hhead)
        omega
      | some current =>
        have hlong := (List.getElem?_eq_some_iff.mp hfield).1
        have hset : (if current ≠ shell then (splitChar ':' line).set 6 shell else splitChar ':' line) =
            (splitChar ':' line).set 6 shell := by
          split_ifs with hsame
          · rfl
          · obtain ⟨_, hget⟩ := List.getElem?_eq_some_iff.mp hfield
            rw [← not_not.mp hsame, ← hget, List.set_getElem_self]
        dsimp only
        rw [Except.ok.injEq, hset, eq_comm]
        simp [hlong, hhead]
    · exact absurd (decide_eq_true hhead) hhead'
    · rename_i hcontra
      exact absurd (of_decide_eq_true hcontra) hhead
    · rw [Except.ok.injEq]
      simp [Rewriting.push, hhead, eq_comm]

theorem shellLines_ok_iff {state state' : Rewriting} {line_number : ℕ} :
    eachLine (shellLine user shell) rows line_number state = .ok state' ↔
      (∀ row ∈ rows, HasShell user row) ∧
      state' = ⟨state.lines ++ rows.map (shellRow user shell), state.found || rows.any (belongs user),
        state.changed || rows.any (hasOtherShell user shell)⟩ := by
  induction rows generalizing state line_number with
  | nil =>
    rw [eachLine, Except.ok.injEq]
    simp [eq_comm]
  | cons row rows ih =>
    simp only [eachLine, bind_ok_iff, shellLine_ok_iff, ih, List.forall_mem_cons]
    constructor
    · rintro ⟨_, ⟨hrow, rfl⟩, hrows, rfl⟩
      exact ⟨⟨hrow, hrows⟩, by simp [Bool.or_assoc]⟩
    · rintro ⟨⟨hrow, hrows⟩, rfl⟩
      exact ⟨_, ⟨hrow, rfl⟩, hrows, by simp [Bool.or_assoc]⟩

/-! ## A line that is read again -/

theorem not_skipped_of_belongs (h : belongs user line = true) : isSkipped line = false := by
  rw [belongs, Bool.and_eq_true, Bool.not_eq_true'] at h
  exact h.1

theorem head_of_belongs (h : belongs user line = true) : (splitChar ':' line).head? = some user := by
  rw [belongs, Bool.and_eq_true] at h
  exact of_decide_eq_true h.2

/-- Fields that start with a name are read from the line that they are put together to. -/
theorem belongs_joinFields (huser : isUserName user = true) {fields : List String}
    (hhead : fields.head? = some user) (hfree : ∀ field ∈ fields, ':' ∉ field.toList) :
    splitChar ':' (joinFields fields) = fields ∧ belongs user (joinFields fields) = true := by
  obtain ⟨rest, rfl⟩ := List.head?_eq_some_iff.mp hhead
  have hsplit : splitChar ':' (joinFields (user :: rest)) = user :: rest :=
    splitChar_intercalate (List.cons_ne_nil _ _) hfree
  obtain ⟨c, hc, hhash, hwhite⟩ := name_head huser
  have hskip : isSkipped (joinFields (user :: rest)) = false :=
    Table.isSkipped_of_head (Table.head_joined hc rest) hhash hwhite
  refine ⟨hsplit, ?_⟩
  rw [belongs, hskip, hsplit]
  exact decide_eq_true rfl

theorem set_shell_split (shell : String) {fields : List String} (h : 6 < fields.length) :
    ∃ init last, fields.set 6 shell = init ++ [last] ∧ 6 ≤ init.length ∧
      (init.length = 6 → last = shell) := by
  obtain hnil | ⟨init, last, heq⟩ := List.eq_nil_or_concat' (fields.set 6 shell)
  · have := congrArg List.length hnil
    rw [List.length_set, List.length_nil] at this
    omega
  · have hlength := congrArg List.length heq
    rw [List.length_set, List.length_append, List.length_singleton] at hlength
    refine ⟨init, last, heq, by omega, fun hsix => ?_⟩
    have hget : (fields.set 6 shell)[6]? = some shell := List.getElem?_set_self h
    rw [heq, ← hsix, List.getElem?_concat_length] at hget
    exact Option.some.inj hget

theorem set_shell_fields (hshell : isAccountField shell = true) (hbelongs : belongs user line = true) :
    ((splitChar ':' line).set 6 shell).head? = some user ∧
      ∀ field ∈ (splitChar ':' line).set 6 shell, ':' ∉ field.toList := by
  constructor
  · obtain ⟨rest, hrest⟩ := List.head?_eq_some_iff.mp (head_of_belongs hbelongs)
    rw [hrest]
    rfl
  · intro field hfield
    rcases List.mem_or_eq_of_mem_set hfield with hold | rfl
    · exact free_of_mem_splitChar hold
    · exact (isAccountField_iff.mp hshell).1

/-- What is read of a row of the user: the seventh field is the shell. -/
theorem read_shellRow (huser : isUserName user = true) (hshell : isAccountField shell = true)
    (hbelongs : belongs user line = true) (hlong : HasShell user line) :
    belongs user (shellRow user shell line) = true ∧
      (splitChar ':' (shellRow user shell line))[6]? = some shell := by
  obtain ⟨hhead, hfree⟩ := set_shell_fields hshell hbelongs
  obtain ⟨hsplit, hagain⟩ := belongs_joinFields huser hhead hfree
  rw [shellRow, if_pos hbelongs]
  refine ⟨hagain, ?_⟩
  rw [hsplit]
  exact List.getElem?_set_self (hlong hbelongs)

/-- A carriage return at the end of the row is not in the seventh field. -/
theorem read_stripReturn_shellRow (huser : isUserName user = true)
    (hshell : isAccountField shell = true) (hbelongs : belongs user line = true)
    (hlong : HasShell user line) : belongs user (stripReturn (shellRow user shell line)) = true ∧
      (splitChar ':' (stripReturn (shellRow user shell line)))[6]? = some shell := by
  obtain ⟨init, last, hset, hsix, hlast⟩ := set_shell_split shell (hlong hbelongs)
  obtain ⟨hhead, hfree⟩ := set_shell_fields hshell hbelongs
  rw [hset] at hhead hfree
  have hhead' : (init ++ [stripReturn last]).head? = some user := by
    cases init with
    | nil => exact absurd hsix (by decide)
    | cons first init => exact hhead
  have hfree' : ∀ field ∈ init ++ [stripReturn last], ':' ∉ field.toList := by
    intro field hfield
    rcases List.mem_append.mp hfield with hin | hin
    · exact hfree field (List.mem_append_left _ hin)
    · rw [List.mem_singleton.mp hin]
      have hlastFree := hfree last (List.mem_append_right _ List.mem_cons_self)
      exact fun hmem => hlastFree (mem_of_mem_stripReturn hmem)
  have hrow : stripReturn (shellRow user shell line) = joinFields (init ++ [stripReturn last]) := by
    rw [shellRow, if_pos hbelongs, hset]
    exact Table.stripReturn_joined init last
  obtain ⟨hsplit, hagain⟩ := belongs_joinFields huser hhead' hfree'
  rw [hrow]
  refine ⟨hagain, ?_⟩
  rw [hsplit]
  have hget : ((splitChar ':' line).set 6 shell)[6]? = some shell :=
    List.getElem?_set_self (hlong hbelongs)
  rcases Nat.eq_or_lt_of_le hsix with heq | hlt
  · have hkeep : stripReturn shell = shell := stripReturn_of_ne fun hend =>
      (isAccountField_iff.mp hshell).2.2.2 (List.mem_of_getLast? hend)
    rw [hlast heq.symm, hkeep, heq, List.getElem?_concat_length]
  · rw [hset, List.getElem?_append_left hlt] at hget
    rw [List.getElem?_append_left hlt]
    exact hget

/-- A line that becomes one of the user by losing a carriage return is the name alone. -/
theorem not_hasShell_of_stripReturn (hother : belongs user line = false)
    (hbelongs : belongs user (stripReturn line) = true) : ¬ HasShell user (stripReturn line) := by
  intro hlong
  have hlength := hlong hbelongs
  obtain hnil | ⟨init, last, hsplit⟩ := List.eq_nil_or_concat' (splitChar ':' line)
  · exact splitChar_ne_nil _ _ hnil
  have hfree : ∀ field ∈ init ++ [last], ':' ∉ field.toList :=
    fun field hfield => free_of_mem_splitChar (hsplit ▸ hfield)
  have hfree' : ∀ field ∈ init ++ [stripReturn last], ':' ∉ field.toList := by
    intro field hfield
    rcases List.mem_append.mp hfield with hin | hin
    · exact hfree field (List.mem_append_left _ hin)
    · rw [List.mem_singleton.mp hin]
      have hlastFree := hfree last (List.mem_append_right _ List.mem_cons_self)
      exact fun hmem => hlastFree (mem_of_mem_stripReturn hmem)
  have hstrip : splitChar ':' (stripReturn line) = init ++ [stripReturn last] := by
    have hline : line = String.intercalate ":" (init ++ [last]) := by
      rw [← hsplit]
      exact (intercalate_splitChar ':' line).symm
    rw [hline, Table.stripReturn_joined]
    exact splitChar_intercalate (by simp) hfree'
  cases init with
  | nil =>
    rw [hstrip] at hlength
    exact absurd hlength (by simp)
  | cons first init =>
    have hhead : (splitChar ':' line).head? = some user := by
      have := head_of_belongs hbelongs
      rw [hstrip] at this
      rw [hsplit]
      exact this
    rw [belongs, hhead, Bool.and_eq_false_iff, Bool.not_eq_false'] at hother
    rcases hother with hskip | hfalse
    · have := Table.isSkipped_stripReturn hskip
      rw [not_skipped_of_belongs hbelongs] at this
      cases this
    · exact absurd hfalse (by simp)

/-! ## The whole file -/

variable {contents : String} {change : ActionChange} {written : Option String}

def shellOutput (user shell contents : String) : String :=
  joinLines ((lines contents).map (shellRow user shell)) (endsWith contents "\n")

theorem setUserShell_ok (h : setUserShell user shell contents = .ok (change, written))
    (hroot : user ≠ "root") : isUserName user = true ∧ isAccountField shell = true ∧
      (∀ line ∈ lines contents, HasShell user line) ∧ (lines contents).any (belongs user) = true ∧
      written = if (lines contents).any (hasOtherShell user shell) then
        some (shellOutput user shell contents) else none := by
  rw [setUserShell] at h
  simp only [bind_ok_iff, validateUserName_ok_iff, if_neg hroot] at h
  obtain ⟨-, huser, h⟩ := h
  simp only [validateAccountField_ok_iff] at h
  obtain ⟨-, hshell, h⟩ := h
  cases habsolute : isAbsolute shell with
  | false =>
    rw [habsolute] at h
    cases h
  | true =>
    rw [habsolute] at h
    obtain ⟨state, hstate, h⟩ := bind_ok_iff.mp h
    obtain ⟨hlong, rfl⟩ := shellLines_ok_iff.mp hstate
    have hfound : (Rewriting.start.found || (lines contents).any (belongs user)) =
        (lines contents).any (belongs user) := Bool.false_or _
    have hchanged : (Rewriting.start.changed || (lines contents).any (hasOtherShell user shell)) =
        (lines contents).any (hasOtherShell user shell) := Bool.false_or _
    rw [hfound, hchanged] at h
    cases hany : (lines contents).any (belongs user) with
    | false =>
      rw [hany] at h
      cases h
    | true =>
      rw [hany] at h
      refine ⟨huser, hshell, hlong, rfl, ?_⟩
      cases hother : (lines contents).any (hasOtherShell user shell) with
      | true =>
        rw [hother] at h
        exact (Prod.mk.inj (Except.ok.inj h)).2.symm
      | false =>
        rw [hother] at h
        exact (Prod.mk.inj (Except.ok.inj h)).2.symm

theorem shellRow_of_same (h : hasOtherShell user shell line = false) :
    shellRow user shell line = line := by
  rw [shellRow]
  split_ifs with hbelongs
  · rw [hasOtherShell, hbelongs, Bool.true_and, decide_eq_false_iff_not, not_not] at h
    obtain ⟨_, hget⟩ := List.getElem?_eq_some_iff.mp h
    rw [← hget, List.set_getElem_self]
    exact joinFields_splitChar line
  · rfl

theorem shellRow_free (hshell : isAccountField shell = true) (hline : '\n' ∉ line.toList) :
    '\n' ∉ (shellRow user shell line).toList := by
  rw [shellRow]
  split_ifs
  · intro hmem
    have hcolon : ":".toList = [':'] := rfl
    rw [joinFields, String.toList_intercalate, hcolon] at hmem
    obtain ⟨part, hpart, hin⟩ := exists_of_mem_intercalate (by decide) hmem
    obtain ⟨field, hfield, rfl⟩ := List.mem_map.mp hpart
    rcases List.mem_or_eq_of_mem_set hfield with hold | rfl
    · exact hline (mem_of_mem_splitChar hold hin)
    · exact (isAccountField_iff.mp hshell).2.2.1 hin
  · exact hline

theorem shellRow_ne_empty (hlong : HasShell user line) (hne : line ≠ "") :
    shellRow user shell line ≠ "" := by
  rw [shellRow]
  split_ifs with hbelongs
  · intro hempty
    have hlength := hlong hbelongs
    obtain ⟨first, next, rest, hfields⟩ :
        ∃ first next rest, (splitChar ':' line).set 6 shell = first :: next :: rest := by
      cases hsplit : splitChar ':' line with
      | nil => exact absurd hsplit (splitChar_ne_nil _ _)
      | cons first fields =>
        cases fields with
        | nil =>
          rw [hsplit] at hlength
          exact absurd hlength (by simp)
        | cons next rest => exact ⟨_, _, _, rfl⟩
    have hlist := Table.toList_joined_cons first next rest
    rw [joinFields, hfields] at hempty
    rw [hempty] at hlist
    exact absurd hlist.symm (by simp)
  · exact hne

/-- What becomes of a line. -/
def ShellChanged (user shell line line' : String) : Prop :=
  if belongs user line then
    bare line' = bare (joinFields ((splitChar ':' line).set 6 shell)) ∧
      (splitChar ':' line')[6]? = some shell
  else bare line' = bare line

theorem reads_shellOutput (hshell : isAccountField shell = true)
    (hlong : ∀ line ∈ lines contents, HasShell user line)
    (hfound : (lines contents).any (belongs user) = true) :
    List.Forall₂ (fun line line' => line' = shellRow user shell line ∨
      line' = stripReturn (shellRow user shell line)) (lines contents)
      (lines (shellOutput user shell contents)) := by
  have hne : (lines contents).map (shellRow user shell) ≠ [] := by
    intro hnil
    rw [List.map_eq_nil_iff.mp hnil] at hfound
    cases hfound
  have hfree : ∀ row ∈ (lines contents).map (shellRow user shell), '\n' ∉ row.toList := by
    intro row hrow
    obtain ⟨line, hline, rfl⟩ := List.mem_map.mp hrow
    exact shellRow_free hshell (free_of_mem_lines hline)
  have hlast : endsWith contents "\n" = false →
      ((lines contents).map (shellRow user shell)).getLast? ≠ some "" := by
    intro hends hlast
    rw [List.getLast?_map] at hlast
    obtain ⟨line, hline, hrow⟩ := Option.map_eq_some_iff.mp hlast
    refine shellRow_ne_empty (hlong line (List.mem_of_getLast? hline)) (fun hempty => ?_) hrow
    exact lines_last hends (hempty ▸ hline)
  have hlines := lines_joinLines hne hfree hlast
  rwa [List.forall₂_map_left_iff] at hlines

theorem shellChanged_of_row (huser : isUserName user = true) (hshell : isAccountField shell = true)
    (hlong : HasShell user line) {line' : String}
    (h : line' = shellRow user shell line ∨ line' = stripReturn (shellRow user shell line)) :
    ShellChanged user shell line line' := by
  have hbare : bare line' = bare (shellRow user shell line) := by
    rcases h with rfl | rfl
    · rfl
    · exact bare_stripReturn _
  rw [ShellChanged]
  split_ifs with hbelongs
  · refine ⟨by rw [hbare, shellRow, if_pos hbelongs], ?_⟩
    rcases h with rfl | rfl
    · exact (read_shellRow huser hshell hbelongs hlong).2
    · exact (read_stripReturn_shellRow huser hshell hbelongs hlong).2
  · rw [hbare, shellRow, if_neg hbelongs]

/-- A line of the output that belongs to the user and has the fields for it has the shell. -/
theorem not_hasOtherShell_of_row (huser : isUserName user = true)
    (hshell : isAccountField shell = true) (hlong : HasShell user line) {line' : String}
    (hlong' : HasShell user line')
    (h : line' = shellRow user shell line ∨ line' = stripReturn (shellRow user shell line)) :
    hasOtherShell user shell line' = false := by
  cases hbelongs : belongs user line with
  | true =>
    have hfield : (splitChar ':' line')[6]? = some shell := by
      rcases h with rfl | rfl
      · exact (read_shellRow huser hshell hbelongs hlong).2
      · exact (read_stripReturn_shellRow huser hshell hbelongs hlong).2
    rw [hasOtherShell, hfield]
    simp
  | false =>
    have hrow : shellRow user shell line = line := by
      rw [shellRow, hbelongs]
      rfl
    have hbelongs' : belongs user line' = false := by
      rw [hrow] at h
      rcases h with rfl | rfl
      · exact hbelongs
      · exact eq_false_of_ne_true fun hstrip => not_hasShell_of_stripReturn hbelongs hstrip hlong'
    rw [hasOtherShell, hbelongs', Bool.false_and]

/-- The shell of root is left as it is. For every other user the lines keep their order, those of
the user differ in the seventh field at most, which is the shell, and nothing is left to write. -/
theorem set_user_shell_changes_the_shell
    (h : setUserShell user shell contents = .ok (change, written)) :
    (user = "root" → written = none) ∧
    (user ≠ "root" →
      List.Forall₂ (ShellChanged user shell) (lines contents) (lines (written.getD contents)) ∧
      ∀ again, setUserShell user shell (written.getD contents) = .ok again → again.2 = none) := by
  constructor
  · rintro rfl
    have hroot : setUserShell "root" shell contents = .ok (⟨"root login shell left unchanged"⟩, none) := by
      rfl
    rw [hroot] at h
    exact (Prod.mk.inj (Except.ok.inj h)).2.symm
  · intro hroot
    obtain ⟨huser, hshell, hlong, hfound, rfl⟩ := setUserShell_ok h hroot
    cases hother : (lines contents).any (hasOtherShell user shell) with
    | false =>
      rw [if_neg Bool.false_ne_true, Option.getD_none]
      constructor
      · refine List.forall₂_same.mpr fun line hline => ?_
        have hsame := List.any_eq_false.mp hother line hline
        refine shellChanged_of_row huser hshell (hlong line hline) (Or.inl ?_)
        exact (shellRow_of_same (eq_false_of_ne_true hsame)).symm
      · rintro ⟨change', written'⟩ hagain
        obtain ⟨-, -, -, -, rfl⟩ := setUserShell_ok hagain hroot
        rw [hother]
        rfl
    | true =>
      rw [if_pos rfl, Option.getD_some]
      have hrows := reads_shellOutput hshell hlong hfound
      constructor
      · have hboth := (List.forall₂_and_left _ _).mpr ⟨hlong, hrows⟩
        exact hboth.imp fun line line' hrow => shellChanged_of_row huser hshell hrow.1 hrow.2
      · rintro ⟨change', written'⟩ hagain
        obtain ⟨-, -, hlong', -, rfl⟩ := setUserShell_ok hagain hroot
        have hnone : (lines (shellOutput user shell contents)).any (hasOtherShell user shell) = false := by
          rw [List.any_eq_false]
          intro line' hline'
          have hboth := (List.forall₂_and_left _ _).mpr ⟨hlong, hrows⟩
          obtain ⟨line, -, hrow⟩ := forall₂_mem_left hboth hline'
          rw [not_hasOtherShell_of_row huser hshell hrow.1 (hlong' line' hline') hrow.2]
          exact Bool.false_ne_true
        rw [hnone]
        rfl

def rootLine : String := "root:x:0:0:root:/root:/bin/sh"

/-- Root is accepted, and keeps its shell. -/
theorem root_keeps_its_shell : ∃ change,
    setUserShell "root" "/bin/zsh" (rootLine ++ "\n") = .ok (change, none) ∧
      lines (rootLine ++ "\n") = [rootLine] ∧ ¬ ShellChanged "root" "/bin/zsh" rootLine rootLine := by
  refine ⟨⟨"root login shell left unchanged"⟩, rfl, rfl, ?_⟩
  have hbelongs : belongs "root" rootLine = true := rfl
  have hfield : (splitChar ':' rootLine)[6]? = some "/bin/sh" := rfl
  rw [ShellChanged, if_pos hbelongs, hfield]
  rintro ⟨-, h⟩
  exact absurd (Option.some.inj h) (by decide)

theorem devShell_changes : ∃ change written,
    setUserShell "dev" "/bin/zsh" "dev:x:1:1::/home/dev:/bin/sh:more" = .ok (change, written) ∧
      List.Forall₂ (ShellChanged "dev" "/bin/zsh") (lines "dev:x:1:1::/home/dev:/bin/sh:more")
        (lines (written.getD "dev:x:1:1::/home/dev:/bin/sh:more")) := by
  obtain ⟨⟨change, written⟩, h⟩ := exists_of_isOk
    (x := setUserShell "dev" "/bin/zsh" "dev:x:1:1::/home/dev:/bin/sh:more") (by decide +kernel)
  exact ⟨change, written, h, ((set_user_shell_changes_the_shell h).2 (by decide)).1⟩

end init_posix
