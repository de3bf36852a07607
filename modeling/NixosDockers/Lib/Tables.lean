-- Tables in text files: every line is a comment, blank, or an entry whose fields
-- stand between colons. An entry that is written is read again.
import NixosDockers.Lib.Lines
import NixosDockers.Lib.Results

namespace rust_text

/-! ## Lines of a table -/

def isBlank (line : String) : Bool := (trim line.toList).isEmpty

/-- A comment, or a line of white space. -/
def isSkipped (line : String) : Bool := startsWith line "#" || isBlank line

/-- A loop over numbered lines. -/
def eachLine {ε σ : Type} (step : σ → String → ℕ → Except ε σ) : List String → ℕ → σ → Except ε σ
  | [], _, state => .ok state
  | line :: rest, line_number, state => do
    let state ← step state line line_number
    eachLine step rest (line_number + 1) state

/-- The fields of the entries, and what a line of theirs relies on. -/
structure Table (E : Type) where
  fields : E → List String
  Valid : E → Prop
  ne_nil : ∀ e, fields e ≠ []
  free : ∀ e, Valid e → ∀ field ∈ fields e, ':' ∉ field.toList ∧ '\n' ∉ field.toList
  starts : ∀ e, Valid e → ∃ c, (String.intercalate ":" (fields e)).toList.head? = some c ∧
    c ≠ '#' ∧ isWhitespace c = false
  ends : ∀ e, Valid e → (String.intercalate ":" (fields e)).toList.getLast? ≠ some '\r'

namespace Table

variable {E : Type}

def line (table : Table E) (e : E) : String := String.intercalate ":" (table.fields e)

/-- What a line is read as. -/
inductive Reads (table : Table E) (line : String) : Option E → Prop where
  | skipped (h : isSkipped line = true) : Reads table line none
  | entry (e : E) (h : isSkipped line = false) (hfields : splitChar ':' line = table.fields e)
      (valid : table.Valid e) : Reads table line (some e)

variable {table : Table E} {e : E} {row : String} {view : Option E}

/-- An entry is the line that it was read from. -/
theorem Reads.line_eq (h : table.Reads row (some e)) : table.line e = row := by
  cases h with
  | entry _ _ hfields _ =>
    rw [Table.line, ← hfields]
    exact intercalate_splitChar ':' row

theorem Reads.valid (h : table.Reads row (some e)) : table.Valid e := by
  cases h with
  | entry _ _ _ valid => exact valid

/-- A line that starts with a character of a name is an entry. -/
theorem isSkipped_of_head {line : String} {c : Char} (hhead : line.toList.head? = some c)
    (hhash : c ≠ '#') (hwhite : isWhitespace c = false) : isSkipped line = false := by
  obtain ⟨rest, hrest⟩ := List.head?_eq_some_iff.mp hhead
  rw [isSkipped, Bool.or_eq_false_iff]
  constructor
  · rw [startsWith, hrest]
    simpa [List.isPrefixOf] using hhash.symm
  · rw [isBlank, List.isEmpty_eq_false_iff, ne_eq, trim_eq_nil_iff, hrest]
    intro hall
    rw [hall c List.mem_cons_self] at hwhite
    cases hwhite

theorem isSkipped_line (h : table.Valid e) : isSkipped (table.line e) = false := by
  obtain ⟨c, hhead, hhash, hwhite⟩ := table.starts e h
  exact isSkipped_of_head hhead hhash hwhite

/-- An entry is read from its line. -/
theorem reads_line (h : table.Valid e) : table.Reads (table.line e) (some e) := by
  refine .entry e (isSkipped_line h) ?_ h
  exact splitChar_intercalate (table.ne_nil e) fun field hfield => (table.free e h field hfield).1

theorem newline_free (h : table.Valid e) : '\n' ∉ (table.line e).toList := by
  intro hmem
  have hcolon : ":".toList = [':'] := rfl
  rw [Table.line, String.toList_intercalate, hcolon] at hmem
  obtain ⟨part, hpart, hin⟩ := exists_of_mem_intercalate (by decide) hmem
  obtain ⟨field, hfield, rfl⟩ := List.mem_map.mp hpart
  exact (table.free e h field hfield).2 hin

theorem toList_joined_cons (first next : String) (rest : List String) :
    (String.intercalate ":" (first :: next :: rest)).toList =
      first.toList ++ ':' :: (String.intercalate ":" (next :: rest)).toList := by
  have hcolon : ":".toList = [':'] := rfl
  rw [String.toList_intercalate, hcolon, List.map_cons, List.map_cons, List.intercalate_cons_cons,
    String.toList_intercalate, hcolon, List.map_cons, List.append_assoc]
  rfl

/-- A line starts as its first field does. -/
theorem head_joined {first : String} {c : Char} (h : first.toList.head? = some c)
    (rest : List String) : (String.intercalate ":" (first :: rest)).toList.head? = some c := by
  cases rest with
  | nil => rwa [String.intercalate_singleton]
  | cons next rest => rw [toList_joined_cons, List.head?_append, h, Option.some_or]

theorem joined_append (fields : List String) (last tail : String) :
    String.intercalate ":" (fields ++ [last ++ tail]) =
      String.intercalate ":" (fields ++ [last]) ++ tail := by
  induction fields with
  | nil => rw [List.nil_append, List.nil_append, String.intercalate_singleton, String.intercalate_singleton]
  | cons field fields ih =>
    have hcons : ∀ text : String, String.intercalate ":" (field :: (fields ++ [text])) =
        field ++ ":" ++ String.intercalate ":" (fields ++ [text]) := by
      intro text
      obtain ⟨next, rest, hrest⟩ : ∃ next rest, fields ++ [text] = next :: rest :=
        List.exists_cons_of_ne_nil (by simp)
      rw [hrest]
      exact String.intercalate_cons_cons
    rw [List.cons_append, List.cons_append, hcons, hcons, ih, String.append_assoc, String.append_assoc,
      String.append_assoc]

/-- A line ends as its last field does, or with a colon. -/
theorem last_joined {last : String} (h : last.toList.getLast? ≠ some '\r') (fields : List String) :
    (String.intercalate ":" (fields ++ [last])).toList.getLast? ≠ some '\r' := by
  induction fields with
  | nil => rwa [List.nil_append, String.intercalate_singleton]
  | cons field fields ih =>
    obtain ⟨next, rest, hrest⟩ : ∃ next rest, fields ++ [last] = next :: rest :=
      List.exists_cons_of_ne_nil (by simp)
    rw [hrest] at ih
    rw [List.cons_append, hrest, toList_joined_cons, List.getLast?_append, List.getLast?_cons]
    cases hlast : (String.intercalate ":" (next :: rest)).toList.getLast? with
    | none => exact nofun
    | some c =>
      rw [hlast] at ih
      exact ih

/-- Only the last field loses a carriage return. -/
theorem stripReturn_joined (fields : List String) (last : String) :
    stripReturn (String.intercalate ":" (fields ++ [last])) =
      String.intercalate ":" (fields ++ [stripReturn last]) := by
  by_cases hlast : last.toList.getLast? = some '\r'
  · obtain ⟨front, hfront⟩ := List.getLast?_eq_some_iff.mp hlast
    have hsplit : last = String.ofList front ++ "\r" := by
      refine String.toList_inj.mp ?_
      rw [hfront, String.toList_append, String.toList_ofList]
      rfl
    rw [hsplit, joined_append, stripReturn_append_return, stripReturn_append_return]
  · rw [stripReturn_of_ne (last_joined hlast fields), stripReturn_of_ne hlast]

/-! ## Lines that are read again -/

theorem isSkipped_stripReturn (h : isSkipped row = true) : isSkipped (stripReturn row) = true := by
  rcases stripReturn_cases row with hsame | hstrip
  · rwa [hsame]
  have hlist : row.toList = (stripReturn row).toList ++ ['\r'] := by
    conv_lhs => rw [hstrip, String.toList_append]
    rfl
  rw [isSkipped, Bool.or_eq_true] at h ⊢
  rcases h with hcomment | hblank
  · left
    rw [startsWith, hlist] at hcomment
    rw [startsWith]
    cases hchars : (stripReturn row).toList with
    | nil =>
      rw [hchars] at hcomment
      exact absurd hcomment (by decide)
    | cons c chars =>
      rw [hchars] at hcomment
      simpa [List.isPrefixOf] using hcomment
  · right
    rw [isBlank, List.isEmpty_iff, trim_eq_nil_iff, hlist, allWhite_append] at hblank
    rw [isBlank, List.isEmpty_iff, trim_eq_nil_iff]
    exact hblank.1

theorem stripReturn_line (h : table.Valid e) : stripReturn (table.line e) = table.line e :=
  stripReturn_of_ne (table.ends e h)

theorem Reads.stripReturn (h : table.Reads row view) : table.Reads (stripReturn row) view := by
  cases view with
  | none =>
    cases h with
    | skipped h => exact .skipped (isSkipped_stripReturn h)
  | some e =>
    have hvalid := h.valid
    rw [← h.line_eq, stripReturn_line hvalid]
    exact reads_line hvalid

variable {rows : List String} {views : List (Option E)} {newline : Bool}

/-- Rows that are written are read with the same entries. -/
theorem reads_joinLines (h : List.Forall₂ table.Reads rows views) (hne : rows ≠ [])
    (hfree : ∀ row ∈ rows, '\n' ∉ row.toList) (hlast : newline = false → rows.getLast? ≠ some "") :
    List.Forall₂ table.Reads (lines (joinLines rows newline)) views := by
  have hlines := lines_joinLines hne hfree hlast
  revert hlines
  generalize lines (joinLines rows newline) = again
  clear hne hfree hlast
  intro hlines
  induction h generalizing again with
  | nil =>
    cases hlines
    exact .nil
  | cons hrow _ ih =>
    cases hlines with
    | cons hline hrest =>
      refine .cons ?_ (ih _ hrest)
      rcases hline with rfl | rfl
      · exact hrow
      · exact hrow.stripReturn

theorem filter_bare {p : String → Bool} {lines' : List String}
    (h : List.Forall₂ (fun row line => p line = p row ∧ (p row = true → bare line = bare row)) rows lines') :
    (lines'.filter p).map bare = (rows.filter p).map bare := by
  induction h with
  | nil => rfl
  | @cons row line _ _ hrow _ ih =>
    rw [List.filter_cons, List.filter_cons, hrow.1]
    split_ifs with hp
    · rw [List.map_cons, List.map_cons, hrow.2 hp, ih]
    · exact ih

/-- The rows of a kind come back in their order. -/
theorem filter_joinLines {p : String → Bool} (hp : ∀ row ∈ rows, p (stripReturn row) = p row)
    (hne : rows ≠ []) (hfree : ∀ row ∈ rows, '\n' ∉ row.toList)
    (hlast : newline = false → rows.getLast? ≠ some "") :
    ((lines (joinLines rows newline)).filter p).map bare = (rows.filter p).map bare := by
  refine filter_bare ?_
  have hlines := lines_joinLines hne hfree hlast
  have hboth := (List.forall₂_and_left rows _).mpr ⟨hp, hlines⟩
  refine hboth.imp fun row line h => ?_
  obtain ⟨hrow, rfl | rfl⟩ := h
  · exact ⟨rfl, fun _ => rfl⟩
  · exact ⟨hrow, fun _ => bare_stripReturn row⟩

/-- A table is read in one way only. -/
theorem Reads.unique (hinj : Function.Injective table.fields) {view' : Option E}
    (h : table.Reads row view) (h' : table.Reads row view') : view = view' := by
  cases h with
  | skipped h =>
    cases h' with
    | skipped => rfl
    | entry _ hnot => rw [h] at hnot; cases hnot
  | entry e h hfields =>
    cases h' with
    | skipped hskip => rw [h] at hskip; cases hskip
    | entry e' _ hfields' => rw [hinj (hfields.symm.trans hfields')]

theorem line_ne_empty (h : table.Valid e) : table.line e ≠ "" := by
  intro hempty
  obtain ⟨c, hhead, -⟩ := table.starts e h
  rw [← Table.line, hempty] at hhead
  cases hhead

theorem reads_unique (hinj : Function.Injective table.fields) {views' : List (Option E)}
    (h : List.Forall₂ table.Reads rows views) (h' : List.Forall₂ table.Reads rows views') :
    views = views' := by
  induction h generalizing views' with
  | nil =>
    cases h'
    rfl
  | cons hrow _ ih =>
    cases h' with
    | cons hrow' hrows' => rw [hrow.unique hinj hrow', ih hrows']

/-! ## Updates -/

/-- An update of the entries of an owner, and the entry that is added when there is none. -/
structure Update (E : Type) where
  owns : E → Bool
  mapped : E → E
  added : E

/-- The update keeps the entries well formed, and touches no other. -/
structure Update.Lawful (table : Table E) (update : Update E) : Prop where
  valid_mapped : ∀ e, table.Valid e → table.Valid (update.mapped e)
  valid_added : table.Valid update.added
  mapped_of_not_owns : ∀ e, update.owns e = false → update.mapped e = e
  owns_mapped : ∀ e, update.owns (update.mapped e) = update.owns e
  owns_added : update.owns update.added = true

namespace Update

variable (table) (update : Update E)

def found (view : Option E) : Bool := view.any update.owns

def changes [DecidableEq E] (view : Option E) : Bool := view.any fun e => update.mapped e ≠ e

/-- The row that is written for a line. -/
def rowOf (line : String) : Option E → String
  | none => line
  | some e => table.line (update.mapped e)

/-- The rows that are written, and what they are read as. -/
def newRows (rows : List String) (views : List (Option E)) : List String :=
  List.zipWith (update.rowOf table) rows views ++
    if views.any update.found then [] else [table.line update.added]

def newViews (views : List (Option E)) : List (Option E) :=
  views.map (Option.map update.mapped) ++
    if views.any update.found then [] else [some update.added]

variable {table} {update : Update E} (lawful : Lawful table update)
include lawful

theorem found_map (view : Option E) : update.found (view.map update.mapped) = update.found view := by
  cases view with
  | none => rfl
  | some e => exact lawful.owns_mapped e

theorem reads_row (h : table.Reads row view) :
    table.Reads (update.rowOf table row view) (view.map update.mapped) := by
  cases view with
  | none => exact h
  | some e => exact reads_line (lawful.valid_mapped e h.valid)

theorem row_of_not_found (hreads : table.Reads row view) (h : update.found view = false) :
    update.rowOf table row view = row := by
  cases view with
  | none => rfl
  | some e =>
    rw [found, Option.any_some] at h
    rw [Update.rowOf, lawful.mapped_of_not_owns e h]
    exact hreads.line_eq

theorem row_free (hrow : '\n' ∉ row.toList) (hreads : table.Reads row view) :
    '\n' ∉ (update.rowOf table row view).toList := by
  cases view with
  | none => exact hrow
  | some e =>
    rw [Update.rowOf]
    exact newline_free (lawful.valid_mapped e hreads.valid)

theorem last_row (h : List.Forall₂ table.Reads rows views)
    (hlast : (List.zipWith (update.rowOf table) rows views).getLast? = some "") : rows.getLast? = some "" := by
  induction h with
  | nil => cases hlast
  | @cons line view rows views hreads hrest ih =>
    cases hrest with
    | nil =>
      have hrow : update.rowOf table line view = "" := Option.some.inj hlast
      cases view with
      | none =>
        rw [Update.rowOf] at hrow
        rw [hrow]
        rfl
      | some e => exact absurd hrow (line_ne_empty (lawful.valid_mapped e hreads.valid))
    | cons _ _ =>
      rw [List.getLast?_cons_cons]
      refine ih ?_
      rwa [List.zipWith_cons_cons, List.zipWith_cons_cons, List.getLast?_cons_cons] at hlast

theorem reads_newRows (h : List.Forall₂ table.Reads rows views) :
    List.Forall₂ table.Reads (update.newRows table rows views) (update.newViews views) := by
  refine List.rel_append ?_ ?_
  · induction h with
    | nil => exact .nil
    | cons hline _ ih => exact .cons (reads_row lawful hline) ih
  · split_ifs
    · exact .nil
    · exact .cons (reads_line lawful.valid_added) .nil

theorem newRows_free (hfree : ∀ row ∈ rows, '\n' ∉ row.toList)
    (h : List.Forall₂ table.Reads rows views) :
    ∀ row ∈ update.newRows table rows views, '\n' ∉ row.toList := by
  intro row hrow
  rw [newRows, List.mem_append] at hrow
  rcases hrow with hrow | hrow
  · induction h with
    | nil => cases hrow
    | cons hline _ ih =>
      rw [List.forall_mem_cons] at hfree
      rw [List.zipWith_cons_cons, List.mem_cons] at hrow
      rcases hrow with rfl | hrow
      · exact row_free lawful hfree.1 hline
      · exact ih hfree.2 hrow
  · split_ifs at hrow
    · cases hrow
    · rw [List.mem_singleton.mp hrow]
      exact newline_free lawful.valid_added

omit lawful in
theorem newRows_ne_nil (h : List.Forall₂ table.Reads rows views) : update.newRows table rows views ≠ [] := by
  rw [newRows]
  split_ifs with hfound
  · cases h with
    | nil => cases hfound
    | cons => simp
  · simp

theorem newRows_last {text : String} (h : List.Forall₂ table.Reads (lines text) views)
    (hends : endsWith text "\n" = false) : (update.newRows table (lines text) views).getLast? ≠ some "" := by
  rw [newRows]
  split_ifs
  · rw [List.append_nil]
    exact fun hlast => lines_last hends (last_row lawful h hlast)
  · rw [List.getLast?_concat]
    exact fun hlast => line_ne_empty lawful.valid_added (Option.some.inj hlast)

variable {text : String}

/-- What is written for a text, with a newline at its end when the text has one, or more often. -/
def output (table : Table E) (update : Update E) (text : String) (views : List (Option E)) (newline : Bool) : String :=
  joinLines (update.newRows table (lines text) views) newline

/-- What is written is read with the new entries. -/
theorem reads_output (h : List.Forall₂ table.Reads (lines text) views)
    (hends : newline = false → endsWith text "\n" = false) :
    List.Forall₂ table.Reads (lines (update.output table text views newline)) (update.newViews views) := by
  have hfree : ∀ row ∈ lines text, '\n' ∉ row.toList := fun row hrow => free_of_mem_lines hrow
  exact reads_joinLines (reads_newRows lawful h) (newRows_ne_nil h) (newRows_free lawful hfree h)
    fun hnewline => newRows_last lawful h (hends hnewline)

/-! ## The new entries -/

omit lawful in
theorem mem_newViews (h : view ∈ update.newViews views) :
    (∃ old ∈ views, view = old.map update.mapped) ∨
      (views.any update.found = false ∧ view = some update.added) := by
  rw [newViews, List.mem_append] at h
  rcases h with h | h
  · obtain ⟨old, hold, rfl⟩ := List.mem_map.mp h
    exact Or.inl ⟨old, hold, rfl⟩
  · split_ifs at h with hfound
    · cases h
    · exact Or.inr ⟨eq_false_of_ne_true hfound, List.mem_singleton.mp h⟩

theorem found_added : update.found (some update.added) = true := lawful.owns_added

theorem countP_map (views : List (Option E)) :
    (views.map (Option.map update.mapped)).countP update.found = views.countP update.found := by
  rw [List.countP_map]
  exact List.countP_congr fun view _ => by rw [Function.comp_apply, found_map lawful]

/-- There is one entry of the owner where there were not several. -/
theorem countP_newViews (h : views.countP update.found ≤ 1) :
    (update.newViews views).countP update.found = 1 := by
  rw [newViews, List.countP_append, countP_map lawful]
  split_ifs with hfound
  · have hpos : 0 < views.countP update.found := List.countP_pos_iff.mpr (List.any_eq_true.mp hfound)
    rw [List.countP_nil]
    omega
  · have hzero : views.countP update.found = 0 := by
      rw [List.countP_eq_zero]
      exact fun view hview howns => hfound (List.any_eq_true.mpr ⟨view, hview, howns⟩)
    rw [hzero, List.countP_cons, if_pos (found_added lawful), List.countP_nil]

theorem any_found_newViews (views : List (Option E)) :
    (update.newViews views).any update.found = true := by
  rw [List.any_eq_true]
  cases hfound : views.any update.found with
  | true =>
    obtain ⟨view, hview, howns⟩ := List.any_eq_true.mp hfound
    refine ⟨view.map update.mapped, ?_, (found_map lawful view).trans howns⟩
    exact List.mem_append_left _ (List.mem_map.mpr ⟨view, hview, rfl⟩)
  | false =>
    refine ⟨some update.added, ?_, found_added lawful⟩
    rw [newViews, hfound]
    exact List.mem_append_right _ List.mem_cons_self

omit lawful in
/-- An update that was made leaves nothing to change, unless its own new entry does. -/
theorem changes_newViews [DecidableEq E]
    (hmapped : ∀ e, some e ∈ views → update.mapped (update.mapped e) = update.mapped e)
    (hadded : views.any update.found = true ∨ update.mapped update.added = update.added) :
    (update.newViews views).any update.changes = false := by
  rw [List.any_eq_false]
  intro view hview
  rcases mem_newViews hview with ⟨old, hold, rfl⟩ | ⟨hnone, rfl⟩
  · cases old with
    | none => exact nofun
    | some e => simp [changes, hmapped e hold]
  · rcases hadded with hfound | hadded
    · rw [hnone] at hfound
      cases hfound
    · simp [changes, hadded]

/-! ## The lines of the others -/

/-- Lines that are not the owner's stay, in their order. -/
theorem filter_newRows {p : String → Bool} (hp : ∀ row view, table.Reads row view →
    p row = !update.found view) (h : List.Forall₂ table.Reads rows views) :
    (update.newRows table rows views).filter p = rows.filter p := by
  have hmore : (if views.any update.found = true then [] else [table.line update.added]).filter p = [] := by
    split_ifs
    · rfl
    · rw [List.filter_cons, hp _ _ (reads_line lawful.valid_added), found, Option.any_some,
        lawful.owns_added]
      rfl
  rw [newRows, List.filter_append, hmore, List.append_nil]
  clear hmore
  induction h with
  | nil => rfl
  | @cons line view rows views hline _ ih =>
    have hrow : p (update.rowOf table line view) = p line := by
      rw [hp _ _ (reads_row lawful hline), found_map lawful, hp _ _ hline]
    rw [List.zipWith_cons_cons, List.filter_cons, List.filter_cons, hrow, ih]
    cases hfound : update.found view with
    | true =>
      rw [hp _ _ hline, hfound]
      rfl
    | false => rw [row_of_not_found lawful hline hfound]

theorem filter_output {p : String → Bool} (hp : ∀ row view, table.Reads row view →
    p row = !update.found view) (h : List.Forall₂ table.Reads (lines text) views)
    (hends : newline = false → endsWith text "\n" = false) :
    ((lines (update.output table text views newline)).filter p).map bare = ((lines text).filter p).map bare := by
  have hfree : ∀ row ∈ lines text, '\n' ∉ row.toList := fun row hrow => free_of_mem_lines hrow
  have hkind : ∀ row ∈ update.newRows table (lines text) views, p (stripReturn row) = p row := by
    intro row hrow
    obtain ⟨view, -, hview⟩ := results.forall₂_mem_left (reads_newRows lawful h).flip hrow
    rw [hp _ _ hview, hp _ _ hview.stripReturn]
  rw [output, filter_joinLines hkind (newRows_ne_nil h) (newRows_free lawful hfree h)
    (fun hnewline => newRows_last lawful h (hends hnewline)), filter_newRows lawful hp h]

end Update
end Table
end rust_text
