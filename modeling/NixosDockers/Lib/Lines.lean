-- Texts that are read line by line: the lines of a text, the words of a line,
-- and decimal numbers in them.
import NixosDockers.Lib.Trimming

namespace rust_text

/-! ## Lines -/

def stripReturn (line : String) : String :=
  if endsWith line "\r" then String.ofList line.toList.dropLast else line

/-- What follows the last newline is a line only when it is not empty. -/
def linesOf : List String → List String
  | [] => []
  | [last] => if last = "" then [] else [last]
  | line :: next :: rest => stripReturn line :: linesOf (next :: rest)

/-- `str::lines`. -/
def lines (text : String) : List String := linesOf (splitChar '\n' text)

/-- A line without the carriage returns at its end, which belong to its terminator. -/
def bare (line : String) : String := String.ofList (line.toList.rdropWhile (· = '\r'))

theorem linesOf_snoc (rows : List String) (last : String) :
    linesOf (rows ++ [last]) = rows.map stripReturn ++ if last = "" then [] else [last] := by
  induction rows with
  | nil => rfl
  | cons row rows ih =>
    cases rows with
    | nil => rfl
    | cons next rows =>
      rw [List.map_cons, List.cons_append, List.cons_append, linesOf, ← List.cons_append, ih]
      rfl

theorem stripReturn_cases (line : String) :
    stripReturn line = line ∨ line = stripReturn line ++ "\r" := by
  rw [stripReturn]
  split_ifs with h
  · right
    obtain ⟨front, hfront⟩ := List.isSuffixOf_iff_suffix.mp h
    refine String.toList_inj.mp ?_
    rw [String.toList_append, String.toList_ofList, ← hfront]
    simp
  · exact Or.inl rfl

theorem mem_of_mem_stripReturn {line : String} {c : Char} (h : c ∈ (stripReturn line).toList) :
    c ∈ line.toList := by
  rcases stripReturn_cases line with hsame | hstrip
  · rwa [hsame] at h
  · rw [hstrip, String.toList_append]
    exact List.mem_append_left _ h

theorem stripReturn_of_ne {line : String} (h : line.toList.getLast? ≠ some '\r') :
    stripReturn line = line := by
  rw [stripReturn, if_neg]
  intro hends
  obtain ⟨front, hfront⟩ := List.isSuffixOf_iff_suffix.mp hends
  refine h ?_
  rw [← hfront]
  simp

theorem stripReturn_append_return (line : String) : stripReturn (line ++ "\r") = line := by
  have hreturn : "\r".toList = ['\r'] := rfl
  have hends : endsWith (line ++ "\r") "\r" = true :=
    List.isSuffixOf_iff_suffix.mpr ⟨line.toList, String.toList_append.symm⟩
  rw [stripReturn, if_pos hends, String.toList_append, hreturn, List.dropLast_concat,
    String.ofList_toList]

theorem bare_append_return (line : String) : bare (line ++ "\r") = bare line := by
  have hreturn : "\r".toList = ['\r'] := rfl
  rw [bare, bare, String.toList_append, hreturn]
  congr 1
  exact List.rdropWhile_concat_pos _ _ _ (by simp)

theorem bare_stripReturn (line : String) : bare (stripReturn line) = bare line := by
  rcases stripReturn_cases line with h | h
  · rw [h]
  · conv_rhs => rw [h, bare_append_return]

theorem splitChar_last (text : String) : ∃ rows last, splitChar '\n' text = rows ++ [last] := by
  rcases List.eq_nil_or_concat' (splitChar '\n' text) with h | ⟨rows, last, h⟩
  · exact absurd h (splitChar_ne_nil _ _)
  · exact ⟨rows, last, h⟩

/-- The lines of a text do not hold the character that ends them. -/
theorem free_of_mem_lines {text line : String} (h : line ∈ lines text) : '\n' ∉ line.toList := by
  obtain ⟨rows, last, hrows⟩ := splitChar_last text
  have hfree : ∀ part ∈ rows ++ [last], '\n' ∉ part.toList :=
    fun part hpart => free_of_mem_splitChar (hrows ▸ hpart)
  rw [lines, hrows, linesOf_snoc, List.mem_append, List.mem_map] at h
  rcases h with ⟨row, hrow, rfl⟩ | hlast
  · have hfreeRow := hfree row (List.mem_append_left _ hrow)
    rcases stripReturn_cases row with hsame | hstrip
    · rwa [hsame]
    · intro hmem
      rw [hstrip, String.toList_append] at hfreeRow
      exact hfreeRow (List.mem_append_left _ hmem)
  · split_ifs at hlast
    · cases hlast
    · rw [List.mem_singleton.mp hlast]
      exact hfree last (List.mem_append_right _ List.mem_cons_self)

/-- What parts that are put together hold, one of them holds. -/
theorem exists_of_mem_intercalate {α : Type} {c d : α} {parts : List (List α)} (hne : d ≠ c)
    (h : d ∈ [c].intercalate parts) : ∃ part ∈ parts, d ∈ part := by
  induction parts with
  | nil => cases h
  | cons part parts ih =>
    cases parts with
    | nil =>
      rw [List.intercalate_singleton] at h
      exact ⟨part, List.mem_cons_self, h⟩
    | cons next parts =>
      rw [List.intercalate_cons_cons, List.mem_append, List.mem_append, List.mem_singleton] at h
      rcases h with (h | h) | h
      · exact ⟨part, List.mem_cons_self, h⟩
      · exact absurd h hne
      · obtain ⟨found, hfound, hin⟩ := ih h
        exact ⟨found, List.mem_cons_of_mem _ hfound, hin⟩

theorem mem_intercalate {α : Type} {c d : α} {parts : List (List α)} {part : List α}
    (hpart : part ∈ parts) (h : d ∈ part) : d ∈ [c].intercalate parts := by
  induction parts with
  | nil => cases hpart
  | cons first parts ih =>
    cases parts with
    | nil =>
      rw [List.intercalate_singleton]
      rwa [List.mem_singleton.mp hpart] at h
    | cons next parts =>
      rw [List.intercalate_cons_cons, List.mem_append, List.mem_append]
      rcases List.mem_cons.mp hpart with rfl | hrest
      · exact Or.inl (Or.inl h)
      · exact Or.inr (ih hrest)

/-- The parts of a text hold nothing that the text does not hold. -/
theorem mem_of_mem_splitChar {c d : Char} {s part : String} (hpart : part ∈ splitChar c s)
    (h : d ∈ part.toList) : d ∈ s.toList := by
  rw [← intercalate_splitChar c s, String.toList_intercalate, String.toList_singleton]
  exact mem_intercalate (List.mem_map.mpr ⟨part, hpart, rfl⟩) h

/-! ## Lines that are put together again -/

/-- `join` with newlines, and one more behind the last line or not. -/
def joinLines (rows : List String) (newline : Bool) : String :=
  String.intercalate "\n" rows ++ if newline then "\n" else ""

theorem endsWith_newline_iff {text : String} {rows : List String} {last : String}
    (h : splitChar '\n' text = rows ++ [last]) :
    endsWith text "\n" = true ↔ last = "" ∧ rows ≠ [] := by
  constructor
  · intro hends
    obtain ⟨front, hfront⟩ := List.isSuffixOf_iff_suffix.mp hends
    have htext : text = String.ofList front ++ String.singleton '\n' ++ "" := by
      rw [String.append_empty]
      refine String.toList_inj.mp ?_
      rw [String.toList_append, String.toList_ofList, ← hfront]
      rfl
    have hempty : splitChar '\n' "" = [""] := rfl
    rw [htext, splitChar_append, hempty] at h
    obtain ⟨hrows, hlast⟩ := List.append_inj' h rfl
    exact ⟨(List.cons.inj hlast).1.symm, hrows ▸ splitChar_ne_nil _ _⟩
  · rintro ⟨rfl, hrows⟩
    have hfree : ∀ row ∈ rows, '\n' ∉ row.toList :=
      fun row hrow => free_of_mem_splitChar (h ▸ List.mem_append_left _ hrow)
    have hempty : splitChar '\n' "" = [""] := rfl
    have hsplit : splitChar '\n' (String.intercalate "\n" rows) = rows :=
      splitChar_intercalate hrows hfree
    have htext : text = String.intercalate "\n" rows ++ String.singleton '\n' ++ "" := by
      refine splitChar_injective '\n' ?_
      rw [h, splitChar_append, hempty, hsplit]
    rw [htext, String.append_empty]
    refine List.isSuffixOf_iff_suffix.mpr ⟨(String.intercalate "\n" rows).toList, ?_⟩
    rw [String.toList_append]
    rfl

/-- The lines that were put together are read again, but for a carriage return at their ends. -/
theorem lines_joinLines {rows : List String} {newline : Bool} (hne : rows ≠ [])
    (hfree : ∀ row ∈ rows, '\n' ∉ row.toList) (hlast : newline = false → rows.getLast? ≠ some "") :
    List.Forall₂ (fun row line => line = row ∨ line = stripReturn row) rows
      (lines (joinLines rows newline)) := by
  have hsplit : splitChar '\n' (String.intercalate "\n" rows) = rows :=
    splitChar_intercalate hne hfree
  rw [joinLines, lines]
  cases newline with
  | true =>
    have happend := splitChar_append '\n' (String.intercalate "\n" rows) ""
    rw [String.append_empty, hsplit] at happend
    have hempty : splitChar '\n' "" = [""] := rfl
    rw [hempty] at happend
    rw [if_pos rfl]
    show List.Forall₂ _ rows (linesOf (splitChar '\n' (_ ++ String.singleton '\n')))
    rw [happend, linesOf_snoc, if_pos rfl, List.append_nil, List.forall₂_map_right_iff]
    exact List.forall₂_same.mpr fun row _ => Or.inr rfl
  | false =>
    rw [if_neg Bool.false_ne_true, String.append_empty, hsplit]
    obtain hnil | ⟨init, last, rfl⟩ := List.eq_nil_or_concat' rows
    · exact absurd hnil hne
    have hlast' : last ≠ "" := by
      have := hlast rfl
      rwa [List.getLast?_concat, ne_eq, Option.some.injEq] at this
    rw [linesOf_snoc, if_neg hlast']
    refine List.rel_append ?_ (.cons (Or.inl rfl) .nil)
    rw [List.forall₂_map_right_iff]
    exact List.forall₂_same.mpr fun row _ => Or.inr rfl

theorem lines_last {text : String} (h : endsWith text "\n" = false) : (lines text).getLast? ≠ some "" := by
  obtain ⟨rows, last, hrows⟩ := splitChar_last text
  rw [lines, hrows, linesOf_snoc]
  split_ifs with hlast
  · have hnil : rows = [] := by
      by_contra hne
      rw [(endsWith_newline_iff hrows).mpr ⟨hlast, hne⟩] at h
      cases h
    rw [hnil]
    exact nofun
  · rw [List.getLast?_concat, ne_eq, Option.some.injEq]
    exact hlast

/-- A text of terminated lines. -/
def unlines (rows : List String) : String := rows.foldr (fun row text => row ++ "\n" ++ text) ""

theorem splitChar_unlines {rows : List String} (h : ∀ row ∈ rows, '\n' ∉ row.toList) :
    splitChar '\n' (unlines rows) = rows ++ [""] := by
  induction rows with
  | nil => rfl
  | cons row rows ih =>
    rw [List.forall_mem_cons] at h
    have happend := splitChar_append '\n' row (unlines rows)
    rw [splitChar_of_free h.1, ih h.2] at happend
    exact happend

theorem lines_unlines {rows : List String} (h : ∀ row ∈ rows, '\n' ∉ row.toList) :
    lines (unlines rows) = rows.map stripReturn := by
  rw [lines, splitChar_unlines h, linesOf_snoc, if_pos rfl, List.append_nil]

/-- Only the end of a line is read without its carriage return. -/
theorem stripReturn_append {s : String} (h : s.toList.getLast? ≠ some '\r') (t : String) :
    ∃ t', stripReturn (s ++ t) = s ++ t' := by
  rw [stripReturn]
  split_ifs with hends
  · have ht : t.toList ≠ [] := by
      intro hnil
      obtain ⟨front, hfront⟩ := List.isSuffixOf_iff_suffix.mp hends
      rw [String.toList_append, hnil, List.append_nil] at hfront
      refine h ?_
      rw [← hfront]
      exact List.getLast?_concat
    refine ⟨String.ofList t.toList.dropLast, String.toList_inj.mp ?_⟩
    rw [String.toList_ofList, String.toList_append, List.dropLast_append_of_ne_nil ht,
      String.toList_append, String.toList_ofList]
  · exact ⟨t, rfl⟩

/-! ## Words -/

/-- `str::split_whitespace`. -/
def splitWhitespace (line : String) : List String :=
  ((line.toList.splitOnP isWhitespace).filter (· ≠ [])).map String.ofList

/-- The words of a text, as characters. -/
def wordsOf (chars : List Char) : List (List Char) := (chars.splitOnP isWhitespace).filter (· ≠ [])

theorem splitWhitespace_ofList (chars : List Char) :
    splitWhitespace (String.ofList chars) = (wordsOf chars).map String.ofList := by
  rw [splitWhitespace, String.toList_ofList]
  rfl

theorem wordsOf_of_solid {word : List Char} (hne : word ≠ [])
    (h : ∀ c ∈ word, isWhitespace c = false) : wordsOf word = [word] := by
  rw [wordsOf, List.splitOnP_eq_singleton h, List.filter_cons_of_pos (by simpa using hne),
    List.filter_nil]

theorem wordsOf_append_cons {c : Char} (hc : isWhitespace c = true) (s t : List Char) :
    wordsOf (s ++ c :: t) = wordsOf s ++ wordsOf t := by
  rw [wordsOf, List.splitOnP_append_cons _ _ hc, List.filter_append]
  rfl

/-- Texts that are put together with spaces keep their words. -/
theorem wordsOf_intercalate (parts : List (List Char)) :
    wordsOf ([' '].intercalate parts) = parts.flatMap wordsOf := by
  induction parts with
  | nil => rfl
  | cons part parts ih =>
    cases parts with
    | nil =>
      rw [List.intercalate_singleton, List.flatMap_singleton]
    | cons next parts =>
      rw [List.intercalate_cons_cons, List.append_assoc]
      show wordsOf (part ++ ' ' :: [' '].intercalate (next :: parts)) = _
      rw [wordsOf_append_cons (by decide), ih]
      rfl

theorem splitOnP_append_free {α : Type} {p : α → Bool} {front : List α}
    (h : ∀ x ∈ front, p x = false) (xs : List α) :
    (front ++ xs).splitOnP p = (xs.splitOnP p).modifyHead (front ++ ·) := by
  obtain ⟨first, more, hsplit⟩ := List.exists_cons_of_ne_nil (List.splitOnP_ne_nil p xs)
  induction front with
  | nil => simp [hsplit]
  | cons x front ih =>
    rw [List.forall_mem_cons] at h
    rw [List.cons_append, List.splitOnP_cons_eq_if_modifyHead, if_neg (by simp [h.1]), ih h.2, hsplit]
    rfl

/-- A text whose characters are written one by one is cut where it was cut before. -/
theorem splitOnP_flatMap {α β : Type} {p : α → Bool} {q : β → Bool} {f : α → List β}
    (hcut : ∀ x, p x = true → ∃ y, f x = [y] ∧ q y = true)
    (hkeep : ∀ x, p x = false → ∀ y ∈ f x, q y = false) (xs : List α) :
    (xs.flatMap f).splitOnP q = (xs.splitOnP p).map (List.flatMap f) := by
  induction xs with
  | nil => rfl
  | cons x xs ih =>
    rw [List.flatMap_cons, List.splitOnP_cons_eq_if_modifyHead]
    cases hx : p x with
    | true =>
      obtain ⟨y, hy, hqy⟩ := hcut x hx
      rw [hy, List.singleton_append, List.splitOnP_cons_eq_if_modifyHead, if_pos hqy, if_pos rfl, ih]
      rfl
    | false =>
      rw [splitOnP_append_free (hkeep x hx), ih, if_neg Bool.false_ne_true]
      obtain ⟨first, more, hsplit⟩ := List.exists_cons_of_ne_nil (List.splitOnP_ne_nil p xs)
      rw [hsplit]
      rfl

/-- The pieces between the characters of a kind have none of them. -/
theorem free_of_mem_splitOnP {α : Type} {p : α → Bool} {xs piece : List α} (h : piece ∈ xs.splitOnP p) :
    ∀ x ∈ piece, p x = false := by
  induction xs generalizing piece with
  | nil =>
    rw [List.splitOnP_nil, List.mem_singleton] at h
    rw [h]
    exact nofun
  | cons x xs ih =>
    rw [List.splitOnP_cons_eq_if_modifyHead] at h
    cases hx : p x with
    | true =>
      rw [if_pos hx, List.mem_cons] at h
      rcases h with rfl | h
      · exact nofun
      · exact ih h
    | false =>
      obtain ⟨first, more, hsplit⟩ := List.exists_cons_of_ne_nil (List.splitOnP_ne_nil p xs)
      rw [if_neg (by simp [hx]), hsplit, List.modifyHead_cons, List.mem_cons] at h
      rcases h with rfl | h
      · exact List.forall_mem_cons.mpr ⟨hx, ih (hsplit ▸ List.mem_cons_self)⟩
      · exact ih (hsplit ▸ List.mem_cons_of_mem _ h)

/-! ## Decimal numbers -/

/-- Decimal digits only, and at least one. -/
def isDecimal (digits : List Char) : Bool := !digits.isEmpty && digits.all Char.isDigit

/-- `str::parse` of an unsigned type with so many values: a plus sign may stand in front. -/
def parseUnsigned (size : ℕ) (text : String) : Option ℕ :=
  let digits := match text.toList with
    | '+' :: rest => rest
    | all => all
  if isDecimal digits && digitsValue digits < size then some (digitsValue digits) else none

theorem digitsValue_repr (n : ℕ) : digitsValue (toString n).toList = n := by
  show digitsValue (Nat.repr n).toList = n
  rw [Nat.toList_repr]
  exact Nat.ofDigitChars_ten_toDigits

theorem isDecimal_repr (n : ℕ) : isDecimal (toString n).toList = true := by
  show isDecimal (Nat.repr n).toList = true
  rw [Nat.toList_repr, isDecimal, Bool.and_eq_true, Bool.not_eq_true', List.isEmpty_eq_false_iff,
    List.all_eq_true]
  exact ⟨Nat.toDigits_ne_nil, fun c hc => Nat.isDigit_of_mem_toDigits (by decide) (by decide) hc⟩

/-- A number is read back from what `to_string` writes. -/
theorem parseUnsigned_repr {size n : ℕ} (h : n < size) : parseUnsigned size (toString n) = some n := by
  have hdecimal := isDecimal_repr n
  have hdigits : (match (toString n).toList with
      | '+' :: rest => rest
      | all => all) = (toString n).toList := by
    split
    · rename_i rest hplus
      rw [hplus, isDecimal, Bool.and_eq_true, List.all_eq_true] at hdecimal
      have hplus' := hdecimal.2 '+' List.mem_cons_self
      exact absurd hplus' (by decide)
    · rfl
  rw [parseUnsigned, hdigits, digitsValue_repr, hdecimal, Bool.true_and, if_pos (decide_eq_true h)]

end rust_text
