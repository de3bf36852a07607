-- The text functions of the Rust standard library that the crates use, over
-- the characters of a `String`. A Rust `str` is valid UTF-8, so a cut at a
-- character is a cut at a byte, and only `len` counts bytes.
import Mathlib

namespace rust_text

/-! ## Characters -/

/-- The quotes, which the DSL takes as string marks. -/
def singleQuote : Char := Char.ofNat 39

def doubleQuote : Char := Char.ofNat 34

def nul : Char := Char.ofNat 0

def backtick : Char := Char.ofNat 96

/-- `char::is_whitespace`: the Unicode property `White_Space`. -/
def isWhitespace (c : Char) : Bool :=
  let n := c.toNat
  (9 ≤ n && n ≤ 13) || n == 32 || n == 0x85 || n == 0xA0 || n == 0x1680 ||
    (0x2000 ≤ n && n ≤ 0x200A) || n == 0x2028 || n == 0x2029 || n == 0x202F || n == 0x205F ||
    n == 0x3000

/-! ## Search and cut -/

/-- `str::split_once`: the text before and after the first `needle`. -/
def splitOnce (needle : List Char) : List Char → Option (List Char × List Char)
  | [] => if needle.isEmpty then some ([], []) else none
  | c :: s =>
    if needle.isPrefixOf (c :: s) then some ([], (c :: s).drop needle.length)
    else (splitOnce needle s).map fun p => (c :: p.1, p.2)

/-- `str::contains` with a text. -/
def containsText (needle s : List Char) : Bool := (splitOnce needle s).isSome

/-- `str::contains` with a character. -/
def hasChar (s : String) (c : Char) : Bool := s.toList.contains c

def hasText (s needle : String) : Bool := containsText needle.toList s.toList

def startsWith (s start : String) : Bool := start.toList.isPrefixOf s.toList

def endsWith (s tail : String) : Bool := tail.toList.isSuffixOf s.toList

/-- `str::strip_prefix`. -/
def stripStart (s start : String) : Option String :=
  if startsWith s start then some (String.ofList (s.toList.drop start.length)) else none

theorem startsWith_iff {s start : String} : startsWith s start = true ↔ ∃ rest, s = start ++ rest := by
  unfold startsWith
  rw [List.isPrefixOf_iff_prefix]
  constructor
  · rintro ⟨rest, hrest⟩
    exact ⟨String.ofList rest, String.toList_inj.mp (by simp [← hrest])⟩
  · rintro ⟨rest, rfl⟩
    simp

theorem stripStart_eq_some_iff {s start rest : String} :
    stripStart s start = some rest ↔ s = start ++ rest := by
  unfold stripStart
  constructor
  · intro h
    split_ifs at h with hstart
    obtain ⟨tail, rfl⟩ := startsWith_iff.mp hstart
    rw [← Option.some.inj h, String.toList_append, ← String.length_toList, List.drop_left,
      String.ofList_toList]
  · rintro rfl
    rw [if_pos (startsWith_iff.mpr ⟨rest, rfl⟩), String.toList_append, ← String.length_toList,
      List.drop_left, String.ofList_toList]

theorem stripStart_eq_none_iff {s start : String} :
    stripStart s start = none ↔ startsWith s start = false := by
  unfold stripStart
  split_ifs with h <;> simp [h]

/-- `str::trim_matches` with a set of characters. -/
def trimMatches (p : Char → Bool) (s : List Char) : List Char := (s.dropWhile p).rdropWhile p

def trim (s : List Char) : List Char := trimMatches isWhitespace s

/-- `str::split` at a character. The result is never empty. -/
def splitChar (c : Char) (s : String) : List String := (s.toList.splitOn c).map String.ofList

theorem splitChar_intercalate {c : Char} {parts : List String} (hparts : parts ≠ [])
    (hfree : ∀ part ∈ parts, c ∉ part.toList) :
    splitChar c (String.intercalate (String.singleton c) parts) = parts := by
  have hne : parts.map String.toList ≠ [] := by simpa using hparts
  have hsplit : ([c].intercalate (parts.map String.toList)).splitOn c = parts.map String.toList := by
    refine List.splitOn_intercalate c ?_ hne
    intro chars hchars
    obtain ⟨part, hpart, rfl⟩ := List.mem_map.mp hchars
    exact hfree part hpart
  unfold splitChar
  rw [String.toList_intercalate, String.toList_singleton, hsplit, List.map_map]
  exact List.map_id'' (fun part => String.ofList_toList) parts

theorem splitChar_append (c : Char) (s t : String) :
    splitChar c (s ++ String.singleton c ++ t) = splitChar c s ++ splitChar c t := by
  unfold splitChar
  rw [String.toList_append, String.toList_append, String.toList_singleton, List.append_assoc,
    List.singleton_append, List.splitOn_append_cons_self, List.map_append]

theorem splitChar_of_free {c : Char} {s : String} (h : c ∉ s.toList) : splitChar c s = [s] := by
  unfold splitChar
  rw [List.splitOn_eq_singleton h, List.map_singleton, String.ofList_toList]

theorem splitChar_ne_nil (c : Char) (s : String) : splitChar c s ≠ [] := by
  unfold splitChar
  simp

theorem not_mem_of_mem_splitOn {α : Type} [BEq α] [LawfulBEq α] {a : α} {xs part : List α}
    (h : part ∈ xs.splitOn a) : a ∉ part := by
  induction xs generalizing part with
  | nil =>
    rw [List.splitOn_nil, List.mem_singleton] at h
    simp [h]
  | cons x xs ih =>
    rw [List.splitOn_cons_eq_if_modifyHead] at h
    split_ifs at h with hx
    · rcases List.mem_cons.mp h with rfl | hrest
      · exact List.not_mem_nil
      · exact ih hrest
    · obtain ⟨first, rest, hsplit⟩ := List.exists_cons_of_ne_nil (List.splitOn_ne_nil a xs)
      rw [hsplit, List.modifyHead_cons] at h
      rcases List.mem_cons.mp h with rfl | hrest
      · have hfirst : a ∉ first := ih (by simp [hsplit])
        have hne : a ≠ x := fun heq => hx (by simp [heq])
        simp [hne, hfirst]
      · exact ih (by simp [hsplit, hrest])

/-- The parts between the occurrences of a character do not contain it. -/
theorem free_of_mem_splitChar {c : Char} {s part : String} (h : part ∈ splitChar c s) :
    c ∉ part.toList := by
  obtain ⟨chars, hchars, rfl⟩ := List.mem_map.mp h
  rw [String.toList_ofList]
  exact not_mem_of_mem_splitOn hchars

theorem intercalate_splitChar (c : Char) (s : String) :
    String.intercalate (String.singleton c) (splitChar c s) = s := by
  refine String.toList_injective ?_
  have hparts : (splitChar c s).map String.toList = s.toList.splitOn c := by
    unfold splitChar
    rw [List.map_map]
    exact List.map_id'' (fun chars => String.toList_ofList) _
  rw [String.toList_intercalate, hparts, String.toList_singleton, List.intercalate_splitOn]

theorem splitChar_injective (c : Char) : Function.Injective (splitChar c) := by
  intro s t h
  rw [← intercalate_splitChar c s, h, intercalate_splitChar]

/-- A text whose first part is known is that part, or goes on after the character. -/
theorem eq_of_splitChar_cons {c : Char} {s first : String} {rest : List String}
    (h : splitChar c s = first :: rest) :
    rest = [] ∧ s = first ∨
      ∃ tail, s = first ++ String.singleton c ++ tail ∧ splitChar c tail = rest := by
  have hs : String.intercalate (String.singleton c) (first :: rest) = s := by
    rw [← h, intercalate_splitChar]
  cases rest with
  | nil => exact Or.inl ⟨rfl, hs.symm⟩
  | cons next rest =>
    refine Or.inr ⟨String.intercalate (String.singleton c) (next :: rest),
      hs.symm.trans (String.intercalate_cons_cons ..), ?_⟩
    refine splitChar_intercalate (by simp) fun part hpart => ?_
    exact free_of_mem_splitChar (h ▸ List.mem_cons_of_mem first hpart)

/-- `str::len`, the bytes of the text. -/
def byteLen (s : String) : Nat := s.utf8ByteSize

/-- `str::to_ascii_uppercase`. -/
def toAsciiUppercase (s : String) : String := String.ofList (s.toList.map Char.toUpper)

/-- `str::to_ascii_lowercase`. -/
def toAsciiLowercase (s : String) : String := String.ofList (s.toList.map Char.toLower)

/-! ## Numbers and the `Debug` form -/

def digitsValue (s : List Char) : Nat := s.foldl (fun n c => 10 * n + (c.toNat - 48)) 0

/-- `str::parse::<u32>` of a text of digits. -/
def parseU32 (s : String) : Option UInt32 :=
  let n := digitsValue s.toList
  if n < UInt32.size then some (UInt32.ofNat n) else none

def escapeDebug (c : Char) : List Char :=
  if c = doubleQuote then ['\\', doubleQuote]
  else if c = '\\' then ['\\', '\\']
  else if c = '\n' then ['\\', 'n']
  else if c = '\r' then ['\\', 'r']
  else if c = '\t' then ['\\', 't']
  else if c = nul then ['\\', '0']
  else [c]

/-- The format `{:?}` of a text. The characters that Rust writes as `\u` escapes, which no
name of the DSL holds, stand as they are. -/
def debugText (s : String) : String :=
  String.ofList (doubleQuote :: (s.toList.flatMap escapeDebug ++ [doubleQuote]))

theorem escapeDebug_cancel {c d : Char} {s t : List Char}
    (h : escapeDebug c ++ s = escapeDebug d ++ t) : c = d ∧ s = t := by
  unfold escapeDebug at h
  split_ifs at h <;> simp_all [doubleQuote, nul, eq_comm]

theorem flatMap_escapeDebug_injective {s t : List Char}
    (h : s.flatMap escapeDebug = t.flatMap escapeDebug) : s = t := by
  have hne : ∀ c, escapeDebug c ≠ [] := by
    intro c
    unfold escapeDebug
    split_ifs <;> simp
  induction s generalizing t with
  | nil =>
    cases t with
    | nil => rfl
    | cons d t => simp [hne] at h
  | cons c s ih =>
    cases t with
    | nil => simp [hne] at h
    | cons d t =>
      rw [List.flatMap_cons, List.flatMap_cons] at h
      obtain ⟨rfl, hrest⟩ := escapeDebug_cancel h
      rw [ih hrest]

theorem debugText_injective : Function.Injective debugText := by
  intro s t h
  have hlists := congrArg String.toList h
  simp only [debugText, String.toList_ofList, List.cons.injEq, true_and,
    List.append_cancel_right_eq] at hlists
  exact String.toList_inj.mp (flatMap_escapeDebug_injective hlists)

/-! ## Paths -/

/-- `Path::is_absolute` on Unix. -/
def isAbsolute (p : String) : Bool := startsWith p "/"

/-- The components after the root: empty parts and inner `.` parts do not count. -/
def normalComponents (p : String) : List String :=
  (splitChar '/' p).filter fun part => part != "" && part != "."

/-- `Path::components`: the root, when the path has one, and the parts. A leading `.` of a
relative path is a component of its own. -/
def components (p : String) : List String :=
  if isAbsolute p then "/" :: normalComponents p
  else if p = "." || startsWith p "./" then "." :: normalComponents p
  else normalComponents p

/-- `Path::starts_with`, which compares whole components. -/
def pathStartsWith (p base : String) : Bool := (components base).isPrefixOf (components p)

end rust_text
