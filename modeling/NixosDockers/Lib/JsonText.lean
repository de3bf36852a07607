-- The compact JSON text of serde, and the size of what it writes.
import NixosDockers.Lib.RustText
import NixosDockers.Lib.Utf8

open rust_text

namespace json_text

/-! ## Texts -/

/-- The digit of a value below 16. -/
def hexDigit (value : ℕ) : Char :=
  if value < 10 then Char.ofNat (48 + value) else Char.ofNat (87 + value)

/-- A character with an escape of its own. -/
def hasShortEscape (c : Char) : Bool :=
  c == doubleQuote || c == '\\' || c == '\x08' || c == '\t' || c == '\n' || c == '\x0c' || c == '\r'

/-- A character that is written by its code, in six characters. -/
def isLongEscape (c : Char) : Bool := decide (c.toNat < 0x20) && !hasShortEscape c

/-- The escape table of the writer. -/
def escapeChar (c : Char) : List Char :=
  if c = doubleQuote then ['\\', doubleQuote]
  else if c = '\\' then ['\\', '\\']
  else if c = '\x08' then ['\\', 'b']
  else if c = '\t' then ['\\', 't']
  else if c = '\n' then ['\\', 'n']
  else if c = '\x0c' then ['\\', 'f']
  else if c = '\r' then ['\\', 'r']
  else if c.toNat < 0x20 then
    ['\\', 'u', '0', '0', hexDigit (c.toNat / 16), hexDigit (c.toNat % 16)]
  else [c]

/-- A text between quotes. -/
def quoted (text : String) : String :=
  String.ofList (doubleQuote :: (text.toList.flatMap escapeChar ++ [doubleQuote]))

/-- How many characters of a text are written by their codes. -/
def longEscapes (text : String) : ℕ := text.toList.countP isLongEscape

/-! ## Arrays and objects -/

/-- An array of items that are written already. -/
def array (items : List String) : String := "[" ++ String.intercalate "," items ++ "]"

/-- A field of an object. -/
def field (name : String) (value : String) : String := quoted name ++ ":" ++ value

/-- An object of fields whose values are written already. -/
def object (fields : List (String × String)) : String :=
  "\x7b" ++ String.intercalate "," (fields.map fun entry => field entry.1 entry.2) ++ "\x7d"

/-! ## Sizes -/

theorem byteLen_append (s t : String) : byteLen (s ++ t) = byteLen s + byteLen t :=
  String.utf8ByteSize_append

theorem byteLen_ofList (chars : List Char) :
    byteLen (String.ofList chars) = (chars.map Char.utf8Size).sum := by
  unfold byteLen
  rw [String.utf8ByteSize_ofList]
  induction chars with
  | nil => rfl
  | cons c chars ih => rw [String.utf8Len_cons, ih, List.map_cons, List.sum_cons, Nat.add_comm]

theorem byteLen_eq_sum (text : String) : byteLen text = (text.toList.map Char.utf8Size).sum := by
  rw [← byteLen_ofList, String.ofList_toList]

/-- The bytes of a text are as many as its length says. -/
theorem length_asBytes (text : String) : (asBytes text).length = byteLen text := by
  rw [byteLen_eq_sum]
  unfold asBytes encodeChars
  rw [List.length_flatMap]
  congr 1
  exact List.map_congr_left fun c _ => String.length_utf8EncodeChar c

theorem utf8Size_pos (c : Char) : 1 ≤ c.utf8Size := Char.utf8Size_pos c

theorem hexDigit_size {value : ℕ} (h : value < 16) : (hexDigit value).utf8Size = 1 := by
  revert value
  decide

/-- The size of an escape, by the three kinds of characters. -/
theorem size_escapeChar (c : Char) :
    ((escapeChar c).map Char.utf8Size).sum =
      if hasShortEscape c then 2 else if isLongEscape c then 6 else c.utf8Size := by
  by_cases hshort : hasShortEscape c = true
  · rw [if_pos hshort]
    unfold hasShortEscape at hshort
    simp only [Bool.or_eq_true, beq_iff_eq] at hshort
    rcases hshort with (((((rfl | rfl) | rfl) | rfl) | rfl) | rfl) | rfl
    all_goals rfl
  · have hplain : escapeChar c = if c.toNat < 0x20 then
        ['\\', 'u', '0', '0', hexDigit (c.toNat / 16), hexDigit (c.toNat % 16)] else [c] := by
      unfold hasShortEscape at hshort
      simp only [Bool.or_eq_true, beq_iff_eq, not_or] at hshort
      unfold escapeChar
      rw [if_neg hshort.1.1.1.1.1.1, if_neg hshort.1.1.1.1.1.2, if_neg hshort.1.1.1.1.2,
        if_neg hshort.1.1.1.2, if_neg hshort.1.1.2, if_neg hshort.1.2, if_neg hshort.2]
    rw [if_neg hshort, hplain]
    by_cases hcontrol : c.toNat < 0x20
    · have hlong : isLongEscape c = true := by
        unfold isLongEscape
        rw [decide_eq_true hcontrol, Bool.eq_false_iff.mpr hshort]
        rfl
      have hfirst := hexDigit_size (by omega : c.toNat / 16 < 16)
      have hsecond := hexDigit_size (by omega : c.toNat % 16 < 16)
      have hrest : (['\\', 'u', '0', '0'].map Char.utf8Size).sum = 4 := rfl
      rw [if_pos hcontrol, if_pos hlong]
      simp only [List.map_cons, List.map_nil, List.sum_cons, List.sum_nil] at hrest ⊢
      omega
    · have hlong : ¬ isLongEscape c = true := by
        unfold isLongEscape
        rw [decide_eq_false hcontrol]
        exact Bool.false_ne_true
      rw [if_neg hcontrol, if_neg hlong]
      exact List.sum_singleton

/-- An escape has two bytes for every byte of its character, and four more when it is a code. -/
theorem size_escapeChar_le (c : Char) :
    ((escapeChar c).map Char.utf8Size).sum ≤
      2 * c.utf8Size + if isLongEscape c then 4 else 0 := by
  have hpos := utf8Size_pos c
  rw [size_escapeChar]
  split_ifs
  all_goals omega

theorem byteLen_quoted (text : String) :
    byteLen (quoted text) =
      2 + (text.toList.map fun c => ((escapeChar c).map Char.utf8Size).sum).sum := by
  have hquote : doubleQuote.utf8Size = 1 := rfl
  unfold quoted
  rw [byteLen_ofList, List.map_cons, List.sum_cons, List.map_append, List.sum_append,
    List.map_flatMap, List.flatMap_def, List.sum_flatten, List.map_map, List.map_singleton,
    List.sum_singleton, hquote, Nat.add_comm _ 1, ← Nat.add_assoc]
  rfl

/-- A quoted text is no larger than twice the text, the quotes and what its codes add. -/
theorem byteLen_quoted_le (text : String) :
    byteLen (quoted text) ≤ 2 + 2 * byteLen text + 4 * longEscapes text := by
  rw [byteLen_quoted, byteLen_eq_sum]
  unfold longEscapes
  induction text.toList with
  | nil => exact Nat.le_refl 2
  | cons c chars ih =>
    have hchar := size_escapeChar_le c
    rw [List.map_cons, List.sum_cons, List.map_cons, List.sum_cons, List.countP_cons]
    split_ifs at hchar ⊢
    all_goals omega

theorem longEscapes_le (text : String) : longEscapes text ≤ byteLen text := by
  rw [byteLen_eq_sum]
  unfold longEscapes
  induction text.toList with
  | nil => exact Nat.le_refl 0
  | cons c chars ih =>
    have hpos := utf8Size_pos c
    rw [List.map_cons, List.sum_cons, List.countP_cons]
    split_ifs
    all_goals omega

/-- A text whose characters need no escapes is written as it is. -/
theorem byteLen_quoted_plain {text : String}
    (h : text.toList.all (fun c => !hasShortEscape c && !isLongEscape c) = true) :
    byteLen (quoted text) = 2 + byteLen text := by
  rw [byteLen_quoted, byteLen_eq_sum]
  congr 2
  refine List.map_congr_left fun c hc => ?_
  have hplain := List.all_eq_true.mp h c hc
  rw [Bool.and_eq_true, Bool.not_eq_true', Bool.not_eq_true'] at hplain
  rw [size_escapeChar, hplain.1, hplain.2]
  rfl

/-- What the items and the commas between them take. -/
theorem byteLen_intercalate (item : String) (items : List String) :
    byteLen (String.intercalate "," (item :: items)) + 1 =
      ((item :: items).map fun other => byteLen other + 1).sum := by
  induction items generalizing item with
  | nil =>
    rw [String.intercalate_singleton]
    rfl
  | cons next rest ih =>
    have hcomma : byteLen "," = 1 := rfl
    rw [String.intercalate_cons_cons, byteLen_append, byteLen_append, hcomma, List.map_cons,
      List.sum_cons, ← ih next]
    omega

theorem byteLen_intercalate_le (items : List String) :
    byteLen (String.intercalate "," items) ≤ (items.map fun item => byteLen item + 1).sum := by
  cases items with
  | nil => exact Nat.le_refl 0
  | cons item items => exact Nat.le_of_lt (Nat.lt_of_succ_le (byteLen_intercalate item items).le)

theorem le_byteLen_intercalate (items : List String) :
    (items.map byteLen).sum ≤ byteLen (String.intercalate "," items) := by
  cases items with
  | nil => exact Nat.le_refl 0
  | cons item items =>
    have hexact := byteLen_intercalate item items
    rw [List.sum_map_add, List.map_const', List.sum_replicate] at hexact
    simp only [List.length_cons, smul_eq_mul] at hexact
    omega

/-- A printable character needs no escape, apart from the quote and the backslash. -/
theorem plain_of_printable {c : Char} (hcode : 0x20 ≤ c.toNat) (hquote : c ≠ doubleQuote)
    (hslash : c ≠ '\\') : (!hasShortEscape c && !isLongEscape c) = true := by
  have hshort : hasShortEscape c = false := by
    unfold hasShortEscape
    simp only [Bool.or_eq_false_iff, beq_eq_false_iff_ne]
    refine ⟨⟨⟨⟨⟨⟨hquote, hslash⟩, ?_⟩, ?_⟩, ?_⟩, ?_⟩, ?_⟩
    all_goals
      rintro rfl
      exact absurd hcode (by decide)
  unfold isLongEscape
  rw [hshort, decide_eq_false (Nat.not_lt.mpr hcode)]
  rfl

theorem byteLen_quoted_le_six (text : String) : byteLen (quoted text) ≤ 2 + 6 * byteLen text := by
  have hquoted := byteLen_quoted_le text
  have hcodes := longEscapes_le text
  omega

theorem byteLen_array_le (items : List String) :
    byteLen (array items) ≤ 2 + (items.map fun item => byteLen item + 1).sum := by
  have hopen : byteLen "[" = 1 := rfl
  have hclose : byteLen "]" = 1 := rfl
  have hitems := byteLen_intercalate_le items
  unfold array
  rw [byteLen_append, byteLen_append]
  omega

theorem le_byteLen_array (items : List String) :
    (items.map byteLen).sum ≤ byteLen (array items) := by
  have hitems := le_byteLen_intercalate items
  unfold array
  rw [byteLen_append, byteLen_append]
  omega

theorem byteLen_field (name value : String) :
    byteLen (field name value) = byteLen (quoted name) + 1 + byteLen value := by
  have hcolon : byteLen ":" = 1 := rfl
  unfold field
  rw [byteLen_append, byteLen_append, hcolon]

theorem byteLen_object_le (fields : List (String × String)) :
    byteLen (object fields) ≤
      2 + (fields.map fun entry => byteLen (quoted entry.1) + byteLen entry.2 + 2).sum := by
  have hopen : byteLen "\x7b" = 1 := rfl
  have hclose : byteLen "\x7d" = 1 := rfl
  have hitems := byteLen_intercalate_le (fields.map fun entry => field entry.1 entry.2)
  have hfields : (fun entry : String × String => byteLen (field entry.1 entry.2) + 1) =
      fun entry => byteLen (quoted entry.1) + byteLen entry.2 + 2 := by
    funext entry
    rw [byteLen_field]
    omega
  rw [List.map_map, Function.comp_def, hfields] at hitems
  unfold object
  rw [byteLen_append, byteLen_append]
  omega

/-- An object is larger than the value of each of its fields. -/
theorem le_byteLen_object (fields : List (String × String)) :
    (fields.map fun entry => byteLen entry.2).sum ≤ byteLen (object fields) := by
  have hitems := le_byteLen_intercalate (fields.map fun entry => field entry.1 entry.2)
  have hfields : (fields.map fun entry => byteLen entry.2).sum ≤
      ((fields.map fun entry => field entry.1 entry.2).map byteLen).sum := by
    rw [List.map_map]
    refine List.sum_le_sum fun entry _ => ?_
    rw [Function.comp_apply, byteLen_field]
    omega
  unfold object
  rw [byteLen_append, byteLen_append]
  omega

/-- A text of codes only has six bytes for each of them. -/
theorem byteLen_quoted_replicate {c : Char} (h : isLongEscape c = true) (count : ℕ) :
    byteLen (quoted (String.ofList (List.replicate count c))) = 2 + 6 * count := by
  have hshort : hasShortEscape c = false := by
    unfold isLongEscape at h
    rw [Bool.and_eq_true, Bool.not_eq_true'] at h
    exact h.2
  have hchar : ((escapeChar c).map Char.utf8Size).sum = 6 := by
    rw [size_escapeChar, hshort, h]
    rfl
  rw [byteLen_quoted, String.toList_ofList, List.map_replicate, hchar, List.sum_replicate,
    smul_eq_mul, Nat.mul_comm]

end json_text
