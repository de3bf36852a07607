-- The mounts of a process (`container-init-posix`: `namespace.rs`): how a line of
-- `mountinfo` is read, and which mount points come out of what the kernel wrote.
import NixosDockers.Lib.Utf8
import NixosDockers.Posix.NamespaceMap

open rust_text results cursors

namespace init_posix

/-! ## Decoding a path -/

structure MountInfoEntry where
  mount_id : UInt64
  mount_point : List UInt8
  deriving DecidableEq, Repr

/-- What `decode_mountinfo_path` may stop with: a message, or a panic. -/
abbrev Decode := Except (Stop String)

def byteAt (bytes : List UInt8) (index : ℕ) : Decode UInt8 :=
  match bytes[index]? with
  | some byte => .ok byte
  | none => .error .Panic

/-- `&value[from..to]` of a text, which panics inside a character. -/
def textSlice (bytes : List UInt8) (start stop : ℕ) : Decode (List UInt8) :=
  if start ≤ stop ∧ isCharBoundary bytes start ∧ isCharBoundary bytes stop then
    .ok ((bytes.drop start).take (stop - start))
  else .error .Panic

def isAsciiDigit (byte : UInt8) : Bool := 48 ≤ byte && byte ≤ 57

/-- `u8::from_str_radix`, with a radix of at most ten. -/
def fromStrRadix (radix : ℕ) (bytes : List UInt8) : Option UInt8 :=
  let digits := if bytes.head? = some 43 then bytes.tail else bytes
  let value := digits.foldl (fun n byte => radix * n + (byte.toNat - 48)) 0
  if digits ≠ [] ∧ digits.all (fun byte => 48 ≤ byte.toNat && byte.toNat < 48 + radix) ∧ value < 256
  then some (UInt8.ofNat value) else none

def INVALID_ESCAPE : String := "invalid octal escape"

/-- Whether three digits follow, asked one by one. -/
def hasDigits (bytes : List UInt8) (index : ℕ) : Decode Bool :=
  if index + 3 ≥ bytes.length then .ok false
  else do
    let first ← byteAt bytes (index + 1)
    if !isAsciiDigit first then return false
    let second ← byteAt bytes (index + 2)
    if !isAsciiDigit second then return false
    let third ← byteAt bytes (index + 3)
    return isAsciiDigit third

/-- The byte that an escape stands for. -/
def decodeEscape (bytes : List UInt8) (index : ℕ) : Decode UInt8 := do
  let digits ← hasDigits bytes index
  if !digits then throw (.Error INVALID_ESCAPE)
  let octal ← textSlice bytes (index + 1) (index + 4)
  match fromStrRadix 8 octal with
  | some byte => return byte
  | none => throw (.Error INVALID_ESCAPE)

/-- The loop of `decode_mountinfo_path`. -/
def decodeFrom (bytes : List UInt8) (index : ℕ) : Decode (List UInt8) :=
  if index < bytes.length then do
    let byte ← byteAt bytes index
    if byte ≠ 92 then
      let decoded ← decodeFrom bytes (index + 1)
      return byte :: decoded
    else
      let byte ← decodeEscape bytes index
      let decoded ← decodeFrom bytes (index + 4)
      return byte :: decoded
  else .ok []
termination_by bytes.length - index

def decodeMountinfoPath (value : String) : Decode (List UInt8) := decodeFrom (asBytes value) 0

/-! ## Reading the lines -/

def mountinfoLine (line_number : ℕ) (message : String) : Failure :=
  .Error (.Namespace ("mountinfo line " ++ toString (line_number + 1) ++ message))

/-- A line that is not blank. -/
def parseMount (line : String) (line_number : ℕ) : Except Failure MountInfoEntry :=
  match splitOnce " - ".toList line.toList with
  | none => .error (mountinfoLine line_number " has no filesystem separator")
  | some (mount_fields, filesystem_fields) =>
    match splitWhitespace (String.ofList mount_fields) with
    | mount_id :: _ :: _ :: _ :: mount_point :: _ :: _ =>
      if (splitWhitespace (String.ofList filesystem_fields)).isEmpty then
        .error (mountinfoLine line_number " is malformed")
      else
        match parseUnsigned (2 ^ 64) mount_id with
        | none => .error (mountinfoLine line_number " contains an invalid mount ID")
        | some mount_id =>
          match decodeMountinfoPath mount_point with
          | .error .Panic => .error .Panic
          | .error (.Error message) => .error (mountinfoLine line_number (": " ++ message))
          | .ok mount_point =>
            -- `is_absolute`: the path starts with a slash
            if mount_point.head? ≠ some 47 then
              .error (mountinfoLine line_number " has a non-absolute mount point")
            else .ok ⟨UInt64.ofNat mount_id, mount_point⟩
    | _ => .error (mountinfoLine line_number " is malformed")

/-- The loop of `parse_mountinfo` over the numbered lines. -/
def parseMounts : List String → ℕ → Except Failure (List MountInfoEntry)
  | [], _ => .ok []
  | line :: rest, line_number =>
    if isBlank line then parseMounts rest (line_number + 1)
    else do
      let entry ← parseMount line line_number
      let entries ← parseMounts rest (line_number + 1)
      return entry :: entries

/-- `NamespaceOps::parse_mountinfo`. -/
def parseMountinfo (contents : String) : Except Failure (List MountInfoEntry) :=
  parseMounts (lines contents) 0

/-! ## What the kernel writes -/

/-- The characters of a path that the kernel writes as octal numbers. -/
def isEscaped (c : Char) : Bool := c = ' ' || c = '\t' || c = '\n' || c = '\\'

def escapeChar (c : Char) : List Char :=
  if c = ' ' then ['\\', '0', '4', '0']
  else if c = '\t' then ['\\', '0', '1', '1']
  else if c = '\n' then ['\\', '0', '1', '2']
  else if c = '\\' then ['\\', '1', '3', '4']
  else [c]

def escapePath (path : List Char) : List Char := path.flatMap escapeChar

/-- A field of a line that is no path. -/
structure Word where
  chars : List Char
  ne_nil : chars ≠ []
  solid : ∀ c ∈ chars, isWhitespace c = false
  kept : chars ≠ ['-']

def Word.ofChars (chars : List Char) (ne_nil : chars ≠ [])
    (h : chars.all (fun c => !isWhitespace c) = true) (kept : chars ≠ ['-']) : Word :=
  ⟨chars, ne_nil, fun c hc => by simpa using List.all_eq_true.mp h c hc, kept⟩

/-- A mount, with paths of any characters. What follows the type of the filesystem is not read. -/
structure Mount where
  mount_id : UInt64
  parent_id : ℕ
  device : Word
  root : List Char
  mount_point : String
  options : Word
  optional : List Word
  filesystem : Word
  details : String
  root_seen : ∃ c rest, root = c :: rest ∧ isWhitespace c = false
  root_kept : root ≠ ['-']
  absolute : isAbsolute mount_point = true
  details_line : '\n' ∉ details.toList

variable {mount : Mount}

/-- The fields before the separator. -/
def Mount.fields (mount : Mount) : List (List Char) :=
  (toString mount.mount_id.toNat).toList :: (toString mount.parent_id).toList :: mount.device.chars ::
    escapePath mount.root :: escapePath mount.mount_point.toList :: mount.options.chars ::
    mount.optional.map Word.chars

def Mount.front (mount : Mount) : String :=
  String.ofList ([' '].intercalate mount.fields ++ " - ".toList ++ mount.filesystem.chars ++ [' '])

def Mount.line (mount : Mount) : String := mount.front ++ mount.details

def mountinfo (mounts : List Mount) : String := unlines (mounts.map Mount.line)

/-- White space that the kernel does not escape. -/
def isStray (c : Char) : Bool := isWhitespace c && !isEscaped c

/-- The pieces between the stray white space of a path. -/
def pieces (path : List Char) : List (List Char) := (path.splitOnP isStray).filter (· ≠ [])

/-- The pieces that stand where the line has the two paths. -/
def Mount.pathPieces (mount : Mount) : List (List Char) :=
  pieces mount.root ++ pieces mount.mount_point.toList

/-! ## Decoding undoes the escapes -/

variable {bytes : List UInt8} {index : ℕ}

theorem byteAt_eq_ok_iff {byte : UInt8} : byteAt bytes index = .ok byte ↔ bytes[index]? = some byte := by
  rw [byteAt]
  cases bytes[index]? with
  | none => simp
  | some found => simp

theorem decodeFrom_end (h : bytes.length ≤ index) : decodeFrom bytes index = .ok [] := by
  rw [decodeFrom, if_neg (Nat.not_lt.mpr h)]

theorem decodeFrom_byte {byte : UInt8} {decoded : List UInt8} (hbyte : bytes[index]? = some byte)
    (hplain : byte ≠ 92) (h : decodeFrom bytes (index + 1) = .ok decoded) :
    decodeFrom bytes index = .ok (byte :: decoded) := by
  rw [decodeFrom, if_pos (List.getElem?_eq_some_iff.mp hbyte).1, byteAt_eq_ok_iff.mpr hbyte,
    ok_bind, if_pos hplain, h]
  rfl

theorem decodeFrom_escape {byte : UInt8} {decoded : List UInt8} (hmark : bytes[index]? = some 92)
    (hescape : decodeEscape bytes index = .ok byte)
    (h : decodeFrom bytes (index + 4) = .ok decoded) :
    decodeFrom bytes index = .ok (byte :: decoded) := by
  rw [decodeFrom, if_pos (List.getElem?_eq_some_iff.mp hmark).1, byteAt_eq_ok_iff.mpr hmark,
    ok_bind, if_neg (not_not.mpr rfl), hescape, ok_bind, h]
  rfl

/-- Bytes without a backslash are decoded to themselves. -/
theorem decodeFrom_plain {front plain decoded : List UInt8} (hplain : ∀ byte ∈ plain, byte ≠ 92)
    (hfront : ∃ rest, bytes = front ++ plain ++ rest)
    (h : decodeFrom bytes (front ++ plain).length = .ok decoded) :
    decodeFrom bytes front.length = .ok (plain ++ decoded) := by
  induction plain generalizing front with
  | nil => rwa [List.append_nil] at h
  | cons byte plain ih =>
    obtain ⟨rest, hrest⟩ := hfront
    rw [List.forall_mem_cons] at hplain
    have hbyte : bytes[front.length]? = some byte := by
      rw [hrest]
      simp
    refine decodeFrom_byte hbyte hplain.1 ?_
    have hnext := @ih (front ++ [byte]) hplain.2 ⟨rest, by rw [hrest]; simp⟩ (by simpa using h)
    rwa [List.length_append] at hnext

theorem hasDigits_eq_true_iff : hasDigits bytes index = .ok true ↔
    ∃ a b c, bytes[index + 1]? = some a ∧ bytes[index + 2]? = some b ∧ bytes[index + 3]? = some c ∧
      isAsciiDigit a = true ∧ isAsciiDigit b = true ∧ isAsciiDigit c = true := by
  rw [hasDigits]
  split_ifs with hshort
  · refine iff_of_false nofun ?_
    rintro ⟨a, b, c, -, -, hc, -⟩
    have := (List.getElem?_eq_some_iff.mp hc).1
    omega
  · simp only [bind_ok_iff, byteAt_eq_ok_iff]
    constructor
    · rintro ⟨a, ha, h⟩
      cases hda : isAsciiDigit a with
      | false =>
        rw [hda] at h
        cases h
      | true =>
        rw [hda] at h
        obtain ⟨b, hb, h⟩ := bind_ok_iff.mp h
        cases hdb : isAsciiDigit b with
        | false =>
          rw [hdb] at h
          cases h
        | true =>
          rw [hdb] at h
          obtain ⟨c, hc, h⟩ := bind_ok_iff.mp h
          exact ⟨a, b, c, ha, byteAt_eq_ok_iff.mp hb, byteAt_eq_ok_iff.mp hc, hda, hdb,
            pure_ok_iff.mp h⟩
    · rintro ⟨a, b, c, ha, hb, hc, hda, hdb, hdc⟩
      refine ⟨a, ha, ?_⟩
      rw [hda]
      refine bind_ok_iff.mpr ⟨b, byteAt_eq_ok_iff.mpr hb, ?_⟩
      rw [hdb]
      exact bind_ok_iff.mpr ⟨c, byteAt_eq_ok_iff.mpr hc, pure_ok_iff.mpr hdc⟩

theorem isAsciiDigit_lt {byte : UInt8} (h : isAsciiDigit byte = true) : byte.toNat < 0x80 := by
  rw [isAsciiDigit, Bool.and_eq_true, decide_eq_true_iff, decide_eq_true_iff] at h
  have hle := UInt8.le_iff_toNat_le.mp h.2
  have hnine : (57 : UInt8).toNat = 57 := rfl
  omega

theorem take_drop_three {a b c : UInt8} (ha : bytes[index + 1]? = some a)
    (hb : bytes[index + 2]? = some b) (hc : bytes[index + 3]? = some c) :
    (bytes.drop (index + 1)).take 3 = [a, b, c] := by
  obtain ⟨hla, rfl⟩ := List.getElem?_eq_some_iff.mp ha
  obtain ⟨hlb, rfl⟩ := List.getElem?_eq_some_iff.mp hb
  obtain ⟨hlc, rfl⟩ := List.getElem?_eq_some_iff.mp hc
  rw [List.drop_eq_getElem_cons hla, List.take_succ_cons, List.drop_eq_getElem_cons hlb,
    List.take_succ_cons, List.drop_eq_getElem_cons hlc, List.take_succ_cons, List.take_zero]

/-- Digits may be cut out of a text. -/
theorem textSlice_digits {chars : List Char} {a b c : UInt8}
    (ha : (encodeChars chars)[index + 1]? = some a) (hb : (encodeChars chars)[index + 2]? = some b)
    (hc : (encodeChars chars)[index + 3]? = some c) (hda : isAsciiDigit a = true)
    (hdc : isAsciiDigit c = true) :
    textSlice (encodeChars chars) (index + 1) (index + 4) = .ok [a, b, c] := by
  have hstart := isCharBoundary_of_ascii ha (isAsciiDigit_lt hda)
  have hstop := isCharBoundary_succ hc (isAsciiDigit_lt hdc)
  have hthree : index + 4 - (index + 1) = 3 := by omega
  rw [textSlice, if_pos ⟨by omega, hstart, hstop⟩, hthree, take_drop_three ha hb hc]

theorem decodeEscape_digits {chars : List Char} {a b c byte : UInt8}
    (ha : (encodeChars chars)[index + 1]? = some a) (hb : (encodeChars chars)[index + 2]? = some b)
    (hc : (encodeChars chars)[index + 3]? = some c) (hda : isAsciiDigit a = true)
    (hdb : isAsciiDigit b = true) (hdc : isAsciiDigit c = true)
    (hbyte : fromStrRadix 8 [a, b, c] = some byte) :
    decodeEscape (encodeChars chars) index = .ok byte := by
  have hdigits := hasDigits_eq_true_iff.mpr ⟨a, b, c, ha, hb, hc, hda, hdb, hdc⟩
  rw [decodeEscape, hdigits, ok_bind]
  show (textSlice _ _ _ >>= _ : Decode UInt8) = _
  rw [textSlice_digits ha hb hc hda hdc, ok_bind, hbyte]
  rfl

/-! ## No index outside the bytes -/

abbrev Panics {α : Type} (x : Decode α) : Prop := Fails (· = .Panic) x

theorem not_panics_bind {α β : Type} {x : Decode α} {f : α → Decode β} (hx : ¬ Panics x)
    (hf : ∀ a, x = .ok a → ¬ Panics (f a)) : ¬ Panics (x >>= f) := by
  intro h
  rcases fails_bind_iff.mp h with h | ⟨a, ha, h⟩
  · exact hx h
  · exact hf a ha h

theorem not_panics_invalid {α : Type} : ¬ Panics (throw (.Error INVALID_ESCAPE) : Decode α) := by
  intro h
  cases fails_error_iff.mp h

theorem not_panics_byteAt (h : index < bytes.length) : ¬ Panics (byteAt bytes index) := by
  rw [byteAt_eq_ok_iff.mpr (List.getElem?_eq_getElem h)]
  exact not_fails_ok _

theorem not_panics_hasDigits : ¬ Panics (hasDigits bytes index) := by
  rw [hasDigits]
  split_ifs with hshort
  · exact not_fails_ok _
  refine not_panics_bind (not_panics_byteAt (by omega)) fun first _ => ?_
  cases isAsciiDigit first with
  | false => exact not_fails_ok _
  | true =>
    refine not_panics_bind (not_panics_byteAt (by omega)) fun second _ => ?_
    cases isAsciiDigit second with
    | false => exact not_fails_ok _
    | true => exact not_panics_bind (not_panics_byteAt (by omega)) fun _ _ => not_fails_ok _

theorem not_panics_decodeEscape (chars : List Char) (index : ℕ) :
    ¬ Panics (decodeEscape (encodeChars chars) index) := by
  refine not_panics_bind not_panics_hasDigits fun digits hdigits => ?_
  cases digits with
  | false => exact not_panics_invalid
  | true =>
    obtain ⟨a, b, c, ha, hb, hc, hda, -, hdc⟩ := hasDigits_eq_true_iff.mp hdigits
    show ¬ Panics (textSlice _ _ _ >>= _ : Decode UInt8)
    rw [textSlice_digits ha hb hc hda hdc, ok_bind]
    cases fromStrRadix 8 [a, b, c] with
    | none => exact not_panics_invalid
    | some byte => exact not_fails_ok byte

/-- Wherever the loop is in a text, it goes on inside it. -/
theorem not_panics_decodeFrom (chars : List Char) (index : ℕ) :
    ¬ Panics (decodeFrom (encodeChars chars) index) := by
  induction hleft : (encodeChars chars).length - index using Nat.strong_induction_on
    generalizing index with
  | _ left ih =>
    subst hleft
    rw [decodeFrom]
    split_ifs with hindex
    · refine not_panics_bind (not_panics_byteAt hindex) fun byte _ => ?_
      split_ifs
      · refine not_panics_bind (ih _ ?_ _ rfl) fun _ _ => not_fails_ok _
        omega
      · refine not_panics_bind (not_panics_decodeEscape chars index) fun _ _ => ?_
        refine not_panics_bind (ih _ ?_ _ rfl) fun _ _ => not_fails_ok _
        omega
    · exact not_fails_ok _

theorem decodeMountinfoPath_ne_panic (field : String) : decodeMountinfoPath field ≠ .error .Panic :=
  fun h => not_panics_decodeFrom field.toList 0 ⟨_, h, rfl⟩

/-! ## Every path is decoded from its escapes -/

theorem utf8EncodeChar_ne_backslash {c : Char} (h : c ≠ '\\') :
    ∀ byte ∈ String.utf8EncodeChar c, byte ≠ 92 := by
  intro byte hbyte hmark
  rcases Nat.lt_or_ge c.toNat 0x80 with hascii | hhigh
  · rw [utf8EncodeChar_ascii hascii, List.mem_singleton] at hbyte
    have hcode : (UInt8.ofNat c.toNat).toNat = 92 := by rw [← hbyte, hmark]; rfl
    rw [toNat_ofNat_of_lt (by omega)] at hcode
    exact h (Char.toNat_inj.mp hcode)
  · have := utf8EncodeChar_high hhigh byte hbyte
    rw [hmark] at this
    exact absurd this (by decide)

theorem escapeChar_cases (c : Char) :
    (escapeChar c = [c] ∧ c ≠ '\\') ∨ ∃ x y z byte, escapeChar c = ['\\', x, y, z] ∧
      encodeChars ['\\', x, y, z] = [92, UInt8.ofNat x.toNat, UInt8.ofNat y.toNat, UInt8.ofNat z.toNat] ∧
      isAsciiDigit (UInt8.ofNat x.toNat) = true ∧ isAsciiDigit (UInt8.ofNat y.toNat) = true ∧
      isAsciiDigit (UInt8.ofNat z.toNat) = true ∧
      fromStrRadix 8 [UInt8.ofNat x.toNat, UInt8.ofNat y.toNat, UInt8.ofNat z.toNat] = some byte ∧
      String.utf8EncodeChar c = [byte] := by
  rw [escapeChar]
  split_ifs with hspace htab hnewline hbackslash
  · subst hspace
    exact Or.inr ⟨'0', '4', '0', 32, by decide⟩
  · subst htab
    exact Or.inr ⟨'0', '1', '1', 9, by decide⟩
  · subst hnewline
    exact Or.inr ⟨'0', '1', '2', 10, by decide⟩
  · subst hbackslash
    exact Or.inr ⟨'1', '3', '4', 92, by decide⟩
  · exact Or.inl ⟨rfl, hbackslash⟩

theorem escapePath_cons (c : Char) (path : List Char) :
    escapePath (c :: path) = escapeChar c ++ escapePath path := rfl

/-- From the end of what was read before, a path is decoded to its bytes. -/
theorem decodeFrom_escapePath (front path : List Char) :
    decodeFrom (encodeChars (front ++ escapePath path)) (encodeChars front).length =
      .ok (encodeChars path) := by
  induction path generalizing front with
  | nil =>
    rw [escapePath, List.flatMap_nil, List.append_nil]
    exact decodeFrom_end (Nat.le_refl _)
  | cons c path ih =>
    have hnext := ih (front ++ escapeChar c)
    rw [List.append_assoc, ← escapePath_cons] at hnext
    rw [encodeChars_cons]
    rcases escapeChar_cases c with ⟨hplain, hne⟩ | ⟨x, y, z, byte, hescape, hbytes, hx, hy, hz, hoctal, hbyte⟩
    · have hsingle : encodeChars [c] = String.utf8EncodeChar c := List.append_nil _
      rw [hplain, encodeChars_append front [c], hsingle] at hnext
      refine decodeFrom_plain (utf8EncodeChar_ne_backslash hne) ?_ hnext
      refine ⟨encodeChars (escapePath path), ?_⟩
      rw [encodeChars_append, escapePath_cons, hplain, encodeChars_append, hsingle, List.append_assoc]
    · have hall : encodeChars (front ++ escapePath (c :: path)) = encodeChars front ++
          [92, UInt8.ofNat x.toNat, UInt8.ofNat y.toNat, UInt8.ofNat z.toNat] ++
          encodeChars (escapePath path) := by
        rw [encodeChars_append, escapePath_cons, encodeChars_append, hescape, hbytes,
          List.append_assoc]
      have hlength : (encodeChars (front ++ escapeChar c)).length = (encodeChars front).length + 4 := by
        rw [encodeChars_append, List.length_append, hescape, hbytes]
        rfl
      rw [hlength] at hnext
      rw [hbyte, List.singleton_append]
      refine decodeFrom_escape ?_ (decodeEscape_digits ?_ ?_ ?_ hx hy hz hoctal) hnext
      all_goals
        rw [hall]
        simp

theorem decodeMountinfoPath_escapePath (path : List Char) :
    decodeMountinfoPath (String.ofList (escapePath path)) = .ok (encodeChars path) := by
  rw [decodeMountinfoPath, asBytes, String.toList_ofList]
  exact decodeFrom_escapePath [] path

/-! ## The words of a line -/

theorem escapeChar_ne_nil (c : Char) : escapeChar c ≠ [] := by
  rw [escapeChar]
  split_ifs
  all_goals exact List.cons_ne_nil _ _

theorem escapeChar_of_not_escaped {c : Char} (h : isEscaped c = false) : escapeChar c = [c] := by
  simp only [isEscaped, Bool.or_eq_false_iff, decide_eq_false_iff_not] at h
  rw [escapeChar, if_neg h.1.1.1, if_neg h.1.1.2, if_neg h.1.2, if_neg h.2]

theorem escapeChar_solid {c : Char} (h : isEscaped c = true) :
    ∀ d ∈ escapeChar c, isWhitespace d = false := by
  have hall : (escapeChar c).all (fun d => !isWhitespace d) = true := by
    simp only [isEscaped, Bool.or_eq_true, decide_eq_true_iff] at h
    rcases h with ((rfl | rfl) | rfl) | rfl
    all_goals rfl
  intro d hd
  simpa using List.all_eq_true.mp hall d hd

/-- An escaped path falls into the words that its pieces are written as. -/
theorem wordsOf_escapePath (path : List Char) :
    wordsOf (escapePath path) = (pieces path).map escapePath := by
  have hsplit : (escapePath path).splitOnP isWhitespace = (path.splitOnP isStray).map escapePath := by
    refine splitOnP_flatMap ?_ ?_ path
    · intro c hc
      rw [isStray, Bool.and_eq_true, Bool.not_eq_true'] at hc
      exact ⟨c, escapeChar_of_not_escaped hc.2, hc.1⟩
    · intro c hc
      cases hescaped : isEscaped c with
      | true => exact escapeChar_solid hescaped
      | false =>
        rw [isStray, hescaped, Bool.not_false, Bool.and_true] at hc
        rw [escapeChar_of_not_escaped hescaped]
        exact fun d hd => List.mem_singleton.mp hd ▸ hc
  have hempty : ∀ piece : List Char, escapePath piece = [] ↔ piece = [] := by
    intro piece
    cases piece with
    | nil => exact iff_of_true rfl rfl
    | cons c piece =>
      refine iff_of_false (fun h => ?_) (List.cons_ne_nil _ _)
      exact escapeChar_ne_nil c (List.append_eq_nil_iff.mp h).1
  rw [wordsOf, hsplit, List.filter_map, pieces]
  congr 1
  refine List.filter_congr fun piece _ => ?_
  simp [hempty piece]

theorem pieces_cons {c : Char} (path : List Char) (h : isStray c = false) :
    ∃ piece more, pieces (c :: path) = (c :: piece) :: more := by
  obtain ⟨first, more, hsplit⟩ := List.exists_cons_of_ne_nil (List.splitOnP_ne_nil isStray path)
  refine ⟨first, more.filter (· ≠ []), ?_⟩
  rw [pieces, List.splitOnP_cons_eq_if_modifyHead, if_neg (by simp [h]), hsplit]
  rfl

theorem isWhitespace_of_isDigit {c : Char} (h : c.isDigit = true) : isWhitespace c = false := by
  rw [Char.isDigit, Bool.and_eq_true, decide_eq_true_iff, decide_eq_true_iff] at h
  have hlow : 48 ≤ c.toNat := UInt32.le_iff_toNat_le.mp h.1
  have hhigh : c.toNat ≤ 57 := UInt32.le_iff_toNat_le.mp h.2
  simp only [isWhitespace, Bool.or_eq_false_iff, Bool.and_eq_false_iff, decide_eq_false_iff_not,
    beq_eq_false_iff_ne]
  omega

theorem toString_solid (n : ℕ) : ∀ c ∈ (toString n).toList, isWhitespace c = false := by
  have hdecimal := isDecimal_repr n
  rw [isDecimal, Bool.and_eq_true, List.all_eq_true] at hdecimal
  exact fun c hc => isWhitespace_of_isDigit (hdecimal.2 c hc)

theorem toString_ne_nil (n : ℕ) : (toString n).toList ≠ [] := by
  intro h
  have hdecimal := isDecimal_repr n
  rw [h] at hdecimal
  cases hdecimal

theorem flatMap_wordsOf_words (words : List Word) :
    (words.map Word.chars).flatMap wordsOf = words.map Word.chars := by
  induction words with
  | nil => rfl
  | cons word words ih =>
    rw [List.map_cons, List.flatMap_cons, ih, wordsOf_of_solid word.ne_nil word.solid]
    rfl

theorem Mount.wordsOf_fields (mount : Mount) : mount.fields.flatMap wordsOf =
    (toString mount.mount_id.toNat).toList :: (toString mount.parent_id).toList ::
      mount.device.chars :: (mount.pathPieces.map escapePath ++ mount.options.chars ::
        mount.optional.map Word.chars) := by
  rw [fields]
  simp only [List.flatMap_cons]
  rw [wordsOf_of_solid (toString_ne_nil _) (toString_solid _),
    wordsOf_of_solid (toString_ne_nil _) (toString_solid _),
    wordsOf_of_solid mount.device.ne_nil mount.device.solid,
    wordsOf_of_solid mount.options.ne_nil mount.options.solid,
    wordsOf_escapePath, wordsOf_escapePath, flatMap_wordsOf_words, pathPieces, List.map_append]
  simp

/-! ## The separator of a line -/

/-- A word other than the hyphen does not look like the separator. -/
theorem not_separator {word : List Char} (hspace : ' ' ∉ word) (hkept : word ≠ ['-'])
    (rest : List Char) : (" - ".toList).isPrefixOf (' ' :: (word ++ ' ' :: rest)) = false := by
  cases word with
  | nil => rfl
  | cons c word =>
    cases word with
    | nil =>
      have hc : c ≠ '-' := fun h => hkept (by rw [h])
      simp [List.isPrefixOf, hc.symm]
    | cons d word =>
      have hd : ' ' ≠ d := fun h => hspace (h ▸ List.mem_cons_of_mem _ List.mem_cons_self)
      simp [List.isPrefixOf, hd]

theorem intercalate_space (word : List Char) (words : List (List Char)) (after : List Char) :
    ∃ rest, [' '].intercalate (word :: words) ++ (" - ".toList ++ after) = word ++ ' ' :: rest := by
  cases words with
  | nil => exact ⟨'-' :: ' ' :: after, by rw [List.intercalate_singleton]; rfl⟩
  | cons next words => exact ⟨_, by rw [List.intercalate_cons_cons, List.append_assoc, List.append_assoc]; rfl⟩

theorem splitOnce_separator {words : List (List Char)} (hne : words ≠ [])
    (h : ∀ word ∈ words, ' ' ∉ word ∧ word ≠ ['-']) (after : List Char) :
    splitOnce " - ".toList ([' '].intercalate words ++ (" - ".toList ++ after)) =
      some ([' '].intercalate words, after) := by
  induction words with
  | nil => exact absurd rfl hne
  | cons word words ih =>
    rw [List.forall_mem_cons] at h
    cases words with
    | nil =>
      rw [List.intercalate_singleton]
      show splitOnce (' ' :: ['-', ' ']) _ = _
      rw [splitOnce_skip h.1.1]
      show Option.map _ (splitOnce [' ', '-', ' '] (' ' :: '-' :: ' ' :: after)) = _
      rw [splitOnce, if_pos (by simp)]
      simp
    | cons next words =>
      have hnext := ih (List.cons_ne_nil _ _) h.2
      have hword := (List.forall_mem_cons.mp h.2).1
      obtain ⟨rest, hrest⟩ := intercalate_space next words after
      have hstep : splitOnce " - ".toList (' ' :: ([' '].intercalate (next :: words) ++
          (" - ".toList ++ after))) = some (' ' :: [' '].intercalate (next :: words), after) := by
        rw [splitOnce, hnext, hrest, if_neg (by rw [not_separator hword.1 hword.2]; decide)]
        rfl
      rw [List.intercalate_cons_cons, List.append_assoc, List.append_assoc]
      show splitOnce (' ' :: ['-', ' ']) _ = _
      rw [splitOnce_skip h.1.1]
      show Option.map _ (splitOnce " - ".toList
        (' ' :: ([' '].intercalate (next :: words) ++ (" - ".toList ++ after)))) = _
      rw [hstep, Option.map_some, List.append_assoc, List.singleton_append]

/-! ## The fields of a line -/

theorem free_of_solid {field : List Char} (h : ∀ c ∈ field, isWhitespace c = false) :
    ' ' ∉ field ∧ '\n' ∉ field :=
  ⟨fun hmem => absurd (h _ hmem) (by decide), fun hmem => absurd (h _ hmem) (by decide)⟩

theorem escapeChar_free (c : Char) : ' ' ∉ escapeChar c ∧ '\n' ∉ escapeChar c := by
  cases h : isEscaped c with
  | true => exact free_of_solid (escapeChar_solid h)
  | false =>
    rw [escapeChar_of_not_escaped h, List.mem_singleton, List.mem_singleton]
    constructor
    all_goals
      rintro rfl
      cases h

theorem escapePath_free (path : List Char) : ' ' ∉ escapePath path ∧ '\n' ∉ escapePath path := by
  constructor
  all_goals
    intro h
    obtain ⟨c, -, hc⟩ := List.mem_flatMap.mp h
  · exact (escapeChar_free c).1 hc
  · exact (escapeChar_free c).2 hc

theorem escapePath_ne_hyphen {path : List Char} (h : path ≠ ['-']) : escapePath path ≠ ['-'] := by
  cases path with
  | nil => exact nofun
  | cons c path =>
    intro heq
    rw [escapePath_cons] at heq
    rcases escapeChar_cases c with ⟨hplain, -⟩ | ⟨x, y, z, byte, hescape, -⟩
    · rw [hplain, List.singleton_append, List.cons.injEq] at heq
      cases path with
      | nil => exact h (by rw [heq.1])
      | cons d path => exact escapeChar_ne_nil d (List.append_eq_nil_iff.mp heq.2).1
    · rw [hescape] at heq
      cases heq

theorem head_of_isAbsolute {path : String} (h : isAbsolute path = true) :
    ∃ rest, path.toList = '/' :: rest := by
  obtain ⟨rest, rfl⟩ := startsWith_iff.mp h
  exact ⟨rest.toList, String.toList_append⟩

theorem Mount.fields_kept (mount : Mount) :
    ∀ field ∈ mount.fields, ' ' ∉ field ∧ '\n' ∉ field ∧ field ≠ ['-'] := by
  have hsolid : ∀ field : List Char, (∀ c ∈ field, isWhitespace c = false) → field ≠ ['-'] →
      ' ' ∉ field ∧ '\n' ∉ field ∧ field ≠ ['-'] :=
    fun field h hne => ⟨(free_of_solid h).1, (free_of_solid h).2, hne⟩
  have hword : ∀ word : Word, ' ' ∉ word.chars ∧ '\n' ∉ word.chars ∧ word.chars ≠ ['-'] :=
    fun word => hsolid word.chars word.solid word.kept
  have hnumber : ∀ n : ℕ, (toString n).toList ≠ ['-'] := by
    intro n h
    have hdecimal := isDecimal_repr n
    rw [h] at hdecimal
    cases hdecimal
  have hpath : ∀ path : List Char, path ≠ ['-'] →
      ' ' ∉ escapePath path ∧ '\n' ∉ escapePath path ∧ escapePath path ≠ ['-'] :=
    fun path h => ⟨(escapePath_free path).1, (escapePath_free path).2, escapePath_ne_hyphen h⟩
  have hpoint : mount.mount_point.toList ≠ ['-'] := by
    obtain ⟨rest, hrest⟩ := head_of_isAbsolute mount.absolute
    rw [hrest]
    exact nofun
  rw [fields]
  simp only [List.forall_mem_cons]
  refine ⟨hsolid _ (toString_solid _) (hnumber _), hsolid _ (toString_solid _) (hnumber _),
    hword _, hpath _ mount.root_kept, hpath _ hpoint, hword _, ?_⟩
  intro field hfield
  obtain ⟨word, -, rfl⟩ := List.mem_map.mp hfield
  exact hword word

/-! ## What is read of a line -/

theorem Mount.toList_front (mount : Mount) : mount.front.toList =
    [' '].intercalate mount.fields ++ " - ".toList ++ mount.filesystem.chars ++ [' '] :=
  String.toList_ofList

theorem Mount.fields_ne_nil (mount : Mount) : mount.fields ≠ [] := List.cons_ne_nil _ _

/-- The second piece is what the line has where the mount point is looked for. -/
theorem Mount.exists_second (mount : Mount) :
    ∃ first second more, mount.pathPieces = first :: second :: more := by
  obtain ⟨c, rest, hroot, hc⟩ := mount.root_seen
  obtain ⟨rest', hpoint⟩ := head_of_isAbsolute mount.absolute
  have hstray : isStray c = false := by rw [isStray, hc, Bool.false_and]
  obtain ⟨first, more, hfirst⟩ := pieces_cons rest hstray
  obtain ⟨second, more', hsecond⟩ := pieces_cons (c := '/') rest' rfl
  rw [pathPieces, hroot, hpoint, hfirst, hsecond]
  cases more with
  | nil => exact ⟨_, _, _, rfl⟩
  | cons next more => exact ⟨_, _, _, rfl⟩

theorem head_utf8 (path : List Char) : (encodeChars path).head? = some 47 ↔ path.head? = some '/' := by
  cases path with
  | nil => exact iff_of_false nofun nofun
  | cons c path =>
    rw [encodeChars_cons, List.head?_cons, Option.some.injEq]
    constructor
    · intro h
      rcases Nat.lt_or_ge c.toNat 0x80 with hascii | hhigh
      · rw [utf8EncodeChar_ascii hascii] at h
        have hcode := congrArg UInt8.toNat (Option.some.inj h)
        rw [toNat_ofNat_of_lt (by omega)] at hcode
        exact Char.toNat_inj.mp hcode
      · obtain ⟨first, rest, hencode, -⟩ := utf8EncodeChar_head c
        have hlow := utf8EncodeChar_high hhigh first (hencode ▸ List.mem_cons_self)
        rw [hencode] at h
        rw [Option.some.inj h] at hlow
        exact absurd hlow (by decide)
    · rintro rfl
      rfl

theorem parseMount_line (mount : Mount) (details : String) (line_number : ℕ) {second : List Char}
    (hsecond : mount.pathPieces[1]? = some second) :
    parseMount (mount.front ++ details) line_number =
      if (encodeChars second).head? ≠ some 47 then
        .error (mountinfoLine line_number " has a non-absolute mount point")
      else .ok ⟨mount.mount_id, encodeChars second⟩ := by
  obtain ⟨first, second', more, hpieces⟩ := mount.exists_second
  rw [hpieces] at hsecond
  obtain rfl := Option.some.inj hsecond
  have hsplit : splitOnce " - ".toList (mount.front ++ details).toList =
      some ([' '].intercalate mount.fields, mount.filesystem.chars ++ ' ' :: details.toList) := by
    have hkept : ∀ field ∈ mount.fields, ' ' ∉ field ∧ field ≠ ['-'] :=
      fun field hfield => ⟨(mount.fields_kept field hfield).1, (mount.fields_kept field hfield).2.2⟩
    rw [String.toList_append, mount.toList_front, ← splitOnce_separator mount.fields_ne_nil hkept,
      List.append_assoc, List.append_assoc, List.append_assoc]
    rfl
  have hwords : splitWhitespace (String.ofList ([' '].intercalate mount.fields)) =
      toString mount.mount_id.toNat :: toString mount.parent_id ::
        String.ofList mount.device.chars :: String.ofList (escapePath first) ::
        String.ofList (escapePath second') :: ((more.map escapePath ++ mount.options.chars ::
          mount.optional.map Word.chars).map String.ofList) := by
    rw [splitWhitespace_ofList, wordsOf_intercalate, Mount.wordsOf_fields, hpieces]
    simp only [List.map_cons, List.cons_append, String.ofList_toList]
  have hfilesystem : (splitWhitespace (String.ofList
      (mount.filesystem.chars ++ ' ' :: details.toList))).isEmpty = false := by
    rw [splitWhitespace_ofList, wordsOf_append_cons rfl,
      wordsOf_of_solid mount.filesystem.ne_nil mount.filesystem.solid]
    rfl
  have hoptions : ∃ word words, (more.map escapePath ++ mount.options.chars ::
      mount.optional.map Word.chars).map String.ofList = word :: words := by
    cases more with
    | nil => exact ⟨_, _, rfl⟩
    | cons next more => exact ⟨_, _, rfl⟩
  obtain ⟨word, words, hword⟩ := hoptions
  have hid : parseUnsigned (2 ^ 64) (toString mount.mount_id.toNat) = some mount.mount_id.toNat :=
    parseUnsigned_repr mount.mount_id.toNat_lt
  rw [parseMount, hsplit]
  dsimp only
  rw [hwords, hword]
  dsimp only
  rw [hfilesystem, hid, decodeMountinfoPath_escapePath]
  dsimp only
  rw [if_neg Bool.false_ne_true, UInt64.ofNat_toNat]

/-! ## What is read of all the lines -/

theorem Mount.newline_free (mount : Mount) : '\n' ∉ mount.line.toList := by
  have hfields : '\n' ∉ [' '].intercalate mount.fields := by
    intro h
    obtain ⟨field, hfield, hin⟩ := exists_of_mem_intercalate (by decide) h
    exact (mount.fields_kept field hfield).2.1 hin
  rw [line, String.toList_append, mount.toList_front]
  simp only [List.mem_append, not_or]
  refine ⟨⟨⟨⟨hfields, by decide⟩, (free_of_solid mount.filesystem.solid).2⟩, by decide⟩,
    mount.details_line⟩

theorem Mount.stripReturn_line (mount : Mount) :
    ∃ details, stripReturn mount.line = mount.front ++ details := by
  refine stripReturn_append ?_ _
  rw [mount.toList_front, List.getLast?_concat]
  decide

theorem Mount.not_blank (mount : Mount) (details : String) : isBlank (mount.front ++ details) = false := by
  rw [isBlank, List.isEmpty_eq_false_iff, ne_eq, trim_eq_nil_iff]
  intro hwhite
  have hmem : '-' ∈ (mount.front ++ details).toList := by
    rw [String.toList_append, mount.toList_front]
    simp
  exact absurd (hwhite _ hmem) (by decide)

def points (read : Except Failure (List MountInfoEntry)) : Except Failure (List (List UInt8)) :=
  read.map fun entries => entries.map MountInfoEntry.mount_point

theorem points_parseMounts_iff (mounts : List Mount) (line_number : ℕ) :
    points (parseMounts ((mounts.map Mount.line).map stripReturn) line_number) =
        .ok (mounts.map fun mount => asBytes mount.mount_point) ↔
      ∀ mount ∈ mounts, mount.pathPieces[1]? = some mount.mount_point.toList := by
  induction mounts generalizing line_number with
  | nil => exact iff_of_true rfl nofun
  | cons mount mounts ih =>
    obtain ⟨details, hline⟩ := mount.stripReturn_line
    obtain ⟨first, second, more, hpieces⟩ := mount.exists_second
    have hsecond : mount.pathPieces[1]? = some second := by
      rw [hpieces]
      rfl
    rw [List.map_cons, List.map_cons, List.forall_mem_cons, hsecond, parseMounts, hline,
      if_neg (by rw [mount.not_blank]; decide), parseMount_line mount details line_number hsecond,
      ← ih (line_number + 1), Option.some.injEq]
    split_ifs with habsolute
    · refine iff_of_false nofun fun ⟨hpoint, _⟩ => habsolute ?_
      obtain ⟨rest, hrest⟩ := head_of_isAbsolute mount.absolute
      rw [head_utf8, hpoint, hrest]
      rfl
    · rw [ok_bind]
      cases hrest : parseMounts ((mounts.map Mount.line).map stripReturn) (line_number + 1) with
      | error failure => exact iff_of_false nofun fun ⟨_, h⟩ => nomatch h
      | ok entries =>
        show Except.ok (encodeChars second :: entries.map MountInfoEntry.mount_point) = Except.ok _ ↔
          _ ∧ Except.ok _ = Except.ok _
        rw [List.map_cons, Except.ok.injEq, Except.ok.injEq, List.cons.injEq]
        exact and_congr_left' encodeChars_injective.eq_iff

theorem lines_mountinfo (mounts : List Mount) :
    lines (mountinfo mounts) = (mounts.map Mount.line).map stripReturn := by
  refine lines_unlines fun row hrow => ?_
  obtain ⟨mount, -, rfl⟩ := List.mem_map.mp hrow
  exact mount.newline_free

/-- Without stray white space the second piece is the mount point. -/
theorem Mount.second_of_clean (hroot : ∀ c ∈ mount.root, isStray c = false) :
    mount.pathPieces[1]? = some mount.mount_point.toList ↔
      ∀ c ∈ mount.mount_point.toList, isStray c = false := by
  have hne : mount.root ≠ [] := by
    obtain ⟨c, rest, h, -⟩ := mount.root_seen
    rw [h]
    exact List.cons_ne_nil _ _
  have hpieces : pieces mount.root = [mount.root] := by
    rw [pieces, List.splitOnP_eq_singleton hroot, List.filter_cons_of_pos (by simpa using hne),
      List.filter_nil]
  obtain ⟨rest, hrest⟩ := head_of_isAbsolute mount.absolute
  rw [pathPieces, hpieces]
  show (pieces mount.mount_point.toList)[0]? = _ ↔ _
  constructor
  · intro h
    have hmem := List.mem_of_getElem? h
    rw [pieces, List.mem_filter] at hmem
    exact free_of_mem_splitOnP hmem.1
  · intro h
    rw [pieces, List.splitOnP_eq_singleton h, List.filter_cons_of_pos (by rw [hrest]; rfl)]
    rfl

/-- The mount points of the lines that the kernel wrote are read exactly when none of them is cut
at white space that the kernel leaves as it is, and no path stands in the place of one. -/
theorem mountinfo_gives_the_mount_points_iff (mounts : List Mount) :
    (points (parseMountinfo (mountinfo mounts)) =
        .ok (mounts.map fun mount => asBytes mount.mount_point) ↔
      ∀ mount ∈ mounts, mount.pathPieces[1]? = some mount.mount_point.toList) ∧
    ∀ field, decodeMountinfoPath field ≠ .error .Panic := by
  refine ⟨?_, decodeMountinfoPath_ne_panic⟩
  rw [parseMountinfo, lines_mountinfo]
  exact points_parseMounts_iff mounts 0

/-- A mount whose point has the ideographic space in it. -/
def ideographicMount : Mount where
  mount_id := 42
  parent_id := 1
  device := .ofChars ['0', ':', '1'] (by decide) rfl (by decide)
  root := ['/']
  mount_point := "/a" ++ String.singleton (Char.ofNat 0x3000) ++ "b"
  options := .ofChars ['r', 'w'] (by decide) rfl (by decide)
  optional := []
  filesystem := .ofChars ['e', 'x', 't', '4'] (by decide) rfl (by decide)
  details := "/dev/sda rw"
  root_seen := ⟨'/', [], rfl, rfl⟩
  root_kept := by decide
  absolute := rfl
  details_line := by decide

/-- The line is accepted, and the mount point that is read is the part before the space. -/
theorem ideographicMount_is_cut :
    points (parseMountinfo (mountinfo [ideographicMount])) = .ok [asBytes "/a"] ∧
      points (parseMountinfo (mountinfo [ideographicMount])) ≠
        .ok ([ideographicMount].map fun mount => asBytes mount.mount_point) := by
  have hsecond : ideographicMount.pathPieces[1]? = some ['/', 'a'] := rfl
  obtain ⟨details, hline⟩ := ideographicMount.stripReturn_line
  have hread : points (parseMountinfo (mountinfo [ideographicMount])) = .ok [asBytes "/a"] := by
    rw [parseMountinfo, lines_mountinfo, List.map_singleton, List.map_singleton, hline, parseMounts,
      if_neg (by rw [ideographicMount.not_blank]; decide),
      parseMount_line ideographicMount details 0 hsecond]
    rfl
  refine ⟨hread, ?_⟩
  rw [hread, List.map_singleton]
  intro h
  have hbytes := (List.cons.inj (Except.ok.inj h)).1
  exact absurd (asBytes_injective hbytes) (by decide)

end init_posix
