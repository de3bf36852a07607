-- The bytes of a text: which of them are ASCII, and where a text may be cut.
import Mathlib

namespace rust_text

/-! ## Encoding -/

def encodeChars (chars : List Char) : List UInt8 := chars.flatMap String.utf8EncodeChar

/-- `str::as_bytes`. -/
def asBytes (s : String) : List UInt8 := encodeChars s.toList

/-- A byte that is not the first of its character. -/
def isContinuation (byte : UInt8) : Bool := 0x80 ≤ byte && byte < 0xC0

/-- `str::is_char_boundary`, over the bytes of the text. -/
def isCharBoundary (bytes : List UInt8) (index : ℕ) : Bool :=
  index == bytes.length || bytes[index]?.any fun byte => !isContinuation byte

theorem encodeChars_cons (c : Char) (chars : List Char) :
    encodeChars (c :: chars) = String.utf8EncodeChar c ++ encodeChars chars := rfl

theorem encodeChars_append (s t : List Char) :
    encodeChars (s ++ t) = encodeChars s ++ encodeChars t := List.flatMap_append

theorem encodeChars_injective : Function.Injective encodeChars := by
  intro s t h
  have hbytes : s.utf8Encode = t.utf8Encode := congrArg List.toByteArray h
  rw [← String.toByteArray_ofList, ← String.toByteArray_ofList, String.toByteArray_inj] at hbytes
  exact String.ofList_inj.mp hbytes

theorem asBytes_injective : Function.Injective asBytes :=
  fun _ _ h => String.toList_inj.mp (encodeChars_injective h)

/-! ## The bytes of one character -/

theorem utf8EncodeChar_ascii {c : Char} (h : c.toNat < 0x80) :
    String.utf8EncodeChar c = [UInt8.ofNat c.toNat] := by
  unfold String.utf8EncodeChar
  exact if_pos (Nat.le_of_lt_succ h)

theorem toNat_ofNat_of_lt {n : ℕ} (h : n < 256) : (UInt8.ofNat n).toNat = n := Nat.mod_eq_of_lt h

/-- A character that is not ASCII has no ASCII byte. -/
theorem utf8EncodeChar_high {c : Char} (h : 0x80 ≤ c.toNat) :
    ∀ byte ∈ String.utf8EncodeChar c, 0x80 ≤ byte.toNat := by
  unfold String.utf8EncodeChar
  have hsmall : ¬ c.val.toNat ≤ 0x7f := Nat.not_le.mpr h
  dsimp only
  rw [if_neg hsmall]
  split_ifs
  all_goals
    intro byte hbyte
    simp only [List.mem_cons, List.not_mem_nil, or_false] at hbyte
    rcases hbyte with rfl | hbyte <;> try rcases hbyte with rfl | hbyte
    all_goals try rcases hbyte with rfl | hbyte
    all_goals
      try subst hbyte
      rw [toNat_ofNat_of_lt (by omega)]
      omega

/-- The first byte of a character starts it. -/
theorem utf8EncodeChar_head (c : Char) :
    ∃ first rest, String.utf8EncodeChar c = first :: rest ∧ isContinuation first = false := by
  have hfirst : ∀ n : ℕ, n < 256 → n < 0x80 ∨ 0xC0 ≤ n → isContinuation (UInt8.ofNat n) = false := by
    intro n hn hrange
    rw [isContinuation, Bool.and_eq_false_iff, decide_eq_false_iff_not, decide_eq_false_iff_not,
      UInt8.le_iff_toNat_le, UInt8.lt_iff_toNat_lt, toNat_ofNat_of_lt hn]
    show ¬ 128 ≤ n ∨ ¬ n < 192
    omega
  unfold String.utf8EncodeChar
  dsimp only
  split_ifs
  all_goals
    refine ⟨_, _, rfl, hfirst _ ?_ ?_⟩
    all_goals omega

/-! ## Cuts -/

/-- What follows an ASCII byte starts a character. -/
def Follows (a b : UInt8) : Prop := a.toNat < 0x80 → isContinuation b = false

theorem isChain_utf8EncodeChar (c : Char) : (String.utf8EncodeChar c).IsChain Follows := by
  by_cases h : c.toNat < 0x80
  · rw [utf8EncodeChar_ascii h]
    exact List.IsChain.singleton _
  · have hhigh := utf8EncodeChar_high (Nat.not_lt.mp h)
    refine List.isChain_iff_getElem.mpr fun i hi hascii => ?_
    exact absurd hascii (Nat.not_lt.mpr (hhigh _ (List.getElem_mem _)))

theorem isChain_encodeChars (chars : List Char) : (encodeChars chars).IsChain Follows := by
  induction chars with
  | nil => exact .nil
  | cons c chars ih =>
    rw [encodeChars_cons, List.isChain_append]
    refine ⟨isChain_utf8EncodeChar c, ih, ?_⟩
    intro a _ b hb _
    cases chars with
    | nil => exact nomatch hb
    | cons d chars =>
      obtain ⟨first, rest, hencode, hstart⟩ := utf8EncodeChar_head d
      rw [encodeChars_cons, hencode] at hb
      rw [← Option.some.inj hb]
      exact hstart

/-- A text may be cut behind each of its ASCII bytes. -/
theorem isCharBoundary_succ {chars : List Char} {index : ℕ} {byte : UInt8}
    (hbyte : (encodeChars chars)[index]? = some byte) (hascii : byte.toNat < 0x80) :
    isCharBoundary (encodeChars chars) (index + 1) = true := by
  obtain ⟨hindex, hget⟩ := List.getElem?_eq_some_iff.mp hbyte
  rw [isCharBoundary, Bool.or_eq_true, beq_iff_eq]
  rcases Nat.lt_or_ge (index + 1) (encodeChars chars).length with hlt | hge
  · right
    have hfollows := List.isChain_iff_getElem.mp (isChain_encodeChars chars) index hlt
    rw [hget] at hfollows
    rw [List.getElem?_eq_getElem hlt, Option.any_some, hfollows hascii]
    rfl
  · left
    omega

theorem isCharBoundary_of_ascii {bytes : List UInt8} {index : ℕ} {byte : UInt8}
    (hbyte : bytes[index]? = some byte) (hascii : byte.toNat < 0x80) :
    isCharBoundary bytes index = true := by
  have hstart : isContinuation byte = false := by
    rw [isContinuation, Bool.and_eq_false_iff, decide_eq_false_iff_not, UInt8.le_iff_toNat_le]
    exact Or.inl (Nat.not_le.mpr hascii)
  rw [isCharBoundary, hbyte, Option.any_some, hstart]
  exact Bool.or_true _

end rust_text
