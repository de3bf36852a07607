-- Frames with a length of four bytes before the payload.
import Mathlib

namespace frames

/-- `u32::from_be_bytes`. -/
def fromBeBytes (bytes : List UInt8) : Nat :=
  bytes.foldl (fun length byte => length * 256 + byte.toNat) 0

/-- `u32::to_be_bytes`. -/
def toBeBytes (length : Nat) : List UInt8 :=
  [UInt8.ofNat (length / 2 ^ 24), UInt8.ofNat (length / 2 ^ 16), UInt8.ofNat (length / 2 ^ 8),
    UInt8.ofNat length]

/-- A payload after its length. -/
def frame (payload : List UInt8) : List UInt8 := toBeBytes payload.length ++ payload

@[simp]
theorem length_toBeBytes (length : Nat) : (toBeBytes length).length = 4 := rfl

theorem fromBeBytes_toBeBytes {length : Nat} (h : length < 2 ^ 32) :
    fromBeBytes (toBeBytes length) = length := by
  simp only [toBeBytes, fromBeBytes, List.foldl_cons, List.foldl_nil, UInt8.toNat_ofNat']
  omega

/-- Four bytes are those of the length that they stand for. -/
theorem toBeBytes_fromBeBytes {bytes : List UInt8} (h : bytes.length = 4) :
    toBeBytes (fromBeBytes bytes) = bytes := by
  obtain ⟨a, b, c, d, rfl⟩ : ∃ a b c d, bytes = [a, b, c, d] := by
    match bytes, h with
    | [a, b, c, d], _ => exact ⟨a, b, c, d, rfl⟩
  have ha := a.toNat_lt
  have hb := b.toNat_lt
  have hc := c.toNat_lt
  have hd := d.toNat_lt
  simp only [toBeBytes, fromBeBytes, List.foldl_cons, List.foldl_nil, List.cons.injEq, and_true]
  refine ⟨?_, ?_, ?_, ?_⟩ <;> rw [← UInt8.toNat_inj, UInt8.toNat_ofNat'] <;> omega

end frames
