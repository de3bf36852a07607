-- Frames that begin with their length, as a reader meets them byte by byte: the start of a
-- frame is waited for, and a whole one is read for what it is.
import NixosDockers.Lib.Cursors

open cursors

namespace length_frames

/-- A payload behind its length, in so many bytes. -/
def frame (width : ℕ) (payload : List UInt8) : List UInt8 := toBe width payload.length ++ payload

inductive Piece where
  | Partial
  | Whole (payload rest : List UInt8)
  deriving DecidableEq

/-- What a reader of such a frame makes of the bytes that have come. -/
def readPiece (width : ℕ) (bytes : List UInt8) : Piece :=
  if bytes.length < width then .Partial
  else
    let length := fromBe (bytes.take width)
    if (bytes.drop width).length < length then .Partial
    else .Whole ((bytes.drop width).take length) ((bytes.drop width).drop length)

variable {width : ℕ} {payload rest bytes : List UInt8}

@[simp] theorem length_frame : (frame width payload).length = width + payload.length := by
  rw [frame, List.length_append, length_toBe]

theorem take_frame : (frame width payload).take width = toBe width payload.length := by
  rw [frame, List.take_left' (length_toBe width _)]

theorem drop_frame : (frame width payload).drop width = payload := by
  rw [frame, List.drop_left' (length_toBe width _)]

theorem readPiece_frame (h : payload.length < 256 ^ width) :
    readPiece width (frame width payload ++ rest) = .Whole payload rest := by
  have hwidth : ¬ (frame width payload ++ rest).length < width := by
    rw [List.length_append, length_frame]
    omega
  have hle : width ≤ (frame width payload).length := by
    rw [length_frame]
    omega
  rw [readPiece, if_neg hwidth]
  dsimp only
  rw [List.take_append_of_le_length hle, take_frame, fromBe_toBe h,
    List.drop_append_of_le_length hle, drop_frame]
  rw [if_neg (by rw [List.length_append]; omega), List.take_left, List.drop_left]

/-- The start of a frame is no frame yet. -/
theorem readPiece_start (h : payload.length < 256 ^ width) (hstart : bytes <+: frame width payload)
    (hless : bytes.length < width + payload.length) : readPiece width bytes = .Partial := by
  rw [readPiece]
  split
  · rfl
  · rename_i hwidth
    obtain ⟨more, hmore⟩ := hstart
    have hle : width ≤ bytes.length := by omega
    have htake : bytes.take width = toBe width payload.length := by
      rw [← take_frame, ← hmore, List.take_append_of_le_length hle]
    dsimp only
    rw [htake, fromBe_toBe h, if_pos]
    rw [List.length_drop]
    omega

end length_frames
