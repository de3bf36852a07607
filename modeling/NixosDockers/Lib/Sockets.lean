-- Sockets that do not block, as a program sees them: what `read` and `write`
-- answer, call after call.
import Mathlib

namespace sockets

/-! ## Reading -/

/-- What a socket holds for its reader. Bytes that came together may be read in parts, and a
read does not go beyond them. -/
inductive ReadItem where
  | Data (first : UInt8) (more : List UInt8)
  | WouldBlock
  | Interrupted
  | Closed
  | Failed
  deriving DecidableEq, Repr

/-- Bytes to be read, if there are any. -/
def dataItem : List UInt8 → List ReadItem
  | [] => []
  | first :: more => [.Data first more]

/-- What a call of `read` returns. No bytes stand for the end of the stream or for an empty
buffer. -/
inductive ReadResult where
  | Ok (bytes : List UInt8)
  | WouldBlock
  | Interrupted
  | Failed
  deriving DecidableEq, Repr

/-- `read` into a buffer of some size, and what the socket holds after it. -/
def read (size : Nat) : List ReadItem → ReadResult × List ReadItem
  | [] => (.WouldBlock, [])
  | .Data first more :: rest =>
    (.Ok ((first :: more).take size), dataItem ((first :: more).drop size) ++ rest)
  | .WouldBlock :: rest => (.WouldBlock, rest)
  | .Interrupted :: rest => (.Interrupted, rest)
  | .Closed :: rest => (.Ok [], .Closed :: rest)
  | .Failed :: rest => (.Failed, rest)

/-- How often a socket can be read. -/
def ReadItem.weight : ReadItem → Nat
  | .Data _ more => more.length + 1
  | _ => 1

def weight (stream : List ReadItem) : Nat := (stream.map ReadItem.weight).sum

@[simp]
theorem weight_nil : weight [] = 0 := rfl

@[simp]
theorem weight_cons (item : ReadItem) (stream : List ReadItem) :
    weight (item :: stream) = item.weight + weight stream := by
  simp [weight]

@[simp]
theorem weight_dataItem_append (bytes : List UInt8) (stream : List ReadItem) :
    weight (dataItem bytes ++ stream) = bytes.length + weight stream := by
  cases bytes <;> simp [dataItem, ReadItem.weight]

theorem read_data_weight {size : Nat} {stream rest : List ReadItem} {first : UInt8}
    {more : List UInt8} (h : read size stream = (.Ok (first :: more), rest)) :
    weight rest < weight stream := by
  unfold read at h
  split at h
  · cases h
  · rename_i first' more' rest'
    obtain ⟨hbytes, rfl⟩ := Prod.mk.inj h
    have hlength := congrArg List.length (ReadResult.Ok.inj hbytes)
    simp only [List.length_take, List.length_cons] at hlength
    simp only [weight_dataItem_append, weight_cons, ReadItem.weight, List.length_drop,
      List.length_cons]
    omega
  all_goals cases h

theorem read_interrupted_weight {size : Nat} {stream rest : List ReadItem}
    (h : read size stream = (.Interrupted, rest)) : weight rest < weight stream := by
  unfold read at h
  split at h
  all_goals cases h
  simp [ReadItem.weight]

theorem read_length_le {size : Nat} {stream rest : List ReadItem} {bytes : List UInt8}
    (h : read size stream = (.Ok bytes, rest)) : bytes.length ≤ size := by
  unfold read at h
  split at h
  all_goals cases h
  · simp
  · simp

/-- The first bytes that a reader gets who reads on after interrupts. -/
def firstBytes (size : Nat) : List ReadItem → Option (List UInt8)
  | .Interrupted :: rest => firstBytes size rest
  | .Data first more :: _ => if size = 0 then none else some ((first :: more).take size)
  | _ => none

theorem firstBytes_of_read {size : Nat} {stream rest : List ReadItem} {first : UInt8}
    {more : List UInt8} (h : read size stream = (.Ok (first :: more), rest)) :
    firstBytes size stream = some (first :: more) := by
  unfold read at h
  split at h
  · cases h
  · have hbytes := ReadResult.Ok.inj (Prod.mk.inj h).1
    unfold firstBytes
    cases size with
    | zero => cases hbytes
    | succ size => rw [if_neg (by simp), hbytes]
  all_goals cases h

theorem firstBytes_of_interrupted {size : Nat} {stream rest : List ReadItem}
    (h : read size stream = (.Interrupted, rest)) :
    firstBytes size stream = firstBytes size rest := by
  unfold read at h
  split at h
  all_goals cases h
  rfl

/-! ## Streams of bytes only -/

/-- All bytes that a socket holds. -/
def bytesOf : List ReadItem → List UInt8
  | .Data first more :: rest => (first :: more) ++ bytesOf rest
  | _ :: rest => bytesOf rest
  | [] => []

/-- A socket that holds bytes and then blocks. Its reader can be interrupted. -/
def Calm (stream : List ReadItem) : Prop :=
  ∀ item ∈ stream, item = .Interrupted ∨ ∃ first more, item = .Data first more

theorem bytesOf_dataItem_append (bytes : List UInt8) (stream : List ReadItem) :
    bytesOf (dataItem bytes ++ stream) = bytes ++ bytesOf stream := by
  cases bytes <;> rfl

theorem calm_dataItem (bytes : List UInt8) : Calm (dataItem bytes) := by
  intro item hitem
  cases bytes with
  | nil => cases hitem
  | cons first more => exact Or.inr ⟨first, more, List.mem_singleton.mp hitem⟩

theorem Calm.append {first second : List ReadItem} (hfirst : Calm first) (hsecond : Calm second) :
    Calm (first ++ second) := by
  intro item hitem
  rcases List.mem_append.mp hitem with hitem | hitem
  · exact hfirst item hitem
  · exact hsecond item hitem

theorem Calm.tail {item : ReadItem} {rest : List ReadItem} (hcalm : Calm (item :: rest)) :
    Calm rest :=
  fun other hother => hcalm other (List.mem_cons_of_mem _ hother)

theorem Calm.head {item : ReadItem} {rest : List ReadItem} (hcalm : Calm (item :: rest)) :
    item = .Interrupted ∨ ∃ first more, item = .Data first more :=
  hcalm item (by simp)

/-- A reader with some room gets bytes, and they are the next ones. -/
theorem Calm.read_ok {size : Nat} {stream rest : List ReadItem} {bytes : List UInt8}
    (hcalm : Calm stream) (hsize : 0 < size) (h : read size stream = (.Ok bytes, rest)) :
    bytes ≠ [] ∧ Calm rest ∧ bytesOf stream = bytes ++ bytesOf rest := by
  rcases stream with _ | ⟨item, stream⟩
  · cases h
  · rcases hcalm.head with rfl | ⟨first, more, rfl⟩
    · cases h
    · obtain ⟨hbytes, rfl⟩ := Prod.mk.inj h
      obtain rfl := ReadResult.Ok.inj hbytes
      obtain ⟨size, rfl⟩ : ∃ n, size = n + 1 := ⟨size - 1, by omega⟩
      refine ⟨by simp, (calm_dataItem _).append hcalm.tail, ?_⟩
      rw [bytesOf_dataItem_append, ← List.append_assoc, List.take_append_drop]
      rfl

/-- A part that was read begins the bytes that are wanted. -/
theorem Calm.read_part {size : Nat} {stream rest : List ReadItem} {part bytes left : List UInt8}
    (hcalm : Calm stream) (hsize : 0 < size) (h : read size stream = (.Ok part, rest))
    (hlength : bytes.length = size) (hstream : bytesOf stream = bytes ++ left) :
    ∃ more, bytes = part ++ more ∧ Calm rest ∧ bytesOf rest = more ++ left := by
  obtain ⟨-, hrest, hbytes⟩ := hcalm.read_ok hsize h
  have hpart := read_length_le h
  rw [hstream] at hbytes
  have hprefix : part <+: bytes := by
    refine List.prefix_of_prefix_length_le ?_ (List.prefix_append bytes left) (by omega)
    exact ⟨bytesOf rest, hbytes.symm⟩
  obtain ⟨more, rfl⟩ := hprefix
  rw [List.append_assoc] at hbytes
  exact ⟨more, rfl, hrest, (List.append_cancel_left hbytes).symm⟩

theorem Calm.read_wouldBlock {size : Nat} {stream rest : List ReadItem} (hcalm : Calm stream)
    (h : read size stream = (.WouldBlock, rest)) : bytesOf stream = [] := by
  rcases stream with _ | ⟨item, stream⟩
  · rfl
  · rcases hcalm.head with rfl | ⟨first, more, rfl⟩ <;> cases h

theorem Calm.read_interrupted {size : Nat} {stream rest : List ReadItem} (hcalm : Calm stream)
    (h : read size stream = (.Interrupted, rest)) :
    Calm rest ∧ bytesOf stream = bytesOf rest := by
  rcases stream with _ | ⟨item, stream⟩
  · cases h
  · rcases hcalm.head with rfl | ⟨first, more, rfl⟩
    · obtain ⟨-, rfl⟩ := Prod.mk.inj h
      exact ⟨hcalm.tail, rfl⟩
    · cases h

theorem Calm.read_failed {size : Nat} {stream rest : List ReadItem} (hcalm : Calm stream) :
    read size stream ≠ (.Failed, rest) := by
  intro h
  rcases stream with _ | ⟨item, stream⟩
  · cases h
  · rcases hcalm.head with rfl | ⟨first, more, rfl⟩ <;> cases h

/-! ## Writing -/

/-- What a socket does with a call of `write`. -/
inductive WriteItem where
  | Takes (count : Nat)
  | WouldBlock
  | Interrupted
  | Failed
  deriving DecidableEq, Repr

end sockets
