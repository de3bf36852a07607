-- Readers that move a cursor over bytes: what they read from which bytes, and
-- that they stay inside them.
import Mathlib

namespace cursors

variable {ε α β : Type}

/-! ## Numbers, the greatest byte first -/

def toBe : ℕ → ℕ → List UInt8
  | 0, _ => []
  | width + 1, n => toBe width (n / 256) ++ [UInt8.ofNat n]

def fromBe (bytes : List UInt8) : ℕ := bytes.foldl (fun n byte => 256 * n + byte.toNat) 0

@[simp]
theorem length_toBe (width n : ℕ) : (toBe width n).length = width := by
  induction width generalizing n with
  | zero => rfl
  | succ width ih => rw [toBe, List.length_append, ih, List.length_singleton]

theorem fromBe_toBe {width n : ℕ} (h : n < 256 ^ width) : fromBe (toBe width n) = n := by
  induction width generalizing n with
  | zero =>
    rw [pow_zero, Nat.lt_one_iff] at h
    rw [h]
    rfl
  | succ width ih =>
    have hhigh : n / 256 < 256 ^ width := by
      rw [Nat.div_lt_iff_lt_mul (by decide), ← pow_succ]
      exact h
    have hlow : (UInt8.ofNat n).toNat = n % 256 := rfl
    rw [toBe, fromBe, List.foldl_append, List.foldl_cons, List.foldl_nil, hlow]
    show 256 * fromBe (toBe width (n / 256)) + n % 256 = n
    rw [ih hhigh]
    omega

/-! ## Readers -/

structure Cursor where
  bytes : List UInt8
  offset : ℕ

/-- A reader stops with an error of its own, or with a panic: an index that is not inside the
bytes. -/
inductive Stop (ε : Type) where
  | Error (error : ε)
  | Panic
  deriving DecidableEq

abbrev Reader (ε α : Type) := StateT Cursor (Except (Stop ε)) α

/-- `&bytes[from..to]`. -/
def slice (bytes : List UInt8) (start stop : ℕ) : Except (Stop ε) (List UInt8) :=
  if start ≤ stop ∧ stop ≤ bytes.length then .ok ((bytes.drop start).take (stop - start))
  else .error .Panic

def fail (error : ε) : Reader ε α := fun _ => .error (.Error error)

def refuseIf (c : Prop) [Decidable c] (error : ε) : Reader ε Unit :=
  if c then fail error else pure ()

/-- `map_err`. -/
def mapErr {ε' : Type} (f : ε → ε') (reader : Reader ε α) : Reader ε' α := fun cursor =>
  match reader cursor with
  | .ok answer => .ok answer
  | .error (.Error error) => .error (.Error (f error))
  | .error .Panic => .error .Panic

/-- Read a number of bytes, which have to be there. -/
def take (truncated : ε) (length : ℕ) : Reader ε (List UInt8) := fun cursor =>
  if cursor.offset + length ≤ cursor.bytes.length then
    match slice cursor.bytes cursor.offset (cursor.offset + length) with
    | .ok value => .ok (value, { cursor with offset := cursor.offset + length })
    | .error stop => .error stop
  else .error (.Error truncated)

/-- `unwrap`. -/
def unwrap : Option α → Reader ε α
  | some a => pure a
  | none => fun _ => .error .Panic

/-- A number of so many bytes, the greatest first. -/
def number (truncated : ε) (width : ℕ) : Reader ε ℕ := do
  let bytes ← take truncated width
  unwrap (if bytes.length = width then some (fromBe bytes) else none)

/-- The bytes have to end here. -/
def finish (trailing : ε) : Reader ε Unit := fun cursor =>
  if cursor.offset = cursor.bytes.length then .ok ((), cursor) else .error (.Error trailing)

/-- An answer that reads nothing. -/
def settle (answer : Except ε α) : Reader ε α := fun cursor =>
  match answer with
  | .ok a => .ok (a, cursor)
  | .error error => .error (.Error error)

/-- Read from the first of the bytes on. -/
def readAll (reader : Reader ε α) (bytes : List UInt8) : Except (Stop ε) α :=
  (reader ⟨bytes, 0⟩).map Prod.fst

/-- Read the same thing a number of times. -/
def readMany (reader : Reader ε α) : ℕ → Reader ε (List α)
  | 0 => pure []
  | count + 1 => do
    let value ← reader
    let values ← readMany reader count
    return value :: values

theorem run_bind (reader : Reader ε α) (f : α → Reader ε β) (cursor : Cursor) :
    (reader >>= f) cursor = match reader cursor with
      | .ok (a, next) => f a next
      | .error stop => .error stop := by
  show Except.bind (reader cursor) _ = _
  cases reader cursor <;> rfl

/-! ## What a reader makes of bytes -/

/-- Wherever the bytes stand, the reader reads the value from them and stops behind them. -/
def Reads (reader : Reader ε α) (bytes : List UInt8) (a : α) : Prop :=
  ∀ before after, reader ⟨before ++ bytes ++ after, before.length⟩ =
    .ok (a, ⟨before ++ bytes ++ after, before.length + bytes.length⟩)

/-- Wherever the bytes stand, the reader stops at them with an error. -/
def Refuses (reader : Reader ε α) (bytes : List UInt8) : Prop :=
  ∀ before after, ∃ error, reader ⟨before ++ bytes ++ after, before.length⟩ =
    .error (.Error error)

theorem Reads.pure (a : α) : Reads (pure a : Reader ε α) [] a := fun _ _ => rfl

theorem Reads.bind {reader : Reader ε α} {f : α → Reader ε β} {bytes t : List UInt8} {a : α}
    {b : β} (h : Reads reader bytes a) (h' : Reads (f a) t b) :
    Reads (reader >>= f) (bytes ++ t) b := by
  intro before after
  have hfirst := h before (t ++ after)
  have hsecond := h' (before ++ bytes) after
  simp only [List.append_assoc, List.length_append] at hfirst hsecond ⊢
  rw [run_bind, hfirst]
  dsimp only
  rw [hsecond, Nat.add_assoc]

/-- What follows reads nothing more. -/
theorem Reads.bind_nil {reader : Reader ε α} {f : α → Reader ε β} {bytes : List UInt8} {a : α} {b : β}
    (h : Reads reader bytes a) (h' : Reads (f a) [] b) : Reads (reader >>= f) bytes b := by
  have hbind := h.bind h'
  rwa [List.append_nil] at hbind

theorem Reads.map {reader : Reader ε α} {bytes : List UInt8} {a : α} (h : Reads reader bytes a)
    (f : α → β) : Reads (reader >>= fun a => Pure.pure (f a)) bytes (f a) :=
  h.bind_nil (f := fun a => Pure.pure (f a)) (.pure (f a))

theorem Reads.refuses {reader : Reader ε α} {f : α → Reader ε β} {bytes t : List UInt8}
    {a : α} (h : Reads reader bytes a) (h' : Refuses (f a) t) :
    Refuses (reader >>= f) (bytes ++ t) := by
  intro before after
  have hfirst := h before (t ++ after)
  obtain ⟨error, hsecond⟩ := h' (before ++ bytes) after
  simp only [List.append_assoc, List.length_append] at hfirst hsecond ⊢
  refine ⟨error, ?_⟩
  rw [run_bind, hfirst]
  exact hsecond

theorem Reads.refuses_nil {reader : Reader ε α} {f : α → Reader ε β} {bytes : List UInt8} {a : α}
    (h : Reads reader bytes a) (h' : Refuses (f a) []) : Refuses (reader >>= f) bytes := by
  have hbind := h.refuses h'
  rwa [List.append_nil] at hbind

theorem Refuses.bind {reader : Reader ε α} {bytes : List UInt8} (h : Refuses reader bytes)
    (f : α → Reader ε β) (more : List UInt8) : Refuses (reader >>= f) (bytes ++ more) := by
  intro before after
  obtain ⟨error, hfirst⟩ := h before (more ++ after)
  simp only [List.append_assoc] at hfirst ⊢
  refine ⟨error, ?_⟩
  rw [run_bind, hfirst]

theorem refuses_fail (error : ε) (bytes : List UInt8) : Refuses (fail error : Reader ε α) bytes :=
  fun _ _ => ⟨error, rfl⟩

theorem reads_refuseIf {c : Prop} [Decidable c] (h : ¬ c) (error : ε) :
    Reads (refuseIf c error) [] () := by
  rw [refuseIf, if_neg h]
  exact .pure ()

theorem Reads.refuseIf_bind {c : Prop} [Decidable c] (hc : ¬ c) {error : ε} {reader : Reader ε α}
    {bytes : List UInt8} {a : α} (h : Reads reader bytes a) :
    Reads (refuseIf c error >>= fun _ => reader) bytes a := by
  rw [refuseIf, if_neg hc]
  exact (Reads.pure ()).bind (f := fun _ => reader) h

theorem Refuses.refuseIf_bind {c : Prop} [Decidable c] (hc : ¬ c) {error : ε} {reader : Reader ε α}
    {bytes : List UInt8} (h : Refuses reader bytes) :
    Refuses (refuseIf c error >>= fun _ => reader) bytes := by
  rw [refuseIf, if_neg hc]
  exact (Reads.pure ()).refuses (f := fun _ => reader) h

theorem Reads.mapErr {ε' : Type} {reader : Reader ε α} {bytes : List UInt8} {a : α}
    (h : Reads reader bytes a) (f : ε → ε') : Reads (mapErr f reader) bytes a := by
  intro before after
  rw [cursors.mapErr, h before after]

theorem reads_take (truncated : ε) (bytes : List UInt8) :
    Reads (take truncated bytes.length) bytes bytes := by
  intro before after
  have hroom : before.length + bytes.length ≤ (before ++ bytes ++ after).length := by
    simp
  have hslice : (slice (before ++ bytes ++ after) before.length (before.length + bytes.length) :
      Except (Stop ε) _) = .ok bytes := by
    rw [slice, if_pos ⟨Nat.le_add_right _ _, hroom⟩]
    simp
  rw [take, if_pos hroom, hslice]

theorem reads_number_bytes (truncated : ε) (bytes : List UInt8) :
    Reads (number truncated bytes.length) bytes (fromBe bytes) := by
  refine (reads_take truncated bytes).bind_nil ?_
  rw [if_pos rfl]
  exact .pure _

theorem reads_number (truncated : ε) {width n : ℕ} (h : n < 256 ^ width) :
    Reads (number truncated width) (toBe width n) n := by
  have hnumber := reads_number_bytes truncated (toBe width n)
  rwa [length_toBe, fromBe_toBe h] at hnumber

theorem Reads.many {reader : Reader ε α} {parts : List (List UInt8)} {values : List α}
    (h : List.Forall₂ (Reads reader) parts values) :
    Reads (readMany reader values.length) parts.flatten values := by
  induction h with
  | nil => exact .pure []
  | @cons part value parts values hpart _ ih => exact hpart.bind (ih.map (value :: ·))

/-! ## Staying inside the bytes -/

/-- From any place in the bytes on, the reader stops with an error or reads a value from what
stands there, whatever follows it. -/
def Confined (reader : Reader ε α) : Prop :=
  ∀ before rest, (∃ error, reader ⟨before ++ rest, before.length⟩ = .error (.Error error)) ∨
    ∃ used after a, rest = used ++ after ∧ Reads reader used a

theorem confined_pure (a : α) : Confined (pure a : Reader ε α) :=
  fun _ rest => .inr ⟨[], rest, a, rfl, .pure a⟩

theorem confined_fail (error : ε) : Confined (fail error : Reader ε α) :=
  fun _ _ => .inl ⟨error, rfl⟩

theorem confined_refuseIf (c : Prop) [Decidable c] (error : ε) : Confined (refuseIf c error) := by
  rw [refuseIf]
  split
  · exact confined_fail error
  · exact confined_pure ()

theorem Confined.ite {c : Prop} [Decidable c] {reader reader' : Reader ε α} (h : Confined reader)
    (h' : Confined reader') : Confined (if c then reader else reader') := by
  split
  · exact h
  · exact h'

theorem Confined.mapErr {ε' : Type} {reader : Reader ε α} (h : Confined reader) (f : ε → ε') :
    Confined (mapErr f reader) := by
  intro before rest
  rcases h before rest with ⟨error, hrun⟩ | ⟨used, after, a, hrest, hreads⟩
  · left
    exact ⟨f error, by rw [cursors.mapErr, hrun]⟩
  · exact .inr ⟨used, after, a, hrest, hreads.mapErr f⟩

theorem Confined.bind {reader : Reader ε α} {f : α → Reader ε β} (h : Confined reader)
    (h' : ∀ a, Confined (f a)) : Confined (reader >>= f) := by
  intro before bytes
  rcases h before bytes with ⟨error, hfirst⟩ | ⟨used, after, a, rfl, hreads⟩
  · left
    exact ⟨error, by rw [run_bind, hfirst]⟩
  · rcases h' a (before ++ used) after with ⟨error, hsecond⟩ | ⟨more, after, b, rfl, hreads'⟩
    · left
      refine ⟨error, ?_⟩
      have hfirst := hreads before after
      rw [List.append_assoc, ← List.append_assoc] at hsecond
      rw [run_bind, ← List.append_assoc, hfirst]
      simpa using hsecond
    · right
      exact ⟨used ++ more, after, b, (List.append_assoc ..).symm, hreads.bind hreads'⟩

theorem confined_take (truncated : ε) (length : ℕ) : Confined (take truncated length) := by
  intro before rest
  by_cases hroom : length ≤ rest.length
  · right
    refine ⟨rest.take length, rest.drop length, rest.take length,
      (List.take_append_drop length rest).symm, ?_⟩
    have hreads := reads_take truncated (rest.take length)
    rwa [List.length_take, Nat.min_eq_left hroom] at hreads
  · left
    refine ⟨truncated, if_neg ?_⟩
    rw [List.length_append, Nat.add_le_add_iff_left]
    exact hroom

theorem confined_number (truncated : ε) (width : ℕ) : Confined (number truncated width) := by
  intro before rest
  by_cases hroom : width ≤ rest.length
  · right
    have hlength : (rest.take width).length = width := by
      rw [List.length_take, Nat.min_eq_left hroom]
    have hnumber := reads_number_bytes truncated (rest.take width)
    rw [hlength] at hnumber
    exact ⟨rest.take width, rest.drop width, _, (List.take_append_drop width rest).symm, hnumber⟩
  · left
    refine ⟨truncated, ?_⟩
    have htake : take truncated width ⟨before ++ rest, before.length⟩ =
        .error (.Error truncated) := by
      refine if_neg ?_
      rw [List.length_append, Nat.add_le_add_iff_left]
      exact hroom
    rw [number, run_bind, htake]

theorem Confined.many {reader : Reader ε α} (h : Confined reader) (count : ℕ) :
    Confined (readMany reader count) := by
  induction count with
  | zero => exact confined_pure []
  | succ count ih => exact h.bind fun value => ih.bind fun values => confined_pure _

/-! ## Reading to the end -/

/-- From any place in the bytes on, the reader stops with an error, or it reads all of them and
stops with an error where there are more. -/
def Ended (reader : Reader ε α) : Prop :=
  ∀ before rest, (∃ error, reader ⟨before ++ rest, before.length⟩ = .error (.Error error)) ∨
    (∃ a next, reader ⟨before ++ rest, before.length⟩ = .ok (a, next)) ∧
      ∀ extra, extra ≠ [] →
        ∃ error, reader ⟨before ++ (rest ++ extra), before.length⟩ = .error (.Error error)

theorem ended_fail (error : ε) : Ended (fail error : Reader ε α) :=
  fun _ _ => .inl ⟨error, rfl⟩

theorem Ended.ite {c : Prop} [Decidable c] {reader reader' : Reader ε α} (h : Ended reader)
    (h' : Ended reader') : Ended (if c then reader else reader') := by
  split
  · exact h
  · exact h'

theorem mapErr_finish {ε' : Type} (f : ε → ε') (trailing : ε) :
    mapErr f (finish trailing) = finish (f trailing) := by
  funext cursor
  rw [mapErr, finish, finish]
  split_ifs <;> rfl

theorem finish_settle (trailing : ε) :
    (finish trailing >>= fun _ => settle (.ok ())) = finish trailing := by
  funext cursor
  rw [run_bind, finish]
  split_ifs <;> rfl

theorem finish_of_rest {trailing : ε} {before rest : List UInt8} (h : rest ≠ []) :
    finish trailing ⟨before ++ rest, before.length⟩ = .error (.Error trailing) := by
  refine if_neg fun heq => h ?_
  rw [List.length_append] at heq
  exact List.length_eq_zero_iff.mp (left_eq_add.mp heq)

theorem finish_at_end (trailing : ε) (bytes : List UInt8) :
    finish trailing ⟨bytes, bytes.length⟩ = .ok ((), ⟨bytes, bytes.length⟩) := if_pos rfl

/-- What is decided behind the end of the bytes. -/
theorem ended_finish (trailing : ε) (answer : Except ε α) :
    Ended (finish trailing >>= fun _ => settle answer) := by
  intro before rest
  by_cases hrest : rest = []
  · rw [hrest, List.append_nil, run_bind, finish_at_end]
    cases answer with
    | error error => exact .inl ⟨error, rfl⟩
    | ok a =>
      refine .inr ⟨⟨a, _, rfl⟩, fun extra hextra => ⟨trailing, ?_⟩⟩
      rw [run_bind, List.nil_append, finish_of_rest hextra]
  · left
    exact ⟨trailing, by rw [run_bind, finish_of_rest hrest]⟩

theorem Confined.ended {reader : Reader ε α} {f : α → Reader ε β} (h : Confined reader)
    (h' : ∀ a, Ended (f a)) : Ended (reader >>= f) := by
  intro before bytes
  rcases h before bytes with ⟨error, hfirst⟩ | ⟨used, after, a, rfl, hreads⟩
  · left
    exact ⟨error, by rw [run_bind, hfirst]⟩
  · -- behind the bytes that are read, the rest stands as before
    have hrun : ∀ more, (reader >>= f) ⟨before ++ (used ++ more), before.length⟩ =
        f a ⟨(before ++ used) ++ more, (before ++ used).length⟩ := by
      intro more
      rw [run_bind, ← List.append_assoc, hreads before more, List.length_append]
    rcases h' a (before ++ used) after with ⟨error, hsecond⟩ | ⟨⟨b, next, hsecond⟩, hextra⟩
    · left
      exact ⟨error, by rw [hrun, hsecond]⟩
    · right
      refine ⟨⟨b, next, by rw [hrun, hsecond]⟩, fun extra hne => ?_⟩
      obtain ⟨error, herror⟩ := hextra extra hne
      exact ⟨error, by rw [List.append_assoc, hrun, herror]⟩

theorem Ended.readAll_ne_panic {reader : Reader ε α} (h : Ended reader) (bytes : List UInt8) :
    readAll reader bytes ≠ .error .Panic := by
  intro hpanic
  rcases h [] bytes with ⟨error, hrun⟩ | ⟨⟨a, next, hrun⟩, -⟩ <;>
  · rw [List.nil_append, List.length_nil] at hrun
    rw [readAll, hrun] at hpanic
    cases hpanic

theorem Ended.readAll_extra {reader : Reader ε α} (h : Ended reader) {bytes extra : List UInt8} {a : α}
    (hread : readAll reader bytes = .ok a) (hextra : extra ≠ []) :
    ∃ error, readAll reader (bytes ++ extra) = .error (.Error error) := by
  rcases h [] bytes with ⟨error, hrun⟩ | ⟨-, hmore⟩
  · rw [List.nil_append, List.length_nil] at hrun
    rw [readAll, hrun] at hread
    cases hread
  · obtain ⟨error, hrun⟩ := hmore extra hextra
    rw [List.nil_append, List.length_nil] at hrun
    exact ⟨error, by rw [readAll, hrun]; rfl⟩

/-- Where the bytes end the frame, the reader gives the answer. -/
def Answers (reader : Reader ε α) (bytes : List UInt8) (answer : Except ε α) : Prop :=
  ∀ before, (reader ⟨before ++ bytes, before.length⟩).map Prod.fst = answer.mapError .Error

theorem answers_finish (trailing : ε) (answer : Except ε α) :
    Answers (finish trailing >>= fun _ => settle answer) [] answer := by
  intro before
  rw [List.append_nil, run_bind, finish_at_end]
  cases answer <;> rfl

theorem Reads.answers {reader : Reader ε α} {f : α → Reader ε β} {bytes t : List UInt8} {a : α}
    {answer : Except ε β} (h : Reads reader bytes a) (h' : Answers (f a) t answer) :
    Answers (reader >>= f) (bytes ++ t) answer := by
  intro before
  have hfirst := h before t
  have hsecond := h' (before ++ bytes)
  rw [List.length_append] at hsecond
  rw [run_bind, ← List.append_assoc, hfirst]
  exact hsecond

theorem Answers.readAll_eq {reader : Reader ε α} {bytes : List UInt8} {answer : Except ε α}
    (h : Answers reader bytes answer) : readAll reader bytes = answer.mapError .Error := h []

theorem Refuses.readAll_error {reader : Reader ε α} {bytes : List UInt8} (h : Refuses reader bytes) :
    ∃ error, readAll reader bytes = .error (.Error error) := by
  obtain ⟨error, hrun⟩ := h [] []
  rw [List.nil_append, List.append_nil, List.length_nil] at hrun
  exact ⟨error, by rw [readAll, hrun]; rfl⟩

end cursors
