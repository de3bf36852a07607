-- The maps of user namespaces (`container-init-posix`: `namespace.rs`): how a
-- `uid_map` or `gid_map` is read, and the id that it gives to an id of the parent.
import NixosDockers.Lib.Tables
import NixosDockers.Lib.Results
import NixosDockers.Lib.Cursors

open rust_text results

namespace init_posix

/-! ## Errors -/

inductive PosixError where
  | Invalid (message : String)
  | Permission (message : String)
  | Namespace (message : String)
  | Io (source : String)
  deriving DecidableEq, Repr

/-- An error that is returned, or a panic: an integer that underflows. -/
abbrev Failure := cursors.Stop PosixError

/-! ## The map -/

structure IdMapEntry where
  container_start : UInt64
  parent_start : UInt64
  length : UInt64
  deriving DecidableEq, Repr

def checkedAdd (a b : UInt64) : Option UInt64 :=
  if a.toNat + b.toNat < 2 ^ 64 then some (a + b) else none

def saturatingAdd (a b : UInt64) : UInt64 := (checkedAdd a b).getD (UInt64.ofNat (2 ^ 64 - 1))

/-- `a - b`, which may not underflow. -/
def sub (a b : UInt64) : Except Failure UInt64 :=
  if b ≤ a then .ok (a - b) else .error .Panic

/-- What `parse` checks of an interval. -/
structure IdMapEntry.Fits (entry : IdMapEntry) : Prop where
  length : 0 < entry.length.toNat
  container : entry.container_start.toNat + entry.length.toNat < 2 ^ 64
  parent : entry.parent_start.toNat + entry.length.toNat < 2 ^ 64

/-- The entries of a map that was parsed. -/
structure NamespaceMap where
  entries : List IdMapEntry
  fits : ∀ entry ∈ entries, entry.Fits

/-- A field of a line, by the number of the line. -/
def parseU64 (value : String) (line_number : ℕ) : Except PosixError UInt64 :=
  let message := "namespace map line " ++ toString (line_number + 1) ++ " contains a non-decimal field"
  if !isDecimal value.toList then .error (.Namespace message)
  else
    match parseUnsigned (2 ^ 64) value with
    | some number => .ok (UInt64.ofNat number)
    | none => .error (.Namespace message)

def IdMapEntry.overflows (entry : IdMapEntry) : Bool :=
  entry.length = 0 || (checkedAdd entry.container_start entry.length).isNone ||
    (checkedAdd entry.parent_start entry.length).isNone

theorem checkedAdd_isNone_iff {a b : UInt64} :
    (checkedAdd a b).isNone = false ↔ a.toNat + b.toNat < 2 ^ 64 := by
  rw [checkedAdd]
  split_ifs with h
  · exact iff_of_true rfl h
  · exact iff_of_false nofun h

theorem IdMapEntry.fits_of_not_overflows {entry : IdMapEntry} (h : entry.overflows = false) :
    entry.Fits := by
  rw [overflows, Bool.or_eq_false_iff, Bool.or_eq_false_iff, checkedAdd_isNone_iff,
    checkedAdd_isNone_iff, decide_eq_false_iff_not] at h
  obtain ⟨⟨hlength, hcontainer⟩, hparent⟩ := h
  refine ⟨?_, hcontainer, hparent⟩
  rw [Nat.pos_iff_ne_zero]
  intro hzero
  exact hlength (UInt64.toNat_inj.mp hzero)

/-- An interval that `parse` accepted. -/
abbrev FittingEntry := { entry : IdMapEntry // entry.Fits }

/-- A line that is not blank. -/
def parseLine (line : String) (line_number : ℕ) : Except PosixError FittingEntry :=
  match splitWhitespace line with
  | [container, parent, length] => do
    let container_start ← parseU64 container line_number
    let parent_start ← parseU64 parent line_number
    let length ← parseU64 length line_number
    let entry : IdMapEntry := ⟨container_start, parent_start, length⟩
    if h : entry.overflows = false then .ok ⟨entry, entry.fits_of_not_overflows h⟩
    else .error (.Namespace ("namespace map line " ++ toString (line_number + 1) ++
      " contains an overflowing or empty interval"))
  | _ => .error (.Namespace ("namespace map line " ++ toString (line_number + 1) ++
      " must contain exactly three decimal fields"))

/-- The loop of `parse` over the numbered lines. -/
def parseLines : List String → ℕ → Except PosixError (List FittingEntry)
  | [], _ => .ok []
  | line :: rest, line_number =>
    if isBlank line then parseLines rest (line_number + 1)
    else do
      let entry ← parseLine line line_number
      let entries ← parseLines rest (line_number + 1)
      return entry :: entries

/-- `NamespaceMap::parse`. -/
def NamespaceMap.parse (contents : String) : Except PosixError NamespaceMap := do
  let entries ← parseLines (lines contents) 0
  if entries.isEmpty then throw (.Namespace "namespace map does not contain an interval")
  return ⟨entries.map Subtype.val, fun _ h =>
    let ⟨entry, _, heq⟩ := List.mem_map.mp h
    heq ▸ entry.property⟩

/-- The condition that `map_parent_id` searches with. -/
def IdMapEntry.covers (entry : IdMapEntry) (parent_id : UInt64) : Bool :=
  entry.parent_start ≤ parent_id && parent_id < saturatingAdd entry.parent_start entry.length

def OVERFLOWS : String := "mapped namespace ID overflows u64"

/-- `NamespaceMap::map_parent_id`. -/
def NamespaceMap.mapParentId (map : NamespaceMap) (parent_id : UInt32) : Except Failure UInt32 :=
  let parent_id := parent_id.toUInt64
  match map.entries.find? fun entry => entry.covers parent_id with
  | none => .error (.Error (.Namespace ("parent ID " ++ toString parent_id ++
      " is not covered by the namespace map")))
  | some entry => do
    let distance ← sub parent_id entry.parent_start
    match checkedAdd entry.container_start distance with
    | none => .error (.Error (.Namespace OVERFLOWS))
    | some mapped =>
      if mapped.toNat < 2 ^ 32 then .ok (UInt32.ofNat mapped.toNat)
      else .error (.Error (.Namespace ("mapped namespace ID " ++ toString mapped ++
        " is outside u32 range")))

/-! ## The intervals of an entry -/

def IdMapEntry.parents (entry : IdMapEntry) : Set ℕ :=
  Set.Ico entry.parent_start.toNat (entry.parent_start.toNat + entry.length.toNat)

def IdMapEntry.containers (entry : IdMapEntry) : Set ℕ :=
  Set.Ico entry.container_start.toNat (entry.container_start.toNat + entry.length.toNat)

/-- The id in the container of an id of the parent that the entry covers. -/
def IdMapEntry.image (entry : IdMapEntry) (parent_id : ℕ) : ℕ :=
  entry.container_start.toNat + (parent_id - entry.parent_start.toNat)

variable {entry a b : IdMapEntry} {p q : ℕ}

theorem IdMapEntry.image_mem (h : p ∈ entry.parents) : entry.image p ∈ entry.containers := by
  obtain ⟨hlow, hhigh⟩ := h
  refine ⟨Nat.le_add_right _ _, ?_⟩
  rw [image]
  omega

theorem IdMapEntry.image_injective (hp : p ∈ entry.parents) (hq : q ∈ entry.parents)
    (h : entry.image p = entry.image q) : p = q := by
  have hlow := hp.1
  have hlow' := hq.1
  rw [image, image] at h
  omega

theorem toNat_checkedAdd {a b sum : UInt64} (h : checkedAdd a b = some sum) :
    sum.toNat = a.toNat + b.toNat := by
  rw [checkedAdd] at h
  split_ifs at h with hfits
  rw [← Option.some.inj h, UInt64.toNat_add, Nat.mod_eq_of_lt hfits]

theorem checkedAdd_of_lt {a b : UInt64} (h : a.toNat + b.toNat < 2 ^ 64) :
    checkedAdd a b = some (a + b) := if_pos h

/-- What a parsed interval saturates to is its end. -/
theorem IdMapEntry.Fits.covers_iff (h : entry.Fits) (parent_id : UInt64) :
    entry.covers parent_id = true ↔ parent_id.toNat ∈ entry.parents := by
  have hsum : (saturatingAdd entry.parent_start entry.length).toNat =
      entry.parent_start.toNat + entry.length.toNat := by
    rw [saturatingAdd, checkedAdd_of_lt h.parent, Option.getD_some]
    exact toNat_checkedAdd (checkedAdd_of_lt h.parent)
  rw [covers, Bool.and_eq_true, decide_eq_true_iff, decide_eq_true_iff, UInt64.le_iff_toNat_le,
    UInt64.lt_iff_toNat_lt, hsum]
  rfl

/-- The arithmetic of a covered id neither underflows nor overflows. -/
theorem IdMapEntry.Fits.arithmetic (h : entry.Fits) {parent_id : UInt64}
    (hcovered : parent_id.toNat ∈ entry.parents) : ∃ distance mapped,
      sub parent_id entry.parent_start = .ok distance ∧
      checkedAdd entry.container_start distance = some mapped ∧
      mapped.toNat = entry.image parent_id.toNat := by
  obtain ⟨hlow, hhigh⟩ := hcovered
  have hle : entry.parent_start ≤ parent_id := UInt64.le_iff_toNat_le.mpr hlow
  have hdistance : (parent_id - entry.parent_start).toNat =
      parent_id.toNat - entry.parent_start.toNat := UInt64.toNat_sub_of_le _ _ hle
  have hfits : entry.container_start.toNat + (parent_id - entry.parent_start).toNat < 2 ^ 64 := by
    have := h.container
    rw [hdistance]
    omega
  refine ⟨_, _, if_pos hle, checkedAdd_of_lt hfits, ?_⟩
  rw [toNat_checkedAdd (checkedAdd_of_lt hfits), hdistance]
  rfl

/-! ## What is found for an id -/

/-- The intervals of the parent do not meet, and neither do those of the container. -/
structure NamespaceMap.Apart (map : NamespaceMap) : Prop where
  parents : map.entries.Pairwise fun a b => Disjoint a.parents b.parents
  containers : map.entries.Pairwise fun a b => Disjoint a.containers b.containers

theorem eq_of_pairwise_disjoint {entries : List IdMapEntry} {range : IdMapEntry → Set ℕ}
    (h : entries.Pairwise fun a b => Disjoint (range a) (range b)) (ha : a ∈ entries)
    (hb : b ∈ entries) (hpa : p ∈ range a) (hpb : p ∈ range b) : a = b := by
  by_contra hne
  have hsymm : Std.Symm fun a b => Disjoint (range a) (range b) := ⟨fun _ _ hd => hd.symm⟩
  have hdisjoint := h.forall ha hb hne
  exact Set.disjoint_left.mp hdisjoint hpa hpb

variable {map : NamespaceMap}

/-- The entry of an id is the first that covers it, and with disjoint intervals any that does. -/
theorem NamespaceMap.find_covering (h : map.Apart) (ha : a ∈ map.entries) {parent_id : UInt64}
    (hp : parent_id.toNat ∈ a.parents) :
    map.entries.find? (fun entry => entry.covers parent_id) = some a := by
  cases hfind : map.entries.find? (fun entry => entry.covers parent_id) with
  | none =>
    have hnone := List.find?_eq_none.mp hfind a ha
    exact absurd (((map.fits a ha).covers_iff parent_id).mpr hp) hnone
  | some found =>
    have hmem := List.mem_of_find?_eq_some hfind
    have hcovers := List.find?_some hfind
    have hfound := ((map.fits found hmem).covers_iff parent_id).mp hcovers
    rw [eq_of_pairwise_disjoint h.parents hmem ha hfound hp]

theorem NamespaceMap.find_none {parent_id : UInt64}
    (h : ∀ entry ∈ map.entries, parent_id.toNat ∉ entry.parents) :
    map.entries.find? (fun entry => entry.covers parent_id) = none := by
  rw [List.find?_eq_none]
  intro entry hentry hcovers
  exact h entry hentry (((map.fits entry hentry).covers_iff parent_id).mp hcovers)

/-- What `map_parent_id` gives for an id that an entry covers. -/
theorem NamespaceMap.mapParentId_covered (h : map.Apart) (ha : a ∈ map.entries)
    {parent_id : UInt32} (hp : parent_id.toNat ∈ a.parents) :
    ∃ mapped : UInt64, mapped.toNat = a.image parent_id.toNat ∧
      map.mapParentId parent_id = if mapped.toNat < 2 ^ 32 then .ok (UInt32.ofNat mapped.toNat)
        else .error (.Error (.Namespace ("mapped namespace ID " ++ toString mapped ++
          " is outside u32 range"))) := by
  have hp' : parent_id.toUInt64.toNat ∈ a.parents := by rwa [UInt32.toNat_toUInt64]
  obtain ⟨distance, mapped, hsub, hadd, hmapped⟩ := (map.fits a ha).arithmetic hp'
  rw [UInt32.toNat_toUInt64] at hmapped
  refine ⟨mapped, hmapped, ?_⟩
  rw [mapParentId]
  rw [find_covering h ha hp']
  dsimp only
  rw [hsub, ok_bind, hadd]

theorem NamespaceMap.mapParentId_uncovered {parent_id : UInt32}
    (h : ∀ entry ∈ map.entries, parent_id.toNat ∉ entry.parents) :
    map.mapParentId parent_id = .error (.Error (.Namespace ("parent ID " ++
      toString parent_id.toUInt64 ++ " is not covered by the namespace map"))) := by
  rw [mapParentId]
  rw [find_none (by simpa using h)]

/-- The ids that are mapped, and what to. -/
theorem NamespaceMap.mapParentId_ok_iff (h : map.Apart) {parent_id mapped : UInt32} :
    map.mapParentId parent_id = .ok mapped ↔ ∃ entry ∈ map.entries,
      parent_id.toNat ∈ entry.parents ∧ mapped.toNat = entry.image parent_id.toNat := by
  constructor
  · intro hmap
    by_cases hcovered : ∃ entry ∈ map.entries, parent_id.toNat ∈ entry.parents
    · obtain ⟨entry, hentry, hp⟩ := hcovered
      obtain ⟨value, hvalue, heq⟩ := mapParentId_covered h hentry hp
      rw [heq] at hmap
      split_ifs at hmap with hsize
      refine ⟨entry, hentry, hp, ?_⟩
      rw [← Except.ok.inj hmap, ← hvalue, UInt32.toNat_ofNat_of_lt' hsize]
    · rw [mapParentId_uncovered fun entry hentry hp => hcovered ⟨entry, hentry, hp⟩] at hmap
      cases hmap
  · rintro ⟨entry, hentry, hp, himage⟩
    obtain ⟨value, hvalue, heq⟩ := mapParentId_covered h hentry hp
    have hsize : value.toNat < 2 ^ 32 := by
      rw [hvalue, ← himage]
      exact mapped.toNat_lt
    rw [heq, if_pos hsize, hvalue, ← himage, UInt32.ofNat_toNat]

theorem NamespaceMap.mapParentId_error_iff (h : map.Apart) {parent_id : UInt32} :
    (∃ failure, map.mapParentId parent_id = .error failure) ↔
      (∀ entry ∈ map.entries, parent_id.toNat ∉ entry.parents) ∨
      ∃ entry ∈ map.entries, parent_id.toNat ∈ entry.parents ∧
        2 ^ 32 - 1 < entry.image parent_id.toNat := by
  by_cases hcovered : ∃ entry ∈ map.entries, parent_id.toNat ∈ entry.parents
  · obtain ⟨entry, hentry, hp⟩ := hcovered
    obtain ⟨value, hvalue, heq⟩ := mapParentId_covered h hentry hp
    rw [heq]
    constructor
    · rintro ⟨failure, hfailure⟩
      split_ifs at hfailure with hsize
      refine Or.inr ⟨entry, hentry, hp, ?_⟩
      rw [← hvalue]
      omega
    · rintro (hnone | ⟨other, hother, hpother, hsize⟩)
      · exact absurd hp (hnone entry hentry)
      · obtain rfl := eq_of_pairwise_disjoint h.parents hentry hother hp hpother
        rw [if_neg (by omega)]
        exact ⟨_, rfl⟩
  · have hnone : ∀ entry ∈ map.entries, parent_id.toNat ∉ entry.parents :=
      fun entry hentry hp => hcovered ⟨entry, hentry, hp⟩
    rw [mapParentId_uncovered hnone]
    exact iff_of_true ⟨_, rfl⟩ (Or.inl hnone)

theorem NamespaceMap.mapParentId_ne_panic (h : map.Apart) (parent_id : UInt32) :
    map.mapParentId parent_id ≠ .error .Panic := by
  by_cases hcovered : ∃ entry ∈ map.entries, parent_id.toNat ∈ entry.parents
  · obtain ⟨entry, hentry, hp⟩ := hcovered
    obtain ⟨value, -, heq⟩ := mapParentId_covered h hentry hp
    rw [heq]
    split_ifs <;> exact nofun
  · rw [mapParentId_uncovered fun entry hentry hp => hcovered ⟨entry, hentry, hp⟩]
    exact nofun

/-! ## The order of the lines -/

/-- The interval of a line, if it is not blank. -/
def lineEntry (line : String) : Option IdMapEntry :=
  if isBlank line then none else (parseLine line 0).toOption.map Subtype.val

theorem parseU64_number {value : String} {number : UInt64} {n : ℕ} (h : parseU64 value n = .ok number)
    (m : ℕ) : parseU64 value m = .ok number := by
  rw [parseU64] at h ⊢
  split_ifs at h ⊢
  cases hparsed : parseUnsigned (2 ^ 64) value with
  | none =>
    rw [hparsed] at h
    cases h
  | some found =>
    rw [hparsed] at h
    exact h

/-- The number of a line is only used in messages. -/
theorem parseLine_number {line : String} {entry : FittingEntry} {n : ℕ}
    (h : parseLine line n = .ok entry) (m : ℕ) : parseLine line m = .ok entry := by
  rw [parseLine] at h ⊢
  split at h
  · simp only [bind_ok_iff] at h ⊢
    obtain ⟨container_start, hcontainer, parent_start, hparent, length, hlength, h⟩ := h
    refine ⟨container_start, parseU64_number hcontainer m, parent_start, parseU64_number hparent m,
      length, parseU64_number hlength m, ?_⟩
    split_ifs at h ⊢
    exact h
  · cases h

theorem parseLines_ok {rows : List String} {n : ℕ} {entries : List FittingEntry}
    (h : parseLines rows n = .ok entries) :
    entries.map Subtype.val = rows.filterMap lineEntry := by
  induction rows generalizing n entries with
  | nil =>
    obtain rfl := Except.ok.inj h
    rfl
  | cons row rows ih =>
    rw [parseLines] at h
    split_ifs at h with hblank
    · rw [List.filterMap_cons_none (by rw [lineEntry, if_pos hblank])]
      exact ih h
    · simp only [bind_ok_iff, pure_ok_iff] at h
      obtain ⟨entry, hentry, rest, hrest, rfl⟩ := h
      have hline : lineEntry row = some entry.val := by
        rw [lineEntry, if_neg hblank, parseLine_number hentry 0]
        rfl
      rw [List.map_cons, List.filterMap_cons_some hline, ih hrest]

theorem NamespaceMap.parse_ok {contents : String} (h : NamespaceMap.parse contents = .ok map) :
    map.entries = (lines contents).filterMap lineEntry := by
  simp only [parse, throw_eq, error_bind, bind_ok_iff, ite_error_ok_iff, pure_ok_iff] at h
  obtain ⟨entries, hentries, -, rfl⟩ := h
  exact parseLines_ok hentries

theorem NamespaceMap.Apart.perm {other : NamespaceMap} (h : map.Apart)
    (hperm : other.entries.Perm map.entries) : other.Apart where
  parents := (hperm.pairwise_iff fun hd => hd.symm).mpr h.parents
  containers := (hperm.pairwise_iff fun hd => hd.symm).mpr h.containers

theorem NamespaceMap.mapParentId_perm {other : NamespaceMap} (h : map.Apart)
    (hperm : other.entries.Perm map.entries) (parent_id : UInt32) :
    other.mapParentId parent_id = map.mapParentId parent_id := by
  have hother := h.perm hperm
  have hfind : other.entries.find? (fun entry => entry.covers parent_id.toUInt64) =
      map.entries.find? fun entry => entry.covers parent_id.toUInt64 := by
    cases hfound : map.entries.find? (fun entry => entry.covers parent_id.toUInt64) with
    | none =>
      rw [List.find?_eq_none] at hfound ⊢
      exact fun entry hentry => hfound entry (hperm.mem_iff.mp hentry)
    | some entry =>
      have hmem := List.mem_of_find?_eq_some hfound
      have hcovers := List.find?_some hfound
      exact find_covering hother (hperm.mem_iff.mpr hmem)
        (((map.fits entry hmem).covers_iff _).mp hcovers)
  rw [mapParentId, mapParentId, hfind]

/-! ## The law of the map -/

theorem namespace_map_maps_each_id_once {contents : String}
    (hparse : NamespaceMap.parse contents = .ok map) (h : map.Apart) :
    (∀ p : UInt32, ∀ a ∈ map.entries, ∀ b ∈ map.entries,
      p.toNat ∈ a.parents → p.toNat ∈ b.parents → a = b) ∧
    (∀ p mapped : UInt32, map.mapParentId p = .ok mapped ↔ ∃ entry ∈ map.entries,
      p.toNat ∈ entry.parents ∧
        mapped.toNat = entry.container_start.toNat + (p.toNat - entry.parent_start.toNat)) ∧
    (∀ p : UInt32, (∃ failure, map.mapParentId p = .error failure) ↔
      (∀ entry ∈ map.entries, p.toNat ∉ entry.parents) ∨
      ∃ entry ∈ map.entries, p.toNat ∈ entry.parents ∧
        2 ^ 32 - 1 < entry.container_start.toNat + (p.toNat - entry.parent_start.toNat)) ∧
    (∀ p q mapped : UInt32, map.mapParentId p = .ok mapped → map.mapParentId q = .ok mapped → p = q) ∧
    (∀ contents' map', NamespaceMap.parse contents' = .ok map' →
      (lines contents').Perm (lines contents) → ∀ p, map'.mapParentId p = map.mapParentId p) ∧
    (∀ p, map.mapParentId p ≠ .error .Panic ∧
      ∀ entry ∈ map.entries, p.toNat ∈ entry.parents → ∃ distance sum,
        sub p.toUInt64 entry.parent_start = .ok distance ∧
          checkedAdd entry.container_start distance = some sum) := by
  refine ⟨?_, ?_, ?_, ?_, ?_, ?_⟩
  · intro p a ha b hb hpa hpb
    exact eq_of_pairwise_disjoint h.parents ha hb hpa hpb
  · exact fun p mapped => NamespaceMap.mapParentId_ok_iff h
  · exact fun p => NamespaceMap.mapParentId_error_iff h
  · intro p q mapped hp hq
    obtain ⟨a, ha, hpa, himage⟩ := (NamespaceMap.mapParentId_ok_iff h).mp hp
    obtain ⟨b, hb, hqb, himage'⟩ := (NamespaceMap.mapParentId_ok_iff h).mp hq
    -- both ids have the same image, so their intervals are the same
    have hsame : a = b := by
      refine eq_of_pairwise_disjoint h.containers ha hb (IdMapEntry.image_mem hpa) ?_
      rw [← himage, himage']
      exact IdMapEntry.image_mem hqb
    rw [himage, hsame] at himage'
    rw [hsame] at hpa
    exact UInt32.toNat_inj.mp (IdMapEntry.image_injective hpa hqb himage')
  · intro contents' map' hparse' hlines p
    refine NamespaceMap.mapParentId_perm h ?_ p
    rw [NamespaceMap.parse_ok hparse, NamespaceMap.parse_ok hparse']
    exact hlines.filterMap _
  · intro p
    refine ⟨NamespaceMap.mapParentId_ne_panic h p, fun entry hentry hp => ?_⟩
    have hp' : p.toUInt64.toNat ∈ entry.parents := by rwa [UInt32.toNat_toUInt64]
    obtain ⟨distance, sum, hsub, hadd, -⟩ := (map.fits entry hentry).arithmetic hp'
    exact ⟨distance, sum, hsub, hadd⟩

def twoIntervals : String := "\n0 1000 1\n1 2000 3\n"

theorem twoIntervals_maps : ∃ map, NamespaceMap.parse twoIntervals = .ok map ∧
    map.mapParentId 2002 = .ok 3 := by
  obtain ⟨map, hparse⟩ := exists_of_isOk (x := NamespaceMap.parse twoIntervals) (by decide +kernel)
  have hentries : map.entries = [⟨0, 1000, 1⟩, ⟨1, 2000, 3⟩] := by
    rw [NamespaceMap.parse_ok hparse]
    decide +kernel
  have hapart : map.Apart := by
    constructor <;>
    · rw [hentries]
      simp [IdMapEntry.parents, IdMapEntry.containers]
  have hlaw := namespace_map_maps_each_id_once hparse hapart
  refine ⟨map, hparse, (hlaw.2.1 2002 3).mpr ⟨⟨1, 2000, 3⟩, ?_, ?_, rfl⟩⟩
  · rw [hentries]
    exact List.mem_cons_of_mem _ List.mem_cons_self
  · exact ⟨by decide, by decide⟩

end init_posix
