-- Documents: scalars, arrays and tables whose entries are ordered by their
-- keys, and what is read, put and dropped at the end of a sequence of keys.
import Mathlib.Data.List.Basic
import Mathlib.Order.Defs.LinearOrder

namespace documents

/-! ## Entries -/

/-- The entries of a table, by their keys. -/
abbrev Entries (κ ν : Type) := List (κ × ν)

namespace Entries

variable {κ ν : Type} [DecidableEq κ]

def get (key : κ) : Entries κ ν → Option ν
  | [] => none
  | (other, value) :: rest => if key = other then some value else get key rest

/-- The entry of the key is replaced, or a new one is put where it belongs. -/
def insert [LT κ] [DecidableLT κ] (key : κ) (value : ν) : Entries κ ν → Entries κ ν
  | [] => [(key, value)]
  | (other, old) :: rest =>
    if key = other then (key, value) :: rest
    else if key < other then (key, value) :: (other, old) :: rest
    else (other, old) :: insert key value rest

def erase (key : κ) (entries : Entries κ ν) : Entries κ ν :=
  entries.filter fun entry => entry.1 ≠ key

def keys (entries : Entries κ ν) : List κ := entries.map Prod.fst

variable {key other : κ} {value : ν} {entries : Entries κ ν}

@[simp] theorem get_nil : get key ([] : Entries κ ν) = none := rfl

theorem get_cons : get key ((other, value) :: entries) =
    if key = other then some value else get key entries := rfl

theorem get_insert [LT κ] [DecidableLT κ] :
    get other (insert key value entries) = if other = key then some value else get other entries := by
  induction entries with
  | nil => rfl
  | cons entry rest ih =>
    obtain ⟨first, old⟩ := entry
    rw [insert]
    by_cases hfirst : key = first
    · subst hfirst
      rw [if_pos rfl, get_cons, get_cons]
      by_cases hother : other = key
      · rw [if_pos hother, if_pos hother]
      · rw [if_neg hother, if_neg hother, if_neg hother]
    · rw [if_neg hfirst]
      by_cases hlt : key < first
      · rw [if_pos hlt, get_cons]
      · rw [if_neg hlt, get_cons, get_cons, ih]
        by_cases hother : other = first
        · have hne : other ≠ key := fun h => hfirst (h.symm.trans hother)
          rw [if_pos hother, if_pos hother, if_neg hne]
        · rw [if_neg hother, if_neg hother]

@[simp] theorem get_insert_self [LT κ] [DecidableLT κ] :
    get key (insert key value entries) = some value := by
  rw [get_insert, if_pos rfl]

theorem get_insert_ne [LT κ] [DecidableLT κ] (h : other ≠ key) :
    get other (insert key value entries) = get other entries := by
  rw [get_insert, if_neg h]

theorem get_erase :
    get other (erase key entries) = if other = key then none else get other entries := by
  induction entries with
  | nil => split_ifs <;> rfl
  | cons entry rest ih =>
    obtain ⟨first, old⟩ := entry
    unfold erase at ih ⊢
    by_cases hfirst : first = key
    · subst hfirst
      rw [List.filter_cons_of_neg (by simp), ih, get_cons]
      by_cases hother : other = first
      · rw [if_pos hother, if_pos hother]
      · rw [if_neg hother, if_neg hother, if_neg hother]
    · rw [List.filter_cons_of_pos (by simpa using hfirst), get_cons, get_cons, ih]
      by_cases hother : other = first
      · rw [if_pos hother, if_pos hother, if_neg (hother ▸ hfirst)]
      · rw [if_neg hother, if_neg hother]

@[simp] theorem get_erase_self : get key (erase key entries) = none := by
  rw [get_erase, if_pos rfl]

theorem get_erase_ne (h : other ≠ key) : get other (erase key entries) = get other entries := by
  rw [get_erase, if_neg h]

theorem mem_keys_iff : key ∈ keys entries ↔ ∃ value, get key entries = some value := by
  induction entries with
  | nil => simp [keys]
  | cons entry rest ih =>
    obtain ⟨first, old⟩ := entry
    rw [get_cons]
    by_cases hfirst : key = first
    · simp [keys, hfirst]
    · rw [if_neg hfirst, ← ih]
      simp [keys, hfirst]

theorem mem_of_get (h : get key entries = some value) : (key, value) ∈ entries := by
  induction entries with
  | nil => cases h
  | cons entry rest ih =>
    obtain ⟨first, old⟩ := entry
    rw [get_cons] at h
    by_cases hfirst : key = first
    · rw [if_pos hfirst] at h
      obtain rfl := Option.some.inj h
      rw [hfirst]
      exact List.mem_cons_self
    · rw [if_neg hfirst] at h
      exact List.mem_cons_of_mem _ (ih h)

end Entries

/-! ## Documents -/

/-- A document with scalars of any kind. -/
inductive Doc (κ σ : Type) where
  | Scalar (value : σ)
  | Array (items : List (Doc κ σ))
  | Table (entries : List (κ × Doc κ σ))

namespace Doc

variable {κ σ : Type} [DecidableEq κ]

mutual

/-- Documents of the same shape and the same keys, with scalars that are the same. -/
def alike (same : σ → σ → Bool) : Doc κ σ → Doc κ σ → Bool
  | .Scalar a, .Scalar b => same a b
  | .Array a, .Array b => alikeItems same a b
  | .Table a, .Table b => alikeEntries same a b
  | _, _ => false

def alikeItems (same : σ → σ → Bool) : List (Doc κ σ) → List (Doc κ σ) → Bool
  | [], [] => true
  | a :: as, b :: bs => alike same a b && alikeItems same as bs
  | _, _ => false

def alikeEntries (same : σ → σ → Bool) : List (κ × Doc κ σ) → List (κ × Doc κ σ) → Bool
  | [], [] => true
  | (key, a) :: as, (other, b) :: bs => key = other && alike same a b && alikeEntries same as bs
  | _, _ => false

end

/-- A document that holds nothing by a key. -/
def IsLeaf : Doc κ σ → Prop
  | .Table _ => False
  | _ => True

/-- What is at the end of a sequence of keys, every one but the last leading to a table. -/
def lookup : List κ → Entries κ (Doc κ σ) → Option (Doc κ σ)
  | [], _ => none
  | [key], entries => entries.get key
  | key :: next :: rest, entries =>
    match entries.get key with
    | some (.Table inner) => lookup (next :: rest) inner
    | _ => none

/-- The entries of a table, none of anything else. -/
def inside : Option (Doc κ σ) → Option (Entries κ (Doc κ σ))
  | none => some []
  | some (.Table inner) => some inner
  | some _ => none

/-- A value is put at the end of a sequence of keys. Missing tables are made on the way; there is
no result when something else than a table is in the way. -/
def put [LT κ] [DecidableLT κ] (value : Doc κ σ) :
    List κ → Entries κ (Doc κ σ) → Option (Entries κ (Doc κ σ))
  | [], _ => none
  | [key], entries => some (entries.insert key value)
  | key :: next :: rest, entries =>
    match inside (entries.get key) with
    | some inner => (put value (next :: rest) inner).map fun inner => entries.insert key (.Table inner)
    | none => none

/-- What is at the end of a sequence of keys is dropped, if it is there. -/
def drop [LT κ] [DecidableLT κ] : List κ → Entries κ (Doc κ σ) → Entries κ (Doc κ σ)
  | [], entries => entries
  | [key], entries => entries.erase key
  | key :: next :: rest, entries =>
    match entries.get key with
    | some (.Table inner) => entries.insert key (.Table (drop (next :: rest) inner))
    | _ => entries

/-- No value but a table is in the way of a sequence of keys. -/
def Passable (keys : List κ) (entries : Entries κ (Doc κ σ)) : Prop :=
  ∀ front, front ≠ [] → front <+: keys → front ≠ keys → ∀ doc, lookup front entries = some doc →
    ∃ inner, doc = .Table inner

/-- What is found further on from a value that was found. -/
def reach : List κ → Option (Doc κ σ) → Option (Doc κ σ)
  | [], doc => doc
  | key :: rest, some (.Table inner) => lookup (key :: rest) inner
  | _ :: _, _ => none

variable {key : κ} {keys other front rest : List κ} {entries entries' inner : Entries κ (Doc κ σ)}
  {doc value : Doc κ σ}

theorem lookup_cons : lookup (key :: rest) entries = reach rest (entries.get key) := by
  cases rest with
  | nil => rfl
  | cons next rest =>
    rw [lookup]
    cases entries.get key with
    | none => rfl
    | some doc => cases doc <;> rfl

@[simp] theorem lookup_nil_entries : lookup keys ([] : Entries κ (Doc κ σ)) = none := by
  cases keys with
  | nil => rfl
  | cons key rest =>
    rw [lookup_cons]
    cases rest <;> rfl

@[simp] theorem reach_none : reach keys (none : Option (Doc κ σ)) = none := by
  cases keys <;> rfl

theorem reach_table (h : keys ≠ []) : reach keys (some (.Table inner)) = lookup keys inner := by
  cases keys with
  | nil => exact absurd rfl h
  | cons => rfl

theorem reach_leaf (hleaf : doc.IsLeaf) (h : keys ≠ []) : reach keys (some doc) = none := by
  cases keys with
  | nil => exact absurd rfl h
  | cons =>
    cases doc with
    | Table => exact absurd hleaf id
    | Scalar => rfl
    | Array => rfl

theorem lookup_append (h : front ≠ []) :
    lookup (front ++ rest) entries = reach rest (lookup front entries) := by
  induction front generalizing entries with
  | nil => exact absurd rfl h
  | cons key front ih =>
    rw [List.cons_append, lookup_cons, lookup_cons]
    cases front with
    | nil => rfl
    | cons next front =>
      cases hget : entries.get key with
      | none => rw [reach_none, reach_none, reach_none]
      | some doc =>
        cases doc with
        | Scalar => cases rest <;> rfl
        | Array => cases rest <;> rfl
        | Table inner =>
          rw [reach_table (by simp), reach_table (by simp)]
          exact ih (by simp)

/-- A value below another one is inside a table. -/
theorem table_of_lookup_append (h : lookup (front ++ rest) entries = some doc) (hfront : front ≠ [])
    (hrest : rest ≠ []) : ∃ inner, lookup front entries = some (.Table inner) := by
  rw [lookup_append hfront] at h
  cases hfound : lookup front entries with
  | none =>
    rw [hfound, reach_none] at h
    cases h
  | some found =>
    rw [hfound] at h
    cases found with
    | Table inner => exact ⟨inner, rfl⟩
    | Scalar value =>
      have hleaf : (Doc.Scalar value : Doc κ σ).IsLeaf := trivial
      rw [reach_leaf hleaf hrest] at h
      cases h
    | Array items =>
      have hleaf : (Doc.Array items).IsLeaf := trivial
      rw [reach_leaf hleaf hrest] at h
      cases h

/-- What a table's entries can be reached by is reached by the old value too. -/
theorem reach_inside {old : Option (Doc κ σ)} (h : inside old = some inner) (hkeys : keys ≠ []) :
    reach keys old = lookup keys inner := by
  cases old with
  | none =>
    obtain rfl := Option.some.inj h
    rw [reach_none, lookup_nil_entries]
  | some doc =>
    cases doc with
    | Scalar => cases h
    | Array => cases h
    | Table entries =>
      obtain rfl := Option.some.inj h
      exact reach_table hkeys

/-! ### What is put -/

section Put

variable [LT κ] [DecidableLT κ]

/-- What the first key of a sequence leads to after a value was put at its end. -/
def built (value : Doc κ σ) : List κ → Option (Doc κ σ) → Option (Doc κ σ)
  | [], _ => some value
  | key :: rest, old => ((inside old).bind (put value (key :: rest))).map .Table

theorem put_cons : put value (key :: rest) entries =
    (built value rest (entries.get key)).map fun doc => entries.insert key doc := by
  cases rest with
  | nil => rfl
  | cons next rest =>
    rw [put, built]
    cases inside (entries.get key) with
    | none => rfl
    | some inner =>
      rw [Option.bind_some, Option.map_map]
      rfl

theorem put_cons_iff : put value (key :: rest) entries = some entries' ↔
    ∃ doc, built value rest (entries.get key) = some doc ∧ entries' = entries.insert key doc := by
  rw [put_cons, Option.map_eq_some_iff]
  simp only [eq_comm]

theorem built_iff {old : Option (Doc κ σ)} (h : keys ≠ []) : built value keys old = some doc ↔
    ∃ inner inner', inside old = some inner ∧ put value keys inner = some inner' ∧
      doc = .Table inner' := by
  cases keys with
  | nil => exact absurd rfl h
  | cons key rest =>
    rw [built, Option.map_eq_some_iff]
    simp only [Option.bind_eq_some_iff, eq_comm (a := doc)]
    exact ⟨fun ⟨inner', ⟨inner, hinner, hput⟩, hdoc⟩ => ⟨inner, inner', hinner, hput, hdoc⟩,
      fun ⟨inner, inner', hinner, hput, hdoc⟩ => ⟨inner', ⟨inner, hinner, hput⟩, hdoc⟩⟩

theorem lookup_put (h : put value keys entries = some entries') :
    lookup keys entries' = some value := by
  induction keys generalizing entries entries' with
  | nil => cases h
  | cons key rest ih =>
    obtain ⟨doc, hbuilt, rfl⟩ := put_cons_iff.mp h
    rw [lookup_cons, Entries.get_insert_self]
    cases rest with
    | nil => exact hbuilt.symm
    | cons next rest =>
      obtain ⟨inner, inner', _, hput, rfl⟩ := (built_iff (by simp)).mp hbuilt
      rw [reach_table (by simp)]
      exact ih hput

/-- What is neither above nor below the keys is left as it was. -/
theorem lookup_put_apart (h : put value keys entries = some entries') (hbelow : ¬ keys <+: other)
    (habove : ¬ other <+: keys) : lookup other entries' = lookup other entries := by
  induction keys generalizing entries entries' other with
  | nil => exact absurd (List.nil_prefix) hbelow
  | cons key rest ih =>
    obtain ⟨doc, hbuilt, rfl⟩ := put_cons_iff.mp h
    cases other with
    | nil => exact absurd (List.nil_prefix) habove
    | cons first more =>
      rw [lookup_cons, lookup_cons, Entries.get_insert]
      by_cases hfirst : first = key
      · subst hfirst
        rw [List.cons_prefix_cons] at hbelow habove
        have hbelow' : ¬ rest <+: more := fun h => hbelow ⟨rfl, h⟩
        have habove' : ¬ more <+: rest := fun h => habove ⟨rfl, h⟩
        have hmore : more ≠ [] := fun h => habove' (h ▸ List.nil_prefix)
        have hrest : rest ≠ [] := fun h => hbelow' (h ▸ List.nil_prefix)
        obtain ⟨inner, inner', hinside, hput, rfl⟩ := (built_iff hrest).mp hbuilt
        rw [if_pos rfl, reach_table hmore, ih hput hbelow' habove', reach_inside hinside hmore]
      · rw [if_neg hfirst]

/-- Above the keys there are tables, and there was nothing else. -/
theorem lookup_put_above (h : put value keys entries = some entries') (hother : other ≠ [])
    (habove : other <+: keys) (hne : other ≠ keys) :
    (∃ inner', lookup other entries' = some (.Table inner')) ∧
      ∃ inner, inside (lookup other entries) = some inner := by
  induction keys generalizing entries entries' other with
  | nil => cases h
  | cons key rest ih =>
    obtain ⟨doc, hbuilt, rfl⟩ := put_cons_iff.mp h
    cases other with
    | nil => exact absurd rfl hother
    | cons first more =>
      obtain ⟨rfl, habove'⟩ := List.cons_prefix_cons.mp habove
      have hne' : more ≠ rest := fun h => hne (h ▸ rfl)
      have hrest : rest ≠ [] := fun h => hne' (List.prefix_nil.mp (h ▸ habove') |>.trans h.symm)
      obtain ⟨inner, inner', hinside, hput, rfl⟩ := (built_iff hrest).mp hbuilt
      rw [lookup_cons, lookup_cons, Entries.get_insert_self]
      by_cases hmore : more = []
      · subst hmore
        exact ⟨⟨inner', rfl⟩, inner, hinside⟩
      · rw [reach_table hmore, reach_inside hinside hmore]
        exact ih hput hmore habove' hne'

/-- A value that holds nothing by a key is left as it was, unless it is below the keys. -/
theorem lookup_put_leaf (h : put value keys entries = some entries')
    (hdoc : lookup other entries = some doc) (hleaf : doc.IsLeaf) (hbelow : ¬ keys <+: other) :
    lookup other entries' = some doc := by
  by_cases habove : other <+: keys
  · have hother : other ≠ [] := by
      rintro rfl
      cases hdoc
    have hne : other ≠ keys := fun h => hbelow (h ▸ List.prefix_rfl)
    obtain ⟨_, inner, hinside⟩ := lookup_put_above h hother habove hne
    rw [hdoc] at hinside
    cases doc with
    | Table => exact absurd hleaf id
    | Scalar => cases hinside
    | Array => cases hinside
  · rw [lookup_put_apart h hbelow habove, hdoc]

theorem passable_of_put (h : put value keys entries = some entries') : Passable keys entries := by
  intro front hfront habove hne doc hdoc
  obtain ⟨_, inner, hinside⟩ := lookup_put_above h hfront habove hne
  rw [hdoc] at hinside
  cases doc with
  | Table inner => exact ⟨inner, rfl⟩
  | Scalar => cases hinside
  | Array => cases hinside

/-- What can be put at the end of a sequence of keys is decided by what is in the way. -/
theorem exists_put_iff (h : keys ≠ []) :
    (∃ entries', put value keys entries = some entries') ↔ Passable keys entries := by
  refine ⟨fun ⟨_, hput⟩ => passable_of_put hput, fun hpass => ?_⟩
  induction keys generalizing entries with
  | nil => exact absurd rfl h
  | cons key rest ih =>
    simp only [put_cons_iff]
    by_cases hrest : rest = []
    · subst hrest
      exact ⟨_, value, rfl, rfl⟩
    · have hinside : ∃ inner, inside (entries.get key) = some inner := by
        cases hget : entries.get key with
        | none => exact ⟨[], rfl⟩
        | some doc =>
          obtain ⟨inner, rfl⟩ := hpass [key] (by simp) ⟨rest, rfl⟩ (by simpa using Ne.symm hrest) doc hget
          exact ⟨inner, rfl⟩
      obtain ⟨inner, hinner⟩ := hinside
      have hpass' : Passable rest inner := by
        intro front hfront habove hne doc hdoc
        refine hpass (key :: front) (by simp) (List.cons_prefix_cons.mpr ⟨rfl, habove⟩)
          (by simpa using hne) doc ?_
        rw [lookup_cons, reach_inside hinner hfront, hdoc]
      obtain ⟨inner', hput⟩ := ih hrest hpass'
      exact ⟨_, .Table inner', (built_iff hrest).mpr ⟨inner, inner', hinner, hput, rfl⟩, rfl⟩

end Put

/-! ### What is dropped -/

section Drop

variable [LT κ] [DecidableLT κ]

/-- A sequence of more than one key drops something of the table that its first key leads to, if
there is one. -/
theorem drop_cons (h : rest ≠ []) : drop (key :: rest) entries =
    match entries.get key with
    | some (.Table inner) => entries.insert key (.Table (drop rest inner))
    | _ => entries := by
  cases rest with
  | nil => exact absurd rfl h
  | cons => rfl

/-- What is at or below the keys is gone, and everything apart from them is left as it was. -/
theorem lookup_drop_below (h : keys ≠ []) (hbelow : keys <+: other) :
    lookup other (drop keys entries) = none := by
  induction keys generalizing entries other with
  | nil => exact absurd rfl h
  | cons key rest ih =>
    obtain ⟨tail, rfl⟩ := hbelow
    rw [List.cons_append, lookup_cons]
    by_cases hrest : rest = []
    · subst hrest
      rw [drop, Entries.get_erase_self, reach_none]
    · have hmore : rest ++ tail ≠ [] := by simp [hrest]
      rw [drop_cons hrest]
      cases hget : entries.get key with
      | none => simp only [hget, reach_none]
      | some doc =>
        cases doc with
        | Table inner =>
          simp only [Entries.get_insert_self]
          rw [reach_table hmore]
          exact ih hrest ⟨tail, rfl⟩
        | Scalar value =>
          have hleaf : (Doc.Scalar value : Doc κ σ).IsLeaf := trivial
          simp only [hget, reach_leaf hleaf hmore]
        | Array items =>
          have hleaf : (Doc.Array items).IsLeaf := trivial
          simp only [hget, reach_leaf hleaf hmore]

theorem lookup_drop_apart (hbelow : ¬ keys <+: other) (habove : ¬ other <+: keys) :
    lookup other (drop keys entries) = lookup other entries := by
  induction keys generalizing entries other with
  | nil => exact absurd List.nil_prefix hbelow
  | cons key rest ih =>
    cases other with
    | nil => exact absurd List.nil_prefix habove
    | cons first more =>
      rw [List.cons_prefix_cons] at hbelow habove
      by_cases hrest : rest = []
      · subst hrest
        have hfirst : first ≠ key := fun h => hbelow ⟨h.symm, List.nil_prefix⟩
        rw [drop, lookup_cons, lookup_cons, Entries.get_erase_ne hfirst]
      · rw [drop_cons hrest]
        cases hget : entries.get key with
        | none => rfl
        | some doc =>
          cases doc with
          | Scalar => rfl
          | Array => rfl
          | Table inner =>
            simp only [lookup_cons, Entries.get_insert]
            by_cases hfirst : first = key
            · subst hfirst
              have hbelow' : ¬ rest <+: more := fun h => hbelow ⟨rfl, h⟩
              have habove' : ¬ more <+: rest := fun h => habove ⟨rfl, h⟩
              have hmore : more ≠ [] := fun h => habove' (h ▸ List.nil_prefix)
              rw [if_pos rfl, hget, reach_table hmore, reach_table hmore, ih hbelow' habove']
            · rw [if_neg hfirst]

/-- A value above the keys that is no table stays; so do the tables, without what was dropped. -/
theorem lookup_drop_above (habove : other <+: keys) (hne : other ≠ keys) :
    (∀ doc, doc.IsLeaf → lookup other entries = some doc →
      lookup other (drop keys entries) = some doc) ∧
    (lookup other entries = none → lookup other (drop keys entries) = none) := by
  induction keys generalizing entries other with
  | nil => exact absurd (List.prefix_nil.mp habove) hne
  | cons key rest ih =>
    cases other with
    | nil => exact ⟨(fun _ _ h => nomatch h), fun _ => rfl⟩
    | cons first more =>
      obtain ⟨rfl, habove'⟩ := List.cons_prefix_cons.mp habove
      have hne' : more ≠ rest := fun h => hne (h ▸ rfl)
      have hrest : rest ≠ [] := fun h => hne' (List.prefix_nil.mp (h ▸ habove') |>.trans h.symm)
      rw [drop_cons hrest]
      cases hget : entries.get first with
      | none => exact ⟨fun _ _ h => h, fun h => h⟩
      | some doc =>
        cases doc with
        | Scalar => exact ⟨fun _ _ h => h, fun h => h⟩
        | Array => exact ⟨fun _ _ h => h, fun h => h⟩
        | Table inner =>
          simp only [lookup_cons, Entries.get_insert_self, hget]
          by_cases hmore : more = []
          · subst hmore
            refine ⟨fun doc hleaf h => ?_, fun h => nomatch h⟩
            obtain rfl := Option.some.inj h
            exact absurd hleaf id
          · rw [reach_table hmore, reach_table hmore]
            exact ih habove' hne'

theorem lookup_drop_leaf (hdoc : lookup other entries = some doc) (hleaf : doc.IsLeaf)
    (hbelow : ¬ keys <+: other) : lookup other (drop keys entries) = some doc := by
  by_cases habove : other <+: keys
  · have hne : other ≠ keys := fun h => hbelow (h ▸ List.prefix_rfl)
    exact (lookup_drop_above habove hne).1 doc hleaf hdoc
  · rw [lookup_drop_apart hbelow habove, hdoc]

/-- A value that holds nothing by a key was there before the drop. -/
theorem lookup_of_drop_leaf (hdoc : lookup other (drop keys entries) = some doc)
    (hleaf : doc.IsLeaf) : lookup other entries = some doc := by
  induction keys generalizing entries other with
  | nil => exact hdoc
  | cons key rest ih =>
    cases other with
    | nil => cases hdoc
    | cons first more =>
      by_cases hrest : rest = []
      · subst hrest
        rw [drop, lookup_cons, Entries.get_erase] at hdoc
        rw [lookup_cons]
        split_ifs at hdoc with hfirst
        · cases more <;> cases hdoc
        · exact hdoc
      · rw [drop_cons hrest] at hdoc
        cases hget : entries.get key with
        | none => simpa only [hget] using hdoc
        | some found =>
          cases found with
          | Scalar => simpa only [hget] using hdoc
          | Array => simpa only [hget] using hdoc
          | Table inner =>
            simp only [hget, lookup_cons, Entries.get_insert] at hdoc
            rw [lookup_cons]
            by_cases hfirst : first = key
            · subst hfirst
              rw [if_pos rfl] at hdoc
              rw [hget]
              by_cases hmore : more = []
              · subst hmore
                obtain rfl := Option.some.inj hdoc
                exact absurd hleaf id
              · rw [reach_table hmore] at hdoc ⊢
                exact ih hdoc
            · rw [if_neg hfirst] at hdoc
              exact hdoc

/-- Nothing is found after a drop that was not found before it. -/
theorem lookup_drop_none (h : lookup other entries = none) : lookup other (drop keys entries) = none := by
  by_cases hkeys : keys = []
  · subst hkeys
    exact h
  by_cases hbelow : keys <+: other
  · exact lookup_drop_below hkeys hbelow
  by_cases habove : other <+: keys
  · exact (lookup_drop_above habove fun heq => hbelow (heq ▸ List.prefix_rfl)).2 h
  · rw [lookup_drop_apart hbelow habove, h]

end Drop

end Doc

end documents
