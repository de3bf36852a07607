-- Documents with hidden places: documents that differ only there, and which
-- parts of a document are the same in all of them.
import NixosDockers.Lib.Documents

namespace documents

namespace Doc

variable {κ σ π : Type}

/-! ## Documents that differ only at hidden places -/

/-- How the place of a value follows from that of the table or the array that it is in. -/
structure Places (κ π : Type) where
  entry : π → κ → π
  item : π → ℕ → π
  hidden : π → Prop

mutual

/-- The second document is the first one but for what is at a hidden place. -/
def SameBut (places : Places κ π) : Doc κ σ → π → Doc κ σ → Prop
  | .Scalar value, place, other => places.hidden place ∨ other = .Scalar value
  | .Array items, place, other => places.hidden place ∨
      ∃ others, other = .Array others ∧ SameItems places items place 0 others
  | .Table entries, place, other => places.hidden place ∨
      ∃ others, other = .Table others ∧ SameEntries places entries (places.entry place) others

def SameItems (places : Places κ π) : List (Doc κ σ) → π → ℕ → List (Doc κ σ) → Prop
  | [], _, _, others => others = []
  | item :: rest, place, index, others => ∃ other more, others = other :: more ∧
      SameBut places item (places.item place index) other ∧
      SameItems places rest place (index + 1) more

def SameEntries (places : Places κ π) :
    List (κ × Doc κ σ) → (κ → π) → List (κ × Doc κ σ) → Prop
  | [], _, others => others = []
  | (key, value) :: rest, place, others => ∃ other more, others = (key, other) :: more ∧
      SameBut places value (place key) other ∧ SameEntries places rest place more

end

mutual

/-- Neither the document nor anything in it is at a hidden place. -/
def Clear (places : Places κ π) : Doc κ σ → π → Prop
  | .Scalar _, place => ¬ places.hidden place
  | .Array items, place => ¬ places.hidden place ∧ ClearItems places items place 0
  | .Table entries, place => ¬ places.hidden place ∧ ClearEntries places entries (places.entry place)

def ClearItems (places : Places κ π) : List (Doc κ σ) → π → ℕ → Prop
  | [], _, _ => True
  | item :: rest, place, index =>
    Clear places item (places.item place index) ∧ ClearItems places rest place (index + 1)

def ClearEntries (places : Places κ π) : List (κ × Doc κ σ) → (κ → π) → Prop
  | [], _ => True
  | (key, value) :: rest, place => Clear places value (place key) ∧ ClearEntries places rest place

end

variable {places : Places κ π}

theorem SameBut.of_hidden {place : π} (h : places.hidden place) (doc other : Doc κ σ) :
    SameBut places doc place other := by
  cases doc <;> exact Or.inl h

mutual

theorem SameBut.refl : ∀ (doc : Doc κ σ) (place : π), SameBut places doc place doc
  | .Scalar _, _ => Or.inr rfl
  | .Array items, place => Or.inr ⟨items, rfl, SameItems.refl items place 0⟩
  | .Table entries, place => Or.inr ⟨entries, rfl, SameEntries.refl entries (places.entry place)⟩

theorem SameItems.refl : ∀ (items : List (Doc κ σ)) (place : π) (index : ℕ),
    SameItems places items place index items
  | [], _, _ => rfl
  | item :: rest, place, index =>
    ⟨item, rest, rfl, SameBut.refl item (places.item place index),
      SameItems.refl rest place (index + 1)⟩

theorem SameEntries.refl : ∀ (entries : List (κ × Doc κ σ)) (place : κ → π),
    SameEntries places entries place entries
  | [], _ => rfl
  | (key, value) :: rest, place =>
    ⟨value, rest, rfl, SameBut.refl value (place key), SameEntries.refl rest place⟩

end

mutual

/-- A document that is clear is the same in all. -/
theorem Clear.eq : ∀ {doc : Doc κ σ} {place : π} {other : Doc κ σ}, Clear places doc place →
    SameBut places doc place other → other = doc
  | .Scalar _, _, _, hclear, hsame => hsame.resolve_left hclear
  | .Array _, _, _, hclear, hsame => by
    obtain ⟨others, rfl, hothers⟩ := hsame.resolve_left hclear.1
    rw [ClearItems.eq hclear.2 hothers]
  | .Table _, _, _, hclear, hsame => by
    obtain ⟨others, rfl, hothers⟩ := hsame.resolve_left hclear.1
    rw [ClearEntries.eq hclear.2 hothers]

theorem ClearItems.eq : ∀ {items : List (Doc κ σ)} {place : π} {index : ℕ}
    {others : List (Doc κ σ)}, ClearItems places items place index →
    SameItems places items place index others → others = items
  | [], _, _, _, _, hsame => hsame
  | _ :: _, _, _, _, hclear, hsame => by
    obtain ⟨other, more, rfl, hother, hmore⟩ := hsame
    rw [Clear.eq hclear.1 hother, ClearItems.eq hclear.2 hmore]

theorem ClearEntries.eq : ∀ {entries : List (κ × Doc κ σ)} {place : κ → π}
    {others : List (κ × Doc κ σ)}, ClearEntries places entries place →
    SameEntries places entries place others → others = entries
  | [], _, _, _, hsame => hsame
  | (_, _) :: _, _, _, hclear, hsame => by
    obtain ⟨other, more, rfl, hother, hmore⟩ := hsame
    rw [Clear.eq hclear.1 hother, ClearEntries.eq hclear.2 hmore]

end

/-- There is always another document. -/
theorem ne_array (doc : Doc κ σ) : Doc.Array [doc] ≠ doc := by
  intro h
  have hsize := congrArg sizeOf h
  simp at hsize
  omega

mutual

/-- A document that is not clear is not the same in all. -/
theorem exists_other : ∀ {doc : Doc κ σ} {place : π}, ¬ Clear places doc place →
    ∃ other, other ≠ doc ∧ SameBut places doc place other
  | .Scalar value, place, h =>
    ⟨.Array [.Scalar value], nofun, Or.inl (not_not.mp h)⟩
  | .Array items, place, h => by
    by_cases hhidden : places.hidden place
    · exact ⟨_, ne_array _, Or.inl hhidden⟩
    · obtain ⟨others, hne, hothers⟩ := exists_otherItems fun hitems => h ⟨hhidden, hitems⟩
      exact ⟨.Array others, fun heq => hne (Doc.Array.inj heq), Or.inr ⟨others, rfl, hothers⟩⟩
  | .Table entries, place, h => by
    by_cases hhidden : places.hidden place
    · exact ⟨_, ne_array _, Or.inl hhidden⟩
    · obtain ⟨others, hne, hothers⟩ := exists_otherEntries fun hentries => h ⟨hhidden, hentries⟩
      exact ⟨.Table others, fun heq => hne (Doc.Table.inj heq), Or.inr ⟨others, rfl, hothers⟩⟩

theorem exists_otherItems : ∀ {items : List (Doc κ σ)} {place : π} {index : ℕ},
    ¬ ClearItems places items place index →
    ∃ others, others ≠ items ∧ SameItems places items place index others
  | [], _, _, h => absurd trivial h
  | item :: rest, place, index, h => by
    by_cases hitem : Clear places item (places.item place index)
    · obtain ⟨more, hne, hmore⟩ := exists_otherItems fun hrest => h ⟨hitem, hrest⟩
      exact ⟨item :: more, fun heq => hne (List.cons.inj heq).2, item, more, rfl,
        SameBut.refl item _, hmore⟩
    · obtain ⟨other, hne, hother⟩ := exists_other hitem
      exact ⟨other :: rest, fun heq => hne (List.cons.inj heq).1, other, rest, rfl, hother,
        SameItems.refl rest _ _⟩

theorem exists_otherEntries : ∀ {entries : List (κ × Doc κ σ)} {place : κ → π},
    ¬ ClearEntries places entries place →
    ∃ others, others ≠ entries ∧ SameEntries places entries place others
  | [], _, h => absurd trivial h
  | (key, value) :: rest, place, h => by
    by_cases hvalue : Clear places value (place key)
    · obtain ⟨more, hne, hmore⟩ := exists_otherEntries fun hrest => h ⟨hvalue, hrest⟩
      exact ⟨(key, value) :: more, fun heq => hne (List.cons.inj heq).2, value, more, rfl,
        SameBut.refl value _, hmore⟩
    · obtain ⟨other, hne, hother⟩ := exists_other hvalue
      exact ⟨(key, other) :: rest, fun heq => hne (Prod.mk.inj (List.cons.inj heq).1).2,
        other, rest, rfl, hother, SameEntries.refl rest _⟩

end

/-! ## What is found at the end of a sequence of keys -/

/-- The place at the end of a sequence of keys. -/
def Places.along (places : Places κ π) (start : π) (keys : List κ) : π :=
  keys.foldl places.entry start

/-- A place on the way, before the end, is hidden. -/
def HiddenAbove (places : Places κ π) (start : π) (keys : List κ) : Prop :=
  ∃ front, front <+: keys ∧ front ≠ keys ∧ places.hidden (places.along start front)

variable {key : κ} {keys rest : List κ} {start : π} {doc other found value : Doc κ σ}

theorem hiddenAbove_cons : HiddenAbove places start (key :: rest) ↔
    places.hidden start ∨ HiddenAbove places (places.entry start key) rest := by
  constructor
  · rintro ⟨front, hprefix, hne, hhidden⟩
    cases front with
    | nil => exact Or.inl hhidden
    | cons first front =>
      obtain ⟨rfl, hfront⟩ := List.cons_prefix_cons.mp hprefix
      exact Or.inr ⟨front, hfront, fun heq => hne (by rw [heq]), hhidden⟩
  · rintro (hhidden | ⟨front, hprefix, hne, hhidden⟩)
    · exact ⟨[], List.nil_prefix, nofun, hhidden⟩
    · exact ⟨key :: front, List.cons_prefix_cons.mpr ⟨rfl, hprefix⟩,
        fun heq => hne (List.cons.inj heq).2, hhidden⟩

theorem not_hiddenAbove_nil : ¬ HiddenAbove places start ([] : List κ) := by
  rintro ⟨front, hprefix, hne, -⟩
  exact hne (List.prefix_nil.mp hprefix)

variable [DecidableEq κ]

theorem reach_cons_table {entries : Entries κ (Doc κ σ)} :
    reach (key :: rest) (some (.Table entries)) = reach rest (Entries.get key entries) := lookup_cons

theorem table_of_reach (h : reach (key :: rest) (some doc) = some found) :
    ∃ entries, doc = .Table entries ∧ reach rest (Entries.get key entries) = some found := by
  cases doc with
  | Scalar value => cases h
  | Array items => cases h
  | Table entries => exact ⟨entries, rfl, reach_cons_table.symm.trans h⟩

theorem SameEntries.get : ∀ {entries others : Entries κ (Doc κ σ)} {place : κ → π},
    SameEntries places entries place others → Entries.get key entries = some value →
    ∃ other, Entries.get key others = some other ∧ SameBut places value (place key) other
  | [], _, _, _, h => nomatch h
  | (first, old) :: rest, _, place, hsame, h => by
    obtain ⟨other, more, rfl, hother, hmore⟩ := hsame
    rw [Entries.get_cons] at h ⊢
    split_ifs at h ⊢ with hkey
    · cases h
      exact ⟨other, rfl, hkey ▸ hother⟩
    · exact SameEntries.get hmore h

/-- What is found on an open way is found in the other document too. -/
theorem SameBut.reach (hsame : SameBut places doc start other)
    (hopen : ¬ HiddenAbove places start keys) (h : Doc.reach keys (some doc) = some found) :
    ∃ found', Doc.reach keys (some other) = some found' ∧
      SameBut places found (places.along start keys) found' := by
  induction keys generalizing doc start other with
  | nil =>
    cases h
    exact ⟨other, rfl, hsame⟩
  | cons key rest ih =>
    rw [hiddenAbove_cons, not_or] at hopen
    obtain ⟨entries, rfl, hfound⟩ := table_of_reach h
    obtain ⟨others, rfl, hothers⟩ := Or.resolve_left hsame hopen.1
    cases hget : Entries.get key entries with
    | none => rw [hget, reach_none] at hfound; cases hfound
    | some inner =>
      rw [hget] at hfound
      obtain ⟨inner', hinner', hsame'⟩ := hothers.get hget
      rw [reach_cons_table, hinner']
      exact ih hsame' hopen.2 hfound

/-! ## Another value in the same place -/

/-- The first entry of the key is changed. -/
def changeEntry (key : κ) (change : Doc κ σ → Doc κ σ) :
    Entries κ (Doc κ σ) → Entries κ (Doc κ σ)
  | [] => []
  | (other, value) :: rest =>
    if key = other then (other, change value) :: rest
    else (other, value) :: changeEntry key change rest

/-- The document with another value at the end of a sequence of keys. -/
def replaceAt (value : Doc κ σ) : List κ → Doc κ σ → Doc κ σ
  | [], _ => value
  | key :: rest, .Table entries => .Table (changeEntry key (replaceAt value rest) entries)
  | _ :: _, doc => doc

theorem get_changeEntry (change : Doc κ σ → Doc κ σ) (entries : Entries κ (Doc κ σ)) :
    Entries.get key (changeEntry key change entries) = (Entries.get key entries).map change := by
  induction entries with
  | nil => rfl
  | cons entry rest ih =>
    obtain ⟨other, value⟩ := entry
    rw [changeEntry, Entries.get_cons]
    split_ifs with hkey
    · rw [Entries.get_cons, if_pos hkey, Option.map_some]
    · rw [Entries.get_cons, if_neg hkey, ih]

theorem reach_replaceAt (h : reach keys (some doc) = some found) :
    reach keys (some (replaceAt value keys doc)) = some value := by
  induction keys generalizing doc with
  | nil => rfl
  | cons key rest ih =>
    obtain ⟨entries, rfl, hfound⟩ := table_of_reach h
    rw [replaceAt, reach_cons_table, get_changeEntry]
    cases hget : Entries.get key entries with
    | none => rw [hget, reach_none] at hfound; cases hfound
    | some inner =>
      rw [hget] at hfound
      exact ih hfound

theorem sameEntries_changeEntry {change : Doc κ σ → Doc κ σ} {inner : Doc κ σ} {place : κ → π} :
    ∀ {entries : Entries κ (Doc κ σ)}, Entries.get key entries = some inner →
      SameBut places inner (place key) (change inner) →
      SameEntries places entries place (changeEntry key change entries)
  | [], h, _ => nomatch h
  | (other, value) :: rest, h, hsame => by
    rw [Entries.get_cons] at h
    rw [changeEntry]
    split_ifs at h ⊢ with hkey
    · cases h
      subst hkey
      exact ⟨_, _, rfl, hsame, SameEntries.refl rest place⟩
    · exact ⟨_, _, rfl, SameBut.refl value _, sameEntries_changeEntry h hsame⟩

/-- The value is free to change below a hidden place, or within what may change at its own. -/
theorem sameBut_replaceAt (h : reach keys (some doc) = some found)
    (hfree : HiddenAbove places start keys ∨
      SameBut places found (places.along start keys) value) :
    SameBut places doc start (replaceAt value keys doc) := by
  induction keys generalizing doc start with
  | nil =>
    cases h
    exact hfree.resolve_left not_hiddenAbove_nil
  | cons key rest ih =>
    obtain ⟨entries, rfl, hfound⟩ := table_of_reach h
    by_cases hhidden : places.hidden start
    · exact SameBut.of_hidden hhidden _ _
    · rw [hiddenAbove_cons, or_assoc] at hfree
      have hfree := hfree.resolve_left hhidden
      cases hget : Entries.get key entries with
      | none => rw [hget, reach_none] at hfound; cases hfound
      | some inner =>
        rw [hget] at hfound
        exact Or.inr ⟨_, rfl, sameEntries_changeEntry hget (ih hfound hfree)⟩

/-- What is found is the same in all documents that differ only at hidden places, exactly when the
way there is open and nothing in it is hidden. -/
theorem found_same_iff (h : reach keys (some doc) = some found) :
    (∀ other found', SameBut places doc start other → reach keys (some other) = some found' →
      found' = found) ↔
    ¬ HiddenAbove places start keys ∧ Clear places found (places.along start keys) := by
  constructor
  · intro hsame
    have hfixed : ∀ value, HiddenAbove places start keys ∨
        SameBut places found (places.along start keys) value → value = found :=
      fun value hfree => hsame _ value (sameBut_replaceAt h hfree) (reach_replaceAt h)
    refine ⟨fun habove => ne_array found (hfixed _ (Or.inl habove)), ?_⟩
    by_contra hclear
    obtain ⟨value, hne, hvalue⟩ := exists_other hclear
    exact hne (hfixed value (Or.inr hvalue))
  · rintro ⟨hopen, hclear⟩ other found' hsame hfound'
    obtain ⟨value, hvalue, halike⟩ := SameBut.reach hsame hopen h
    rw [hfound'] at hvalue
    obtain rfl := Option.some.inj hvalue
    exact Clear.eq hclear halike

end Doc

end documents
