-- Documents by what stands at each sequence of keys, and what a value adds there when it is
-- put at the end of a sequence of keys.
import NixosDockers.Lib.Documents
import NixosDockers.Lib.Unions

open agreement unions

namespace documents

variable {κ σ : Type} [DecidableEq κ] {same : σ → σ → Bool} {keys other : List κ}
  {entries entries' inner : Entries κ (Doc κ σ)} {doc existing a b c : Doc κ σ}

/-! ## Documents that are alike -/

namespace Doc

mutual

theorem alike_symm (hsymm : ∀ a b, same a b = true → same b a = true) (a b : Doc κ σ)
    (h : alike same a b = true) : alike same b a = true := by
  cases a with
  | Scalar value =>
    cases b with
    | Scalar other => exact hsymm value other h
    | Array => cases h
    | Table => cases h
  | Array items =>
    cases b with
    | Scalar => cases h
    | Array others => exact alikeItems_symm hsymm items others h
    | Table => cases h
  | Table entries =>
    cases b with
    | Scalar => cases h
    | Array => cases h
    | Table others => exact alikeEntries_symm hsymm entries others h

theorem alikeItems_symm (hsymm : ∀ a b, same a b = true → same b a = true)
    (l l' : List (Doc κ σ)) (h : alikeItems same l l' = true) : alikeItems same l' l = true := by
  cases l with
  | nil =>
    cases l' with
    | nil => rfl
    | cons => cases h
  | cons a rest =>
    cases l' with
    | nil => cases h
    | cons b rest' =>
      obtain ⟨hfirst, hrest⟩ := Bool.and_eq_true_iff.mp h
      exact Bool.and_eq_true_iff.mpr
        ⟨alike_symm hsymm a b hfirst, alikeItems_symm hsymm rest rest' hrest⟩

theorem alikeEntries_symm (hsymm : ∀ a b, same a b = true → same b a = true)
    (l l' : List (κ × Doc κ σ)) (h : alikeEntries same l l' = true) :
    alikeEntries same l' l = true := by
  cases l with
  | nil =>
    cases l' with
    | nil => rfl
    | cons => cases h
  | cons entry rest =>
    cases l' with
    | nil => cases h
    | cons entry' rest' =>
      obtain ⟨key, a⟩ := entry
      obtain ⟨key', b⟩ := entry'
      simp only [alikeEntries, Bool.and_eq_true, decide_eq_true_eq] at h ⊢
      exact ⟨⟨h.1.1.symm, alike_symm hsymm a b h.1.2⟩, alikeEntries_symm hsymm rest rest' h.2⟩

end

mutual

theorem alike_trans (htrans : ∀ a b c, same a b = true → same b c = true → same a c = true)
    (a b c : Doc κ σ) (hab : alike same a b = true) (hbc : alike same b c = true) :
    alike same a c = true := by
  cases a with
  | Scalar value =>
    cases b with
    | Scalar other =>
      cases c with
      | Scalar last => exact htrans value other last hab hbc
      | Array => cases hbc
      | Table => cases hbc
    | Array => cases hab
    | Table => cases hab
  | Array items =>
    cases b with
    | Scalar => cases hab
    | Array others =>
      cases c with
      | Scalar => cases hbc
      | Array last => exact alikeItems_trans htrans items others last hab hbc
      | Table => cases hbc
    | Table => cases hab
  | Table entries =>
    cases b with
    | Scalar => cases hab
    | Array => cases hab
    | Table others =>
      cases c with
      | Scalar => cases hbc
      | Array => cases hbc
      | Table last => exact alikeEntries_trans htrans entries others last hab hbc
termination_by structural a

theorem alikeItems_trans (htrans : ∀ a b c, same a b = true → same b c = true → same a c = true)
    (l l' l'' : List (Doc κ σ)) (h : alikeItems same l l' = true)
    (h' : alikeItems same l' l'' = true) : alikeItems same l l'' = true := by
  cases l with
  | nil =>
    cases l' with
    | nil => exact h'
    | cons => cases h
  | cons a rest =>
    cases l' with
    | nil => cases h
    | cons b rest' =>
      cases l'' with
      | nil => cases h'
      | cons c rest'' =>
        obtain ⟨hab, hrest⟩ := Bool.and_eq_true_iff.mp h
        obtain ⟨hbc, hrest'⟩ := Bool.and_eq_true_iff.mp h'
        exact Bool.and_eq_true_iff.mpr ⟨alike_trans htrans a b c hab hbc,
          alikeItems_trans htrans rest rest' rest'' hrest hrest'⟩
termination_by structural l

theorem alikeEntries_trans (htrans : ∀ a b c, same a b = true → same b c = true → same a c = true)
    (l l' l'' : List (κ × Doc κ σ)) (h : alikeEntries same l l' = true)
    (h' : alikeEntries same l' l'' = true) : alikeEntries same l l'' = true := by
  cases l with
  | nil =>
    cases l' with
    | nil => exact h'
    | cons => cases h
  | cons entry rest =>
    cases l' with
    | nil => cases h
    | cons entry' rest' =>
      cases l'' with
      | nil => cases h'
      | cons entry'' rest'' =>
        obtain ⟨key, a⟩ := entry
        obtain ⟨key', b⟩ := entry'
        obtain ⟨key'', c⟩ := entry''
        simp only [alikeEntries, Bool.and_eq_true, decide_eq_true_eq] at h h' ⊢
        exact ⟨⟨h.1.1.trans h'.1.1, alike_trans htrans a b c h.1.2 h'.1.2⟩,
          alikeEntries_trans htrans rest rest' rest'' h.2 h'.2⟩
termination_by structural l

end

end Doc

/-! ## What is reached by keys -/

namespace Doc

theorem reach_append {front rest : List κ} {found : Option (Doc κ σ)} :
    reach (front ++ rest) found = reach rest (reach front found) := by
  cases front with
  | nil => rfl
  | cons key front =>
    cases found with
    | none => simp
    | some doc =>
      cases doc with
      | Table inner =>
        rw [reach_table (by simp), reach_table (by simp), lookup_append (by simp)]
      | Scalar => exact reach_none.symm
      | Array => exact reach_none.symm

/-- Only in a table something is reached. -/
theorem table_of_reach_ne (h : reach keys (some doc) = some existing) (hkeys : keys ≠ []) :
    ∃ outer, doc = .Table outer := by
  cases doc with
  | Table outer => exact ⟨outer, rfl⟩
  | Scalar value =>
    have hleaf : (Doc.Scalar value : Doc κ σ).IsLeaf := trivial
    cases (reach_leaf hleaf hkeys).symm.trans h
  | Array items =>
    have hleaf : (Doc.Array items : Doc κ σ).IsLeaf := trivial
    cases (reach_leaf hleaf hkeys).symm.trans h

theorem table_of_reach_table (h : reach keys (some doc) = some (.Table inner)) :
    ∃ outer, doc = .Table outer := by
  by_cases hkeys : keys = []
  · subst hkeys
    exact ⟨inner, Option.some.inj h⟩
  · exact table_of_reach_ne h hkeys

/-- What is reached by one key more stands in a table. -/
theorem table_of_reach_key {found : Option (Doc κ σ)} {key : κ}
    (h : reach [key] (reach keys found) = some doc) :
    ∃ inner, reach keys found = some (.Table inner) ∧ Entries.get key inner = some doc := by
  cases hfound : reach keys found with
  | none =>
    rw [hfound, reach_none] at h
    cases h
  | some outer =>
    rw [hfound] at h
    obtain ⟨inner, rfl⟩ := table_of_reach_ne h (List.cons_ne_nil key [])
    exact ⟨inner, rfl, h⟩

end Doc

/-! ## Shapes -/

/-- What stands at the end of a sequence of keys: a table, or what holds nothing by a key. -/
inductive Shape (κ σ : Type) where
  | Table
  | Leaf (doc : Doc κ σ)

/-- Both are tables, or leaves that are alike. -/
def Shape.Same (same : σ → σ → Bool) : Shape κ σ → Shape κ σ → Prop
  | .Table, .Table => True
  | .Leaf a, .Leaf b => Doc.alike same a b = true
  | _, _ => False

theorem Shape.same_symm (hsymm : ∀ a b, same a b = true → same b a = true) :
    Std.Symm (Shape.Same (κ := κ) same) where
  symm := by
    intro a b h
    cases a with
    | Table =>
      cases b with
      | Table => trivial
      | Leaf => cases h
    | Leaf doc =>
      cases b with
      | Table => cases h
      | Leaf other => exact Doc.alike_symm hsymm doc other h

theorem Shape.same_trans (htrans : ∀ a b c, same a b = true → same b c = true → same a c = true) :
    IsTrans (Shape κ σ) (Shape.Same same) where
  trans := by
    intro a b c hab hbc
    cases a with
    | Table =>
      cases b with
      | Table => exact hbc
      | Leaf => cases hab
    | Leaf doc =>
      cases b with
      | Table => cases hab
      | Leaf other =>
        cases c with
        | Table => cases hbc
        | Leaf last => exact Doc.alike_trans htrans doc other last hab hbc

namespace Doc

def shape : Doc κ σ → Shape κ σ
  | .Table _ => .Table
  | doc => .Leaf doc

/-- What stands at each sequence of keys. -/
def look (entries : Entries κ (Doc κ σ)) (keys : List κ) : Option (Shape κ σ) :=
  (lookup keys entries).map shape

/-- The tables on the way to the end of a sequence of keys, and there. -/
def above (keys other : List κ) : Option (Shape κ σ) :=
  if other <+: keys ∧ other ≠ [] then some .Table else none

/-- What a value at the end of a sequence of keys brings with it: itself, what is in it, and the
tables on the way. -/
def placed (keys : List κ) (doc : Doc κ σ) (other : List κ) : Option (Shape κ σ) :=
  if keys <+: other then (reach (other.drop keys.length) (some doc)).map shape
  else above keys other

theorem placed_below (keys below : List κ) (doc : Doc κ σ) :
    placed keys doc (keys ++ below) = (reach below (some doc)).map shape := by
  rw [placed, if_pos (List.prefix_append _ _), List.drop_left]

theorem placed_apart (h : ¬ keys <+: other) : placed keys doc other = above keys other := if_neg h

theorem look_nil_entries : look ([] : Entries κ (Doc κ σ)) keys = none := by
  rw [look, lookup_nil_entries]
  rfl

theorem look_cons {key first : κ} {rest : List κ} :
    look ((key, doc) :: entries) (first :: rest) =
      if first = key then (reach rest (some doc)).map shape else look entries (first :: rest) := by
  rw [look, look, lookup_cons, lookup_cons, Entries.get_cons]
  split_ifs <;> rfl

/-- Above what a value brings with it are tables. -/
theorem placed_front {front below : List κ} {shape : Shape κ σ}
    (h : placed keys doc (front ++ below) = some shape) (hfront : front ≠ [])
    (hbelow : below ≠ []) : placed keys doc front = some .Table := by
  by_cases hinside : keys <+: front
  · obtain ⟨rest, rfl⟩ := hinside
    rw [List.append_assoc, placed_below, reach_append] at h
    obtain ⟨found, hfound, -⟩ := Option.map_eq_some_iff.mp h
    rw [placed_below]
    cases hrest : reach rest (some doc) with
    | none =>
      rw [hrest, reach_none] at hfound
      cases hfound
    | some outer =>
      rw [hrest] at hfound
      obtain ⟨inner, rfl⟩ := table_of_reach_ne hfound hbelow
      rfl
  · rw [placed_apart hinside]
    refine if_pos ⟨?_, hfront⟩
    by_cases hend : keys <+: front ++ below
    · exact (List.prefix_or_prefix_of_prefix hend (List.prefix_append _ _)).resolve_left hinside
    · rw [placed_apart hend, above] at h
      split_ifs at h with habove
      exact (List.prefix_append _ _).trans habove.1

theorem look_of_table (h : lookup keys entries = some (.Table inner)) :
    look entries keys = some .Table := by
  rw [look, h]
  rfl

/-- Above something that is found there are tables. -/
theorem look_above (hfound : lookup keys entries = some doc) (hinit : other <+: keys)
    (hother : other ≠ []) (hne : other ≠ keys) : look entries other = some .Table := by
  obtain ⟨rest, rfl⟩ := hinit
  have hrest : rest ≠ [] := by
    rintro rfl
    exact hne (List.append_nil _).symm
  obtain ⟨inner, hinner⟩ := table_of_lookup_append hfound hother hrest
  exact look_of_table hinner

theorem look_below_none (hkeys : keys ≠ []) (hnone : lookup keys entries = none)
    (h : keys <+: other) : look entries other = none := by
  obtain ⟨rest, rfl⟩ := h
  rw [look, lookup_append hkeys, hnone, reach_none]
  rfl

/-! ### A value that is put -/

/-- What a value brings with it fits when nothing but tables is in its way. -/
theorem fits_placed_iff (hkeys : keys ≠ []) (hnone : lookup keys entries = none) :
    Fits (Shape.Same same) (look entries) (placed keys doc) ↔ Passable keys entries := by
  constructor
  · intro hfits front hfront hinit hne found hfound
    have hapart : ¬ keys <+: front := fun h => hne (hinit.eq_of_length_le h.length_le)
    have hplaced : placed keys doc front = some .Table := by
      rw [placed_apart hapart]
      exact if_pos ⟨hinit, hfront⟩
    have hlook : look entries front = some found.shape := by
      rw [look, hfound]
      rfl
    have hsame := hfits front _ _ hlook hplaced
    cases found with
    | Table inner => exact ⟨inner, rfl⟩
    | Scalar => exact absurd hsame id
    | Array => exact absurd hsame id
  · intro hpass other a b ha hb
    by_cases hbelow : keys <+: other
    · rw [look_below_none hkeys hnone hbelow] at ha
      cases ha
    · rw [placed_apart hbelow, above] at hb
      split_ifs at hb with habove
      obtain rfl := Option.some.inj hb
      obtain ⟨found, hfound, rfl⟩ := Option.map_eq_some_iff.mp ha
      have hne : other ≠ keys := fun h => hbelow (h ▸ List.prefix_rfl)
      obtain ⟨inner, rfl⟩ := hpass other habove.2 habove.1 hne found hfound
      trivial

/-- What stands there after a value was put where there was nothing. -/
theorem look_put [LT κ] [DecidableLT κ] (hkeys : keys ≠ []) (hnone : lookup keys entries = none)
    (h : put doc keys entries = some entries') :
    look entries' = join (look entries) (placed keys doc) := by
  funext other
  rw [join]
  by_cases hbelow : keys <+: other
  · rw [look_below_none hkeys hnone hbelow, Option.none_or]
    obtain ⟨below, rfl⟩ := hbelow
    rw [placed_below, look, lookup_append hkeys, lookup_put h]
  · rw [placed_apart hbelow, above]
    split_ifs with habove
    · have hne : other ≠ keys := fun h => hbelow (h ▸ List.prefix_rfl)
      obtain ⟨⟨inner', hafter⟩, inner, hbefore⟩ := lookup_put_above h habove.2 habove.1 hne
      rw [look_of_table hafter]
      cases hfound : lookup other entries with
      | none =>
        rw [look, hfound]
        rfl
      | some found =>
        rw [hfound] at hbefore
        cases found with
        | Table => rw [look_of_table hfound, Option.some_or]
        | Scalar => cases hbefore
        | Array => cases hbefore
    · rw [Option.or_none]
      by_cases hother : other = []
      · subst hother
        rfl
      · rw [look, look, lookup_put_apart h hbelow fun hinit => habove ⟨hinit, hother⟩]

/-! ### A value that is there already -/

/-- A value fits one that is there, and is not a table like it, when they are alike. -/
theorem fits_existing_iff (hkeys : keys ≠ []) (hfound : lookup keys entries = some existing)
    (hshape : ∀ inner inner', existing = .Table inner → doc ≠ .Table inner') :
    Fits (Shape.Same same) (look entries) (placed keys doc) ↔ alike same existing doc = true := by
  have hlook : look entries keys = some existing.shape := by
    rw [look, hfound]
    rfl
  have hplaced : placed keys doc keys = some doc.shape := by
    have h := placed_below keys [] doc
    rw [List.append_nil] at h
    exact h
  have hat : Shape.Same same existing.shape doc.shape ↔ alike same existing doc = true := by
    cases existing with
    | Table inner =>
      cases doc with
      | Table inner' => exact absurd rfl (hshape inner inner' rfl)
      | Scalar => exact ⟨fun h => absurd h id, fun h => (by cases h)⟩
      | Array => exact ⟨fun h => absurd h id, fun h => (by cases h)⟩
    | Scalar =>
      cases doc with
      | Table => exact ⟨fun h => absurd h id, fun h => (by cases h)⟩
      | Scalar => exact Iff.rfl
      | Array => exact Iff.rfl
    | Array =>
      cases doc with
      | Table => exact ⟨fun h => absurd h id, fun h => (by cases h)⟩
      | Scalar => exact Iff.rfl
      | Array => exact Iff.rfl
  constructor
  · exact fun hfits => hat.mp (hfits keys _ _ hlook hplaced)
  · intro hsame other a b ha hb
    by_cases hbelow : keys <+: other
    · obtain ⟨below, rfl⟩ := hbelow
      by_cases hnil : below = []
      · subst hnil
        rw [List.append_nil] at ha hb
        obtain rfl := Option.some.inj (hlook.symm.trans ha)
        obtain rfl := Option.some.inj (hplaced.symm.trans hb)
        exact hat.mpr hsame
      · rw [placed_below] at hb
        rw [look, lookup_append hkeys, hfound] at ha
        obtain ⟨_, hbelow, -⟩ := Option.map_eq_some_iff.mp ha
        obtain ⟨_, hbelow', -⟩ := Option.map_eq_some_iff.mp hb
        cases existing with
        | Table inner =>
          cases doc with
          | Table inner' => exact absurd rfl (hshape inner inner' rfl)
          | Scalar => cases hsame
          | Array => cases hsame
        | Scalar value =>
          have hleaf : (Doc.Scalar value : Doc κ σ).IsLeaf := trivial
          rw [reach_leaf hleaf hnil] at hbelow
          cases hbelow
        | Array items =>
          have hleaf : (Doc.Array items).IsLeaf := trivial
          rw [reach_leaf hleaf hnil] at hbelow
          cases hbelow
    · rw [placed_apart hbelow, above] at hb
      split_ifs at hb with habove
      obtain rfl := Option.some.inj hb
      have hne : other ≠ keys := fun h => hbelow (h ▸ List.prefix_rfl)
      rw [look_above hfound habove.1 habove.2 hne] at ha
      obtain rfl := Option.some.inj ha
      trivial

/-- A value like one that is there adds nothing. -/
theorem join_existing (hfound : lookup keys entries = some existing)
    (hleaf : doc.IsLeaf) : join (look entries) (placed keys doc) = look entries := by
  refine join_eq_left fun other b hb => ?_
  by_cases hbelow : keys <+: other
  · obtain ⟨below, rfl⟩ := hbelow
    rw [placed_below] at hb
    by_cases hnil : below = []
    · subst hnil
      rw [List.append_nil]
      exact ⟨existing.shape, by rw [look, hfound]; rfl⟩
    · rw [reach_leaf hleaf hnil] at hb
      cases hb
  · rw [placed_apart hbelow, above] at hb
    split_ifs at hb with habove
    have hne : other ≠ keys := fun h => hbelow (h ▸ List.prefix_rfl)
    exact ⟨_, look_above hfound habove.1 habove.2 hne⟩

/-! ### The entries of a table -/

/-- What the entries of a table at the end of a sequence of keys bring with them. -/
def placedEntries (keys : List κ) (entries : Entries κ (Doc κ σ)) :
    List (List κ → Option (Shape κ σ)) :=
  entries.map fun entry => placed (keys ++ [entry.1]) entry.2

theorem placed_entry_above {key : κ} (h : other <+: keys) (hother : other ≠ []) :
    placed (keys ++ [key]) doc other = some .Table := by
  have hapart : ¬ keys ++ [key] <+: other := by
    intro hbelow
    have hle := hbelow.length_le.trans h.length_le
    rw [List.length_append, List.length_singleton] at hle
    omega
  rw [placed_apart hapart]
  exact if_pos ⟨h.trans (List.prefix_append _ _), hother⟩

theorem placed_entry_below {key first : κ} {rest : List κ} :
    placed (keys ++ [key]) doc (keys ++ first :: rest) =
      if first = key then (reach rest (some doc)).map shape else none := by
  by_cases hfirst : first = key
  · subst hfirst
    have hsplit : keys ++ first :: rest = (keys ++ [first]) ++ rest := by simp
    rw [if_pos rfl, hsplit, placed_below]
  · have hbelow : ¬ keys ++ [key] <+: keys ++ first :: rest := by
      rw [List.prefix_append_right_inj]
      exact fun h => hfirst (List.cons_prefix_cons.mp h).1.symm
    have habove : ¬ keys ++ first :: rest <+: keys ++ [key] := by
      rw [List.prefix_append_right_inj]
      exact fun h => hfirst (List.cons_prefix_cons.mp h).1
    rw [if_neg hfirst, placed_apart hbelow]
    exact if_neg fun h => habove h.1

theorem placed_entry_apart {key : κ} (hbelow : ¬ keys <+: other) (habove : ¬ other <+: keys) :
    placed (keys ++ [key]) doc other = none := by
  have hapart : ¬ keys ++ [key] <+: other := fun h => hbelow ((List.prefix_append _ _).trans h)
  rw [placed_apart hapart]
  refine if_neg fun h => ?_
  rcases List.prefix_concat_iff.mp h.1 with rfl | hinit
  · exact hapart List.prefix_rfl
  · exact habove hinit

theorem together_entries_below {first : κ} {rest : List κ} (hnodup : (Entries.keys inner).Nodup) :
    together (placedEntries keys inner) (keys ++ first :: rest) =
      (reach rest (inner.get first)).map shape := by
  induction inner with
  | nil =>
    rw [Entries.get_nil, reach_none]
    rfl
  | cons entry inner ih =>
    obtain ⟨key, value⟩ := entry
    rw [placedEntries, List.map_cons, together, join, placed_entry_below, Entries.get_cons]
    change (if first = key then _ else none).or (together (placedEntries keys inner) _) = _
    rw [ih (List.nodup_cons.mp hnodup).2]
    by_cases hfirst : first = key
    · obtain rfl := hfirst
      have hrest : Entries.get first inner = none := by
        cases hget : Entries.get first inner with
        | none => rfl
        | some found =>
          exact absurd (Entries.mem_keys_iff.mpr ⟨found, hget⟩) (List.nodup_cons.mp hnodup).1
      rw [if_pos rfl, if_pos rfl, hrest, reach_none, Option.map_none, Option.or_none]
    · rw [if_neg hfirst, if_neg hfirst, Option.none_or]

/-- A table at the end of a sequence of keys brings the tables down to it, and its entries. -/
theorem placed_table (hkeys : keys ≠ []) (hnodup : (Entries.keys inner).Nodup) :
    placed keys (.Table inner) = together (above keys :: placedEntries keys inner) := by
  funext other
  rw [together, join]
  by_cases hbelow : keys <+: other
  · obtain ⟨below, rfl⟩ := hbelow
    rw [placed_below]
    cases below with
    | nil =>
      have habove : above (σ := σ) keys (keys ++ []) = some .Table := by
        rw [List.append_nil]
        exact if_pos ⟨List.prefix_rfl, hkeys⟩
      rw [habove]
      rfl
    | cons first rest =>
      have habove : above (σ := σ) keys (keys ++ first :: rest) = none := by
        refine if_neg fun h => ?_
        have hle := h.1.length_le
        rw [List.length_append, List.length_cons] at hle
        omega
      rw [habove, Option.none_or, together_entries_below hnodup, reach_table (by simp), lookup_cons]
  · rw [placed_apart hbelow]
    cases habove : above (σ := σ) keys other with
    | some shape => rfl
    | none =>
      have hnone : together (placedEntries keys inner) other = none := by
        refine together_eq_none fun f hf => ?_
        obtain ⟨entry, -, rfl⟩ := List.mem_map.mp hf
        by_cases hinit : other <+: keys
        · have hother : other = [] := by
            by_contra hother
            rw [above, if_pos ⟨hinit, hother⟩] at habove
            cases habove
          subst hother
          rw [placed_apart (by simp)]
          exact if_neg fun h => h.2 rfl
        · exact placed_entry_apart hbelow hinit
      rw [hnone]
      rfl

/-- Entries with keys of their own fit each other, and the tables on the way to them. -/
theorem entries_fit (hnodup : (Entries.keys inner).Nodup) :
    (above keys :: placedEntries keys inner).Pairwise (Fits (Shape.Same same)) := by
  refine List.pairwise_cons.mpr ⟨?_, ?_⟩
  · intro f hf other a b ha hb
    obtain ⟨entry, -, rfl⟩ := List.mem_map.mp hf
    rw [above] at ha
    split_ifs at ha with habove
    rw [placed_entry_above habove.1 habove.2] at hb
    obtain rfl := Option.some.inj ha
    obtain rfl := Option.some.inj hb
    trivial
  · refine List.pairwise_map.mpr ((List.pairwise_map.mp hnodup).imp fun {entry entry'} hne => ?_)
    intro other a b ha hb
    by_cases hinit : other <+: keys
    · by_cases hother : other = []
      · subst hother
        rw [placed_apart (by simp), above] at ha
        split_ifs at ha with h
        exact absurd rfl h.2
      · rw [placed_entry_above hinit hother] at ha hb
        obtain rfl := Option.some.inj ha
        obtain rfl := Option.some.inj hb
        trivial
    · by_cases hbelow : keys <+: other
      · obtain ⟨below, rfl⟩ := hbelow
        cases below with
        | nil =>
          rw [List.append_nil] at hinit
          exact absurd List.prefix_rfl hinit
        | cons first rest =>
          rw [placed_entry_below] at ha hb
          split_ifs at ha with hfirst
          split_ifs at hb with hfirst'
          exact absurd (hfirst.symm.trans hfirst') hne
      · rw [placed_entry_apart hbelow hinit] at ha
        cases ha

/-- A table is added when its entries are, where there is a table already. -/
theorem adds_table {τ ε : Type} [Std.Symm (Shape.Same (κ := κ) same)]
    [IsTrans (Shape κ σ) (Shape.Same same)] {view : τ → List κ → Option (Shape κ σ)} {s : τ}
    {made : Except ε τ} {existing : Entries κ (Doc κ σ)} (hkeys : keys ≠ [])
    (hnodup : (Entries.keys inner).Nodup) (hview : view s = look entries)
    (hfound : lookup keys entries = some (.Table existing))
    (h : Adds (Shape.Same same) view s (placedEntries keys inner) made) :
    Adds (Shape.Same same) view s [placed keys (.Table inner)] made := by
  have hpairs : (above keys :: placedEntries keys inner).Pairwise (Fits (Shape.Same same)) :=
    entries_fit hnodup
  have hold : ∀ other (b : Shape κ σ), above keys other = some b →
      look entries other = some .Table := by
    intro other b hb
    rw [above] at hb
    split_ifs at hb with habove
    by_cases hne : other = keys
    · subst hne
      exact look_of_table hfound
    · exact look_above hfound habove.1 habove.2 hne
  have habove : Fits (Shape.Same same) (view s) (above keys) := by
    intro other a b ha hb
    rw [hview, hold other b hb] at ha
    rw [above] at hb
    split_ifs at hb
    obtain rfl := Option.some.inj ha
    obtain rfl := Option.some.inj hb
    trivial
  refine h.congr ?_ ?_
  · rw [placed_table hkeys hnodup, List.pairwise_cons, List.pairwise_pair, fits_together_iff hpairs,
      List.forall_mem_cons]
    exact ⟨fun h => ⟨habove, h.1⟩, fun h => ⟨h.2, (List.pairwise_cons.mp hpairs).2⟩⟩
  · have hjoin : join (view s) (above keys) = view s :=
      join_eq_left fun other b hb => ⟨_, hview ▸ hold other b hb⟩
    calc together (view s :: placedEntries keys inner)
        = join (join (view s) (above keys)) (together (placedEntries keys inner)) := by
          rw [hjoin, together]
      _ = join (view s) (placed keys (.Table inner)) := by
          rw [join_assoc, placed_table hkeys hnodup, together]
      _ = together [view s, placed keys (.Table inner)] := by
          funext other
          exact congrArg _ Option.or_none.symm

end Doc

end documents
