-- The patterns of file detection (`detect.rs`): the matcher of components with
-- its table of known answers, and the matcher of whole paths above it.
import NixosDockers.Lib.Lines
import NixosDockers.Lib.RustText
import NixosDockers.Lib.Wildcards

open rust_text wildcards

namespace dev_env_provider

/-! ## One component -/

/-- The answer is put into the table, `table[i][j] = Some(result)`. -/
def remember (i j : ℕ) (visited : Option (Bool × Memo Bool)) : Option (Bool × Memo Bool) :=
  visited.bind fun (result, table) => (table.set i j result).map fun table => (result, table)

/-- `visit` of `component_matches`. There is no result when an index is out of range. -/
def visit (pattern value : List Char) (i j : ℕ) (table : Memo Bool) : Option (Bool × Memo Bool) :=
  match table.get i j with
  | none => none
  | some (some result) => some (result, table)
  | some none =>
    remember i j <|
      if i = pattern.length then some (decide (j = value.length), table)
      else
        match hc : pattern[i]? with
        | none => none
        | some c =>
          if c = '*' then
            match visit pattern value (i + 1) j table with
            | none => none
            | some (true, table) => some (true, table)
            | some (false, table) =>
              if hj : j < value.length then visit pattern value i (j + 1) table
              else some (false, table)
          else if hj : j < value.length ∧ (c = '?' ∨ value[j]? = some c) then
            visit pattern value (i + 1) (j + 1) table
          else some (false, table)
termination_by pattern.length - i + (value.length - j)
decreasing_by
  all_goals
    have hi := (List.getElem?_eq_some_iff.mp hc).1
    omega

/-- `component_matches`. -/
def componentMatches (pattern value : String) : Option Bool :=
  (visit pattern.toList value.toList 0 0
    (Memo.empty (pattern.toList.length + 1) (value.toList.length + 1))).map Prod.fst

/-- What a character of a component stands for. -/
def charPiece (c : Char) : Piece Char :=
  if c = '*' then .Run else if c = '?' then .Single fun _ => True else .Single (· = c)

/-- The language of a component. -/
def ComponentMatches (pattern value : List Char) : Prop := Matches (pattern.map charPiece) value

section Components

variable {pattern value : List Char} {i j : ℕ} {table : Memo Bool} {c : Char}

theorem componentMatches_star_nil :
    ComponentMatches ('*' :: pattern) [] ↔ ComponentMatches pattern [] := by
  unfold ComponentMatches
  exact matches_run_nil

theorem componentMatches_star_cons : ComponentMatches ('*' :: pattern) (c :: value) ↔
    ComponentMatches pattern (c :: value) ∨ ComponentMatches ('*' :: pattern) value := by
  unfold ComponentMatches
  exact matches_run_cons

theorem charPiece_of_ne (hc : c ≠ '*') :
    charPiece c = .Single fun first => c = '?' ∨ first = c := by
  unfold charPiece
  rw [if_neg hc]
  split_ifs with hquestion
  · simp [hquestion]
  · simp [hquestion]

theorem not_componentMatches_nil (hc : c ≠ '*') : ¬ ComponentMatches (c :: pattern) [] := by
  unfold ComponentMatches
  rw [List.map_cons, charPiece_of_ne hc]
  exact matches_single_nil

theorem componentMatches_cons {first : Char} (hc : c ≠ '*') :
    ComponentMatches (c :: pattern) (first :: value) ↔
      (c = '?' ∨ first = c) ∧ ComponentMatches pattern value := by
  unfold ComponentMatches
  rw [List.map_cons, charPiece_of_ne hc]
  exact matches_single_cons

/-- An answer is right when it is that of the language, on what is left of both texts. -/
def RightAnswer (pattern value : List Char) (i j : ℕ) (answer : Bool) : Prop :=
  answer = true ↔ ComponentMatches (pattern.drop i) (value.drop j)

theorem visit_known {answer : Bool} (hentry : table.get i j = some (some answer)) :
    visit pattern value i j table = some (answer, table) := by
  rw [visit, hentry]

theorem visit_end (hentry : table.get i j = some none) (hi : i = pattern.length) :
    visit pattern value i j table = remember i j (some (decide (j = value.length), table)) := by
  rw [visit, hentry]
  dsimp only
  rw [if_pos hi]

theorem visit_star (hentry : table.get i j = some none) (hc : pattern[i]? = some '*') :
    visit pattern value i j table = remember i j
      (match visit pattern value (i + 1) j table with
      | none => none
      | some (true, table) => some (true, table)
      | some (false, table) =>
        if j < value.length then visit pattern value i (j + 1) table else some (false, table)) := by
  have hi : i ≠ pattern.length := ((List.getElem?_eq_some_iff.mp hc).1).ne
  rw [visit, hentry]
  dsimp only
  rw [if_neg hi]
  split
  · next hnone => rw [hnone] at hc; cases hc
  · next c hsome =>
    obtain rfl := Option.some.inj (hc.symm.trans hsome)
    rw [if_pos rfl]
    rfl

theorem visit_other (hentry : table.get i j = some none) (hc : pattern[i]? = some c)
    (hstar : c ≠ '*') : visit pattern value i j table = remember i j
      (if j < value.length ∧ (c = '?' ∨ value[j]? = some c) then
        visit pattern value (i + 1) (j + 1) table
      else some (false, table)) := by
  have hi : i ≠ pattern.length := ((List.getElem?_eq_some_iff.mp hc).1).ne
  rw [visit, hentry]
  dsimp only
  rw [if_neg hi]
  split
  · next hnone => rw [hnone] at hc; cases hc
  · next found hsome =>
    obtain rfl := Option.some.inj (hc.symm.trans hsome)
    rw [if_neg hstar]
    rfl

/-- A sound table of answers for two texts, with a row and a column more than they have characters. -/
abbrev SoundTable (pattern value : List Char) (table : Memo Bool) : Prop :=
  Memo.Sound (RightAnswer pattern value) (pattern.length + 1) (value.length + 1) table

/-- A right answer for a place: it is there, and the table after it is sound. -/
def Answered (pattern value : List Char) (i j : ℕ) (visited : Option (Bool × Memo Bool)) : Prop :=
  ∃ answer after, visited = some (answer, after) ∧ SoundTable pattern value after ∧
    RightAnswer pattern value i j answer

theorem Answered.remember {visited : Option (Bool × Memo Bool)}
    (h : Answered pattern value i j visited) (hi : i ≤ pattern.length) (hj : j ≤ value.length) :
    Answered pattern value i j (remember i j visited) := by
  obtain ⟨answer, after, rfl, hafter, hright⟩ := h
  obtain ⟨last, hset, hlast⟩ :=
    hafter.exists_set (Nat.lt_succ_of_le hi) (Nat.lt_succ_of_le hj) hright
  refine ⟨answer, last, ?_, hlast, hright⟩
  unfold dev_env_provider.remember
  rw [Option.bind_some]
  dsimp only
  rw [hset, Option.map_some]

theorem drop_cons_of_getElem? {α : Type} {items : List α} {n : ℕ} {item : α}
    (h : items[n]? = some item) : items.drop n = item :: items.drop (n + 1) := by
  obtain ⟨hn, rfl⟩ := List.getElem?_eq_some_iff.mp h
  exact List.drop_eq_getElem_cons hn

/-- A visit comes to the right answer from any sound table. -/
theorem visit_right (hi : i ≤ pattern.length) (hj : j ≤ value.length)
    (htable : SoundTable pattern value table) :
    Answered pattern value i j (visit pattern value i j table) := by
  induction hmeasure : pattern.length - i + (value.length - j) using Nat.strong_induction_on
    generalizing i j table with
  | h measure ih =>
    subst hmeasure
    obtain ⟨entry, hentry⟩ := htable.exists_get (Nat.lt_succ_of_le hi) (Nat.lt_succ_of_le hj)
    cases entry with
    | some answer =>
      rw [visit_known hentry]
      exact ⟨answer, table, rfl, htable, htable.right i j answer hentry⟩
    | none =>
      cases hc : pattern[i]? with
      | none =>
        have hend : i = pattern.length := le_antisymm hi (List.getElem?_eq_none_iff.mp hc)
        rw [visit_end hentry hend]
        refine Answered.remember ⟨_, table, rfl, htable, ?_⟩ hi hj
        unfold RightAnswer ComponentMatches
        rw [List.drop_eq_nil_of_le hend.ge, List.map_nil, matches_nil, List.drop_eq_nil_iff,
          decide_eq_true_iff]
        exact ⟨fun h => h.ge, fun h => le_antisymm hj h⟩
      | some c =>
        have hlt := (List.getElem?_eq_some_iff.mp hc).1
        have hdrop := drop_cons_of_getElem? hc
        by_cases hstar : c = '*'
        · subst hstar
          rw [visit_star hentry hc]
          refine Answered.remember ?_ hi hj
          obtain ⟨answer, after, hfirst, hafter, hright⟩ := ih _ (by omega) hlt hj htable rfl
          rw [hfirst]
          cases answer with
          | true =>
            refine ⟨true, after, rfl, hafter, iff_of_true rfl ?_⟩
            have hrest := hright.mp rfl
            rw [hdrop]
            cases hvalue : value.drop j with
            | nil => exact componentMatches_star_nil.mpr (hvalue ▸ hrest)
            | cons => exact componentMatches_star_cons.mpr (Or.inl (hvalue ▸ hrest))
          | false =>
            have hnot : ¬ ComponentMatches (pattern.drop (i + 1)) (value.drop j) :=
              fun h => Bool.false_ne_true (hright.mpr h)
            dsimp only
            by_cases hmore : j < value.length
            · rw [if_pos hmore]
              obtain ⟨answer, last, hsecond, hlast, hright⟩ := ih _ (by omega) hi hmore hafter rfl
              refine ⟨answer, last, hsecond, hlast, ?_⟩
              unfold RightAnswer at hright ⊢
              rw [List.drop_eq_getElem_cons hmore] at hnot
              rw [hright, hdrop, List.drop_eq_getElem_cons hmore, componentMatches_star_cons,
                or_iff_right hnot]
            · rw [if_neg hmore]
              refine ⟨false, after, rfl, hafter, iff_of_false Bool.false_ne_true ?_⟩
              rw [List.drop_eq_nil_of_le (Nat.not_lt.mp hmore)] at hnot ⊢
              rw [hdrop, componentMatches_star_nil]
              exact hnot
        · rw [visit_other hentry hc hstar]
          refine Answered.remember ?_ hi hj
          by_cases hhere : j < value.length ∧ (c = '?' ∨ value[j]? = some c)
          · rw [if_pos hhere]
            obtain ⟨hmore, hfits⟩ := hhere
            obtain ⟨answer, after, hnext, hafter, hright⟩ :=
              ih _ (by omega) hlt hmore htable rfl
            refine ⟨answer, after, hnext, hafter, ?_⟩
            rw [List.getElem?_eq_getElem hmore, Option.some.injEq] at hfits
            unfold RightAnswer at hright ⊢
            rw [hright, hdrop, List.drop_eq_getElem_cons hmore, componentMatches_cons hstar,
              and_iff_right hfits]
          · rw [if_neg hhere]
            refine ⟨false, table, rfl, htable, iff_of_false Bool.false_ne_true ?_⟩
            rw [hdrop]
            cases hvalue : value.drop j with
            | nil => exact not_componentMatches_nil hstar
            | cons first rest =>
              have hfirst : value[j]? = some first := by
                rw [← List.head?_drop, hvalue]
                rfl
              rw [componentMatches_cons hstar]
              rintro ⟨hfits, -⟩
              refine hhere ⟨(List.getElem?_eq_some_iff.mp hfirst).1, ?_⟩
              rw [hfirst, Option.some.injEq]
              exact hfits

/-- The matcher of components answers for every pattern and text, and as the language says. -/
theorem componentMatches_answers (pattern value : String) : ∃ answer,
    componentMatches pattern value = some answer ∧
      (answer = true ↔ ComponentMatches pattern.toList value.toList) := by
  have hanswered : Answered pattern.toList value.toList 0 0 (visit pattern.toList value.toList 0 0
      (Memo.empty (pattern.toList.length + 1) (value.toList.length + 1))) :=
    visit_right (Nat.zero_le _) (Nat.zero_le _) Memo.sound_empty
  obtain ⟨answer, after, hvisit, -, hright⟩ := hanswered
  exact ⟨answer, by rw [componentMatches, hvisit]; rfl, hright⟩

end Components

/-! ## Whole paths -/

/-- `glob_components`. -/
def globComponents : List String → List String → Option Bool
  | [], [] => some true
  | [], _ :: _ => some false
  | component :: rest, path =>
    if component = "**" then
      match globComponents rest path with
      | none => none
      | some true => some true
      | some false =>
        match path with
        | [] => some false
        | _ :: others => globComponents (component :: rest) others
    else
      match path with
      | [] => some false
      | first :: others =>
        match componentMatches component first with
        | none => none
        | some true => globComponents rest others
        | some false => some false
termination_by pattern path => pattern.length + path.length

/-- `glob_matches`. -/
def globMatches (pattern path : String) : Option Bool :=
  globComponents (splitChar '/' pattern) (splitChar '/' path)

/-- What a component of a pattern stands for. -/
def globPiece (component : String) : Piece String :=
  if component = "**" then .Run
  else .Single fun first => ComponentMatches component.toList first.toList

/-- The language of a pattern of components. -/
def GlobMatches (pattern path : List String) : Prop := Matches (pattern.map globPiece) path

/-- The matcher of paths answers for every pattern and path, and as the language says. -/
theorem globComponents_answers (pattern path : List String) : ∃ answer,
    globComponents pattern path = some answer ∧ (answer = true ↔ GlobMatches pattern path) := by
  unfold GlobMatches
  fun_induction globComponents pattern path with
  | case1 => exact ⟨true, rfl, by simp⟩
  | case2 => exact ⟨false, rfl, by simp⟩
  | case3 rest path hrest ih =>
    obtain ⟨answer, hanswer, -⟩ := ih
    rw [hrest] at hanswer
    cases hanswer
  | case4 rest path hrest ih =>
    obtain ⟨answer, hanswer, hiff⟩ := ih
    obtain rfl := Option.some.inj (hanswer.symm.trans hrest)
    refine ⟨true, rfl, iff_of_true rfl ?_⟩
    rw [List.map_cons, globPiece, if_pos rfl, matches_run]
    exact Or.inl (hiff.mp rfl)
  | case5 rest hrest ih =>
    obtain ⟨answer, hanswer, hiff⟩ := ih
    obtain rfl := Option.some.inj (hanswer.symm.trans hrest)
    refine ⟨false, rfl, ?_⟩
    rw [List.map_cons, globPiece, if_pos rfl, matches_run_nil]
    exact hiff
  | case6 rest first others hrest ih ihothers =>
    obtain ⟨answer, hanswer, hiff⟩ := ih
    obtain rfl := Option.some.inj (hanswer.symm.trans hrest)
    obtain ⟨answer, hanswer, hmore⟩ := ihothers
    refine ⟨answer, hanswer, hmore.trans ?_⟩
    rw [List.map_cons, globPiece, if_pos rfl, matches_run_cons,
      or_iff_right fun h => Bool.false_ne_true (hiff.mpr h)]
  | case7 component rest hstar =>
    refine ⟨false, rfl, iff_of_false Bool.false_ne_true ?_⟩
    rw [List.map_cons, globPiece, if_neg hstar]
    exact matches_single_nil
  | case8 component rest hstar first others hnone =>
    obtain ⟨answer, hanswer, -⟩ := componentMatches_answers component first
    rw [hnone] at hanswer
    cases hanswer
  | case9 component rest hstar first others htrue ih =>
    obtain ⟨answer, hanswer, hfits⟩ := componentMatches_answers component first
    obtain rfl := Option.some.inj (hanswer.symm.trans htrue)
    obtain ⟨answer, hanswer, hiff⟩ := ih
    refine ⟨answer, hanswer, hiff.trans ?_⟩
    rw [List.map_cons, globPiece, if_neg hstar, matches_single_cons, and_iff_right (hfits.mp rfl)]
  | case10 component rest hstar first others hfalse =>
    obtain ⟨answer, hanswer, hfits⟩ := componentMatches_answers component first
    obtain rfl := Option.some.inj (hanswer.symm.trans hfalse)
    refine ⟨false, rfl, iff_of_false Bool.false_ne_true ?_⟩
    rw [List.map_cons, globPiece, if_neg hstar, matches_single_cons]
    rintro ⟨hsingle, -⟩
    exact Bool.false_ne_true (hfits.mpr hsingle)

/-- `has_glob_magic`. -/
def hasGlobMagic (pattern : String) : Bool := hasChar pattern '*' || hasChar pattern '?'

/-- A component without wildcards matches itself only. -/
theorem componentMatches_literal {component : List Char} {value : List Char}
    (h : ∀ c ∈ component, c ≠ '*' ∧ c ≠ '?') :
    ComponentMatches component value ↔ value = component := by
  have hpieces : component.map charPiece = component.map fun c => .Single (· = c) := by
    refine List.map_congr_left fun c hc => ?_
    unfold charPiece
    rw [if_neg (h c hc).1, if_neg (h c hc).2]
  unfold ComponentMatches
  rw [hpieces, matches_exact]

/-- A pattern without wildcards matches its own components only. -/
theorem globMatches_literal {pattern : String} {path : List String}
    (h : hasGlobMagic pattern = false) :
    GlobMatches (splitChar '/' pattern) path ↔ path = splitChar '/' pattern := by
  have hfree : ∀ component ∈ splitChar '/' pattern, ∀ c ∈ component.toList, c ≠ '*' ∧ c ≠ '?' := by
    intro component hcomponent c hc
    have hmem := mem_of_mem_splitChar hcomponent hc
    unfold hasGlobMagic hasChar at h
    rw [Bool.or_eq_false_iff, ← Bool.not_eq_true, ← Bool.not_eq_true, List.contains_iff_mem,
      List.contains_iff_mem] at h
    exact ⟨fun heq => h.1 (heq ▸ hmem), fun heq => h.2 (heq ▸ hmem)⟩
  have hpieces : (splitChar '/' pattern).map globPiece =
      (splitChar '/' pattern).map fun component => .Single (· = component) := by
    refine List.map_congr_left fun component hcomponent => ?_
    have hplain := hfree component hcomponent
    have hstars : component ≠ "**" := by
      rintro rfl
      exact (hplain '*' (by decide)).1 rfl
    have haccepts : (fun first : String => ComponentMatches component.toList first.toList) =
        fun first => first = component :=
      funext fun first => propext ((componentMatches_literal hplain).trans String.toList_inj)
    unfold globPiece
    rw [if_neg hstars, haccepts]
  unfold GlobMatches
  rw [hpieces, matches_exact]

/-- A pattern matches a path when the components of the path can be split into groups that its own
components stand for; and known answers never change what a visit answers, nor do its indices leave
the table. -/
theorem glob_matches_its_language (pattern path : String) :
    (∃ answer, globMatches pattern path = some answer ∧
      (answer = true ↔ GlobMatches (splitChar '/' pattern) (splitChar '/' path))) ∧
    ∀ (component value : List Char) (i j : ℕ) (table : Memo Bool), i ≤ component.length →
      j ≤ value.length → SoundTable component value table →
        Answered component value i j (visit component value i j table) :=
  ⟨globComponents_answers (splitChar '/' pattern) (splitChar '/' path),
    fun _ _ _ _ _ hi hj htable => visit_right hi hj htable⟩

end dev_env_provider
