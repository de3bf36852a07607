-- Trimmed texts: what is taken away at both ends, when nothing is, and where a
-- text is cut at a character.
import Mathlib.Data.List.DropRight
import NixosDockers.Lib.RustText

namespace rust_text

/-! ## White space at the ends -/

/-- All of the text is white space. -/
def AllWhite (s : List Char) : Prop := ∀ c ∈ s, isWhitespace c = true

/-- The text has no white space at its ends. -/
structure Trimmed (s : List Char) : Prop where
  head : ∀ c, s.head? = some c → isWhitespace c = false
  last : ∀ c, s.getLast? = some c → isWhitespace c = false

theorem AllWhite.nil : AllWhite [] := fun _ h => absurd h List.not_mem_nil

theorem Trimmed.nil : Trimmed [] := ⟨(fun _ h => nomatch h), (fun _ h => nomatch h)⟩

theorem allWhite_append {s t : List Char} : AllWhite (s ++ t) ↔ AllWhite s ∧ AllWhite t :=
  List.forall_mem_append

theorem dropWhile_white {s t : List Char} (h : AllWhite s) :
    (s ++ t).dropWhile isWhitespace = t.dropWhile isWhitespace := by
  induction s with
  | nil => rfl
  | cons c s ih =>
    rw [AllWhite, List.forall_mem_cons] at h
    rw [List.cons_append, List.dropWhile_cons_of_pos h.1]
    exact ih h.2

theorem rdropWhile_white {s t : List Char} (h : AllWhite t) :
    (s ++ t).rdropWhile isWhitespace = s.rdropWhile isWhitespace := by
  induction t using List.reverseRecOn with
  | nil => rw [List.append_nil]
  | append_singleton t c ih =>
    rw [allWhite_append] at h
    rw [← List.append_assoc, List.rdropWhile_concat_pos _ _ _ (h.2 c List.mem_cons_self)]
    exact ih h.1

theorem dropWhile_eq_self {s : List Char} (h : ∀ c, s.head? = some c → isWhitespace c = false) :
    s.dropWhile isWhitespace = s := by
  cases s with
  | nil => rfl
  | cons c s => exact List.dropWhile_cons_of_neg (by rw [h c rfl]; exact Bool.false_ne_true)

theorem rdropWhile_eq_self {s : List Char} (h : ∀ c, s.getLast? = some c → isWhitespace c = false) :
    s.rdropWhile isWhitespace = s := by
  induction s using List.reverseRecOn with
  | nil => rfl
  | append_singleton s c _ =>
    refine List.rdropWhile_concat_neg _ _ _ ?_
    rw [h c List.getLast?_concat]
    exact Bool.false_ne_true

/-- The text with white space around it is trimmed to the text. -/
theorem trim_surrounded {before s after : List Char} (hs : Trimmed s) (hbefore : AllWhite before)
    (hafter : AllWhite after) : trim (before ++ s ++ after) = s := by
  unfold trim trimMatches
  rw [List.append_assoc, dropWhile_white hbefore]
  by_cases hnil : s = []
  · subst hnil
    have hdrop : after.dropWhile isWhitespace = [] := by
      rw [List.dropWhile_eq_nil_iff]
      exact hafter
    rw [List.nil_append, hdrop]
    rfl
  · have hhead : ∀ c, (s ++ after).head? = some c → isWhitespace c = false := by
      intro c hc
      rw [List.head?_append_of_ne_nil _ hnil] at hc
      exact hs.head c hc
    rw [dropWhile_eq_self hhead, rdropWhile_white hafter, rdropWhile_eq_self hs.last]

theorem Trimmed.trim {s : List Char} (hs : Trimmed s) : trim s = s := by
  have h := trim_surrounded hs AllWhite.nil AllWhite.nil
  rwa [List.nil_append, List.append_nil] at h

/-- What stands between two trimmed texts does not matter. -/
theorem Trimmed.append {s t : List Char} (hs : Trimmed s) (ht : Trimmed t) (hsne : s ≠ [])
    (htne : t ≠ []) (between : List Char) : Trimmed (s ++ between ++ t) := by
  constructor
  · intro c hc
    rw [List.append_assoc, List.head?_append_of_ne_nil _ hsne] at hc
    exact hs.head c hc
  · intro c hc
    rw [List.getLast?_append_of_ne_nil _ htne] at hc
    exact ht.last c hc

/-- A text is its trimmed text with white space around it. -/
theorem exists_surrounding (s : List Char) :
    ∃ before after, AllWhite before ∧ AllWhite after ∧ s = before ++ trim s ++ after := by
  refine ⟨s.takeWhile isWhitespace, (s.dropWhile isWhitespace).rtakeWhile isWhitespace, ?_, ?_, ?_⟩
  · intro c hc
    exact List.mem_takeWhile_imp hc
  · intro c hc
    exact List.mem_rtakeWhile_imp hc
  · unfold trim trimMatches
    rw [List.append_assoc, List.rdropWhile_append_rtakeWhile, List.takeWhile_append_dropWhile]

theorem rdropWhile_white_last {s : List Char} {c : Char}
    (hc : (s.rdropWhile isWhitespace).getLast? = some c) : isWhitespace c = false := by
  have hne : s.rdropWhile isWhitespace ≠ [] := by
    intro hnil
    rw [hnil] at hc
    cases hc
  have hlast := List.rdropWhile_last_not isWhitespace s hne
  rw [List.getLast?_eq_some_getLast hne] at hc
  rw [Option.some.inj hc] at hlast
  simpa using hlast

theorem trimmed_trim (s : List Char) : Trimmed (trim s) := by
  unfold trim trimMatches
  constructor
  · intro c hc
    have hprefix : (s.dropWhile isWhitespace).rdropWhile isWhitespace <+: s.dropWhile isWhitespace :=
      List.rdropWhile_prefix _ _
    obtain ⟨rest, hrest⟩ := hprefix
    have hne : (s.dropWhile isWhitespace).rdropWhile isWhitespace ≠ [] := by
      intro hnil
      rw [hnil] at hc
      cases hc
    have hhead : (s.dropWhile isWhitespace).head? = some c := by
      rw [← hrest, List.head?_append_of_ne_nil _ hne, hc]
    have := List.head?_dropWhile_not isWhitespace s
    rw [hhead] at this
    simpa using this
  · exact fun c => rdropWhile_white_last

theorem trim_white_append {before s after : List Char} (hbefore : AllWhite before)
    (hafter : AllWhite after) : trim (before ++ s ++ after) = trim s := by
  obtain ⟨before', after', hbefore', hafter', hs⟩ := exists_surrounding s
  have h := trim_surrounded (trimmed_trim s) (allWhite_append.mpr ⟨hbefore, hbefore'⟩)
    (allWhite_append.mpr ⟨hafter', hafter⟩)
  rw [← h]
  congr 1
  conv_lhs => rw [hs]
  simp only [List.append_assoc]

theorem trim_eq_nil_iff {s : List Char} : trim s = [] ↔ AllWhite s := by
  constructor
  · intro h
    obtain ⟨before, after, hbefore, hafter, hs⟩ := exists_surrounding s
    rw [hs, h, List.append_nil]
    exact allWhite_append.mpr ⟨hbefore, hafter⟩
  · intro h
    have := trim_surrounded Trimmed.nil h AllWhite.nil
    rwa [List.append_nil, List.append_nil] at this

/-- A text that does not begin with white space begins so when trimmed. -/
theorem head_trim {c : Char} (hc : isWhitespace c = false) (s : List Char) :
    (trim (c :: s)).head? = some c := by
  obtain ⟨before, after, hbefore, hafter, hs⟩ := exists_surrounding (c :: s)
  cases before with
  | cons d before =>
    obtain ⟨rfl, _⟩ := List.cons.inj hs
    rw [hbefore c List.mem_cons_self] at hc
    cases hc
  | nil =>
    rw [List.nil_append] at hs
    cases htrim : trim (c :: s) with
    | nil =>
      rw [htrim, List.nil_append] at hs
      rw [hafter c (by rw [← hs]; exact List.mem_cons_self)] at hc
      cases hc
    | cons d kept =>
      rw [htrim] at hs
      obtain ⟨rfl, _⟩ := List.cons.inj hs
      rfl

theorem length_trim_le (s : List Char) : (trim s).length ≤ s.length := by
  obtain ⟨before, after, _, _, hs⟩ := exists_surrounding s
  conv_rhs => rw [hs]
  simp only [List.length_append]
  omega

/-! ## Cuts -/

theorem splitOnce_char {c : Char} {before after : List Char} (h : c ∉ before) :
    splitOnce [c] (before ++ c :: after) = some (before, after) := by
  induction before with
  | nil => simp [splitOnce]
  | cons d before ih =>
    rw [List.mem_cons, not_or] at h
    rw [List.cons_append, splitOnce, ih h.2, if_neg]
    · rfl
    · simpa using h.1

/-- A text without the first character of the needle is passed over. -/
theorem splitOnce_skip {mark : Char} {needle front : List Char} (h : mark ∉ front)
    (rest : List Char) :
    splitOnce (mark :: needle) (front ++ rest) =
      (splitOnce (mark :: needle) rest).map fun found => (front ++ found.1, found.2) := by
  induction front with
  | nil => simp
  | cons c front ih =>
    rw [List.mem_cons, not_or] at h
    rw [List.cons_append, splitOnce, if_neg (by simp [h.1]), ih h.2, Option.map_map]
    rfl

theorem splitOnce_eq_append {needle s before after : List Char}
    (h : splitOnce needle s = some (before, after)) : s = before ++ needle ++ after := by
  induction s generalizing before with
  | nil =>
    rw [splitOnce] at h
    split_ifs at h with hneedle
    obtain ⟨rfl, rfl⟩ := Prod.mk.inj (Option.some.inj h)
    rw [List.isEmpty_iff.mp hneedle]
    rfl
  | cons c s ih =>
    rw [splitOnce] at h
    split_ifs at h with hprefix
    · obtain ⟨rest, hrest⟩ := List.isPrefixOf_iff_prefix.mp hprefix
      obtain ⟨rfl, rfl⟩ := Prod.mk.inj (Option.some.inj h)
      rw [← hrest, List.drop_left, List.nil_append]
    · obtain ⟨⟨before', after'⟩, hfound, heq⟩ := Option.map_eq_some_iff.mp h
      obtain ⟨rfl, rfl⟩ := Prod.mk.inj heq
      rw [ih hfound]
      simp

/-- What is before the first character of the kind does not have it. -/
theorem notMem_of_splitOnce {c : Char} {s before after : List Char}
    (h : splitOnce [c] s = some (before, after)) : c ∉ before := by
  induction s generalizing before with
  | nil => cases h
  | cons d s ih =>
    rw [splitOnce] at h
    split_ifs at h with hprefix
    · obtain ⟨rfl, _⟩ := Prod.mk.inj (Option.some.inj h)
      exact List.not_mem_nil
    · obtain ⟨⟨before', after'⟩, hfound, heq⟩ := Option.map_eq_some_iff.mp h
      obtain ⟨rfl, rfl⟩ := Prod.mk.inj heq
      have hd : c ≠ d := by simpa using hprefix
      exact List.mem_cons.not.mpr (not_or.mpr ⟨hd, ih hfound⟩)

/-- A text that goes on with another character cannot begin with one that has a space. -/
theorem not_prefix_of_mem {start before after : List Char} {mark c : Char} (hstart : mark ∉ start)
    (hc : c ∈ start) (hbefore : c ∉ before) (hne : c ≠ mark) :
    ¬ start <+: before ++ mark :: after := by
  intro hprefix
  have hmark : before ++ [mark] <+: before ++ mark :: after := ⟨after, by simp⟩
  rcases List.prefix_or_prefix_of_prefix hprefix hmark with hshort | hlong
  · have := hshort.subset hc
    simp [hbefore, hne] at this
  · exact hstart (hlong.subset (by simp))

end rust_text
