-- The paths by which a depth-first search comes to the nodes of a graph: it
-- goes on from a node only by the first path that leads to it.
import NixosDockers.Lib.DepthFirst

namespace depth_first

variable {α : Type} {edges : α → List α}

/-! ## What a search leaves -/

theorem Search.closed {done todo result : List α} (h : Search edges done todo result)
    (hdone : ∀ a ∈ done, ∀ b ∈ edges a, b ∈ done) : ∀ a ∈ result, ∀ b ∈ edges a, b ∈ result := by
  induction h with
  | nil => exact hdone
  | skip _ _ ih => exact ih hdone
  | @visit done inner todo result a _ hbelow _ _ ihbelow ihrest =>
    refine ihrest fun c hc b hb => ?_
    rcases List.mem_append.mp hc with hc | hc
    · exact List.mem_append_left _ (ihbelow hdone c hc b hb)
    · rw [List.mem_singleton] at hc
      exact List.mem_append_left _ (hbelow.todo_subset (hc ▸ hb))

/-- A search from nodes that are closed under edges leaves them and all that its start reaches. -/
theorem Search.mem_iff_reached {done result : List α} {a b : α}
    (h : Search edges done [a] result) (hdone : ∀ a ∈ done, ∀ b ∈ edges a, b ∈ done) :
    b ∈ result ↔ b ∈ done ∨ Reaches edges a b := by
  constructor
  · intro hb
    refine (h.reached b hb).imp_right ?_
    rintro ⟨c, hc, hreaches⟩
    rw [List.mem_singleton] at hc
    exact hc ▸ hreaches
  · rintro (hb | hreaches)
    · exact h.subset hb
    · induction hreaches with
      | refl => exact h.todo_subset List.mem_cons_self
      | tail _ hedge ih => exact h.closed hdone _ ih _ hedge

/-! ## What a search has seen when it comes by a path -/

variable [DecidableEq α]

/-- An edge that stands before one of the path's own leads to the node. -/
def SeenBefore (edges : α → List α) : List α → α → Prop
  | a :: c :: rest, node =>
    (∃ b ∈ (edges a).takeWhile (· ≠ c), Reaches edges b node) ∨ SeenBefore edges (c :: rest) node
  | _, _ => False

theorem not_seenBefore_single {root node : α} : ¬ SeenBefore edges [root] node := id

theorem SeenBefore.trans {path : List α} {node other : α} (h : SeenBefore edges path node)
    (hreaches : Reaches edges node other) : SeenBefore edges path other := by
  induction path with
  | nil => cases h
  | cons a path ih =>
    cases path with
    | nil => cases h
    | cons c rest =>
      rcases h with ⟨b, hb, hseen⟩ | h
      · exact Or.inl ⟨b, hb, hseen.trans hreaches⟩
      · exact Or.inr (ih h)

theorem seenBefore_snoc {path : List α} {a c node : α} (hlast : path.getLast? = some a) :
    SeenBefore edges (path ++ [c]) node ↔
      SeenBefore edges path node ∨ ∃ b ∈ (edges a).takeWhile (· ≠ c), Reaches edges b node := by
  induction path with
  | nil => cases hlast
  | cons first path ih =>
    cases path with
    | nil =>
      obtain rfl := Option.some.inj hlast
      simp [SeenBefore]
    | cons second rest =>
      rw [List.getLast?_cons_cons] at hlast
      have hrest := ih hlast
      simp only [List.cons_append, SeenBefore] at hrest ⊢
      rw [hrest, or_assoc]

/-! ## The paths of a search -/

/-- The paths by which a search comes to nodes, from a path that it has come by. -/
inductive Entered (edges : α → List α) (start : List α) : List α → Prop
  | here : Entered edges start start
  | step {path : List α} {a c : α} (h : Entered edges start path) (hlast : path.getLast? = some a)
      (hfirst : ¬ SeenBefore edges path a) (hedge : c ∈ edges a) :
      Entered edges start (path ++ [c])

theorem Entered.trans {first second third : List α} (h : Entered edges first second)
    (h' : Entered edges second third) : Entered edges first third := by
  induction h' with
  | here => exact h
  | step _ hlast hfirst hedge ih => exact .step ih hlast hfirst hedge

/-- The search comes by the path itself, and goes on from its last node when it was not seen. -/
theorem entered_iff {start path : List α} {a : α} (hlast : start.getLast? = some a) :
    Entered edges start path ↔ path = start ∨
      ¬ SeenBefore edges start a ∧ ∃ c ∈ edges a, Entered edges (start ++ [c]) path := by
  constructor
  · intro h
    induction h with
    | here => exact Or.inl rfl
    | @step path b c _ hpath hfirst hedge ih =>
      refine Or.inr ?_
      rcases ih with rfl | ⟨hnew, d, hd, hbelow⟩
      · rw [hlast] at hpath
        obtain rfl := Option.some.inj hpath
        exact ⟨hfirst, c, hedge, .here⟩
      · exact ⟨hnew, d, hd, .step hbelow hpath hfirst hedge⟩
  · rintro (rfl | ⟨hnew, c, hc, hbelow⟩)
    · exact .here
    · exact Entered.trans (.step .here hlast hnew hc) hbelow

/-- The first of the paths that lead from the root to its last node. -/
structure FirstPath (edges : α → List α) (root : α) (path : List α) : Prop where
  chain : path.IsChain fun a b => b ∈ edges a
  head : path.head? = some root
  first : ∀ last, path.getLast? = some last → ¬ SeenBefore edges path last

theorem FirstPath.entered {root : α} {path : List α} (h : FirstPath edges root path) :
    Entered edges [root] path := by
  induction path using List.reverseRecOn with
  | nil => cases h.head
  | append_singleton path c ih =>
    rcases path.eq_nil_or_concat' with rfl | ⟨before, a, rfl⟩
    · obtain rfl : c = root := by simpa using h.head
      exact .here
    · have hlast : (before ++ [a]).getLast? = some a := List.getLast?_concat ..
      obtain ⟨hchain, -, hedge⟩ := List.isChain_append.mp h.chain
      have hc : c ∈ edges a := hedge a hlast c rfl
      have hnew : ¬ SeenBefore edges (before ++ [a]) a := by
        intro hseen
        refine h.first c (List.getLast?_concat ..) ?_
        rw [seenBefore_snoc hlast]
        exact Or.inl (hseen.trans (.single hc))
      have hbefore : FirstPath edges root (before ++ [a]) := by
        refine ⟨hchain, ?_, fun last h' => ?_⟩
        · have hhead := h.head
          rwa [List.head?_append_of_ne_nil _ (by simp)] at hhead
        · rw [hlast] at h'
          obtain rfl := Option.some.inj h'
          exact hnew
      exact .step (ih hbefore) hlast hnew hc

/-- A search comes by the root and by the first paths, with one edge more. -/
theorem entered_root_iff {root : α} {path : List α} :
    Entered edges [root] path ↔ path = [root] ∨ ∃ before a c, path = before ++ [c] ∧
      FirstPath edges root before ∧ before.getLast? = some a ∧ c ∈ edges a := by
  constructor
  · intro h
    induction h with
    | here => exact Or.inl rfl
    | @step path a c hpath hlast hfirst hedge ih =>
      refine Or.inr ⟨path, a, c, rfl, ⟨?_, ?_, ?_⟩, hlast, hedge⟩
      · rcases ih with rfl | ⟨before, b, d, rfl, hbefore, hb, hd⟩
        · exact List.isChain_singleton _
        · refine List.isChain_append.mpr ⟨hbefore.chain, List.isChain_singleton _, ?_⟩
          intro x hx y hy
          rw [hb] at hx
          cases hx
          cases hy
          exact hd
      · rcases ih with rfl | ⟨before, b, d, rfl, hbefore, hb, hd⟩
        · rfl
        · rw [List.head?_append, hbefore.head]
          rfl
      · intro last h'
        rw [hlast] at h'
        obtain rfl := Option.some.inj h'
        exact hfirst
  · rintro (rfl | ⟨before, a, c, rfl, hbefore, hlast, hedge⟩)
    · exact .here
    · exact .step hbefore.entered hlast (hbefore.first a hlast) hedge

end depth_first
