-- Trees of directories, regular files and symbolic links: where a path leads
-- when its links are followed, and which files a walk without links comes to.
import NixosDockers.Lib.Documents
import NixosDockers.Lib.RustText

open documents rust_text

namespace file_trees

inductive Node where
  | File
  | Directory (entries : List (String × Node))
  | Link (target : String)

/-- A name that an entry of a directory may have. -/
def IsName (name : String) : Prop :=
  name ≠ "" ∧ name ≠ "." ∧ name ≠ ".." ∧ '/' ∉ name.toList

/-- Every directory has distinct entries, with names of their own. -/
inductive WellFormed : Node → Prop
  | File : WellFormed .File
  | Link (target : String) : WellFormed (.Link target)
  | Directory (entries : List (String × Node)) (distinct : (Entries.keys entries).Nodup)
    (names : ∀ entry ∈ entries, IsName entry.1) (inside : ∀ entry ∈ entries, WellFormed entry.2) :
    WellFormed (.Directory entries)

namespace Node

/-- What is at the end of some names, without a link on the way. -/
def find : Node → List String → Option Node
  | node, [] => some node
  | .Directory entries, name :: rest => (Entries.get name entries).bind fun node => node.find rest
  | _, _ :: _ => none

variable {root node : Node} {entries : List (String × Node)} {name : String}
  {here there front rest names : List String}

@[simp] theorem find_nil : node.find [] = some node := by cases node <;> rfl

theorem find_append : root.find (front ++ rest) = (root.find front).bind fun node => node.find rest := by
  induction front generalizing root with
  | nil => rw [List.nil_append, find_nil, Option.bind_some]
  | cons name front ih =>
    cases root with
    | File | Link => rfl
    | Directory entries =>
      rw [List.cons_append, Node.find, Node.find]
      cases Entries.get name entries with
      | none => rfl
      | some node => exact ih

theorem wellFormed_find (h : WellFormed root) (hfind : root.find names = some node) :
    WellFormed node := by
  induction names generalizing root with
  | nil =>
    rw [find_nil] at hfind
    rwa [← Option.some.inj hfind]
  | cons name names ih =>
    cases h with
    | File | Link => cases hfind
    | Directory entries _ _ inside =>
      rw [Node.find] at hfind
      obtain ⟨next, hget, hfind⟩ := Option.bind_eq_some_iff.mp hfind
      exact ih (inside _ (Entries.mem_of_get hget)) hfind

/-! ## Paths -/

/-- Where the pieces of a path lead from a directory, up to the next link. -/
def follow (root : Node) (onLink : List String → List String → Option (List String)) :
    List String → List String → Option (List String)
  | here, [] => some here
  | here, piece :: rest =>
    match root.find here with
    | some (.Directory entries) =>
      if piece = "" ∨ piece = "." then follow root onLink here rest
      else if piece = ".." then follow root onLink here.dropLast rest
      else
        match Entries.get piece entries with
        | none => none
        | some (.Link target) =>
          onLink (if startsWith target "/" then [] else here) (splitChar '/' target ++ rest)
        | some _ => follow root onLink (here ++ [piece]) rest
    | _ => none

/-- Where the pieces of a path lead, with at most so many links on the way. -/
def resolve (root : Node) : ℕ → List String → List String → Option (List String)
  | 0 => follow root fun _ _ => none
  | links + 1 => follow root (resolve root links)

/-- Names that lead to a regular file are followed as they are. -/
theorem follow_names {onLink : List String → List String → Option (List String)}
    (hhere : root.find here = some node) (hfile : node.find names = some .File)
    (hnames : ∀ name ∈ names, IsName name) : follow root onLink here names = some (here ++ names) := by
  induction names generalizing here node with
  | nil => rw [follow, List.append_nil]
  | cons name names ih =>
    obtain ⟨hempty, hdot, hparent, -⟩ := hnames name List.mem_cons_self
    cases node with
    | File | Link => cases hfile
    | Directory entries =>
      rw [Node.find] at hfile
      obtain ⟨next, hnext, hfile⟩ := Option.bind_eq_some_iff.mp hfile
      have hstep : root.find (here ++ [name]) = some next := by
        rw [find_append, hhere, Option.bind_some, Node.find, hnext, Option.bind_some, find_nil]
      have hrest := ih hstep hfile fun other hother => hnames other (List.mem_cons_of_mem _ hother)
      rw [follow, hhere]
      dsimp only
      rw [if_neg (not_or.mpr ⟨hempty, hdot⟩), if_neg hparent, hnext]
      cases next with
      | Link target => cases names <;> cases hfile
      | File | Directory =>
        dsimp only
        rw [hrest, List.append_assoc]
        rfl

theorem resolve_names {links : ℕ} (hhere : root.find here = some node)
    (hfile : node.find names = some .File) (hnames : ∀ name ∈ names, IsName name) :
    resolve root links here names = some (here ++ names) := by
  cases links <;> exact follow_names hhere hfile hnames

/-- A path goes on from where its front leads. -/
theorem resolve_append {links : ℕ} {last : List String}
    (hfront : resolve root links here front = some there)
    (hrest : ∀ links, resolve root links there rest = some last) :
    resolve root links here (front ++ rest) = some last := by
  have hloop : ∀ (onLink onLink' : List String → List String → Option (List String)),
      (∀ here pieces, onLink here pieces = some there → onLink' here (pieces ++ rest) = some last) →
      (follow root onLink' there rest = some last) →
      ∀ {here front}, follow root onLink here front = some there →
        follow root onLink' here (front ++ rest) = some last := by
    intro onLink onLink' hlink hlast here front hfront
    induction front generalizing here with
    | nil =>
      rw [follow] at hfront
      obtain rfl := Option.some.inj hfront
      exact hlast
    | cons piece front ih =>
      rw [List.cons_append, follow]
      rw [follow] at hfront
      cases hnode : root.find here with
      | none =>
        rw [hnode] at hfront
        cases hfront
      | some node =>
        rw [hnode] at hfront
        cases node with
        | File | Link => cases hfront
        | Directory entries =>
          dsimp only at hfront ⊢
          split_ifs at hfront ⊢ with hstay hparent
          · exact ih hfront
          · exact ih hfront
          · cases hget : Entries.get piece entries with
            | none =>
              rw [hget] at hfront
              cases hfront
            | some next =>
              rw [hget] at hfront
              cases next with
              | File | Directory => exact ih hfront
              | Link target =>
                dsimp only at hfront ⊢
                rw [← List.append_assoc]
                exact hlink _ _ hfront
  induction links generalizing here front with
  | zero => exact hloop _ _ (fun _ _ h => Option.some_ne_none _ h.symm |>.elim) (hrest 0) hfront
  | succ links ih => exact hloop _ _ (fun here pieces h => ih h) (hrest (links + 1)) hfront

/-! ## Walks -/

mutual

/-- The regular files at a name and below it, by their names from there on. -/
def walkNode : String → Node → List (List String)
  | name, .File => [[name]]
  | _, .Link _ => []
  | name, .Directory entries => (walk entries).map (name :: ·)

/-- The regular files of a directory and below it. A walk follows no link. -/
def walk : List (String × Node) → List (List String)
  | [] => []
  | (name, node) :: rest => walkNode name node ++ walk rest

end

theorem mem_walk : names ∈ walk entries ↔ ∃ entry ∈ entries, names ∈ walkNode entry.1 entry.2 := by
  induction entries with
  | nil => simp [walk]
  | cons entry entries ih =>
    obtain ⟨name, node⟩ := entry
    rw [walk, List.mem_append, ih]
    simp

theorem get_of_distinct (hdistinct : (Entries.keys entries).Nodup) (h : (name, node) ∈ entries) :
    Entries.get name entries = some node := by
  induction entries with
  | nil => cases h
  | cons entry entries ih =>
    obtain ⟨first, old⟩ := entry
    have hnodup := List.nodup_cons.mp hdistinct
    rw [Entries.get_cons]
    rcases List.mem_cons.mp h with heq | hmem
    · cases heq
      rw [if_pos rfl]
    · have hne : name ≠ first := by
        rintro rfl
        exact hnodup.1 (List.mem_map.mpr ⟨_, hmem, rfl⟩)
      rw [if_neg hne]
      exact ih hnodup.2 hmem

/-- A walk comes to regular files, by names of entries. -/
theorem find_of_mem_walk (hnode : WellFormed (.Directory entries)) (h : names ∈ walk entries) :
    names ≠ [] ∧ (Node.Directory entries).find names = some .File ∧ ∀ name ∈ names, IsName name := by
  induction names generalizing entries with
  | nil =>
    obtain ⟨⟨name, node⟩, -, hname⟩ := mem_walk.mp h
    cases node <;> simp [walkNode] at hname
  | cons first names ih =>
    obtain ⟨⟨name, node⟩, hentry, hname⟩ := mem_walk.mp h
    cases hnode with
    | Directory _ distinct hnames inside =>
      have hget := get_of_distinct distinct hentry
      have hisname := hnames _ hentry
      have hinside := inside _ hentry
      dsimp only at hname hisname hinside
      cases node with
      | Link => simp [walkNode] at hname
      | File =>
        simp only [walkNode, List.mem_singleton, List.cons.injEq] at hname
        obtain ⟨rfl, rfl⟩ := hname
        refine ⟨List.cons_ne_nil _ _, ?_, fun other hother => ?_⟩
        · rw [Node.find, hget, Option.bind_some, find_nil]
        · rw [List.mem_singleton.mp hother]
          exact hisname
      | Directory inner =>
        simp only [walkNode, List.mem_map, List.cons.injEq] at hname
        obtain ⟨rest, hrest, rfl, rfl⟩ := hname
        obtain ⟨-, hfile, hrestnames⟩ := ih hinside hrest
        refine ⟨List.cons_ne_nil _ _, ?_, fun other hother => ?_⟩
        · rw [Node.find, hget, Option.bind_some, hfile]
        · rcases List.mem_cons.mp hother with rfl | hmem
          · exact hisname
          · exact hrestnames other hmem

end Node

end file_trees
