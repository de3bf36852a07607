-- Templates: texts with named places to fill in, how such a text is cut back
-- into its parts, and that there is one way only to do so.
import NixosDockers.Lib.Trimming

open rust_text

namespace templates

/-! ## The parts of a template -/

/-- Literals and names in turn, and the literal after the last name. -/
structure Shape where
  parts : List (List Char × List Char)
  tail : List Char

namespace Shape

/-- Every name replaced once, in its place. -/
def fill (value : List Char → List Char) (shape : Shape) : List Char :=
  shape.parts.flatMap (fun part => part.1 ++ value part.2) ++ shape.tail

def names (shape : Shape) : List (List Char) := shape.parts.map Prod.snd

/-- The text of the template: each name between the two marks. -/
def text (opening : List Char) (closing : Char) (shape : Shape) : List Char :=
  shape.fill fun name => opening ++ name ++ [closing]

/-- Nothing in the literals looks like a place, and no name looks closed too early. -/
structure Clean (mark closing : Char) (shape : Shape) : Prop where
  literals : ∀ part ∈ shape.parts, mark ∉ part.1
  names : ∀ name ∈ shape.names, closing ∉ name
  tail : mark ∉ shape.tail

/-- The shape with one more part in front. -/
def cons (literal name : List Char) (shape : Shape) : Shape :=
  { shape with parts := (literal, name) :: shape.parts }

/-- The shape with one more character in front of its first literal. -/
def push (c : Char) (shape : Shape) : Shape :=
  match shape with
  | ⟨[], tail⟩ => ⟨[], c :: tail⟩
  | ⟨(literal, name) :: parts, tail⟩ => ⟨(c :: literal, name) :: parts, tail⟩

variable {mark closing c : Char} {opening : List Char} {literal name : List Char} {shape : Shape}

@[simp] theorem fill_nil (value : List Char → List Char) (tail : List Char) :
    fill value ⟨[], tail⟩ = tail := rfl

@[simp] theorem fill_cons (value : List Char → List Char) :
    (shape.cons literal name).fill value = literal ++ (value name ++ shape.fill value) := by
  simp [fill, cons]

@[simp] theorem fill_push (value : List Char → List Char) :
    (shape.push c).fill value = c :: shape.fill value := by
  obtain ⟨_ | ⟨part, parts⟩, tail⟩ := shape <;> simp [fill, push]

@[simp] theorem names_cons : (shape.cons literal name).names = name :: shape.names := rfl

@[simp] theorem names_push : (shape.push c).names = shape.names := by
  obtain ⟨_ | ⟨part, parts⟩, tail⟩ := shape <;> rfl

theorem text_cons : (shape.cons literal name).text opening closing =
    literal ++ (opening ++ (name ++ closing :: shape.text opening closing)) := by
  simp [text]

theorem text_push : (shape.push c).text opening closing = c :: shape.text opening closing :=
  fill_push _

theorem clean_cons (hliteral : mark ∉ literal) (hname : closing ∉ name)
    (h : shape.Clean mark closing) : (shape.cons literal name).Clean mark closing where
  literals := List.forall_mem_cons.mpr ⟨hliteral, h.literals⟩
  names := List.forall_mem_cons.mpr ⟨hname, h.names⟩
  tail := h.tail

theorem clean_push (hc : c ≠ mark) (h : shape.Clean mark closing) :
    (shape.push c).Clean mark closing := by
  have hcons : ∀ {s : List Char}, mark ∉ s → mark ∉ c :: s := by
    intro s hs hmem
    rcases List.mem_cons.mp hmem with rfl | hmem
    · exact hc rfl
    · exact hs hmem
  obtain ⟨_ | ⟨part, parts⟩, tail⟩ := shape
  · exact ⟨h.literals, h.names, hcons h.tail⟩
  · have hparts := List.forall_mem_cons.mp h.literals
    exact ⟨List.forall_mem_cons.mpr ⟨hcons hparts.1, hparts.2⟩, h.names, h.tail⟩

theorem Clean.of_cons (h : (shape.cons literal name).Clean mark closing) :
    mark ∉ literal ∧ closing ∉ name ∧ shape.Clean mark closing :=
  ⟨(List.forall_mem_cons.mp h.literals).1, (List.forall_mem_cons.mp h.names).1,
    (List.forall_mem_cons.mp h.literals).2, (List.forall_mem_cons.mp h.names).2, h.tail⟩

/-! ## Cutting the text -/

variable {needle : List Char}

/-- The search for the opening mark ends at the first part. -/
theorem splitOnce_text_cons (needle name : List Char) (closing : Char) (shape : Shape)
    (hliteral : mark ∉ literal) :
    splitOnce (mark :: needle) ((shape.cons literal name).text (mark :: needle) closing) =
      some (literal, name ++ closing :: shape.text (mark :: needle) closing) := by
  have hhere : ∀ rest, splitOnce (mark :: needle) (mark :: needle ++ rest) = some ([], rest) := by
    intro rest
    rw [List.cons_append, splitOnce, if_pos (by simp)]
    simp
  rw [text_cons, splitOnce_skip hliteral, hhere]
  simp

theorem splitOnce_none {s : List Char} (h : mark ∉ s) : splitOnce (mark :: needle) s = none := by
  rw [← List.append_nil s, splitOnce_skip h]
  rfl

/-- Induction on the parts of a shape. -/
theorem induction {motive : Shape → Prop} (tail : ∀ tail, motive ⟨[], tail⟩)
    (cons : ∀ literal name shape, motive shape → motive (shape.cons literal name))
    (shape : Shape) : motive shape := by
  obtain ⟨parts, last⟩ := shape
  induction parts with
  | nil => exact tail last
  | cons part parts ih => exact cons part.1 part.2 ⟨parts, last⟩ ih

/-- A text is the text of one clean shape at most. -/
theorem text_injective {first second : Shape} (hfirst : first.Clean mark closing)
    (hsecond : second.Clean mark closing)
    (h : first.text (mark :: needle) closing = second.text (mark :: needle) closing) :
    first = second := by
  induction first using induction generalizing second with
  | tail tail =>
    cases second using induction with
    | tail other => exact congrArg _ h
    | cons literal name shape _ =>
      have hsome := splitOnce_text_cons needle name closing shape hsecond.of_cons.1
      rw [← h] at hsome
      exact absurd ((splitOnce_none hfirst.tail).symm.trans hsome) nofun
  | cons literal name shape ih =>
    have hsome := splitOnce_text_cons needle name closing shape hfirst.of_cons.1
    rw [h] at hsome
    cases second using induction with
    | tail other => exact absurd ((splitOnce_none hsecond.tail).symm.trans hsome) nofun
    | cons other called rest _ =>
      rw [splitOnce_text_cons _ _ _ _ hsecond.of_cons.1] at hsome
      obtain ⟨rfl, hnames⟩ := Prod.mk.inj (Option.some.inj hsome)
      have hcut := @splitOnce_char _ _ (shape.text (mark :: needle) closing) hfirst.of_cons.2.1
      rw [← hnames, splitOnce_char hsecond.of_cons.2.1] at hcut
      obtain ⟨rfl, hrest⟩ := Prod.mk.inj (Option.some.inj hcut)
      rw [ih hfirst.of_cons.2.2 hsecond.of_cons.2.2 hrest.symm]

end Shape

end templates
