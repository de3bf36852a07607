-- Path templates (`condition.rs`): the check of a template goes character by
-- character, the rendering searches for the opening mark. Both cut every accepted
-- text into the same literals and references.
import NixosDockers.BootstrapModel.Condition
import NixosDockers.Lib.Queries
import NixosDockers.Lib.Results
import NixosDockers.Lib.Templates

open queries results rust_text templates

namespace bootstrap_model

/-! ## The references that the two loops ask for -/

/-- `validate_interpolations`, asking for each reference that it cuts out. -/
def checkQuery (location : String) : Nat → List Char → Query String Unit (Except ModelError Unit)
  | 0, _ => .Done (.ok ())
  | _ + 1, [] => .Done (.ok ())
  | fuel + 1, c :: rest =>
    if c ≠ '$' && c ≠ '\x7b' && c ≠ '\x7d' then checkQuery location fuel rest
    else if c ≠ '$' || rest.head? ≠ some '\x7b' then
      .Done (.error (.Invalid location
        "only $\x7bnamespace.reference\x7d interpolation is allowed"))
    else
      match splitOnce ['\x7d'] rest.tail with
      | none => .Done (.error (.Invalid location "unterminated structured interpolation"))
      | some (reference, after) => .Ask (String.ofList reference) fun
        | some () => checkQuery location fuel after
        | none => .Done (.error (.Invalid location
            ("unsupported structured reference " ++ debugText (String.ofList reference))))

/-- The answer of the check: `is_reference`. -/
def supported (reference : String) : Option Unit :=
  if isReference reference then some () else none

/-- The loop of `render`, asking for each value. -/
def lookupQuery : Nat → List Char → Query String String (Except String (List Char))
  | 0, rest => .Done (.ok rest)
  | fuel + 1, rest =>
    match splitOnce ['$', '\x7b'] rest with
    | none => .Done (.ok rest)
    | some (literal, afterStart) =>
      match splitOnce ['\x7d'] afterStart with
      | none => .Done (.error "unterminated path interpolation")
      | some (reference, after) => .Ask (String.ofList reference) fun
        | none => .Done (.error
            ("missing path interpolation value " ++ debugText (String.ofList reference)))
        | some value => (lookupQuery fuel after).andThen fun tail =>
            .Done (.ok (literal ++ value.toList ++ tail))

theorem run_checkQuery (location : String) (fuel : Nat) (s : List Char) :
    (checkQuery location fuel s).run supported = validateInterpolationsFuel location fuel s := by
  induction fuel generalizing s with
  | zero => rfl
  | succ fuel ih =>
    cases s with
    | nil => rfl
    | cons c rest =>
      unfold checkQuery validateInterpolationsFuel
      split_ifs with hplain hstray
      · exact ih rest
      · rfl
      · rcases splitOnce ['\x7d'] rest.tail with _ | ⟨reference, after⟩
        · rfl
        · simp only [Query.run, supported]
          split_ifs with hknown
          · exact ih after
          · rfl

theorem run_lookupQuery (values : Std.ExtTreeMap String String) (fuel : Nat) (rest : List Char) :
    (lookupQuery fuel rest).run (values[·]?) = expandFuel values fuel rest := by
  induction fuel generalizing rest with
  | zero => rfl
  | succ fuel ih =>
    unfold lookupQuery expandFuel
    rcases splitOnce ['$', '\x7b'] rest with _ | ⟨literal, afterStart⟩
    · rfl
    · dsimp only
      rcases splitOnce ['\x7d'] afterStart with _ | ⟨reference, after⟩
      · rfl
      · simp only [Query.run]
        cases values[String.ofList reference]? with
        | none => rfl
        | some value =>
          simp only [Query.run_andThen, ih, Query.run]
          cases expandFuel values fuel after <;> rfl

/-- The references that `validate_interpolations` checks, in order. -/
def PathTemplate.checked (template : PathTemplate) : List String :=
  (checkQuery "path" template.text.length template.text.toList).reads supported

/-- The references that `render` looks up, in order. -/
def PathTemplate.lookups (template : PathTemplate) (values : Std.ExtTreeMap String String) :
    List String :=
  (lookupQuery template.text.length template.text.toList).reads (values[·]?)

/-! ## The shape of an accepted text -/

/-- The text written for a shape: every name between `$\x7b` and `\x7d`. -/
def templateText (shape : Shape) : List Char := shape.text ['$', '\x7b'] '\x7d'

def CleanShape (shape : Shape) : Prop := shape.Clean '$' '\x7d'

theorem exists_shape {location : String} {fuel : Nat} {s : List Char} (hfuel : s.length ≤ fuel)
    (h : validateInterpolationsFuel location fuel s = .ok ()) :
    ∃ shape, CleanShape shape ∧ templateText shape = s ∧
      (checkQuery location fuel s).reads supported = shape.names.map String.ofList ∧
      ∀ name ∈ shape.names, isReference (String.ofList name) = true := by
  induction fuel generalizing s with
  | zero =>
    rw [List.eq_nil_of_length_eq_zero (Nat.le_zero.mp hfuel)]
    exact ⟨⟨[], []⟩, ⟨nofun, nofun, nofun⟩, rfl, rfl, nofun⟩
  | succ fuel ih =>
    cases s with
    | nil => exact ⟨⟨[], []⟩, ⟨nofun, nofun, nofun⟩, rfl, rfl, nofun⟩
    | cons c rest =>
      have hrest : rest.length ≤ fuel := Nat.le_of_succ_le_succ hfuel
      unfold validateInterpolationsFuel at h
      unfold checkQuery
      split_ifs at h with hplain hstray
      · -- a character of a literal
        obtain ⟨shape, hclean, htext, hreads, hknown⟩ := ih hrest h
        refine ⟨shape.push c, Shape.clean_push (by simp_all) hclean, ?_, ?_, ?_⟩
        · rw [templateText, Shape.text_push, ← htext, templateText]
        · rw [if_pos hplain, hreads, Shape.names_push]
        · rwa [Shape.names_push]
      · rw [if_neg hplain, if_neg hstray]
        cases hcut : splitOnce ['\x7d'] rest.tail with
        | none => rw [hcut] at h; cases h
        | some found =>
          obtain ⟨reference, after⟩ := found
          rw [hcut] at h
          dsimp only at h ⊢
          split_ifs at h with hknown
          -- a whole interpolation
          obtain ⟨rfl, hhead⟩ : c = '$' ∧ rest.head? = some '\x7b' := by simpa using hstray
          obtain ⟨inner, rfl⟩ := List.head?_eq_some_iff.mp hhead
          rw [List.tail_cons] at hcut
          have hinner : inner = reference ++ ['\x7d'] ++ after := splitOnce_eq_append hcut
          have hafter : after.length ≤ fuel := by
            have := congrArg List.length hinner
            simp only [List.length_append, List.length_cons] at this hrest
            omega
          obtain ⟨shape, hclean, htext, hreads, hnames⟩ := ih hafter h
          refine ⟨shape.cons [] reference,
            Shape.clean_cons List.not_mem_nil (notMem_of_splitOnce hcut) hclean, ?_, ?_,
            List.forall_mem_cons.mpr ⟨hknown, hnames⟩⟩
          · rw [templateText, Shape.text_cons, hinner, ← htext, templateText]
            simp
          · simp only [Query.reads, supported, if_pos hknown]
            rw [Shape.names_cons, List.map_cons, ← hreads]

/-! ## What the rendering of a shape looks up -/

variable {shape : Shape} {values : String → Option String}

/-- The references up to the first one without a value, that one included. -/
def upToMissing (values : String → Option String) (references : List String) : List String :=
  references.take (references.findIdx (fun reference => (values reference).isNone) + 1)

/-- The text with every reference replaced once by its value. -/
def filled (values : String → Option String) (shape : Shape) : List Char :=
  shape.fill fun name => ((values (String.ofList name)).getD "").toList

theorem lookupQuery_tail (fuel : Nat) {tail : List Char} (h : '$' ∉ tail) :
    lookupQuery fuel tail = .Done (.ok tail) := by
  cases fuel with
  | zero => rfl
  | succ fuel => rw [lookupQuery, Shape.splitOnce_none h]

theorem lookupQuery_cons (fuel : Nat) {literal name : List Char}
    (hclean : CleanShape (shape.cons literal name)) :
    lookupQuery (fuel + 1) (templateText (shape.cons literal name)) =
      .Ask (String.ofList name) fun
        | none => .Done (.error
            ("missing path interpolation value " ++ debugText (String.ofList name)))
        | some value => (lookupQuery fuel (templateText shape)).andThen fun tail =>
            .Done (.ok (literal ++ value.toList ++ tail)) := by
  obtain ⟨hliteral, hname, _⟩ := hclean.of_cons
  rw [templateText, lookupQuery, Shape.splitOnce_text_cons _ _ _ _ hliteral]
  dsimp only
  rw [splitOnce_char hname]
  rfl

theorem reads_andThen_done {f : List Char → Except String (List Char)}
    (query : Query String String (Except String (List Char))) :
    (query.andThen fun tail => .Done (f tail)).reads values = query.reads values := by
  rw [Query.andThen, Query.reads_bind]
  cases query.run values <;> exact List.append_nil _

theorem reads_lookupQuery (hclean : CleanShape shape) {fuel : Nat}
    (hfuel : shape.parts.length ≤ fuel) :
    (lookupQuery fuel (templateText shape)).reads values =
      upToMissing values (shape.names.map String.ofList) := by
  induction shape using Shape.induction generalizing fuel with
  | tail tail =>
    have htail : templateText ⟨[], tail⟩ = tail := rfl
    rw [htail, lookupQuery_tail fuel hclean.tail]
    rfl
  | cons literal name shape ih =>
    obtain ⟨fuel, rfl⟩ := Nat.exists_eq_succ_of_ne_zero (Nat.ne_zero_of_lt hfuel)
    rw [lookupQuery_cons fuel hclean, Query.reads, Shape.names_cons, List.map_cons, upToMissing,
      List.findIdx_cons]
    cases values (String.ofList name) with
    | none => rfl
    | some value =>
      dsimp only
      rw [reads_andThen_done, ih hclean.of_cons.2.2 (Nat.le_of_succ_le_succ hfuel)]
      rfl

/-- The rendering ends at the first reference without a value, or with the filled text. -/
theorem run_lookupQuery_shape (hclean : CleanShape shape) {fuel : Nat}
    (hfuel : shape.parts.length ≤ fuel) :
    (lookupQuery fuel (templateText shape)).run values =
      match (shape.names.map String.ofList).find? (fun reference => (values reference).isNone) with
      | some reference => .error ("missing path interpolation value " ++ debugText reference)
      | none => .ok (filled values shape) := by
  induction shape using Shape.induction generalizing fuel with
  | tail tail =>
    have htail : templateText ⟨[], tail⟩ = tail := rfl
    rw [htail, lookupQuery_tail fuel hclean.tail]
    rfl
  | cons literal name shape ih =>
    obtain ⟨fuel, rfl⟩ := Nat.exists_eq_succ_of_ne_zero (Nat.ne_zero_of_lt hfuel)
    rw [lookupQuery_cons fuel hclean, Query.run, Shape.names_cons, List.map_cons, List.find?_cons]
    cases hvalue : values (String.ofList name) with
    | none => rfl
    | some value =>
      dsimp only
      rw [Query.run_andThen, ih hclean.of_cons.2.2 (Nat.le_of_succ_le_succ hfuel)]
      simp only [Option.isNone_some]
      cases (shape.names.map String.ofList).find? (fun reference => (values reference).isNone) with
      | some reference => rfl
      | none =>
        have hfill : filled values (shape.cons literal name) =
            literal ++ value.toList ++ filled values shape := by
          rw [filled, Shape.fill_cons, hvalue, List.append_assoc]
          rfl
        rw [hfill]
        rfl

/-! ## Accepted templates -/

theorem validateTemplate_interpolations {location value : String}
    (h : validateTemplate location value = .ok ()) :
    validateInterpolations location value = .ok () := by
  simp only [validateTemplate, throw_eq, error_bind, ite_error_ok_iff, bind_ok_iff] at h
  obtain ⟨_, _, _, _, _, hinterpolations, _⟩ := h
  exact hinterpolations

theorem PathTemplate.exists_shape (template : PathTemplate) :
    ∃ shape, CleanShape shape ∧ templateText shape = template.text.toList ∧
      template.checked = shape.names.map String.ofList ∧
      ∀ name ∈ shape.names, isReference (String.ofList name) = true :=
  bootstrap_model.exists_shape (Nat.le_of_eq String.length_toList)
    (validateTemplate_interpolations template.valid)

theorem parts_le_text (shape : Shape) : shape.parts.length ≤ (templateText shape).length := by
  induction shape using Shape.induction with
  | tail tail => exact Nat.zero_le _
  | cons literal name shape ih =>
    rw [templateText, Shape.text_cons]
    simp only [List.length_append, List.length_cons, Shape.cons] at ih ⊢
    rw [templateText] at ih
    omega

/-- What a rendered path is free of. -/
structure SafePath (path : String) : Prop where
  absolute : startsWith path "/" = true
  no_parent : ".." ∉ splitChar '/' path
  no_nul : nul ∉ path.toList
  no_newline : '\n' ∉ path.toList ∧ '\r' ∉ path.toList
  no_command : hasText path "$(" = false
  no_mark : ∀ mark ∈ [backtick, ';', '|', '&', '>', '<'], mark ∉ path.toList

theorem notMem_of_hasChar {s : String} {c : Char} (h : ¬ hasChar s c = true) : c ∉ s.toList :=
  fun hmem => h (List.contains_iff_mem.mpr hmem)

theorem safePath_of_validateRendered {path : String} (h : validateRendered path = .ok ()) :
    SafePath path := by
  simp only [validateRendered, throw_eq, error_bind, ite_error_ok_iff] at h
  obtain ⟨habsolute, hnul, hnewline, hshell, hparent, _⟩ := h
  simp only [holdsNewline, Bool.or_eq_true, not_or] at hnewline
  simp only [holdsShellMark, Bool.or_eq_true, not_or] at hshell
  obtain ⟨⟨⟨⟨⟨⟨hcommand, hbacktick⟩, hsemicolon⟩, hpipe⟩, hand⟩, hgreater⟩, hless⟩ := hshell
  constructor
  · simp only [Bool.or_eq_true, not_or] at habsolute
    simpa using habsolute.2
  · intro hmem
    exact hparent (List.any_eq_true.mpr ⟨"..", hmem, by simp⟩)
  · exact notMem_of_hasChar hnul
  · exact ⟨notMem_of_hasChar hnewline.1, notMem_of_hasChar hnewline.2⟩
  · exact Bool.eq_false_iff.mpr hcommand
  · simp only [List.forall_mem_cons]
    exact ⟨notMem_of_hasChar hbacktick, notMem_of_hasChar hsemicolon, notMem_of_hasChar hpipe,
      notMem_of_hasChar hand, notMem_of_hasChar hgreater, notMem_of_hasChar hless, nofun⟩

theorem validateRendered_head {text message : String} (h : validateRendered text = .error message) :
    message.toList.head? = some 'r' := by
  unfold validateRendered at h
  simp only [throw, throwThe, MonadExceptOf.throw, bind, Except.bind, pure, Except.pure] at h
  split_ifs at h <;> cases h <;> decide

/-! ## The rendering follows the check -/

/-- How the rendering of a template with this shape goes. -/
structure RendersAs (template : PathTemplate) (values : Std.ExtTreeMap String String)
    (shape : Shape) : Prop where
  clean : CleanShape shape
  text : templateText shape = template.text.toList
  unique : ∀ other, CleanShape other → templateText other = template.text.toList → other = shape
  checked : template.checked = shape.names.map String.ofList
  supported : ∀ reference ∈ template.checked, isReference reference = true
  lookups : template.lookups values = upToMissing (values[·]?) template.checked
  terminated : template.render values ≠ .error "unterminated path interpolation"
  output : (∀ reference ∈ template.checked, (values[reference]?).isSome) →
    template.lookups values = template.checked ∧
      template.render values =
        (validateRendered (String.ofList (filled (values[·]?) shape))).map fun _ =>
          String.ofList (filled (values[·]?) shape)
  safe : ∀ path, template.render values = .ok path → SafePath path

theorem upToMissing_of_all {values : String → Option String} {references : List String}
    (h : ∀ reference ∈ references, (values reference).isSome) :
    upToMissing values references = references := by
  apply List.take_of_length_le
  have hlength : references.findIdx (fun reference => (values reference).isNone) =
      references.length := by
    apply List.findIdx_eq_length_of_false
    intro reference hmem
    rw [Option.isNone_eq_false_iff]
    exact h reference hmem
  rw [hlength]
  exact Nat.le_succ _

/-- The rendering of a shape: the first missing value, or the filled text if it is a path. -/
theorem render_eq {template : PathTemplate} {shape : Shape} (hclean : CleanShape shape)
    (htext : templateText shape = template.text.toList) (values : Std.ExtTreeMap String String) :
    template.render values =
      match (shape.names.map String.ofList).find? (fun key => (values[key]?).isNone) with
      | some key => .error ("missing path interpolation value " ++ debugText key)
      | none => (validateRendered (String.ofList (filled (values[·]?) shape))).map fun _ =>
          String.ofList (filled (values[·]?) shape) := by
  have hfuel : shape.parts.length ≤ template.text.length := by
    rw [← String.length_toList, ← htext]
    exact parts_le_text shape
  unfold PathTemplate.render renderText
  rw [← run_lookupQuery, ← htext, run_lookupQuery_shape hclean hfuel]
  cases (shape.names.map String.ofList).find? (fun key => (values[key]?).isNone) with
  | some key => rfl
  | none =>
    change (validateRendered (String.ofList (filled (values[·]?) shape)) >>= fun _ => _) = _
    cases validateRendered (String.ofList (filled (values[·]?) shape)) <;> rfl

theorem render_terminated {template : PathTemplate} {shape : Shape} (hclean : CleanShape shape)
    (htext : templateText shape = template.text.toList) (values : Std.ExtTreeMap String String) :
    template.render values ≠ .error "unterminated path interpolation" := by
  rw [render_eq hclean htext]
  cases (shape.names.map String.ofList).find? (fun key => (values[key]?).isNone) with
  | some key =>
    intro h
    have hhead := congrArg (fun message : String => message.toList.head?) (Except.error.inj h)
    simp [String.toList_append] at hhead
  | none =>
    cases hrendered : validateRendered (String.ofList (filled (values[·]?) shape)) with
    | ok _ => exact nofun
    | error message =>
      intro h
      have hhead := validateRendered_head hrendered
      rw [Except.error.inj h] at hhead
      exact absurd hhead (by decide)

/-- Rendering cuts a template as its check did. It looks up the checked references, in their
order, up to the first one without a value; with all values there, each is put in once, whatever
it looks like. -/
theorem render_follows_the_check (template : PathTemplate)
    (values : Std.ExtTreeMap String String) : ∃ shape, RendersAs template values shape := by
  obtain ⟨shape, hclean, htext, hchecked, hknown⟩ := template.exists_shape
  have hfuel : shape.parts.length ≤ template.text.length := by
    rw [← String.length_toList, ← htext]
    exact parts_le_text shape
  have hlookups : template.lookups values = upToMissing (values[·]?) template.checked := by
    rw [PathTemplate.lookups, ← htext, reads_lookupQuery hclean hfuel, hchecked]
  refine ⟨shape, hclean, htext, ?_, hchecked, ?_, hlookups, render_terminated hclean htext values,
    ?_, ?_⟩
  · intro other hother htext'
    exact Shape.text_injective hother hclean (htext'.trans htext.symm)
  · rw [hchecked]
    exact List.forall_mem_map.mpr hknown
  · intro hall
    refine ⟨hlookups.trans (upToMissing_of_all hall), ?_⟩
    rw [render_eq hclean htext, ← hchecked]
    have hnone : template.checked.find? (fun key => (values[key]?).isNone) = none := by
      rw [List.find?_eq_none]
      intro key hmem
      simpa [Option.isNone_iff_eq_none, Option.isSome_iff_ne_none] using hall key hmem
    rw [hnone]
  · intro path hpath
    rw [render_eq hclean htext] at hpath
    split at hpath
    · cases hpath
    · cases hrendered : validateRendered (String.ofList (filled (values[·]?) shape)) with
      | error message => rw [hrendered] at hpath; cases hpath
      | ok _ =>
        rw [hrendered] at hpath
        cases hpath
        exact safePath_of_validateRendered hrendered

/-- Two references, none of them with a value. -/
def twoReferences : PathTemplate where
  text := "$\x7bidentity.home\x7d/$\x7bidentity.user\x7d"
  valid := by decide +kernel

/-- A missing value ends the lookups before the last checked reference. -/
theorem lookups_end_at_a_missing_value :
    twoReferences.checked = ["identity.home", "identity.user"] ∧
      twoReferences.lookups ∅ = ["identity.home"] ∧
      ¬ ∀ (template : PathTemplate) (values : Std.ExtTreeMap String String),
        template.lookups values = template.checked := by
  have hchecked : twoReferences.checked = ["identity.home", "identity.user"] := by decide +kernel
  have hlookups : twoReferences.lookups ∅ = ["identity.home"] := by decide +kernel
  refine ⟨hchecked, hlookups, fun h => ?_⟩
  have hboth := h twoReferences ∅
  rw [hchecked, hlookups] at hboth
  cases hboth

example : twoReferences.render
    ((∅ : Std.ExtTreeMap String String).insert "identity.home" "/h/$\x7binput.A\x7d"
      |>.insert "identity.user" "u") = .ok "/h/$\x7binput.A\x7d/u" := by decide +kernel

end bootstrap_model
