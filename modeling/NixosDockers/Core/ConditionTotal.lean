-- Conditions that have a value: what the parser accepts as a reference or as an
-- interpolation, and which of them the evaluation has a value for.
import NixosDockers.Core.Reads
import NixosDockers.Lib.Results
import NixosDockers.Lib.Trimming

open bootstrap_model rust_text results tree_maps

namespace init_core

/-! ## Accepted templates -/

/-- The texts that `validate_interpolations` accepts: plain characters and references. -/
inductive Interpolated : List Char → Prop where
  | nil : Interpolated []
  | plain {c s} : c ≠ '$' → Interpolated s → Interpolated (c :: s)
  | reference {name s} : '\x7d' ∉ name → isReference (String.ofList name) = true →
      Interpolated s → Interpolated ('$' :: '\x7b' :: name ++ '\x7d' :: s)

theorem interpolated_of_validate {location : String} {fuel : ℕ} {s : List Char}
    (hfuel : s.length ≤ fuel) (h : validateInterpolationsFuel location fuel s = .ok ()) :
    Interpolated s := by
  induction fuel generalizing s with
  | zero =>
    obtain rfl := List.length_eq_zero_iff.mp (Nat.le_zero.mp hfuel)
    exact .nil
  | succ fuel ih =>
    cases s with
    | nil => exact .nil
    | cons c rest =>
      rw [validateInterpolationsFuel] at h
      rw [List.length_cons, Nat.succ_le_succ_iff] at hfuel
      split_ifs at h with hplain hopen
      · simp only [Bool.and_eq_true, decide_eq_true_eq] at hplain
        exact .plain hplain.1.1 (ih hfuel h)
      · rw [Bool.or_eq_true, not_or, decide_eq_true_eq, decide_eq_true_eq, not_not, not_not] at hopen
        obtain ⟨rfl, hhead⟩ := hopen
        obtain ⟨tail, rfl⟩ := List.head?_eq_some_iff.mp hhead
        rw [List.tail_cons] at h
        cases hend : splitOnce ['\x7d'] tail with
        | none =>
          rw [hend] at h
          cases h
        | some cut =>
          obtain ⟨name, after⟩ := cut
          rw [hend] at h
          dsimp only at h
          split_ifs at h with hreference
          obtain rfl := splitOnce_eq_append hend
          have hlength : after.length ≤ fuel := by
            simp only [List.length_cons, List.length_append] at hfuel
            omega
          have hs := Interpolated.reference (notMem_of_splitOnce hend) hreference (ih hlength h)
          simpa using hs

theorem interpolated_template (template : PathTemplate) : Interpolated template.text.toList := by
  have hvalid := template.valid
  unfold validateTemplate at hvalid
  simp only [throw_eq, error_bind, ite_error_ok_iff, bind_ok_iff] at hvalid
  obtain ⟨_, _, _, _, _, hinterpolations, _⟩ := hvalid
  exact interpolated_of_validate (by rw [String.length_toList]) hinterpolations

/-- The text holds an interpolation of the reference. -/
def Interpolates (s : List Char) (reference : String) : Prop :=
  ∃ before after, s = before ++ '$' :: '\x7b' :: reference.toList ++ '\x7d' :: after ∧
    isReference reference = true

theorem Interpolates.cons {s : List Char} {reference : String} (h : Interpolates s reference)
    (text : List Char) : Interpolates (text ++ s) reference := by
  obtain ⟨before, after, rfl, hreference⟩ := h
  exact ⟨text ++ before, after, by simp, hreference⟩

theorem expandFuel_plain {values : Std.ExtTreeMap String String} {c : Char} (hc : c ≠ '$')
    (fuel : ℕ) (s : List Char) :
    expandFuel values (fuel + 1) (c :: s) = (expandFuel values (fuel + 1) s).map (c :: ·) := by
  have hnot : ['$', '\x7b'].isPrefixOf (c :: s) = false := by
    simp [List.isPrefixOf, hc.symm]
  rw [expandFuel, expandFuel, splitOnce, hnot]
  simp only [Bool.false_eq_true, if_false]
  cases splitOnce ['$', '\x7b'] s with
  | none => rfl
  | some cut =>
    obtain ⟨literal, afterStart⟩ := cut
    simp only [Option.map_some]
    cases splitOnce ['\x7d'] afterStart with
    | none => rfl
    | some cut =>
      obtain ⟨reference, after⟩ := cut
      dsimp only
      cases values[String.ofList reference]? with
      | none => rfl
      | some value =>
        cases expandFuel values fuel after <;> rfl

/-- The text with every reference replaced by its value. -/
inductive Rendered (values : Std.ExtTreeMap String String) : List Char → List Char → Prop where
  | nil : Rendered values [] []
  | plain {c s output} : c ≠ '$' → Rendered values s output → Rendered values (c :: s) (c :: output)
  | reference {name s output value} : '\x7d' ∉ name →
      values[String.ofList name]? = some value → Rendered values s output →
      Rendered values ('$' :: '\x7b' :: name ++ '\x7d' :: s) (value.toList ++ output)

/-- The loop of the code replaces every reference. -/
theorem Rendered.expanded {values : Std.ExtTreeMap String String} {s output : List Char}
    (h : Rendered values s output) {fuel : ℕ} (hfuel : s.length ≤ fuel) :
    expandFuel values fuel s = .ok output := by
  induction h generalizing fuel with
  | nil => cases fuel <;> rfl
  | @plain c s output hc _ ih =>
    obtain ⟨fuel, rfl⟩ := Nat.exists_eq_succ_of_ne_zero (Nat.ne_zero_of_lt hfuel)
    rw [Nat.succ_eq_add_one, expandFuel_plain hc, ih (Nat.le_of_succ_le hfuel)]
    rfl
  | @reference name s output value hname hvalue _ ih =>
    obtain ⟨fuel, rfl⟩ := Nat.exists_eq_succ_of_ne_zero (Nat.ne_zero_of_lt hfuel)
    have hlength : s.length ≤ fuel := by
      simp only [List.cons_append, List.length_cons, List.length_append] at hfuel
      omega
    have hstart : splitOnce ['$', '\x7b'] ('$' :: '\x7b' :: name ++ '\x7d' :: s) =
        some ([], name ++ '\x7d' :: s) := rfl
    rw [Nat.succ_eq_add_one, expandFuel, hstart]
    simp only [splitOnce_char hname, hvalue, ih hlength]
    rfl

theorem Rendered.unique {values : Std.ExtTreeMap String String} {s first second : List Char}
    (h : Rendered values s first) (h' : Rendered values s second) : first = second := by
  have hfirst := h.expanded le_rfl
  rw [h'.expanded le_rfl] at hfirst
  exact (Except.ok.inj hfirst).symm

/-- A template whose references have values is rendered. -/
theorem Interpolated.rendered {values : Std.ExtTreeMap String String} {s : List Char}
    (hs : Interpolated s)
    (hvalues : ∀ reference, Interpolates s reference → (values[reference]?).isSome = true) :
    ∃ output, Rendered values s output := by
  induction hs with
  | nil => exact ⟨[], .nil⟩
  | @plain c s hc _ ih =>
    obtain ⟨output, houtput⟩ := ih fun reference h => hvalues reference (h.cons [c])
    exact ⟨c :: output, .plain hc houtput⟩
  | @reference name s hname hreference _ ih =>
    obtain ⟨output, houtput⟩ := ih fun reference h => by
      have h' := h.cons ('$' :: '\x7b' :: name ++ ['\x7d'])
      rw [List.append_assoc] at h'
      exact hvalues reference h'
    obtain ⟨value, hvalue⟩ := Option.isSome_iff_exists.mp (hvalues (String.ofList name)
      ⟨[], s, by simp, hreference⟩)
    exact ⟨value.toList ++ output, .reference hname hvalue houtput⟩

/-! ## Values of references -/

/-- What a reference needs of the context: its input or its environment variable is set, and it is
none of the environment DSL, whose values the runtime does not have. -/
structure Provided (context : ConditionContext) (reference : String) : Prop where
  input : ∀ name, reference = "input." ++ name → context.inputs.contains name = true
  env : ∀ name, reference = "env." ++ name → context.runtime.env.contains name = true
  not_config : startsWith reference "config." = false

/-- The references of the fixed values. -/
def fixedReferences : List String :=
  ["bootstrap.workspace_root", "identity.uid", "identity.gid", "identity.user", "identity.home",
    "identity.target", "context.cwd", "context.os", "context.arch"]

theorem fixedValues_isSome {context : ConditionContext} {reference : String}
    (h : reference ∈ fixedReferences) : ((fixedValues context)[reference]?).isSome = true := by
  simp only [fixedReferences, List.mem_cons, List.not_mem_nil, or_false] at h
  rcases h with rfl | rfl | rfl | rfl | rfl | rfl | rfl | rfl | rfl <;>
    simp [fixedValues, insertAll]

/-- The six namespaces of the parser. -/
theorem isReference_cases {reference : String} (h : isReference reference = true) :
    reference ∈ fixedReferences ∨ (∃ name, reference = "input." ++ name) ∨
      (∃ name, reference = "env." ++ name) ∨ startsWith reference "config." = true := by
  unfold isReference at h
  split at h
  · cases h
  · rename_i before after hcut
    have htext : reference = String.ofList before ++ "." ++ String.ofList after := by
      rw [← String.toList_inj, splitOnce_eq_append hcut]
      simp
    dsimp only at h
    split at h
    case h_1 hname =>
      rw [decide_eq_true_eq] at h
      rw [htext, hname, h]
      exact Or.inl (by decide)
    case h_2 hname =>
      rw [decide_eq_true_eq] at h
      rw [htext, hname]
      simp only [List.mem_cons, List.not_mem_nil, or_false] at h
      rcases h with hafter | hafter | hafter | hafter | hafter <;> rw [hafter] <;>
        exact Or.inl (by decide)
    case h_3 hname =>
      rw [decide_eq_true_eq] at h
      rw [htext, hname]
      simp only [List.mem_cons, List.not_mem_nil, or_false] at h
      rcases h with hafter | hafter | hafter <;> rw [hafter] <;> exact Or.inl (by decide)
    case h_4 hname =>
      rw [htext, hname]
      exact Or.inr (Or.inl ⟨_, rfl⟩)
    case h_5 hname =>
      rw [htext, hname]
      exact Or.inr (Or.inr (Or.inr (startsWith_iff.mpr ⟨_, rfl⟩)))
    case h_6 hname =>
      rw [htext, hname]
      exact Or.inr (Or.inr (Or.inl ⟨_, rfl⟩))
    case h_7 => cases h

/-- A reference that the parser accepts and the context provides has a value. -/
theorem interpolation_isSome {context : ConditionContext} {reference : String}
    (h : isReference reference = true) (hprovided : Provided context reference) :
    ((interpolationValues context)[reference]?).isSome = true := by
  rcases isReference_cases h with hfixed | ⟨name, rfl⟩ | ⟨name, rfl⟩ | hconfig
  · have hinput : startsWith reference "input." = false := by
      simp only [fixedReferences, List.mem_cons, List.not_mem_nil, or_false] at hfixed
      rcases hfixed with rfl | rfl | rfl | rfl | rfl | rfl | rfl | rfl | rfl <;> decide
    have henv : startsWith reference "env." = false := by
      simp only [fixedReferences, List.mem_cons, List.not_mem_nil, or_false] at hfixed
      rcases hfixed with rfl | rfl | rfl | rfl | rfl | rfl | rfl | rfl | rfl <;> decide
    rw [interpolationValues_fixed hinput henv]
    exact fixedValues_isSome hfixed
  · rw [interpolationValues_input, Option.isSome_map, Std.ExtTreeMap.isSome_getElem?_eq_contains]
    exact hprovided.input name rfl
  · rw [interpolationValues_env, Std.ExtTreeMap.isSome_getElem?_eq_contains]
    exact hprovided.env name rfl
  · rw [hprovided.not_config] at hconfig
    cases hconfig

theorem fixedValues_of_mem {context : ConditionContext} {reference value : String}
    (h : (reference, value) ∈ ([
      ("bootstrap.workspace_root", context.workspace_root),
      ("identity.uid", toString context.identity.uid),
      ("identity.gid", toString context.identity.gid),
      ("identity.user", context.identity.user),
      ("identity.home", context.identity.home),
      ("identity.target", context.identity.user),
      ("context.cwd", context.runtime.cwd),
      ("context.os", context.platform.os),
      ("context.arch", context.platform.arch)] : List (String × String))) :
    (fixedValues context)[reference]? = some value := by
  refine getElem?_insertAll_of_mem ?_ h ∅
  show fixedReferences.Nodup
  decide

theorem fixedValues_of_notMem {context : ConditionContext} {reference : String}
    (h : reference ∉ fixedReferences) : (fixedValues context)[reference]? = none := by
  refine (getElem?_insertAll_of_notMem ?_ _).trans (by simp)
  exact h

/-- The evaluation of comparisons and that of paths have the same values, but for the root of the
workspace. -/
theorem reference_eq_interpolation {context : ConditionContext} {reference : String}
    (h : reference ≠ "bootstrap.workspace_root") :
    (context.reference reference).toOption = (interpolationValues context)[reference]? := by
  unfold ConditionContext.reference
  split
  case h_9 huid hgid huser hhome htarget hcwd hos harch =>
    cases hinput : stripStart reference "input." with
    | some name =>
      obtain rfl := stripStart_eq_some_iff.mp hinput
      rw [interpolationValues_input]
      dsimp only
      cases context.inputs[name]? <;> rfl
    | none =>
      cases henv : stripStart reference "env." with
      | some name =>
        obtain rfl := stripStart_eq_some_iff.mp henv
        rw [interpolationValues_env]
        dsimp only
        cases context.runtime.env[name]? <;> rfl
      | none =>
        rw [interpolationValues_fixed (stripStart_eq_none_iff.mp hinput)
          (stripStart_eq_none_iff.mp henv), fixedValues_of_notMem]
        · rfl
        · simp only [fixedReferences, List.mem_cons, List.not_mem_nil, or_false, not_or]
          exact ⟨h, huid, hgid, huser, hhome, htarget, hcwd, hos, harch⟩
  all_goals
    rw [interpolationValues_fixed (by decide) (by decide)]
    exact (fixedValues_of_mem (by simp)).symm

/-! ## The parts of a condition -/

/-- One condition occurs in another. -/
inductive Occurs (part : Condition) : Condition → Prop where
  | whole : Occurs part part
  | all {parts other} : other ∈ parts → Occurs part other → Occurs part (.And parts)
  | any {parts other} : other ∈ parts → Occurs part other → Occurs part (.Or parts)
  | negation {other} : Occurs part other → Occurs part (.Not other)

theorem Occurs.trans {first second third : Condition} (h : Occurs first second)
    (h' : Occurs second third) : Occurs first third := by
  induction h' with
  | whole => exact h
  | all hmem _ ih => exact .all hmem ih
  | any hmem _ ih => exact .any hmem ih
  | negation _ ih => exact .negation ih

/-- The template is a path that the condition looks at. -/
def PathOf (template : PathTemplate) (condition : Condition) : Prop :=
  Occurs (.Exists template) condition ∨ Occurs (.Writable template) condition

/-- The value is one side of a comparison. -/
def Compared (value : ConditionValue) (condition : Condition) : Prop :=
  ∃ other, Occurs (.Equal value other) condition ∨ Occurs (.Equal other value) condition ∨
    Occurs (.NotEqual value other) condition ∨ Occurs (.NotEqual other value) condition

theorem PathOf.of_occurs {template : PathTemplate} {part condition : Condition}
    (h : PathOf template part) (hpart : Occurs part condition) : PathOf template condition :=
  h.imp (·.trans hpart) (·.trans hpart)

theorem Compared.of_occurs {value : ConditionValue} {part condition : Condition}
    (h : Compared value part) (hpart : Occurs part condition) : Compared value condition := by
  obtain ⟨other, h⟩ := h
  exact ⟨other, h.imp (·.trans hpart) (Or.imp (·.trans hpart)
    (Or.imp (·.trans hpart) (·.trans hpart)))⟩

/-- Every reference of a comparison is one that the parser accepts. -/
def References (condition : Condition) : Prop :=
  ∀ reference, Compared (.Reference reference) condition → isReference reference = true

theorem compared_and {value : ConditionValue} {parts : List Condition}
    (h : Compared value (.And parts)) : ∃ part ∈ parts, Compared value part := by
  obtain ⟨other, h | h | h | h⟩ := h <;> cases h with | @all _ part hmem h => _
  · exact ⟨part, hmem, other, Or.inl h⟩
  · exact ⟨part, hmem, other, Or.inr (Or.inl h)⟩
  · exact ⟨part, hmem, other, Or.inr (Or.inr (Or.inl h))⟩
  · exact ⟨part, hmem, other, Or.inr (Or.inr (Or.inr h))⟩

theorem compared_or {value : ConditionValue} {parts : List Condition}
    (h : Compared value (.Or parts)) : ∃ part ∈ parts, Compared value part := by
  obtain ⟨other, h | h | h | h⟩ := h <;> cases h with | @any _ part hmem h => _
  · exact ⟨part, hmem, other, Or.inl h⟩
  · exact ⟨part, hmem, other, Or.inr (Or.inl h)⟩
  · exact ⟨part, hmem, other, Or.inr (Or.inr (Or.inl h))⟩
  · exact ⟨part, hmem, other, Or.inr (Or.inr (Or.inr h))⟩

theorem compared_not {value : ConditionValue} {part : Condition}
    (h : Compared value (.Not part)) : Compared value part := by
  obtain ⟨other, h⟩ := h
  refine ⟨other, h.imp ?_ (Or.imp ?_ (Or.imp ?_ ?_))⟩ <;>
  · intro h
    cases h with | negation h => exact h

theorem compared_equal {value left right : ConditionValue}
    (h : Compared value (.Equal left right)) : value = left ∨ value = right := by
  obtain ⟨other, h | h | h | h⟩ := h <;> cases h
  · exact Or.inl rfl
  · exact Or.inr rfl

theorem compared_notEqual {value left right : ConditionValue}
    (h : Compared value (.NotEqual left right)) : value = left ∨ value = right := by
  obtain ⟨other, h | h | h | h⟩ := h <;> cases h
  · exact Or.inl rfl
  · exact Or.inr rfl

theorem isReference_of_parse {text : List Char} {reference : String}
    (h : ConditionValue.parse text = .ok (.Reference reference)) : isReference reference = true := by
  unfold ConditionValue.parse at h
  dsimp only at h
  split_ifs at h with _ _ _ _ _ _ hreference <;> cases h
  exact hreference

/-- An atom compares nothing. -/
theorem not_compared_of_atom {text : String} {condition : Condition}
    (h : parseAtom text = .ok condition) (value : ConditionValue) : ¬ Compared value condition := by
  unfold parseAtom at h
  split_ifs at h with halways hcreate htrue hfalse
  case neg =>
    obtain ⟨path, -, h⟩ := bind_ok_iff.mp h
    cases path with
    | some argument =>
      obtain ⟨template, -, h⟩ := bind_ok_iff.mp h
      cases h
      rintro ⟨other, h | h | h | h⟩ <;> cases h
    | none =>
      obtain ⟨path, -, h⟩ := bind_ok_iff.mp h
      cases path with
      | some argument =>
        obtain ⟨template, -, h⟩ := bind_ok_iff.mp h
        cases h
        rintro ⟨other, h | h | h | h⟩ <;> cases h
      | none =>
        obtain ⟨name, -, h⟩ := bind_ok_iff.mp h
        cases name with
        | some argument =>
          simp only [throw_eq, error_bind, ite_error_ok_iff, pure_ok_iff] at h
          obtain ⟨-, rfl⟩ := h
          rintro ⟨other, h | h | h | h⟩ <;> cases h
        | none =>
          dsimp only at h
          split at h
          · simp only [throw_eq, error_bind, ite_error_ok_iff, pure_ok_iff] at h
            obtain ⟨-, rfl⟩ := h
            rintro ⟨other, h | h | h | h⟩ <;> cases h
          · cases h
  all_goals
    cases h
    rintro ⟨other, h | h | h | h⟩ <;> cases h

mutual
/-- The comparisons of a parsed condition are with accepted references. -/
theorem references_of_shared : ∀ {expression : condition_expr.Expr} {condition : Condition},
    fromShared expression = .ok condition → References condition
  | .Atom text, condition, h => fun reference hcompared =>
    absurd hcompared (not_compared_of_atom h _)
  | .Equal left right, condition, h => by
    intro reference hcompared
    simp only [fromShared, bind_ok_iff, pure_ok_iff] at h
    obtain ⟨first, hfirst, second, hsecond, rfl⟩ := h
    rcases compared_equal hcompared with rfl | rfl
    · exact isReference_of_parse hfirst
    · exact isReference_of_parse hsecond
  | .NotEqual left right, condition, h => by
    intro reference hcompared
    simp only [fromShared, bind_ok_iff, pure_ok_iff] at h
    obtain ⟨first, hfirst, second, hsecond, rfl⟩ := h
    rcases compared_notEqual hcompared with rfl | rfl
    · exact isReference_of_parse hfirst
    · exact isReference_of_parse hsecond
  | .And children, condition, h => by
    intro reference hcompared
    simp only [fromShared, bind_ok_iff, pure_ok_iff] at h
    obtain ⟨parts, hparts, rfl⟩ := h
    obtain ⟨part, hmem, hpart⟩ := compared_and hcompared
    exact references_of_sharedAll hparts part hmem reference hpart
  | .Or children, condition, h => by
    intro reference hcompared
    simp only [fromShared, bind_ok_iff, pure_ok_iff] at h
    obtain ⟨parts, hparts, rfl⟩ := h
    obtain ⟨part, hmem, hpart⟩ := compared_or hcompared
    exact references_of_sharedAll hparts part hmem reference hpart
  | .Not child, condition, h => by
    intro reference hcompared
    simp only [fromShared, bind_ok_iff, pure_ok_iff] at h
    obtain ⟨part, hpart, rfl⟩ := h
    exact references_of_shared hpart reference (compared_not hcompared)

theorem references_of_sharedAll : ∀ {expressions : List condition_expr.Expr}
    {parts : List Condition}, fromShared.fromSharedAll expressions = .ok parts →
      ∀ part ∈ parts, References part
  | [], parts, h => by
    cases h
    intro part hmem
    cases hmem
  | child :: children, parts, h => by
    simp only [fromShared.fromSharedAll, bind_ok_iff, pure_ok_iff] at h
    obtain ⟨first, hfirst, rest, hrest, rfl⟩ := h
    intro part hmem
    rcases List.mem_cons.mp hmem with rfl | hmem
    · exact references_of_shared hfirst
    · exact references_of_sharedAll hrest part hmem
end

theorem references_of_parse {text : String} {condition : Condition}
    (h : Condition.parse text = .ok condition) : References condition := by
  unfold Condition.parse at h
  simp only [throw_eq, error_bind, ite_error_ok_iff] at h
  obtain ⟨-, h⟩ := h
  cases hparse : condition_expr.parse (trim text.toList) with
  | error error =>
    rw [hparse] at h
    cases h
  | ok expression =>
    rw [hparse] at h
    exact references_of_shared h

/-! ## The meaning of a condition -/

/-- The value of a side of a comparison, from the same values as the paths. -/
def denotes (context : ConditionContext) : ConditionValue → Option ComparableValue
  | .Literal text => some (.String text)
  | .Boolean value => some (.Bool value)
  | .Reference reference => (interpolationValues context)[reference]?.map .String

/-- The condition is true, with conjunction, disjunction and negation read as usual. -/
def Holds (context : ConditionContext) (files : FileView) : Condition → Prop
  | .Always | .ContextPathExistsOrCreate => True
  | .Boolean value => value = true
  | .Exists template => ∃ path,
      Rendered (interpolationValues context) template.text.toList path ∧
        files.pathExists (String.ofList path) = true
  | .Writable template => ∃ path,
      Rendered (interpolationValues context) template.text.toList path ∧
        files.isWritable (String.ofList path) = true
  | .InputSet name => name ∈ context.inputs
  | .Feature feature => feature ∈ context.runtime.features
  | .Equal left right => denotes context left = denotes context right
  | .NotEqual left right => denotes context left ≠ denotes context right
  | .And parts => ∀ part, (h : part ∈ parts) → Holds context files part
  | .Or parts => ∃ part, ∃ _ : part ∈ parts, Holds context files part
  | .Not part => ¬ Holds context files part

/-- The context has a value for all that the condition names, its paths are valid when rendered,
and no comparison is with the root of the workspace. -/
structure Supplied (context : ConditionContext) (condition : Condition) : Prop where
  paths : ∀ template, PathOf template condition → ∀ reference,
    Interpolates template.text.toList reference → Provided context reference
  valid : ∀ template, PathOf template condition → ∀ path,
    Rendered (interpolationValues context) template.text.toList path →
      validateRendered (String.ofList path) = .ok ()
  comparisons : ∀ reference, Compared (.Reference reference) condition →
    Provided context reference
  no_root : ¬ Compared (.Reference "bootstrap.workspace_root") condition

theorem Supplied.part {context : ConditionContext} {part condition : Condition}
    (h : Supplied context condition) (hpart : Occurs part condition) : Supplied context part where
  paths template hpath := h.paths template (hpath.of_occurs hpart)
  valid template hpath := h.valid template (hpath.of_occurs hpart)
  comparisons reference hcompared := h.comparisons reference (hcompared.of_occurs hpart)
  no_root hcompared := h.no_root (hcompared.of_occurs hpart)

theorem References.part {part condition : Condition} (h : References condition)
    (hpart : Occurs part condition) : References part :=
  fun reference hcompared => h reference (hcompared.of_occurs hpart)

/-! ## The evaluation has a value -/

variable {context : ConditionContext} {files : FileView} {condition : Condition}

theorem render_path {template : PathTemplate} (hs : Supplied context condition)
    (hpath : PathOf template condition) : ∃ path,
      Rendered (interpolationValues context) template.text.toList path ∧
        context.render template = .ok (String.ofList path) := by
  obtain ⟨path, hrendered⟩ := (interpolated_template template).rendered fun reference h =>
    interpolation_isSome h.choose_spec.choose_spec.2 (hs.paths template hpath reference h)
  have hexpanded := hrendered.expanded (Nat.le_of_eq (String.length_toList (s := template.text)))
  refine ⟨path, hrendered, ?_⟩
  simp [ConditionContext.render, PathTemplate.render, renderText, hexpanded,
    hs.valid template hpath path hrendered, bind, Except.bind, pure, Except.pure]

theorem value_denotes {value : ConditionValue} (hs : Supplied context condition)
    (hreferences : References condition) (hvalue : Compared value condition) :
    ∃ result, context.value value = .ok result ∧ denotes context value = some result := by
  cases value with
  | Literal text => exact ⟨.String text, rfl, rfl⟩
  | Boolean value => exact ⟨.Bool value, rfl, rfl⟩
  | Reference reference =>
    have hroot : reference ≠ "bootstrap.workspace_root" := by
      rintro rfl
      exact hs.no_root hvalue
    obtain ⟨result, hresult⟩ := Option.isSome_iff_exists.mp
      (interpolation_isSome (hreferences reference hvalue) (hs.comparisons reference hvalue))
    have hequal := (reference_eq_interpolation hroot).trans hresult
    refine ⟨.String result, ?_, by rw [denotes, hresult]; rfl⟩
    cases hreference : context.reference reference with
    | error error =>
      rw [hreference] at hequal
      cases hequal
    | ok value =>
      rw [hreference] at hequal
      cases hequal
      rw [ConditionContext.value, hreference]
      rfl

theorem evaluateAll_holds {parts : List Condition}
    (h : ∀ part ∈ parts, ∃ value, context.evaluate files part = .ok value ∧
      (value = true ↔ Holds context files part)) :
    ∃ value, ConditionContext.evaluate.evaluateAll context files parts = .ok value ∧
      (value = true ↔ ∀ part ∈ parts, Holds context files part) := by
  induction parts with
  | nil => exact ⟨true, rfl, by simp⟩
  | cons part parts ih =>
    obtain ⟨first, hfirst, hholds⟩ := h part List.mem_cons_self
    rw [ConditionContext.evaluate.evaluateAll, hfirst]
    cases first with
    | false =>
      refine ⟨false, rfl, ?_⟩
      simp only [Bool.false_eq_true, false_iff] at hholds ⊢
      exact fun hall => hholds (hall part List.mem_cons_self)
    | true =>
      obtain ⟨value, hvalue, hrest⟩ := ih fun other hmem => h other (List.mem_cons_of_mem _ hmem)
      refine ⟨value, hvalue, ?_⟩
      rw [hrest, List.forall_mem_cons]
      exact (and_iff_right (hholds.mp rfl)).symm

theorem evaluateAny_holds {parts : List Condition}
    (h : ∀ part ∈ parts, ∃ value, context.evaluate files part = .ok value ∧
      (value = true ↔ Holds context files part)) :
    ∃ value, ConditionContext.evaluate.evaluateAny context files parts = .ok value ∧
      (value = true ↔ ∃ part, ∃ _ : part ∈ parts, Holds context files part) := by
  induction parts with
  | nil => exact ⟨false, rfl, by simp⟩
  | cons part parts ih =>
    obtain ⟨first, hfirst, hholds⟩ := h part List.mem_cons_self
    rw [ConditionContext.evaluate.evaluateAny, hfirst]
    cases first with
    | true => exact ⟨true, rfl, fun _ => ⟨part, List.mem_cons_self, hholds.mp rfl⟩, fun _ => rfl⟩
    | false =>
      obtain ⟨value, hvalue, hrest⟩ := ih fun other hmem => h other (List.mem_cons_of_mem _ hmem)
      refine ⟨value, hvalue, ?_⟩
      rw [hrest]
      constructor
      · rintro ⟨other, hmem, hother⟩
        exact ⟨other, List.mem_cons_of_mem _ hmem, hother⟩
      · rintro ⟨other, hmem, hother⟩
        rcases List.mem_cons.mp hmem with rfl | hmem
        · exact absurd (hholds.mpr hother) Bool.false_ne_true
        · exact ⟨other, hmem, hother⟩

/-- The evaluation of a condition that is supplied: one case per form. -/
theorem evaluate_holds (hs : Supplied context condition) (hreferences : References condition) :
    ∃ value, context.evaluate files condition = .ok value ∧
      (value = true ↔ Holds context files condition) := by
  induction condition using condition_induction with
  | always => exact ⟨true, by simp [ConditionContext.evaluate], by simp [Holds]⟩
  | boolean value => exact ⟨value, by simp [ConditionContext.evaluate], by simp [Holds]⟩
  | pathExists => exact ⟨true, by simp [ConditionContext.evaluate], by simp [Holds]⟩
  | exist template =>
    obtain ⟨path, hrendered, hpath⟩ := render_path hs (Or.inl .whole)
    refine ⟨files.pathExists (String.ofList path), ?_, ?_⟩
    · rw [ConditionContext.evaluate, hpath]
      rfl
    · rw [Holds]
      constructor
      · intro h
        exact ⟨path, hrendered, h⟩
      · rintro ⟨other, hother, h⟩
        rwa [hrendered.unique hother]
  | writable template =>
    obtain ⟨path, hrendered, hpath⟩ := render_path hs (Or.inr .whole)
    refine ⟨files.isWritable (String.ofList path), ?_, ?_⟩
    · rw [ConditionContext.evaluate, hpath]
      rfl
    · rw [Holds]
      constructor
      · intro h
        exact ⟨path, hrendered, h⟩
      · rintro ⟨other, hother, h⟩
        rwa [hrendered.unique hother]
  | inputSet name =>
    refine ⟨context.inputs.contains name, by simp [ConditionContext.evaluate], ?_⟩
    rw [Holds, Std.ExtTreeMap.contains_iff_mem]
  | feature name =>
    refine ⟨context.runtime.features.contains name, by simp [ConditionContext.evaluate], ?_⟩
    rw [Holds, Std.ExtTreeSet.contains_iff_mem]
  | equal left right =>
    obtain ⟨first, hfirst, hleft⟩ := value_denotes hs hreferences ⟨right, Or.inl .whole⟩
    obtain ⟨second, hsecond, hright⟩ :=
      value_denotes hs hreferences ⟨left, Or.inr (Or.inl .whole)⟩
    refine ⟨decide (first = second), ?_, ?_⟩
    · rw [ConditionContext.evaluate, hfirst, hsecond]
      rfl
    · rw [Holds, hleft, hright, Option.some_inj, decide_eq_true_iff]
  | notEqual left right =>
    obtain ⟨first, hfirst, hleft⟩ :=
      value_denotes hs hreferences ⟨right, Or.inr (Or.inr (Or.inl .whole))⟩
    obtain ⟨second, hsecond, hright⟩ :=
      value_denotes hs hreferences ⟨left, Or.inr (Or.inr (Or.inr .whole))⟩
    refine ⟨decide (first ≠ second), ?_, ?_⟩
    · rw [ConditionContext.evaluate, hfirst, hsecond]
      rfl
    · simp only [Holds, hleft, hright, ne_eq, Option.some_inj, decide_eq_true_iff]
  | all parts ih =>
    have hparts : ∀ part ∈ parts, ∃ value, context.evaluate files part = .ok value ∧
        (value = true ↔ Holds context files part) := fun part hmem =>
      ih part hmem (hs.part (.all hmem .whole)) (hreferences.part (.all hmem .whole))
    rw [ConditionContext.evaluate, Holds]
    exact evaluateAll_holds hparts
  | any parts ih =>
    have hparts : ∀ part ∈ parts, ∃ value, context.evaluate files part = .ok value ∧
        (value = true ↔ Holds context files part) := fun part hmem =>
      ih part hmem (hs.part (.any hmem .whole)) (hreferences.part (.any hmem .whole))
    rw [ConditionContext.evaluate, Holds]
    exact evaluateAny_holds hparts
  | negation part ih =>
    obtain ⟨value, hvalue, hholds⟩ :=
      ih (hs.part (.negation .whole)) (hreferences.part (.negation .whole))
    refine ⟨!value, ?_, ?_⟩
    · rw [ConditionContext.evaluate, hvalue]
      rfl
    · rw [Holds, ← hholds, Bool.not_eq_true', Bool.not_eq_true]

/-- A condition that the parser accepts has a value wherever what it names is provided, and the
value is the truth of the condition. -/
theorem accepted_condition_has_its_value {text : String} (h : Condition.parse text = .ok condition)
    (hs : Supplied context condition) : ∃ value, context.evaluate files condition = .ok value ∧
      (value = true ↔ Holds context files condition) :=
  evaluate_holds hs (references_of_parse h)

/-- The parser accepts a comparison with a value of the environment DSL, which the evaluation does
not have in any context. -/
theorem config_comparison_has_no_value :
    Condition.parse "config.x == 'a'" = .ok (.Equal (.Reference "config.x") (.Literal "a")) ∧
      ∀ context files, ConditionContext.evaluate context files
        (.Equal (.Reference "config.x") (.Literal "a")) = .error (ConditionContext.invalid
          "reference \"config.x\" cannot be evaluated by container-init") := by
  refine ⟨rfl, fun context files => ?_⟩
  rfl

/-! ## A condition with a path and a comparison -/

def rootedPath : PathTemplate := ⟨"${env.ROOT}/a", by decide +kernel⟩

def rootedCondition : Condition :=
  .And [.Exists rootedPath, .NotEqual (.Reference "env.USER") (.Literal "root")]

def rootedContext : ConditionContext where
  platform := ⟨"linux", "x86_64"⟩
  identity := { uid := 1000, gid := 1000, user := "vscode", home := "/home/vscode",
                run_as_root := false, uid_source := .ProfileDefault, gid_source := .ProfileDefault,
                workspace := .Mounted }
  inputs := ∅
  runtime := { cwd := "/workspace"
               env := ((∅ : Std.ExtTreeMap String String).insert "ROOT" "/data").insert
                 "USER" "vscode" }
  workspace_root := "/workspace"

theorem rooted_parsed :
    Condition.parse "exists(${env.ROOT}/a) && env.USER != 'root'" = .ok rootedCondition := by
  rfl

theorem provided_env {context : ConditionContext} (name : String)
    (h : context.runtime.env.contains name = true) : Provided context ("env." ++ name) where
  input other heq := by simp [← String.toList_inj] at heq
  env other heq := by
    obtain rfl := append_injective "env." heq
    exact h
  not_config := by simp [startsWith, List.isPrefixOf]

theorem rooted_interpolates {reference : String}
    (h : Interpolates rootedPath.text.toList reference) : reference = "env.ROOT" := by
  obtain ⟨before, after, htext, -⟩ := h
  have hroot : rootedPath.text.toList =
      '$' :: '\x7b' :: "env.ROOT".toList ++ '\x7d' :: "/a".toList := rfl
  rw [hroot] at htext
  cases before with
  | cons c before =>
    have hrest : '\x7b' :: "env.ROOT".toList ++ '\x7d' :: "/a".toList =
        before ++ '$' :: '\x7b' :: reference.toList ++ '\x7d' :: after := (List.cons.inj htext).2
    have hmem : '$' ∈ '\x7b' :: "env.ROOT".toList ++ '\x7d' :: "/a".toList := by
      rw [hrest]
      simp
    exact absurd hmem (by decide)
  | nil =>
    have hrest : "env.ROOT".toList ++ '\x7d' :: "/a".toList =
        reference.toList ++ '\x7d' :: after := (List.cons.inj (List.cons.inj htext).2).2
    have hcount := congrArg (List.count '\x7d') hrest
    have hname : '\x7d' ∉ reference.toList := by
      rw [← List.count_eq_zero]
      simp at hcount
      omega
    have hcut := congrArg (splitOnce ['\x7d']) hrest
    rw [splitOnce_char hname, splitOnce_char (by decide)] at hcut
    exact String.toList_inj.mp (Prod.ext_iff.mp (Option.some.inj hcut)).1.symm

theorem rooted_rendered :
    Rendered (interpolationValues rootedContext) rootedPath.text.toList "/data/a".toList := by
  have hvalue : (interpolationValues rootedContext)[String.ofList "env.ROOT".toList]? =
      some "/data" := by
    show (interpolationValues rootedContext)["env." ++ "ROOT"]? = some "/data"
    rw [interpolationValues_env]
    decide +kernel
  have hrest : Rendered (interpolationValues rootedContext) "/a".toList "/a".toList :=
    .plain (by decide) (.plain (by decide) .nil)
  exact Rendered.reference (by decide) hvalue hrest

theorem rooted_supplied : Supplied rootedContext rootedCondition := by
  have hpath : ∀ template, PathOf template rootedCondition → template = rootedPath := by
    rintro template (h | h) <;> cases h with | all hmem h => _ <;>
      simp only [List.mem_cons, List.not_mem_nil, or_false] at hmem <;>
      rcases hmem with rfl | rfl <;> cases h
    rfl
  have hcompared : ∀ reference, Compared (.Reference reference) rootedCondition →
      reference = "env.USER" := by
    intro reference h
    obtain ⟨part, hmem, h⟩ := compared_and h
    simp only [List.mem_cons, List.not_mem_nil, or_false] at hmem
    rcases hmem with rfl | rfl
    · obtain ⟨other, h | h | h | h⟩ := h <;> cases h
    · rcases compared_notEqual h with h | h
      · exact ConditionValue.Reference.inj h
      · cases h
  refine ⟨?_, ?_, ?_, ?_⟩
  · rintro template htemplate reference h
    obtain rfl := hpath template htemplate
    obtain rfl := rooted_interpolates h
    exact provided_env "ROOT" (by decide +kernel)
  · rintro template htemplate path h
    obtain rfl := hpath template htemplate
    obtain rfl := rooted_rendered.unique h
    rfl
  · rintro reference h
    obtain rfl := hcompared reference h
    exact provided_env "USER" (by decide +kernel)
  · intro h
    exact absurd (hcompared _ h) (by decide)

theorem accepted_condition_has_its_value_rooted :
    ∃ value, rootedContext.evaluate ⟨fun path => path = "/data/a", fun _ => false⟩
        rootedCondition = .ok value ∧
      (value = true ↔
        Holds rootedContext ⟨fun path => path = "/data/a", fun _ => false⟩ rootedCondition) :=
  accepted_condition_has_its_value rooted_parsed rooted_supplied

end init_core
