-- What a profile declares at each sequence of keys: its sections are apart, and above each value
-- are tables.
import NixosDockers.DevEnvLoader.Ownership
import NixosDockers.Lib.Shapes

open rust_text results documents agreement unions dev_env_model

namespace dev_env_loader

/-! ## Values that agree -/

theorem floatEq_symm {a b : UInt64} (h : floatEq a b = true) : floatEq b a = true := by
  unfold floatEq at h ⊢
  simp only [Bool.and_eq_true, Bool.or_eq_true, decide_eq_true_eq] at h ⊢
  exact ⟨⟨h.1.2, h.1.1⟩, h.2.imp Eq.symm fun hzero => ⟨hzero.2, hzero.1⟩⟩

theorem floatEq_trans {a b c : UInt64} (hab : floatEq a b = true) (hbc : floatEq b c = true) :
    floatEq a c = true := by
  unfold floatEq at hab hbc ⊢
  simp only [Bool.and_eq_true, Bool.or_eq_true, decide_eq_true_eq] at hab hbc ⊢
  refine ⟨⟨hab.1.1, hbc.1.2⟩, ?_⟩
  rcases hab.2 with rfl | hzero
  · exact hbc.2
  · rcases hbc.2 with rfl | hzero'
    · exact .inr hzero
    · exact .inr ⟨hzero.1, hzero'.2⟩

theorem TomlScalar.same_iff (a b : TomlScalar) : TomlScalar.same a b = true ↔
    (∃ bits bits', a = .Float bits ∧ b = .Float bits' ∧ floatEq bits bits' = true) ∨
      a = b ∧ ∀ bits, a ≠ .Float bits := by
  cases a <;> cases b <;> simp [TomlScalar.same]

theorem TomlScalar.same_symm (a b : TomlScalar) (h : TomlScalar.same a b = true) :
    TomlScalar.same b a = true := by
  rw [TomlScalar.same_iff] at h ⊢
  rcases h with ⟨bits, bits', rfl, rfl, heq⟩ | ⟨rfl, hother⟩
  · exact .inl ⟨bits', bits, rfl, rfl, floatEq_symm heq⟩
  · exact .inr ⟨rfl, hother⟩

theorem TomlScalar.same_trans (a b c : TomlScalar) (hab : TomlScalar.same a b = true)
    (hbc : TomlScalar.same b c = true) : TomlScalar.same a c = true := by
  rw [TomlScalar.same_iff] at hab hbc ⊢
  rcases hab with ⟨bits, bits', rfl, rfl, heq⟩ | ⟨rfl, hother⟩
  · rcases hbc with ⟨first, last, hfirst, rfl, heq'⟩ | ⟨rfl, hother⟩
    · obtain rfl := TomlScalar.Float.inj hfirst
      exact .inl ⟨bits, last, rfl, rfl, floatEq_trans heq heq'⟩
    · exact absurd rfl (hother bits')
  · exact hbc

/-- Two shapes agree when both are tables, or equal values. -/
abbrev ShapesAgree : Shape String TomlScalar → Shape String TomlScalar → Prop :=
  Shape.Same TomlScalar.same

instance : Std.Symm ShapesAgree := Shape.same_symm TomlScalar.same_symm

instance : IsTrans (Shape String TomlScalar) ShapesAgree := Shape.same_trans TomlScalar.same_trans

/-- A value that equals one that is there is no table, when not both are. -/
theorem leaf_of_same {existing value : Value} (hsame : Value.same existing value = true)
    (hshape : ∀ entries table, value = .Table table → existing = .Table entries → False) :
    value.IsLeaf := by
  cases value with
  | Table table =>
    cases existing with
    | Table entries => exact absurd rfl fun h => hshape entries table rfl h
    | Scalar => cases hsame
    | Array => cases hsame
  | Scalar => trivial
  | Array => trivial

/-- The same, or equal values of another form: `0.0` and `-0.0`. -/
def Stands (shape declared : Shape String TomlScalar) : Prop :=
  shape = declared ∨ ShapesAgree shape declared

theorem Stands.symm {shape declared : Shape String TomlScalar} (h : Stands shape declared) :
    Stands declared shape :=
  h.imp Eq.symm (Std.Symm.symm _ _)

theorem Stands.table {shape : Shape String TomlScalar} (h : Stands shape .Table) :
    shape = .Table := by
  rcases h with rfl | h
  · rfl
  · cases shape with
    | Table => rfl
    | Leaf => exact absurd h id

theorem nodup_of_ordered {table : Table} (h : Ordered (.Table table)) :
    (Entries.keys table).Nodup := by
  induction table with
  | nil => exact List.nodup_nil
  | cons entry rest ih =>
    exact List.nodup_cons.mpr ⟨not_mem_keys_of_ordered h, ih (ordered_tail h)⟩

/-! ## Strict policies -/

/-- A field of a policy that can be read, and asks for no other merge. -/
def FieldRead (name : String) (value : Value) : Prop :=
  name = "merge" ∧ MergePolicy.ofValue value = some .Strict ∨
  name = "workspace_can_override" ∧ (textsOfValue value).isSome = true ∨
  name = "cli_can_override" ∧ (textsOfValue value).isSome = true ∨
  name = "unknown_input" ∧ (UnknownInputPolicy.ofValue value).isSome = true ∨
  name = "untrusted_workspace" ∧ (UntrustedWorkspacePolicy.ofValue value).isSome = true

theorem FieldRead.isLeaf {name : String} {value : Value} (h : FieldRead name value) :
    value.shape = .Leaf value := by
  cases value with
  | Table table => 
    rcases h with ⟨-, h⟩ | ⟨-, h⟩ | ⟨-, h⟩ | ⟨-, h⟩ | ⟨-, h⟩ <;> cases h
  | Scalar => rfl
  | Array => rfl

theorem fieldOr_isSome {α : Type} {table : Table} {name : String} {read : Value → Option α}
    {default : α} (h : ∀ value, table.get name = some value → (read value).isSome = true) :
    ∃ a, fieldOr table name read default = some a := by
  unfold fieldOr
  cases hget : table.get name with
  | none => exact ⟨default, rfl⟩
  | some value => exact Option.isSome_iff_exists.mp (h value hget)

/-- A policy is read and strict when all its fields are. -/
theorem ofTable_strict_iff {table : Table} :
    (∃ policy, PolicyConfig.ofTable table = some policy ∧ policy.merge = .Strict) ↔
      ∀ name value, table.get name = some value → FieldRead name value := by
  constructor
  · rintro ⟨policy, h, hstrict⟩ name value hget
    unfold PolicyConfig.ofTable at h
    obtain ⟨_, hguard, h⟩ := Option.bind_eq_some_iff.mp h
    obtain ⟨merge, hmerge, h⟩ := Option.bind_eq_some_iff.mp h
    obtain ⟨workspace, hworkspace, h⟩ := Option.bind_eq_some_iff.mp h
    obtain ⟨cli, hcli, h⟩ := Option.bind_eq_some_iff.mp h
    obtain ⟨unknown, hunknown, h⟩ := Option.bind_eq_some_iff.mp h
    obtain ⟨untrusted, huntrusted, h⟩ := Option.bind_eq_some_iff.mp h
    obtain rfl := Option.some.inj h
    have hknown : name ∈ policyFields := by
      have hall : table.keys.all (· ∈ policyFields) = true := by
        by_contra hnot
        rw [guard, if_neg hnot] at hguard
        cases hguard
      exact of_decide_eq_true
        (List.all_eq_true.mp hall name (Entries.mem_keys_iff.mpr ⟨value, hget⟩))
    unfold fieldOr at hmerge hworkspace hcli hunknown huntrusted
    simp only [policyFields, List.mem_cons, List.not_mem_nil, or_false] at hknown
    rcases hknown with rfl | rfl | rfl | rfl | rfl
    · rw [hget] at hmerge
      exact .inl ⟨rfl, hmerge.trans (congrArg some hstrict)⟩
    · rw [hget] at hworkspace
      exact .inr (.inl ⟨rfl, Option.isSome_iff_exists.mpr ⟨_, hworkspace⟩⟩)
    · rw [hget] at hcli
      exact .inr (.inr (.inl ⟨rfl, Option.isSome_iff_exists.mpr ⟨_, hcli⟩⟩))
    · rw [hget] at hunknown
      exact .inr (.inr (.inr (.inl ⟨rfl, Option.isSome_iff_exists.mpr ⟨_, hunknown⟩⟩)))
    · rw [hget] at huntrusted
      exact .inr (.inr (.inr (.inr ⟨rfl, Option.isSome_iff_exists.mpr ⟨_, huntrusted⟩⟩)))
  · intro h
    have hall : table.keys.all (· ∈ policyFields) = true := by
      refine List.all_eq_true.mpr fun name hname => decide_eq_true ?_
      obtain ⟨value, hvalue⟩ := Entries.mem_keys_iff.mp hname
      rcases h name value hvalue with
        ⟨rfl, -⟩ | ⟨rfl, -⟩ | ⟨rfl, -⟩ | ⟨rfl, -⟩ | ⟨rfl, -⟩ <;> decide
    have hmerge : fieldOr table "merge" MergePolicy.ofValue .Strict = some .Strict := by
      unfold fieldOr
      cases hget : table.get "merge" with
      | none => rfl
      | some value => simpa [FieldRead] using h "merge" value hget
    obtain ⟨workspace, hworkspace⟩ := @fieldOr_isSome _ table "workspace_can_override"
      textsOfValue [] fun value hget => by simpa [FieldRead] using h _ value hget
    obtain ⟨cli, hcli⟩ := @fieldOr_isSome _ table "cli_can_override" textsOfValue []
      fun value hget => by simpa [FieldRead] using h _ value hget
    obtain ⟨unknown, hunknown⟩ := @fieldOr_isSome _ table "unknown_input" UnknownInputPolicy.ofValue
      .Error fun value hget => by simpa [FieldRead] using h _ value hget
    obtain ⟨untrusted, huntrusted⟩ := @fieldOr_isSome _ table "untrusted_workspace"
      UntrustedWorkspacePolicy.ofValue .Prompt fun value hget => by
        simpa [FieldRead] using h _ value hget
    refine ⟨⟨.Strict, workspace, cli, unknown, untrusted⟩, ?_, rfl⟩
    unfold PolicyConfig.ofTable
    rw [guard, if_pos hall, hmerge, hworkspace, hcli, hunknown, huntrusted]
    rfl

/-- What stands below `policy` is read as a strict policy. -/
structure StrictPolicy (there : List String → Option (Shape String TomlScalar)) : Prop where
  table : ∀ doc, there ["policy"] ≠ some (.Leaf doc)
  fields : ∀ name shape, there ["policy", name] = some shape →
    ∃ value, shape = .Leaf value ∧ FieldRead name value

theorem StrictPolicy.together {l : List (List String → Option (Shape String TomlScalar))}
    (h : ∀ f ∈ l, StrictPolicy f) : StrictPolicy (unions.together l) where
  table := fun doc hdoc => by
    obtain ⟨f, hf, hsome⟩ := together_eq_some hdoc
    exact (h f hf).table doc hsome
  fields := fun name shape hshape => by
    obtain ⟨f, hf, hsome⟩ := together_eq_some hshape
    exact (h f hf).fields name shape hsome

/-! ## Profiles -/

/-- The sections of a profile, in the order in which they are merged, and where their entries go. -/
def sectionFronts : List (String × List String) :=
  [("policy", ["policy"]), ("config", []), ("inputs", ["inputs"])]

theorem policyIn : ("policy", ["policy"]) ∈ sectionFronts := List.mem_cons_self

theorem configIn : ("config", []) ∈ sectionFronts := List.mem_cons_of_mem _ List.mem_cons_self

theorem inputsIn : ("inputs", ["inputs"]) ∈ sectionFronts :=
  List.mem_cons_of_mem _ (List.mem_cons_of_mem _ List.mem_cons_self)

/-- What the entries of a section bring with them. -/
def RawProfile.sectionMaps (profile : RawProfile) (name : String) (front : List String) :
    List (List String → Option (Shape String TomlScalar)) :=
  match profile.table name with
  | some table => Doc.placedEntries front table
  | none => []

def RawProfile.maps (profile : RawProfile) :
    List (List String → Option (Shape String TomlScalar)) :=
  sectionFronts.flatMap fun part => profile.sectionMaps part.1 part.2

/-- What a profile declares at each sequence of keys: the entries of `config` at their own keys, and
those of `inputs` and `policy` below these. A section without entries declares nothing. -/
def RawProfile.declared (profile : RawProfile) :
    List String → Option (Shape String TomlScalar) :=
  together profile.maps

/-- A trusted profile without overrides that keeps to the strict policy. -/
structure Plain (profile : RawProfile) (source : ProfileSource) : Prop where
  trusted : source.source.isTrusted = true
  no_overrides : profile.overrides = ∅
  strict : ∀ table, profile.table "policy" = some table →
    ∃ policy, PolicyConfig.ofTable table = some policy ∧ policy.merge = .Strict
  ordered : Ordered (.Table profile.root)

theorem placed_nil {first : String} {rest : List String} {value : Value} :
    Doc.placed (first :: rest) value [] = none := by
  rw [Doc.placed_apart fun hinit => List.cons_ne_nil _ _ (List.prefix_nil.mp hinit)]
  exact if_neg fun habove => habove.2 rfl

theorem placed_head_ne {first second : String} {rest rest' : List String} {value : Value}
    (h : first ≠ second) : Doc.placed (first :: rest) value (second :: rest') = none := by
  rw [Doc.placed_apart fun hinit => h (List.cons_prefix_cons.mp hinit).1]
  exact if_neg fun hinit => h (List.cons_prefix_cons.mp hinit.1).1.symm

/-- The first key of an entry says of which section it is. -/
def HeadOf (name first : String) : Prop :=
  name = "policy" ∧ first = "policy" ∨ name = "config" ∧ first ∈ configFields ∨
    name = "inputs" ∧ first = "inputs"

theorem HeadOf.ne {name name' first first' : String} (h : HeadOf name first)
    (h' : HeadOf name' first') (hne : name ≠ name') : first ≠ first' := by
  have hpolicy : "policy" ∉ configFields := by decide
  have hinputs : "inputs" ∉ configFields := by decide
  rintro rfl
  rcases h with ⟨rfl, rfl⟩ | ⟨rfl, hmem⟩ | ⟨rfl, rfl⟩
  · rcases h' with ⟨rfl, -⟩ | ⟨-, hmem⟩ | ⟨-, heq⟩
    · exact hne rfl
    · exact hpolicy hmem
    · exact absurd heq (by decide)
  · rcases h' with ⟨-, rfl⟩ | ⟨rfl, -⟩ | ⟨-, rfl⟩
    · exact hpolicy hmem
    · exact hne rfl
    · exact hinputs hmem
  · rcases h' with ⟨-, heq⟩ | ⟨-, hmem⟩ | ⟨rfl, -⟩
    · exact absurd heq (by decide)
    · exact hinputs hmem
    · exact hne rfl

theorem HeadOf.undotted {name first : String} (h : HeadOf name first) : '.' ∉ first.toList := by
  have hknown : ∀ key ∈ configFields, '.' ∉ key.toList := by decide
  rcases h with ⟨-, rfl⟩ | ⟨-, hfirst⟩ | ⟨-, rfl⟩
  · decide
  · exact hknown first hfirst
  · decide

section

variable {profile : RawProfile} {source : ProfileSource} {name : String} {table : Table}

theorem Plain.section_ordered (h : Plain profile source)
    (htable : profile.table name = some table) : Ordered (.Table table) :=
  ordered_of_mem h.ordered (Entries.mem_of_get (MergedConfig.table_some htable))

theorem config_fields (htable : profile.table "config" = some table) :
    ∀ key ∈ Entries.keys table, key ∈ configFields := by
  obtain ⟨table', htable', hfields⟩ := profile.config_known _ (MergedConfig.table_some htable)
  obtain rfl := Doc.Table.inj htable'
  exact hfields

theorem input_names (htable : profile.table "inputs" = some table) :
    ∀ key ∈ Entries.keys table, isEnvName key := by
  obtain ⟨table', htable', hnames⟩ := profile.inputs_named _ (MergedConfig.table_some htable)
  obtain rfl := Doc.Table.inj htable'
  exact hnames

theorem Plain.policy_fields (h : Plain profile source)
    (htable : profile.table "policy" = some table) (key : String) (value : Value)
    (hentry : (key, value) ∈ table) : FieldRead key value :=
  ofTable_strict_iff.mp (h.strict table htable) key value
    (get_of_mem (h.section_ordered htable) hentry)

theorem head_of_entry {front : List String} (hsection : (name, front) ∈ sectionFronts)
    (htable : profile.table name = some table) {key : String} (hkey : key ∈ Entries.keys table) :
    ∃ first rest, front ++ [key] = first :: rest ∧ HeadOf name first := by
  simp only [sectionFronts, List.mem_cons, List.not_mem_nil, or_false, Prod.mk.injEq] at hsection
  rcases hsection with ⟨rfl, rfl⟩ | ⟨rfl, rfl⟩ | ⟨rfl, rfl⟩
  · exact ⟨"policy", [key], rfl, .inl ⟨rfl, rfl⟩⟩
  · exact ⟨key, [], rfl, .inr (.inl ⟨rfl, config_fields htable key hkey⟩)⟩
  · exact ⟨"inputs", [key], rfl, .inr (.inr ⟨rfl, rfl⟩)⟩

/-- What the entries of one section bring is not at the entries of another one. -/
theorem sections_apart {name' : String} {front front' : List String} {table' : Table}
    (hsection : (name, front) ∈ sectionFronts) (hsection' : (name', front') ∈ sectionFronts)
    (hne : name ≠ name') (htable : profile.table name = some table)
    (htable' : profile.table name' = some table') {key : String} (hkey : key ∈ Entries.keys table')
    (below : List String) :
    together (Doc.placedEntries front table) (front' ++ [key] ++ below) = none := by
  refine together_eq_none fun f hf => ?_
  obtain ⟨entry, hentry, rfl⟩ := List.mem_map.mp hf
  obtain ⟨first, rest, hfront, hfirst⟩ := head_of_entry hsection htable
    (List.mem_map.mpr ⟨entry, hentry, rfl⟩)
  obtain ⟨first', rest', hfront', hfirst'⟩ := head_of_entry hsection' htable' hkey
  rw [hfront, hfront', List.cons_append]
  exact placed_head_ne (hfirst.ne hfirst' hne)

theorem Plain.maps_strict (h : Plain profile source) : ∀ f ∈ profile.maps, StrictPolicy f := by
  intro f hf
  obtain ⟨⟨name, front⟩, hsection, hf⟩ := List.mem_flatMap.mp hf
  unfold RawProfile.sectionMaps at hf
  dsimp only at hf
  cases htable : profile.table name with
  | none =>
    rw [htable] at hf
    cases hf
  | some table =>
    rw [htable] at hf
    obtain ⟨⟨key, value⟩, hentry, rfl⟩ := List.mem_map.mp hf
    obtain ⟨first, rest, hfront, hfirst⟩ := head_of_entry hsection htable
      (List.mem_map.mpr ⟨_, hentry, rfl⟩)
    dsimp only at hfront ⊢
    by_cases hpolicy : first = "policy"
    · obtain ⟨rfl, -⟩ := hfirst.resolve_right (by
        rintro (⟨-, hmem⟩ | ⟨-, heq⟩)
        · rw [hpolicy] at hmem
          exact absurd hmem (by decide)
        · rw [heq] at hpolicy
          exact absurd hpolicy (by decide))
      have hfronts : front = ["policy"] := by
        simp only [sectionFronts, List.mem_cons, List.not_mem_nil, or_false,
          Prod.mk.injEq] at hsection
        rcases hsection with ⟨-, rfl⟩ | ⟨heq, -⟩ | ⟨heq, -⟩
        · rfl
        · exact absurd heq (by decide)
        · exact absurd heq (by decide)
      subst hfronts
      have hread := h.policy_fields htable key value hentry
      refine ⟨fun doc hdoc => ?_, fun name shape hshape => ?_⟩
      · rw [Doc.placed_entry_above List.prefix_rfl (by simp)] at hdoc
        cases hdoc
      · have hbelow : Doc.placed (["policy"] ++ [key]) value ["policy", name] =
            if name = key then (Doc.reach [] (some value)).map Doc.shape else none :=
          Doc.placed_entry_below
        rw [hbelow] at hshape
        split_ifs at hshape with hname
        subst hname
        refine ⟨value, ?_, hread⟩
        exact (Option.some.inj hshape).symm.trans hread.isLeaf
    · rw [hfront]
      refine ⟨fun doc hdoc => ?_, fun name shape hshape => ?_⟩
      · rw [placed_head_ne hpolicy] at hdoc
        cases hdoc
      · rw [placed_head_ne hpolicy] at hshape
        cases hshape

theorem not_dot_of_envName {name : String} (h : isEnvName name = true) : '.' ∉ name.toList := by
  intro hdot
  unfold isEnvName at h
  cases hname : name.toList with
  | nil =>
    rw [hname] at hdot
    cases hdot
  | cons first rest =>
    rw [hname] at h hdot
    simp only [Bool.and_eq_true, List.all_eq_true] at h
    rcases List.mem_cons.mp hdot with rfl | hrest
    · exact absurd h.1 (by decide)
    · exact absurd (h.2 _ hrest) (by decide)

/-- No entry of a section has a dot in its name. -/
theorem Plain.entry_undotted (h : Plain profile source) {front : List String}
    (hsection : (name, front) ∈ sectionFronts) (htable : profile.table name = some table) :
    ∀ key ∈ Entries.keys table, '.' ∉ key.toList := by
  intro key hkey
  simp only [sectionFronts, List.mem_cons, List.not_mem_nil, or_false, Prod.mk.injEq] at hsection
  rcases hsection with ⟨rfl, -⟩ | ⟨rfl, -⟩ | ⟨rfl, -⟩
  · obtain ⟨⟨name, value⟩, hentry, rfl⟩ := List.mem_map.mp hkey
    change '.' ∉ name.toList
    rcases h.policy_fields htable name value hentry with
      ⟨rfl, -⟩ | ⟨rfl, -⟩ | ⟨rfl, -⟩ | ⟨rfl, -⟩ | ⟨rfl, -⟩ <;> decide
  · exact HeadOf.undotted (.inr (.inl ⟨rfl, config_fields htable key hkey⟩))
  · exact not_dot_of_envName (input_names htable key hkey)

end

/-! ### What stands at some keys -/

namespace RawProfile

variable {profile other : RawProfile} {source : ProfileSource} {name : String}
  {front : List String} {table : Table}

theorem sectionMaps_eq (htable : profile.table name = some table) :
    profile.sectionMaps name front = Doc.placedEntries front table := by
  unfold sectionMaps
  rw [htable]

/-- At an entry of a section and below it, a profile declares what the entry holds. -/
theorem declared_entry (hplain : Plain profile source) (hsection : (name, front) ∈ sectionFronts)
    (htable : profile.table name = some table) {entry : String × Value} (hentry : entry ∈ table)
    (below : List String) :
    profile.declared (front ++ [entry.1] ++ below) =
      (Doc.reach below (some entry.2)).map Doc.shape := by
  have hunique : ∀ part ∈ sectionFronts, ∀ part' ∈ sectionFronts,
      part.1 = part'.1 → part = part' := by
    decide
  have hordered := hplain.section_ordered htable
  have hown : together (profile.sectionMaps name front) (front ++ [entry.1] ++ below) =
      (Doc.reach below (some entry.2)).map Doc.shape := by
    rw [sectionMaps_eq htable, List.append_assoc, List.singleton_append,
      Doc.together_entries_below (nodup_of_ordered hordered), get_of_mem hordered hentry]
  unfold declared maps
  rw [together_flatMap, ← hown]
  refine together_eq_of_apart (List.mem_map.mpr ⟨_, hsection, rfl⟩) fun g hg hne => ?_
  obtain ⟨⟨name', front'⟩, hsection', rfl⟩ := List.mem_map.mp hg
  have hnames : name' ≠ name := by
    rintro rfl
    exact hne (by rw [hunique _ hsection' _ hsection rfl])
  change together (profile.sectionMaps name' front') _ = none
  unfold sectionMaps
  cases htable' : profile.table name' with
  | none => rfl
  | some table' =>
    exact sections_apart hsection' hsection hnames htable' htable
      (List.mem_map.mpr ⟨entry, hentry, rfl⟩) below

theorem head_of_map {part : String × List String} (hpart : part ∈ sectionFronts)
    {f : List String → Option (Shape String TomlScalar)}
    (hf : f ∈ profile.sectionMaps part.1 part.2) :
    ∃ first rest value, f = Doc.placed (first :: rest) value ∧ HeadOf part.1 first := by
  unfold sectionMaps at hf
  cases htable : profile.table part.1 with
  | none =>
    rw [htable] at hf
    cases hf
  | some table =>
    rw [htable] at hf
    obtain ⟨entry, hentry, rfl⟩ := List.mem_map.mp hf
    obtain ⟨first, rest, hfront, hfirst⟩ := head_of_entry hpart htable
      (List.mem_map.mpr ⟨entry, hentry, rfl⟩)
    exact ⟨first, rest, entry.2, by rw [hfront], hfirst⟩

/-- The maps of a profile fit each other. -/
theorem maps_fit (hplain : Plain profile source) : profile.maps.Pairwise (Fits ShapesAgree) := by
  refine List.pairwise_flatMap.mpr ⟨fun part _ => ?_, ?_⟩
  · unfold sectionMaps
    cases htable : profile.table part.1 with
    | none => exact List.Pairwise.nil
    | some table =>
      exact (List.pairwise_cons.mp
        (Doc.entries_fit (nodup_of_ordered (hplain.section_ordered htable)))).2
  · have hnames : sectionFronts.Pairwise fun part part' => part.1 ≠ part'.1 := by decide
    refine hnames.imp_of_mem fun {part part'} hpart hpart' hne f hf g hg => ?_
    obtain ⟨first, rest, value, rfl, hfirst⟩ := head_of_map hpart hf
    obtain ⟨first', rest', value', rfl, hfirst'⟩ := head_of_map hpart' hg
    intro keys a b ha hb
    cases keys with
    | nil => cases placed_nil.symm.trans ha
    | cons key below =>
      by_cases hkey : first = key
      · subst hkey
        cases (placed_head_ne (hfirst.ne hfirst' hne).symm).symm.trans hb
      · cases (placed_head_ne hkey).symm.trans ha

/-- Two profiles fit each other when each map of the one fits each map of the other. -/
theorem declared_fit_iff {other : RawProfile} {source' : ProfileSource}
    (hplain : Plain profile source) (hplain' : Plain other source') :
    Fits ShapesAgree profile.declared other.declared ↔
      ∀ f ∈ profile.maps, ∀ g ∈ other.maps, Fits ShapesAgree f g := by
  unfold declared
  rw [together_fits_iff (maps_fit hplain)]
  exact forall₂_congr fun f _ => fits_together_iff (maps_fit hplain')

/-- What is declared at some keys stands in an entry of a section, or is a table above one. -/
theorem declared_cases {keys : List String} {shape : Shape String TomlScalar}
    (h : profile.declared keys = some shape) :
    ∃ name front table entry, (name, front) ∈ sectionFronts ∧ profile.table name = some table ∧
      entry ∈ table ∧
      ((∃ below, keys = front ++ [entry.1] ++ below ∧
          (Doc.reach below (some entry.2)).map Doc.shape = some shape) ∨
        keys <+: front ∧ keys ≠ [] ∧ shape = .Table) := by
  obtain ⟨f, hf, hsome⟩ := together_eq_some h
  obtain ⟨⟨name, front⟩, hsection, hf⟩ := List.mem_flatMap.mp hf
  unfold RawProfile.sectionMaps at hf
  dsimp only at hf
  cases htable : profile.table name with
  | none =>
    rw [htable] at hf
    cases hf
  | some table =>
    rw [htable] at hf
    obtain ⟨entry, hentry, rfl⟩ := List.mem_map.mp hf
    refine ⟨name, front, table, entry, hsection, htable, hentry, ?_⟩
    by_cases hbelow : front ++ [entry.1] <+: keys
    · obtain ⟨below, rfl⟩ := hbelow
      rw [Doc.placed_below] at hsome
      exact .inl ⟨below, rfl, hsome⟩
    · rw [Doc.placed_apart hbelow, Doc.above] at hsome
      split_ifs at hsome with habove
      refine .inr ⟨?_, habove.2, (Option.some.inj hsome).symm⟩
      rcases List.prefix_concat_iff.mp habove.1 with rfl | hinit
      · exact absurd List.prefix_rfl hbelow
      · exact hinit

theorem declared_nil (profile : RawProfile) : profile.declared [] = none := by
  cases h : profile.declared [] with
  | none => rfl
  | some shape =>
    obtain ⟨_, front, _, entry, -, -, -, ⟨below, heq, -⟩ | ⟨-, hne, -⟩⟩ := declared_cases h
    · cases front with
      | nil => cases heq
      | cons => cases heq
    · exact absurd rfl hne

/-- Above what a profile declares it declares tables. -/
theorem declared_front (hplain : Plain profile source) {front below : List String}
    {shape : Shape String TomlScalar} (h : profile.declared (front ++ below) = some shape)
    (hfront : front ≠ []) (hbelow : below ≠ []) : profile.declared front = some .Table := by
  obtain ⟨f, hf, hsome⟩ := together_eq_some h
  have htable : f front = some .Table := by
    obtain ⟨part, hpart, hmap⟩ := List.mem_flatMap.mp hf
    obtain ⟨first, rest, value, rfl, -⟩ := head_of_map hpart hmap
    exact Doc.placed_front hsome hfront hbelow
  obtain ⟨found, hfound⟩ := exists_together hf htable
  have hstands : Stands found .Table := together_related (maps_fit hplain) hf htable hfound
  exact hstands.table ▸ hfound

/-- The first key that a profile declares has no dot. -/
theorem head_undotted {first : String} {rest : List String} {shape : Shape String TomlScalar}
    (h : profile.declared (first :: rest) = some shape) : '.' ∉ first.toList := by
  obtain ⟨f, hf, hsome⟩ := together_eq_some h
  obtain ⟨part, hpart, hmap⟩ := List.mem_flatMap.mp hf
  obtain ⟨head, tail, value, rfl, hhead⟩ := head_of_map hpart hmap
  by_cases heq : head = first
  · exact heq ▸ hhead.undotted
  · cases (placed_head_ne heq).symm.trans hsome

end RawProfile

end dev_env_loader
