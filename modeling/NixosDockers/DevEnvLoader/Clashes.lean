-- Which documents can make a load panic: a path that one of them goes to leads on behind a place
-- where another one puts something else than a table.
import NixosDockers.DevEnvLoader.Ownership
import NixosDockers.DevEnvLoader.Panics

open rust_text documents dev_env_model profile_graph results

namespace dev_env_loader

/-! ## Places -/

/-- The keys lead to something strictly above the other keys. -/
def Above (keys other : List String) : Prop := keys <+: other ∧ keys ≠ other

/-- The text that a value is. -/
def asText : Value → Option String
  | .Scalar (.String text) => some text
  | _ => none

/-- A value that is put at the first keys has something else than a table at the others: the text,
or no text. -/
def LeafOf (value : Value) (front keys : List String) (text : Option String) : Prop :=
  ∃ below doc, keys = front ++ below ∧ Doc.reach below (some value) = some doc ∧ doc.IsLeaf ∧
    asText doc = text

/-- Places where something else than a table may be, a text or anything else. -/
abbrev Places := List String → Option String → Prop

/-- Whatever the tree has besides tables is at one of the places. -/
def Known (places : Places) (root : Table) : Prop :=
  ∀ keys doc, Doc.lookup keys root = some doc → doc.IsLeaf → places keys (asText doc)

/-- A write goes along the second keys, of which the first lead to nothing but tables; behind them
it comes to one of the places and goes on. -/
def Clash (places : Places) (goes : List String → List String → Prop) : Prop :=
  ∃ keys text start path, places keys text ∧ goes start path ∧ Above start keys ∧ Above keys path

/-- Nothing but tables is at the keys and above them. -/
def OpenTo (root : Table) (start : List String) : Prop :=
  ∀ front, front <+: start → ∀ doc, Doc.lookup front root = some doc → ¬ doc.IsLeaf

variable {places places' : Places} {goes : List String → List String → Prop} {root root' : Table}
  {path : String} {value : Value} {merged : MergedConfig} {context : MergeContext}
  {source : ProfileSource} {policy : PolicyConfig} {spec : OverrideSpec}

theorem Known.mono (h : Known places root)
    (hsub : ∀ keys text, places keys text → places' keys text) : Known places' root :=
  fun keys doc hdoc hleaf => hsub keys _ (h keys doc hdoc hleaf)

theorem known_empty : Known places [] := by
  intro keys doc hdoc
  cases keys with
  | nil => cases hdoc
  | cons key rest =>
    rw [Doc.lookup_cons] at hdoc
    cases rest <;> cases hdoc

theorem Clash.mono (h : Clash places goes)
    (hsub : ∀ keys text, places keys text → places' keys text) : Clash places' goes := by
  obtain ⟨keys, text, start, path, hplace, hgoes, habove, hbelow⟩ := h
  exact ⟨keys, text, start, path, hsub keys text hplace, hgoes, habove, hbelow⟩

theorem openTo_nil : OpenTo root [] := by
  rintro front hfront doc hdoc
  obtain rfl := List.prefix_nil.mp hfront
  cases hdoc

theorem IsTableAt.openTo {start : List String} (h : IsTableAt root start) : OpenTo root start := by
  intro front hfront doc hdoc hleaf
  obtain ⟨inner, hinner⟩ := h
  obtain ⟨rest, rfl⟩ := hfront
  by_cases hnil : front = []
  · subst hnil
    cases hdoc
  by_cases hrest : rest = []
  · subst hrest
    rw [List.append_nil] at hinner
    obtain rfl := Option.some.inj (hdoc.symm.trans hinner)
    exact hleaf
  · obtain ⟨table, htable⟩ := Doc.table_of_lookup_append hinner hnil hrest
    obtain rfl := Option.some.inj (hdoc.symm.trans htable)
    exact hleaf

/-- Nothing is in the way of a path that clashes with none of the places. -/
theorem not_blocked_of_no_clash {start : List String} (hclash : ¬ Clash places goes)
    (hknown : Known places root) (hopen : OpenTo root start) (hstart : start <+: splitChar '.' path)
    (hgoes : goes start (splitChar '.' path)) : ¬ Blocked root path := by
  refine not_not.mpr fun front hfront habove hne doc hdoc => ?_
  by_contra hnone
  have hleaf : doc.IsLeaf := by
    cases doc with
    | Table inner => exact absurd ⟨inner, rfl⟩ hnone
    | Scalar => trivial
    | Array => trivial
  have hbehind : ¬ front <+: start := fun h => hopen front h doc hdoc hleaf
  have hbefore : start <+: front :=
    (List.prefix_or_prefix_of_prefix hstart habove).resolve_right hbehind
  exact hclash ⟨front, _, start, _, hknown front doc hdoc hleaf, hgoes,
    ⟨hbefore, fun heq => hbehind (heq ▸ List.prefix_rfl)⟩, habove, hne⟩

/-- A path of one key has nothing in its way. -/
theorem not_blocked_of_key {key : String} (h : splitChar '.' key = [key]) : ¬ Blocked root key := by
  refine not_not.mpr fun front hfront habove hne doc hdoc => ?_
  rw [h] at habove hne
  cases front with
  | nil => exact absurd rfl hfront
  | cons first rest =>
    obtain ⟨rfl, hrest⟩ := List.cons_prefix_cons.mp habove
    exact absurd (by rw [List.prefix_nil.mp hrest]) hne

/-- What is put at a path adds its own places. -/
theorem Known.put (h : Known places root) (hput : setPath root path value = .ok root')
    (hplaces : ∀ keys text, LeafOf value (splitChar '.' path) keys text → places keys text) :
    Known places root' := by
  have hwritten := setPath_ok_iff.mp hput
  intro keys doc hdoc hleaf
  by_cases hbelow : splitChar '.' path <+: keys
  · obtain ⟨below, rfl⟩ := hbelow
    rw [Doc.lookup_append (splitChar_ne_nil '.' path), Doc.lookup_put hwritten] at hdoc
    exact hplaces _ _ ⟨below, doc, rfl, hdoc, hleaf, rfl⟩
  · by_cases habove : keys <+: splitChar '.' path
    · have hkeys : keys ≠ [] := by
        rintro rfl
        cases hdoc
      have hne : keys ≠ splitChar '.' path := fun heq => hbelow (heq ▸ List.prefix_rfl)
      obtain ⟨⟨inner, hinner⟩, -⟩ := Doc.lookup_put_above hwritten hkeys habove hne
      obtain rfl := Option.some.inj (hdoc.symm.trans hinner)
      exact absurd hleaf id
    · rw [Doc.lookup_put_apart hwritten hbelow habove] at hdoc
      exact h keys doc hdoc hleaf

theorem Known.remove (h : Known places root) : Known places (removePath root path) :=
  fun keys doc hdoc hleaf => h keys doc (Doc.lookup_of_drop_leaf hdoc hleaf) hleaf

theorem leafOf_leaf {front keys : List String} {text : Option String} (hleaf : value.IsLeaf)
    (h : LeafOf value front keys text) : keys = front ∧ text = asText value := by
  obtain ⟨below, doc, rfl, hdoc, -, rfl⟩ := h
  by_cases hbelow : below = []
  · subst hbelow
    obtain rfl := Option.some.inj hdoc
    exact ⟨List.append_nil _, rfl⟩
  · rw [Doc.reach_leaf hleaf hbelow] at hdoc
    cases hdoc

/-! ## A step that does not panic -/

/-- It does not panic, and what it makes has something else than tables at the places only. -/
def Fine (places : Places) (made : Except Failure MergedConfig) : Prop :=
  ¬ Fails Failure.IsPanic made ∧ ∀ merged, made = .ok merged → Known places merged.root

theorem fine_ok (h : Known places merged.root) : Fine places (.ok merged) :=
  ⟨not_fails_ok _, fun _ heq => Except.ok.inj heq ▸ h⟩

theorem fine_error {error : LoaderError} : Fine places (.error (.Error error)) :=
  ⟨not_panics_error _, fun _ heq => (by cases heq)⟩

/-- The failure of a step that does not panic. -/
theorem fine_failed {α : Type} {made : Except Failure α} {failure : Failure}
    (h : ¬ Fails Failure.IsPanic made) (hmade : made = .error failure) :
    Fine places (.error failure) := by
  rw [hmade, fails_error_iff] at h
  exact ⟨fails_error_iff.not.mpr h, fun _ heq => (by cases heq)⟩

theorem Fine.mono {made : Except Failure MergedConfig} (h : Fine places made)
    (hsub : ∀ keys text, places keys text → places' keys text) : Fine places' made :=
  ⟨h.1, fun merged heq => (h.2 merged heq).mono hsub⟩

theorem fine_bind {α : Type} {made : Except Failure α} {next : α → Except Failure MergedConfig}
    (hmade : ¬ Fails Failure.IsPanic made) (hnext : ∀ a, made = .ok a → Fine places (next a)) :
    Fine places (made >>= next) := by
  refine ⟨fun hfails => ?_, fun merged hmerged => ?_⟩
  · rcases fails_bind_iff.mp hfails with hfails | ⟨a, ha, hfails⟩
    · exact hmade hfails
    · exact (hnext a ha).1 hfails
  · obtain ⟨a, ha, hmerged⟩ := bind_ok_iff.mp hmerged
    exact (hnext a ha).2 merged hmerged

theorem Fine.bind {made : Except Failure MergedConfig}
    {next : MergedConfig → Except Failure MergedConfig} (h : Fine places made)
    (hnext : ∀ merged, Known places merged.root → Fine places (next merged)) :
    Fine places (made >>= next) :=
  fine_bind h.1 fun merged hmerged => hnext merged (h.2 merged hmerged)

/-- A loop of fine steps is fine. -/
theorem fine_loop {α : Type} (loop : List α → MergedConfig → Except Failure MergedConfig)
    (step : α → MergedConfig → Except Failure MergedConfig)
    (hnil : ∀ merged, loop [] merged = .ok merged)
    (hcons : ∀ a rest merged, loop (a :: rest) merged = step a merged >>= loop rest) {l : List α}
    (hstep : ∀ a ∈ l, ∀ merged, Known places merged.root → Fine places (step a merged))
    (h : Known places merged.root) : Fine places (loop l merged) := by
  induction l generalizing merged with
  | nil =>
    rw [hnil]
    exact fine_ok h
  | cons a rest ih =>
    rw [hcons]
    exact (hstep a List.mem_cons_self merged h).bind fun merged hmerged =>
      ih (fun other hother => hstep other (List.mem_cons_of_mem _ hother)) hmerged

theorem write_fine {origin : Origin} {sensitivity : Sensitivity} (h : Known places merged.root)
    (hplaces : ∀ keys text, LeafOf value (splitChar '.' path) keys text → places keys text)
    (hopen : ¬ Blocked merged.root path) :
    Fine places (merged.write path value origin sensitivity) :=
  ⟨MergedConfig.write_panics_iff.not.mpr hopen, fun _ hmerged =>
    h.put (MergedConfig.write_ok hmerged) hplaces⟩

/-! ## Declarations -/

/-- A declared value has another one in it, at a path below. -/
inductive Inside : Value → String → Value → String → Prop
  | whole {value : Value} {path : String} : Inside value path value path
  | entry {table : Table} {path key : String} {value inner : Value} {below : String} :
      (key, value) ∈ table →
      Inside value s!"{path}.{key}" inner below → Inside (.Table table) path inner below

/-- The places that a declaration gives to what is no table, itself or in it. -/
def DeclaredLeaf (value : Value) (path : String) (keys : List String) (text : Option String) :
    Prop :=
  ∃ inner below, Inside value path inner below ∧ LeafOf inner (splitChar '.' below) keys text

/-- An entry of a declared table is declared where the path of the table leads to one. -/
def DeclaredStep (value : Value) (path : String) (start keys : List String) : Prop :=
  ∃ table below key inner, Inside value path (.Table table) below ∧ (key, inner) ∈ table ∧
    start = splitChar '.' below ∧ keys = splitChar '.' s!"{below}.{key}"

/-- All that is in the declared value leads to the places, by the ways. -/
structure Covers (places : Places) (goes : List String → List String → Prop) (value : Value)
    (path : String) : Prop where
  leaf : ∀ keys text, DeclaredLeaf value path keys text → places keys text
  step : ∀ start keys, DeclaredStep value path start keys → goes start keys

theorem Covers.entry {table : Table} {key : String} (h : Covers places goes (.Table table) path)
    (hentry : (key, value) ∈ table) : Covers places goes value s!"{path}.{key}" where
  leaf := fun keys text ⟨inner, below, hinside, hleaf⟩ =>
    h.leaf keys text ⟨inner, below, .entry hentry hinside, hleaf⟩
  step := fun start keys ⟨inner, below, other, value, hinside, hrest⟩ =>
    h.step start keys ⟨inner, below, other, value, .entry hentry hinside, hrest⟩

/-- An entry of a table is open, when the way from the table to it clashes with no place. -/
theorem entry_open {key : String} (hclash : ¬ Clash places goes) (hknown : Known places merged.root)
    (htable : IsTableAt merged.root (splitChar '.' path))
    (hgoes : goes (splitChar '.' path) (splitChar '.' s!"{path}.{key}")) :
    ¬ Blocked merged.root s!"{path}.{key}" := by
  have hstart : splitChar '.' path <+: splitChar '.' s!"{path}.{key}" := by
    rw [splitChar_below]
    exact List.prefix_append ..
  exact not_blocked_of_no_clash hclash hknown htable.openTo hstart hgoes

namespace MergedConfig

/-- A declaration whose own path is open does not panic, when its ways do not clash with the
places. The induction is on the loops of the merge. -/
theorem mergePath_fine (hclash : ¬ Clash places goes) {incoming : Value} {path : String}
    (hknown : Known places merged.root) (hopen : ¬ Blocked merged.root path)
    (hcovers : Covers places goes incoming path) :
    Fine places (mergePath context incoming path merged) := by
  refine mergePath.induct context
    (fun incoming path merged => Known places merged.root → ¬ Blocked merged.root path →
      Covers places goes incoming path → Fine places (mergePath context incoming path merged))
    (fun entries path merged => Known places merged.root →
      IsTableAt merged.root (splitChar '.' path) →
      (∀ entry ∈ entries, Covers places goes entry.2 s!"{path}.{entry.1}" ∧
        goes (splitChar '.' path) (splitChar '.' s!"{path}.{entry.1}")) →
      Fine places (mergeEntries context entries path merged))
    ?overridden ?rejected ?absent ?tables ?same ?different ?done ?failed ?next
    incoming path merged hknown hopen hcovers
  case overridden =>
    intro incoming path merged howned hknown _ _
    rw [mergePath, if_pos howned]
    exact fine_ok hknown
  case rejected =>
    intro incoming path merged howned failure hreject hknown _ _
    rw [mergePath, if_neg howned, hreject]
    exact fine_failed reject_not_panics hreject
  case absent =>
    intro path merged howned incoming hget hreject hknown hopen hcovers
    rw [mergePath, if_neg howned, hreject]
    simp only [hget]
    exact write_fine hknown (fun keys text hleaf => hcovers.leaf keys text ⟨_, _, .whole, hleaf⟩)
      hopen
  case tables =>
    intro path merged howned entries table hget hreject ih hknown _ hcovers
    rw [mergePath, if_neg howned, hreject]
    simp only [hget]
    refine ih hknown ⟨entries, hget⟩ fun entry hentry => ⟨hcovers.entry hentry, ?_⟩
    exact hcovers.step _ _ ⟨table, path, entry.1, entry.2, .whole, hentry, rfl, rfl⟩
  case same =>
    intro path merged howned existing incoming hshape hget hsame hreject hknown _ _
    rw [mergePath_existing howned hreject hget hshape, if_pos hsame]
    exact fine_ok hknown
  case different =>
    intro path merged howned existing incoming hshape hget hsame hreject hknown hopen hcovers
    rw [mergePath_existing howned hreject hget hshape, if_neg hsame]
    unfold mergeDifferent
    split_ifs
    · exact write_fine hknown (fun keys text hleaf => hcovers.leaf keys text ⟨_, _, .whole, hleaf⟩)
        hopen
    · exact fine_error
    · exact fine_error
    · exact fine_error
  case done =>
    intro path merged hknown _ _
    exact fine_ok hknown
  case failed =>
    intro key value rest path merged failure hfirst ihfirst hknown htable hentries
    obtain ⟨hcovers, hgoes⟩ := hentries _ List.mem_cons_self
    have hfine := ihfirst hknown (entry_open hclash hknown htable hgoes) hcovers
    rw [mergeEntries]
    simp only [hfirst]
    rw [hfirst] at hfine
    exact fine_failed hfine.1 rfl
  case next =>
    intro key value rest path merged middle hfirst ihfirst ihrest hknown htable hentries
    obtain ⟨hcovers, hgoes⟩ := hentries _ List.mem_cons_self
    have hfine := ihfirst hknown (entry_open hclash hknown htable hgoes) hcovers
    rw [mergeEntries]
    simp only [hfirst]
    refine ihrest (hfine.2 middle hfirst) ?_ fun entry hentry =>
      hentries entry (List.mem_cons_of_mem _ hentry)
    refine DeclareRun.isTableAt (mergePath_run hfirst) (splitChar_ne_nil '.' path)
      (fun other hother hbelow => ?_) htable
    have hlength := (hother.trans hbelow).length_le
    have hkey := List.length_pos_of_ne_nil (splitChar_ne_nil '.' key)
    rw [splitChar_below, List.length_append] at hlength
    omega

end MergedConfig

/-! ## Overrides -/

/-- The places that an override gives to what is no table. -/
inductive OverrideLeaf (path : String) (spec : OverrideSpec) : Places
  | set {tree : ValueTree} {value : Value} {keys : List String} {text : Option String} :
      spec.op = .Set → spec.value = some tree → valueTreeToToml path tree = .ok value →
      LeafOf value (splitChar '.' path) keys text → OverrideLeaf path spec keys text
  | array : spec.op = .Append ∨ spec.op = .Replace → MergedConfig.Representable path spec →
      OverrideLeaf path spec (splitChar '.' path) none

/-- An override that writes its path even where nothing is yet. -/
def Overrides (path : String) (spec : OverrideSpec) : Prop :=
  spec.op ≠ .Unset ∧ spec.op ≠ .Remove ∧ MergedConfig.Representable path spec

namespace MergedConfig

theorem applyArray_fine {op : OverrideOperation} {values : List Value} {origin : Origin}
    (hknown : Known places merged.root) (hopen : op ≠ .Remove → ¬ Blocked merged.root path)
    (hplace : op ≠ .Remove → places (splitChar '.' path) none) :
    Fine places (merged.applyArray path op values origin) := by
  refine ⟨applyArray_panics_iff.not.mpr fun h => hopen h.1 h.2, fun merged' h => ?_⟩
  have harray : ∀ items : List Value, places (splitChar '.' path) none → ∀ keys text,
      LeafOf (.Array items) (splitChar '.' path) keys text → places keys text := by
    intro items hplace keys text hleaf
    have hlist : (Doc.Array items : Value).IsLeaf := trivial
    obtain ⟨rfl, rfl⟩ := leafOf_leaf hlist hleaf
    exact hplace
  unfold applyArray at h
  cases hget : getPath merged.root path with
  | none =>
    simp only [hget] at h
    split_ifs at h with hremove
    · obtain rfl := Except.ok.inj h
      exact hknown
    · exact hknown.put (write_ok h) (harray _ (hplace hremove))
  | some existing =>
    simp only [hget] at h
    cases existing with
    | Scalar => cases h
    | Table => cases h
    | Array current =>
      -- an array was there before
      exact hknown.put (write_ok h) (harray _ (hknown _ _ hget trivial))

theorem applyOverride_fine (hclash : ¬ Clash places goes) (hknown : Known places merged.root)
    (hchecked : spec.validate path = .ok ())
    (hplaces : ∀ keys text, OverrideLeaf path spec keys text → places keys text)
    (hgoes : Overrides path spec → goes [] (splitChar '.' path)) :
    Fine places (merged.applyOverride path spec source) := by
  have hopen : Overrides path spec → ¬ Blocked merged.root path := fun hwrites =>
    not_blocked_of_no_clash hclash hknown openTo_nil List.nil_prefix (hgoes hwrites)
  refine ⟨(applyOverride_panics_iff hchecked).not.mpr fun h =>
    hopen ⟨h.1, h.2.1, h.2.2.1⟩ h.2.2.2, fun merged' h => ?_⟩
  by_cases hset : spec.op = .Set
  · obtain ⟨tree, htree⟩ := value_of_checked hchecked hset
    unfold applyOverride at h
    simp only [hset, htree] at h
    obtain ⟨value, hwritten, hwrite⟩ := bind_ok_iff.mp h
    exact hknown.put (write_ok hwrite) fun keys text hleaf =>
      hplaces keys text (.set hset htree hwritten hleaf)
  by_cases hunset : spec.op = .Unset
  · unfold applyOverride at h
    simp only [hunset] at h
    obtain rfl := Except.ok.inj h
    exact hknown.remove
  · rw [applyOverride_array hset hunset] at h
    obtain ⟨values, hvalues, harray⟩ := bind_ok_iff.mp h
    have hrepresentable : Representable path spec := by
      unfold Representable
      split
      · exact absurd ‹spec.op = .Set› hset
      · exact ⟨values, hvalues⟩
    have hlists : spec.op ≠ .Remove → spec.op = .Append ∨ spec.op = .Replace := by
      revert hset hunset
      cases spec.op <;> simp
    refine (applyArray_fine hknown (fun hremove => hopen ⟨hunset, hremove, hrepresentable⟩)
      fun hremove => hplaces _ _ (.array (hlists hremove) hrepresentable)).2 merged' harray

end MergedConfig

/-! ## Profiles -/

/-- The sections of a profile that are merged, and where their entries are declared. -/
def sections : List (String × String) :=
  [("policy", "policy"), ("config", ""), ("inputs", "inputs")]

def entryPath (start key : String) : String := if start = "" then key else s!"{start}.{key}"

/-- The places that a profile gives to what is no table. -/
inductive ProfileLeaf (profile : RawProfile) : Places
  | declared {name start key : String} {table : Table} {value : Value} {keys : List String}
      {text : Option String} : (name, start) ∈ sections → profile.table name = some table →
      (key, value) ∈ table → DeclaredLeaf value (entryPath start key) keys text →
      ProfileLeaf profile keys text
  | override {path : String} {spec : OverrideSpec} {keys : List String} {text : Option String} :
      profile.overrides[path]? = some spec → OverrideLeaf path spec keys text →
      ProfileLeaf profile keys text

/-- The ways along which a profile writes, each with the part of it that leads to tables. A policy
is only merged where there is one, or nothing. -/
inductive ProfileStep (profile : RawProfile) : List String → List String → Prop
  | declared {name start key : String} {table : Table} {value : Value} {front keys : List String} :
      (name, start) ∈ sections → profile.table name = some table → (key, value) ∈ table →
      DeclaredStep value (entryPath start key) front keys → ProfileStep profile front keys
  | policy {key : String} {table : Table} {value : Value} : profile.table "policy" = some table →
      (key, value) ∈ table → ProfileStep profile ["policy"] (splitChar '.' (entryPath "policy" key))
  | input {key : String} {table : Table} {value : Value} : profile.table "inputs" = some table →
      (key, value) ∈ table → ProfileStep profile [] (splitChar '.' (entryPath "inputs" key))
  | override {path : String} {spec : OverrideSpec} : profile.overrides[path]? = some spec →
      Overrides path spec → ProfileStep profile [] (splitChar '.' path)

theorem splitChar_entryPath {start key : String} (h : start ≠ "") :
    splitChar '.' (entryPath start key) = splitChar '.' start ++ splitChar '.' key := by
  rw [entryPath, if_neg h, splitChar_below]

theorem Inside.path_below {inner : Value} {below : String} (h : Inside value path inner below) :
    splitChar '.' path <+: splitChar '.' below := by
  induction h with
  | whole => exact List.prefix_rfl
  | entry _ _ ih =>
    rw [splitChar_below] at ih
    exact (List.prefix_append _ _).trans ih

theorem DeclaredLeaf.below {keys : List String} {text : Option String}
    (h : DeclaredLeaf value path keys text) : splitChar '.' path <+: keys := by
  obtain ⟨inner, below, hinside, rest, _, rfl, -⟩ := h
  exact hinside.path_below.trans (List.prefix_append _ _)

variable {profile : RawProfile}

/-- What a section declares is covered by the places and ways of its profile. -/
theorem section_covers {name start key : String} {table : Table}
    (hplaces : ∀ keys text, ProfileLeaf profile keys text → places keys text)
    (hgoes : ∀ start keys, ProfileStep profile start keys → goes start keys)
    (hsection : (name, start) ∈ sections) (htable : profile.table name = some table)
    (hentry : (key, value) ∈ table) : Covers places goes value (entryPath start key) where
  leaf := fun keys text hleaf => hplaces keys text (.declared hsection htable hentry hleaf)
  step := fun front keys hstep => hgoes front keys (.declared hsection htable hentry hstep)

namespace MergedConfig

theorem mergeTable_fine {table : Table} {start : String} (hclash : ¬ Clash places goes)
    (hknown : Known places merged.root)
    (hcovers : ∀ entry ∈ table, Covers places goes entry.2 (entryPath start entry.1))
    (hopen : ∀ entry ∈ table, ∀ root, Known places root →
      ¬ Blocked root (entryPath start entry.1)) :
    Fine places (mergeTable context table start merged) := by
  refine fine_loop (fun table => mergeTable context table start)
    (fun entry => mergePath context entry.2 (entryPath start entry.1)) (fun _ => rfl) ?_ ?_ hknown
  · intro entry rest merged
    obtain ⟨key, value⟩ := entry
    rw [mergeTable]
    unfold entryPath
    cases mergePath context value (if start = "" then key else s!"{start}.{key}") merged <;> rfl
  · intro entry hentry merged hknown
    exact mergePath_fine hclash hknown (hopen entry hentry _ hknown) (hcovers entry hentry)

/-- The places without the one of the policy itself. -/
def besidePolicy (places : Places) : Places := fun keys text => places keys text ∧ keys ≠ ["policy"]

theorem known_besidePolicy (hknown : Known places merged.root)
    (hpolicy : merged.policy = .ok policy) : Known (besidePolicy places) merged.root := by
  refine fun keys doc hdoc hleaf => ⟨hknown keys doc hdoc hleaf, ?_⟩
  rintro rfl
  change merged.root.get "policy" = some doc at hdoc
  unfold MergedConfig.policy at hpolicy
  rw [hdoc] at hpolicy
  cases doc with
  | Table => exact hleaf
  | Scalar => cases hpolicy
  | Array => cases hpolicy

theorem openTo_policy (hknown : Known (besidePolicy places) root) : OpenTo root ["policy"] := by
  intro front hfront doc hdoc hleaf
  cases front with
  | nil => cases hdoc
  | cons key rest =>
    obtain ⟨rfl, hrest⟩ := List.cons_prefix_cons.mp hfront
    obtain rfl := List.prefix_nil.mp hrest
    exact (hknown _ doc hdoc hleaf).2 rfl

theorem mergePolicy_fine (hclash : ¬ Clash places goes) (hknown : Known places merged.root)
    (hplaces : ∀ keys text, ProfileLeaf profile keys text → places keys text)
    (hgoes : ∀ start keys, ProfileStep profile start keys → goes start keys) :
    Fine places (merged.mergePolicy profile source) := by
  unfold mergePolicy
  cases htable : profile.table "policy" with
  | none => exact fine_ok hknown
  | some table =>
    refine fine_bind policy_not_panics fun policy hpolicy => ?_
    have hbeside : ¬ Clash (besidePolicy places) goes := fun h =>
      hclash (h.mono fun _ _ hplace => hplace.1)
    refine Fine.mono ?_ fun keys text (hplace : besidePolicy places keys text) => hplace.1
    refine mergeTable_fine hbeside (known_besidePolicy hknown hpolicy) ?_ ?_
    · intro entry hentry
      have hcovers := section_covers hplaces hgoes (by decide : ("policy", "policy") ∈ sections)
        htable hentry
      refine ⟨fun keys text hleaf => ⟨hcovers.leaf keys text hleaf, ?_⟩, hcovers.step⟩
      rintro rfl
      have hlength := hleaf.below.length_le
      have hkey := List.length_pos_of_ne_nil (splitChar_ne_nil '.' entry.1)
      have hstart := List.length_pos_of_ne_nil (splitChar_ne_nil '.' "policy")
      rw [splitChar_entryPath (by decide), List.length_append, List.length_singleton] at hlength
      omega
    · intro entry hentry root hroot
      refine not_blocked_of_no_clash hbeside hroot (openTo_policy hroot) ?_
        (hgoes _ _ (.policy htable hentry))
      rw [splitChar_entryPath (by decide)]
      exact List.prefix_append ["policy"] _

theorem configSection_fine (hclash : ¬ Clash places goes) (hknown : Known places merged.root)
    (hplaces : ∀ keys text, ProfileLeaf profile keys text → places keys text)
    (hgoes : ∀ start keys, ProfileStep profile start keys → goes start keys) :
    Fine places (mergeSection context (profile.table "config") "" merged) := by
  cases htable : profile.table "config" with
  | none => exact fine_ok hknown
  | some table =>
    refine mergeTable_fine hclash hknown (fun entry hentry => section_covers hplaces hgoes
      (by decide : ("config", "") ∈ sections) htable hentry) fun entry hentry root _ => ?_
    obtain ⟨declared, hdeclared, hknown⟩ := profile.config_known _ (table_some htable)
    obtain rfl := Doc.Table.inj hdeclared
    exact not_blocked_of_key (splitChar_of_field _ (hknown _ (List.mem_map_of_mem hentry)))

theorem inputsSection_fine (hclash : ¬ Clash places goes) (hknown : Known places merged.root)
    (hplaces : ∀ keys text, ProfileLeaf profile keys text → places keys text)
    (hgoes : ∀ start keys, ProfileStep profile start keys → goes start keys) :
    Fine places (mergeSection context (profile.table "inputs") "inputs" merged) := by
  cases htable : profile.table "inputs" with
  | none => exact fine_ok hknown
  | some table =>
    refine mergeTable_fine hclash hknown (fun entry hentry => section_covers hplaces hgoes
      (by decide : ("inputs", "inputs") ∈ sections) htable hentry) fun entry hentry root hroot => ?_
    exact not_blocked_of_no_clash hclash hroot openTo_nil List.nil_prefix
      (hgoes _ _ (.input htable hentry))

/-- A profile none of whose ways clashes with a place does not panic. -/
theorem mergeProfile_fine (hclash : ¬ Clash places goes) (hknown : Known places merged.root)
    (hplaces : ∀ keys text, ProfileLeaf profile keys text → places keys text)
    (hgoes : ∀ start keys, ProfileStep profile start keys → goes start keys) :
    Fine places (merged.mergeProfile profile source) := by
  unfold mergeProfile
  refine fine_bind permissions_not_panic fun _ _ => ?_
  refine (mergePolicy_fine hclash hknown hplaces hgoes).bind fun merged hknown => ?_
  refine fine_bind policy_not_panics fun policy _ => ?_
  refine (configSection_fine hclash hknown hplaces hgoes).bind fun merged hknown => ?_
  refine (inputsSection_fine hclash hknown hplaces hgoes).bind fun merged hknown => ?_
  refine fine_loop (applyOverrides source policy profile.id) (fun entry merged => do
    validateOverridePermission entry.1 source policy profile.id
    merged.applyOverride entry.1 entry.2 source) (fun _ => rfl) ?_
    (fun entry hentry merged hknown => ?_) hknown
  · intro entry rest merged
    obtain ⟨path, spec⟩ := entry
    rw [applyOverrides, bind_assoc]
  · have hdeclared := Std.ExtTreeMap.mem_toList_iff_getElem?_eq_some.mp hentry
    refine fine_bind permission_not_panics fun _ _ => ?_
    exact applyOverride_fine hclash hknown (profile.overrides_checked _ _ hdeclared)
      (fun keys text hleaf => hplaces keys text (.override hdeclared hleaf))
      fun hwrites => hgoes _ _ (.override hdeclared hwrites)

end MergedConfig

end dev_env_loader
