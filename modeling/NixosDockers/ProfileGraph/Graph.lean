-- The graph of the profiles and their parents (`profile-graph`): the checks of
-- the parent ids and the traversal that applies parents first.
import NixosDockers.Lib.RustText

open rust_text

namespace profile_graph

/-! ## Errors -/

inductive ProfileGraphError where
  | InvalidId (id : String)
  | DuplicateParent (profile parent : String)
  | InheritanceDepthExceeded (limit : Nat)
  | MissingProfile (id : String)
  | MissingParent (profile parent : String)
  | Cycle (cycle : List String)
  deriving DecidableEq, Repr

/-- The text of an error. -/
def ProfileGraphError.message : ProfileGraphError → String
  | .InvalidId id => "invalid profile id " ++ debugText id
  | .DuplicateParent profile parent =>
    "parent profile " ++ debugText parent ++ " is listed more than once in profile " ++
      debugText profile
  | .InheritanceDepthExceeded limit =>
    "profile inheritance exceeds the maximum depth of " ++ toString limit
  | .MissingProfile id => "missing parent profile " ++ debugText id
  | .MissingParent profile parent =>
    "profile " ++ debugText profile ++ " extends missing profile " ++ debugText parent
  | .Cycle cycle => "profile inheritance cycle: " ++ String.intercalate " -> " cycle

inductive TraverseError (ε : Type) where
  | Graph (error : ProfileGraphError)
  | Source (error : ε)

/-! ## The checks of the parents -/

def isProfileIdChar (c : Char) : Bool := c.isAlphanum || c = '.' || c = '_' || c = '-'

def validateProfileId (id : String) : Except ProfileGraphError Unit :=
  if id ≠ "" ∧ id.toList.all isProfileIdChar = true then .ok () else .error (.InvalidId id)

/-- The loop of `validate_extends`, with the parents that came before. -/
def validateExtendsFrom (profile : String) : List String → List String →
    Except ProfileGraphError Unit
  | _, [] => .ok ()
  | seen, parent :: parents => do
    validateProfileId parent
    if parent ∈ seen then throw (.DuplicateParent profile parent)
    validateExtendsFrom profile (parent :: seen) parents

/-- `validate_extends`. -/
def validateExtends (profile : String) (parents : List String) : Except ProfileGraphError Unit :=
  validateExtendsFrom profile [] parents

/-! ## The traversal -/

/-- The state of a visit, with what the calls of `apply` have made so far. -/
structure VisitState (σ : Type) where
  visiting : List String := []
  visited : Std.ExtTreeSet String := ∅
  applied : σ

section visit

variable {τ σ ε : Type}

/-- The loop over the parents of a profile. There is no result when a visit does not end. -/
def visitParents
    (visitOne : String → VisitState σ → Option (Except (TraverseError ε) (VisitState σ))) :
    List String → VisitState σ → Option (Except (TraverseError ε) (VisitState σ))
  | [], state => some (.ok state)
  | parent :: parents, state =>
    match visitOne parent state with
    | none => none
    | some (.error error) => some (.error error)
    | some (.ok next) => visitParents visitOne parents next

/-- The error for a profile that cannot be loaded. -/
def missing (id : String) : Option String → ProfileGraphError
  | some profile => .MissingParent profile id
  | none => .MissingProfile id

/-- The cycle that a profile on the stack closes. -/
def cycleOf (visiting : List String) (id : String) : List String :=
  visiting.drop (visiting.idxOf id) ++ [id]

/-- `visit`, with the depth of the recursion. The depth limit `none` is `usize::MAX`, which the
length of no stack reaches. -/
def visit (max_depth : Option Nat) (load : String → Except ε (Option (τ × List String)))
    (apply : String → τ → σ → Except ε σ) :
    Nat → String → Option String → VisitState σ →
      Option (Except (TraverseError ε) (VisitState σ))
  | 0, _, _, _ => none
  | depth + 1, id, parent, state =>
    if id ∈ state.visiting then some (.error (.Graph (.Cycle (cycleOf state.visiting id))))
    else if max_depth.any (fun limit => state.visiting.length ≥ limit) then
      some (.error (.Graph (.InheritanceDepthExceeded (max_depth.getD 0))))
    else if id ∈ state.visited then some (.ok state)
    else
      match load id with
      | .error error => some (.error (.Source error))
      | .ok none => some (.error (.Graph (missing id parent)))
      | .ok (some (value, parents)) =>
        match validateExtends id parents with
        | .error error => some (.error (.Graph error))
        | .ok () =>
          let entered := { state with visiting := state.visiting ++ [id] }
          match visitParents (fun parent => visit max_depth load apply depth parent (some id))
              parents entered with
          | none => none
          | some (.error error) => some (.error error)
          | some (.ok left) =>
            match apply id value left.applied with
            | .error error => some (.error (.Source error))
            | .ok applied =>
              some (.ok {
                visiting := left.visiting.dropLast
                visited := left.visited.insert id
                applied })

/-- `traverse_with_max_depth`. -/
def traverseWithMaxDepth (depth : Nat) (max_depth : Option Nat)
    (load : String → Except ε (Option (τ × List String))) (apply : String → τ → σ → Except ε σ)
    (root : String) (start : σ) : Option (Except (TraverseError ε) σ) :=
  (visit max_depth load apply depth root none { applied := start }).map fun result =>
    result.map (·.applied)

/-- `traverse`. -/
def traverse (depth : Nat) (load : String → Except ε (Option (τ × List String)))
    (apply : String → τ → σ → Except ε σ) (root : String) (start : σ) :
    Option (Except (TraverseError ε) σ) :=
  traverseWithMaxDepth depth none load apply root start

/-- `resolve_order`. -/
def resolveOrder (depth : Nat) (parents : String → Except ε (Option (List String)))
    (root : String) : Option (Except (TraverseError ε) (List String)) :=
  traverse depth (fun id => (parents id).map fun parents => parents.map fun parents => ((), parents))
    (fun id _ order => .ok (order ++ [id])) root []

end visit

end profile_graph
