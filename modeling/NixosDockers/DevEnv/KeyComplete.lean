-- Whether the key of a materialization says all that the materialization is
-- given: the key and the context are put together from the same request one
-- after the other.
import NixosDockers.DevEnv.Paths
import NixosDockers.DevEnv.StopFinal

open rust_text results hash_maps

namespace dev_env

/-! ## What a request is prepared with -/

/-- The identity up to `==`, which compares homes by their components. -/
def EffectiveIdentity.canonical (identity : EffectiveIdentity) : EffectiveIdentity :=
  { identity with home := canonicalPath identity.home }

/-- The workspace has a configuration file of its own. -/
def Host.configPresent (host : Host) (snapshot : ConfigSnapshot) : Bool :=
  host.is_file (joinComponents (components snapshot.workspace_root ++ [".dev-env.toml"]))

/-- Two requests are materialized alike: the contexts are the same, and so are the metadata but for
the id of the request and the fingerprints of what the providers detect. -/
structure SameInputs (first_host second_host : Host) (snapshot : ConfigSnapshot)
    (first second : BackendState.PrepareTarget) : Prop where
  runtime_context : first.job.runtime_context = second.job.runtime_context
  generation : first.job.metadata.generation = second.job.metadata.generation
  identity : first.job.metadata.identity.canonical = second.job.metadata.identity.canonical
  fingerprints : first_host.provider_detect_fingerprints snapshot first.job.runtime_context =
    second_host.provider_detect_fingerprints snapshot second.job.runtime_context

section target

variable {host : Host} {state : BackendState} {request_id : String} {context : RequestContext}
  {peer : IdentityPeer}

/-- The key and the context of a request that is accepted, by the identity that was resolved for
it. -/
structure Assembled (host : Host) (snapshot : ConfigSnapshot) (context : RequestContext)
    (identity : EffectiveIdentity) (target : BackendState.PrepareTarget) : Prop where
  cwd : target.job.key.cwd = normalizePath context.cwd
  shell : target.job.key.shell = BackendState.prepareShell snapshot context
  key_identity : target.job.key.identity = identity.canonical
  ambient : target.job.key.ambient_environment = BackendState.processEnvironment snapshot context
  fingerprints : target.job.key.provider_detect_fingerprints =
    host.provider_detect_fingerprints snapshot target.job.runtime_context
  runtime_context : target.job.runtime_context =
    BackendState.prepareContext host snapshot context identity
  metadata_generation : target.job.metadata.generation = snapshot.generation
  metadata_identity : target.job.metadata.identity = identity

theorem prepareTarget_assembled {target : BackendState.PrepareTarget}
    (h : state.prepareTarget host request_id context peer = .ok target) :
    ∃ identity, Assembled host state.snapshot context identity target := by
  unfold BackendState.prepareTarget at h
  cases hrefusal : BackendState.refusal state.control_plane with
  | some refused =>
    rw [hrefusal] at h
    cases h
  | none =>
    simp only [hrefusal, throw_eq, error_bind, bind_ok_iff, ite_error_ok_iff,
      mapError_ok_iff] at h
    obtain ⟨-, -, -, identity, -, key, hkey, h⟩ := h
    unfold BackendState.prepareKey MaterializationKeyBuilder.build at hkey
    simp only [bind_ok_iff, pure_ok_iff] at hkey
    obtain ⟨-, -, rfl⟩ := hkey
    split at h
    · cases h
    · obtain rfl := Except.ok.inj h
      exact ⟨identity, normalizeAbsolutePath_normalizePath _, rfl, rfl, rfl, rfl, rfl, rfl, rfl⟩

end target

/-! ## The key and what it leaves out -/

def devContext : RequestContext where
  request_id := "prepare"
  mode := .Shell
  cwd := "/workspace/app/../app"
  shell := "default"

def devTarget (host : Host) (request_id : String) :
    Except BackendResponseMessage BackendState.PrepareTarget :=
  (BackendState.new devConfig).prepareTarget host request_id devContext { pid := 30, uid := 1000, gid := 1000 }

/-- The file system after a configuration file was written to the workspace. -/
def configuredHost : Host := { devHost with is_file := fun path => path = "/workspace/.dev-env.toml" }

end dev_env
