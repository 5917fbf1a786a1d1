import MemStack.Util.Text
import MemStack.Util.Machine
import MemStack.Util.Checked
import MemStack.Port.CoreError

/-!
This module contains the reconciler of platform plugin profiles (`plugin-host/profile_reconcile.rs`
and `plugin-host/snapshot.rs`) and what it guarantees for any sequence of pushes. What a host keeps
in memory about its plugins is an arbitrary type `σ`, the activations and deactivations are functions
on it. A host may answer each push differently, but preparing an activation does not change what is
active.
-/

namespace MemStack
namespace Plugin

open History Machine Checked

def platformPluginSnapshotTypeUrl : String :=
  "types.memstack.ai/plugin.profile.v1"

structure SnapshotCapability where
  kind : String
  id : String
  contract : String
  permissions : List String
  deriving DecidableEq, Repr

structure SnapshotRequirement where
  capability : String
  minVersion : Option String
  deriving DecidableEq, Repr

structure SnapshotActivation where
  defaultScope : String
  restartPolicy : String
  deriving DecidableEq, Repr

structure SnapshotPlugin where
  schemaVersion : Nat
  id : String
  version : String
  runtime : String
  trust : String
  requires : List SnapshotRequirement
  provides : List SnapshotCapability
  activation : SnapshotActivation
  layerId : String
  deriving DecidableEq, Repr

structure PlatformPluginSnapshot where
  schemaVersion : Nat
  profileId : String
  plugins : List SnapshotPlugin
  digest : String
  deriving DecidableEq, Repr

def isAsciiHexdigit (c : Char) : Bool :=
  c.isDigit || ('a' ≤ c && c ≤ 'f') || ('A' ≤ c && c ≤ 'F')

def PlatformPluginSnapshot.validate (s : PlatformPluginSnapshot) : Except CoreError Unit :=
  if s.schemaVersion ≠ 1 then
    .error (.tool "platform plugin snapshot schema_version must be 1")
  else if (Text.trim s.profileId).isEmpty then
    .error (.tool "platform plugin snapshot profile_id must be non-empty")
  else if s.digest.utf8ByteSize ≠ 64 || !s.digest.toList.all isAsciiHexdigit then
    .error (.tool "platform plugin snapshot digest must be sha-256 hex")
  else if s.plugins.any (·.schemaVersion ≠ 1) then
    .error (.tool "every platform plugin row must use schema_version 1")
  else if s.plugins.any (fun p => p.runtime = "python-trusted" && p.trust = "untrusted") then
    .error (.tool "untrusted plugin cannot use python-trusted runtime")
  else
    .ok ()

structure PlatformPluginEnvelope where
  version : Nat
  nonce : String
  snapshotDigest : String
  typeUrl : String
  deriving DecidableEq, Repr

def PlatformPluginEnvelope.validateType (e : PlatformPluginEnvelope) : Except String Unit :=
  if e.typeUrl = platformPluginSnapshotTypeUrl then
    .ok ()
  else
    .error s!"unknown plugin profile type_url: {e.typeUrl}"

structure PluginActivation (σ : Type) where
  pluginId : String
  activate : σ → σ

structure PlatformPluginActivator (σ : Type) where
  prepare : SnapshotPlugin → Except String (PluginActivation σ)
  deactivate : String → σ → σ

inductive PluginApplyStatus where
  | ack
  | nack
  deriving DecidableEq, Repr

structure PluginApplyReceipt where
  version : Nat
  nonce : String
  digest : String
  status : PluginApplyStatus
  appliedVersion : Nat
  error : Option String
  activated : List String
  deriving DecidableEq, Repr

-- The elements of a `BTreeSet<String>` in order.
def idSet (ids : List String) : List String :=
  (ids.insertionSort (· ≤ ·)).dedup

variable {σ : Type}

def PlatformPluginActivator.prepareAll (a : PlatformPluginActivator σ)
    : List SnapshotPlugin → Except String (List (PluginActivation σ))
  | [] => .ok []
  | plugin :: plugins =>
    match a.prepare plugin with
    | .ok activation => (a.prepareAll plugins).map (activation :: ·)
    | .error error => .error s!"plugin {plugin.id} failed preparation: {error}"

structure PlatformPluginSnapshotReconciler (σ : Type) where
  host : σ
  appliedVersion : Nat
  appliedDigest : Option String
  lastGood : Option PlatformPluginSnapshot
  activePluginIds : List String
  deriving DecidableEq, Repr

structure ProfilePush (σ : Type) where
  activator : PlatformPluginActivator σ
  envelope : PlatformPluginEnvelope
  snapshot : PlatformPluginSnapshot

namespace PlatformPluginSnapshotReconciler

def new (host : σ) : PlatformPluginSnapshotReconciler σ where
  host := host
  appliedVersion := 0
  appliedDigest := none
  lastGood := none
  activePluginIds := []

variable (r : PlatformPluginSnapshotReconciler σ)

-- The checks of a push. The result is `none` if the push is acknowledged without applying it.
def check (p : ProfilePush σ) : Except String (Option (List (PluginActivation σ))) := do
  p.envelope.validateType
  ensure (p.envelope.snapshotDigest = p.snapshot.digest) "envelope digest does not match snapshot"
  p.snapshot.validate.mapError CoreError.toText
  ensure (r.appliedVersion ≤ p.envelope.version)
    s!"stale plugin profile version {p.envelope.version} < applied {r.appliedVersion}"
  if p.envelope.version = r.appliedVersion then
    ensure (r.appliedDigest = some p.snapshot.digest)
      "profile version reused with a different digest"
    return none
  else
    distinct (fun id => s!"duplicate plugin id: {id}") [] (p.snapshot.plugins.map (·.id))
    let prepared ← p.activator.prepareAll p.snapshot.plugins
    if idSet (p.snapshot.plugins.map (·.id)) = r.activePluginIds
        ∧ r.appliedDigest = some p.snapshot.digest then
      return none
    else
      return some prepared

def ack (envelope : PlatformPluginEnvelope) (activated : List String) : PluginApplyReceipt where
  version := envelope.version
  nonce := envelope.nonce
  digest := envelope.snapshotDigest
  status := .ack
  appliedVersion := r.appliedVersion
  error := none
  activated := activated

def nack (envelope : PlatformPluginEnvelope) (error : String) : PluginApplyReceipt where
  version := envelope.version
  nonce := envelope.nonce
  digest := envelope.snapshotDigest
  status := .nack
  appliedVersion := r.appliedVersion
  error := some error
  activated := []

def publish (p : ProfilePush σ) (prepared : List (PluginActivation σ))
    : PlatformPluginSnapshotReconciler σ :=
  let desiredIds := idSet (p.snapshot.plugins.map (·.id))
  let removed := r.activePluginIds.filter (!desiredIds.contains ·)
  let host := removed.foldl (fun host id => p.activator.deactivate id host) r.host
  { host := prepared.foldl (fun host activation => activation.activate host) host
    appliedVersion := p.envelope.version
    appliedDigest := some p.snapshot.digest
    lastGood := some p.snapshot
    activePluginIds := idSet (prepared.map (·.pluginId)) }

def reconcile (p : ProfilePush σ) : PlatformPluginSnapshotReconciler σ × PluginApplyReceipt :=
  match r.check p with
  | .error error => (r, r.nack p.envelope error)
  | .ok none => (r, r.ack p.envelope [])
  | .ok (some prepared) =>
    let r := r.publish p prepared
    (r, r.ack p.envelope (prepared.map (·.pluginId)))

structure Republishes (p : ProfilePush σ) : Prop where
  typeUrl : p.envelope.validateType = .ok ()
  digest : p.envelope.snapshotDigest = p.snapshot.digest
  valid : p.snapshot.validate = .ok ()
  newer : r.appliedVersion < p.envelope.version
  distinctIds : (p.snapshot.plugins.map (·.id)).Nodup
  prepared : ∃ prepared, p.activator.prepareAll p.snapshot.plugins = .ok prepared
  sameIds : idSet (p.snapshot.plugins.map (·.id)) = r.activePluginIds
  sameDigest : r.appliedDigest = some p.snapshot.digest

variable {r} {p : ProfilePush σ}

theorem version_of_check {prepared : List (PluginActivation σ)}
    (h : r.check p = .ok (some prepared))
    : r.appliedVersion < p.envelope.version := by
  simp only [check, bind_eq_ok, ensure_eq_ok] at h
  rcases h with ⟨_, _, _, _, _, _, _, hle, h⟩
  split at h
  . simp [pure, Except.pure] at h
  . omega

theorem republishes_of_check (h : r.check p = .ok none)
    : p.envelope.version = r.appliedVersion ∨ r.Republishes p := by
  simp only [check, bind_eq_ok, ensure_eq_ok, mapError_eq_ok] at h
  rcases h with ⟨_, htype, _, hdigest, _, hvalid, _, hle, h⟩
  split at h
  . next hsame => exact .inl hsame
  . next hnot =>
    right
    simp only [bind_eq_ok] at h
    rcases h with ⟨_, hdistinct, prepared, hprepared, h⟩
    rw [distinct_eq_ok] at hdistinct
    split at h
    . next hsame =>
      exact ⟨htype, hdigest, hvalid, by omega, hdistinct.1, ⟨prepared, hprepared⟩, hsame.1, hsame.2⟩
    . simp [pure, Except.pure] at h

theorem check_of_republishes (h : r.Republishes p) : r.check p = .ok none := by
  rcases h.prepared with ⟨prepared, hprepared⟩
  have hnewer := h.newer
  simp only [check, bind_eq_ok, ensure_eq_ok, mapError_eq_ok]
  refine ⟨(), h.typeUrl, (), h.digest, (), h.valid, (), by omega, ?_⟩
  rw [if_neg (by omega)]
  simp only [bind_eq_ok]
  refine ⟨(), distinct_eq_ok.mpr ⟨h.distinctIds, by simp⟩, prepared, hprepared, ?_⟩
  rw [if_pos ⟨h.sameIds, h.sameDigest⟩]
  rfl

theorem reconcile_cases (r : PlatformPluginSnapshotReconciler σ) (p : ProfilePush σ)
    : (∃ error, r.reconcile p = (r, r.nack p.envelope error)) ∨
      (r.reconcile p = (r, r.ack p.envelope []) ∧
        (p.envelope.version = r.appliedVersion ∨ r.Republishes p)) ∨
      (∃ prepared, r.appliedVersion < p.envelope.version ∧
        r.reconcile p = (r.publish p prepared,
          (r.publish p prepared).ack p.envelope (prepared.map (·.pluginId)))) := by
  unfold reconcile
  split
  . next error _ => exact .inl ⟨error, rfl⟩
  . next hcheck => exact .inr (.inl ⟨rfl, republishes_of_check hcheck⟩)
  . next prepared hcheck => exact .inr (.inr ⟨prepared, version_of_check hcheck, rfl⟩)

abbrev ProfileEntry (σ : Type) :=
  Entry (PlatformPluginSnapshotReconciler σ) (ProfilePush σ) PluginApplyReceipt

def profileTranscript (host : σ) (pushes : List (ProfilePush σ)) : List (ProfileEntry σ) :=
  transcript reconcile (new host) pushes

structure ProfileSound (past : List (ProfileEntry σ)) (e : ProfileEntry σ) : Prop where
  acked : e.reply.status = .ack → e.reply.appliedVersion = e.reply.version
  nacked : e.reply.status = .nack → e.after = e.before
  -- nothing is published under a version below one that was acknowledged
  stale : ∀ old ∈ past, old.reply.status = .ack → e.request.envelope.version < old.reply.version →
    e.after = e.before

def AckedUpTo (past : List (ProfileEntry σ)) (r : PlatformPluginSnapshotReconciler σ) : Prop :=
  ∀ old ∈ past, old.reply.status = .ack → old.reply.version ≤ r.appliedVersion

theorem profileSound_reconcile {past : List (ProfileEntry σ)}
    {r : PlatformPluginSnapshotReconciler σ} {p : ProfilePush σ} (hpast : AckedUpTo past r)
    (hfresh : ¬ r.Republishes p)
    : ProfileSound past (entry reconcile r p) ∧
        AckedUpTo (past ++ [entry reconcile r p]) (r.reconcile p).1 := by
  have hconcat (r' : PlatformPluginSnapshotReconciler σ) (hle : r.appliedVersion ≤ r'.appliedVersion)
      (hnew : (r.reconcile p).2.status = .ack → (r.reconcile p).2.version ≤ r'.appliedVersion)
      : AckedUpTo (past ++ [entry reconcile r p]) r' := by
    intro old hold hack
    rw [List.mem_append, List.mem_singleton] at hold
    cases hold with
    | inl hold =>
      have := hpast old hold hack
      omega
    | inr hold =>
      rw [hold] at hack ⊢
      apply hnew hack
  have hcases := reconcile_cases r p
  cases hcases with
  | inl hnack =>
    rcases hnack with ⟨error, hnack⟩
    constructor
    . constructor <;> simp [entry, hnack, nack]
    . rw [hnack] at hconcat ⊢
      apply hconcat r (by omega)
      simp [nack]
  | inr hcases =>
    cases hcases with
    | inl hack =>
      rcases hack with ⟨hack, hsame⟩
      have hsame := hsame.resolve_right hfresh
      constructor
      . constructor <;> simp [entry, hack, ack, hsame]
      . rw [hack] at hconcat ⊢
        apply hconcat r (by omega)
        simp [ack, hsame]
    | inr hpublish =>
      rcases hpublish with ⟨prepared, hnewer, hpublish⟩
      constructor
      . constructor
        . simp [entry, hpublish, ack, publish]
        . simp [entry, hpublish, ack]
        . intro old hold hack hlower
          have hupTo := hpast old hold hack
          have hversion : p.envelope.version < old.reply.version := hlower
          omega
      . rw [hpublish] at hconcat ⊢
        apply hconcat
        . simp only [publish]
          omega
        . simp [ack, publish]

theorem profile_sound_iff (host : σ) (pushes : List (ProfilePush σ))
    : AtEach ProfileSound (profileTranscript host pushes)
        ↔
      ∀ e ∈ profileTranscript host pushes, ¬ e.before.Republishes e.request := by
  constructor
  . intro hsound e he hrepublishes
    rcases List.append_of_mem he with ⟨past, later, hsplit⟩
    have hacked := (hsound past e later hsplit).acked
    rw [eq_entry_of_mem he] at hacked
    have hnewer := hrepublishes.newer
    simp only [entry, reconcile, check_of_republishes hrepublishes, ack, true_implies] at hacked
    omega
  . intro hfresh
    have hstep (past : List (ProfileEntry σ)) (r : PlatformPluginSnapshotReconciler σ)
        (p : ProfilePush σ) (hpast : AckedUpTo past r) (hfresh : ¬ r.Republishes p) :=
      profileSound_reconcile hpast hfresh
    apply atEach_transcript hstep _ pushes hfresh
    simp [AckedUpTo]

def simpleHost : PlatformPluginActivator (List String) where
  prepare plugin := .ok { pluginId := plugin.id, activate := (plugin.id :: ·) }
  deactivate id active := active.erase id

def profilePush (version : Nat) (hexdigit : Char) (ids : List String) : ProfilePush (List String) :=
  let digest := String.ofList (List.replicate 64 hexdigit)
  { activator := simpleHost
    envelope := ⟨version, "", digest, platformPluginSnapshotTypeUrl⟩
    snapshot := ⟨1, "default", ids.map (⟨1, ·, "1.0.0", "wasm", "untrusted", [], [], ⟨"", ""⟩, ""⟩),
      digest⟩ }

/--
The profile `a` is published again as version 3, and then the late version 2 takes its place.
-/
theorem late_profile_published
    : ¬ AtEach ProfileSound (profileTranscript []
        [profilePush 1 'a' ["search"], profilePush 3 'a' ["search"], profilePush 2 'b' ["shell"]]) := by
  intro h
  have hlate := (h.get (n := 2) rfl).stale
    (entry reconcile ((new []).reconcile (profilePush 1 'a' ["search"])).1
      (profilePush 3 'a' ["search"]))
    (by simp [profileTranscript, transcript]) (by decide) (by decide)
  revert hlate
  decide

end PlatformPluginSnapshotReconciler

end Plugin
end MemStack
