import MemStack.Util.Machine
import MemStack.Util.Checked
import MemStack.Port.CoreError
import MemStack.Plugin.Registry

/-!
This module contains the control plane (`plugin-host/control_plane.rs`), which publishes versioned
sets of tool declarations, and the data plane (`plugin-host/reconcile.rs`), which brings a registry
in line with the snapshots it gets. What is on its way between them may be delivered in any order,
any number of times or not at all, and each delivery may find a factory that builds differently.
-/

namespace MemStack
namespace Plugin

open History Machine Checked

def toolRegistryTypeUrl : String :=
  "agi-stack/tool-registry/v1"

structure ToolDecl where
  name : String
  version : String
  trust : String
  wat : Option String
  deriving DecidableEq, Repr

structure ConfigSnapshot where
  typeUrl : String
  version : Nat
  nonce : String
  resources : List ToolDecl
  deriving DecidableEq, Repr

inductive ConfigAck where
  | ack (version : Nat) (nonce : String)
  | nack (version : Nat) (nonce : String) (error : String)
  deriving DecidableEq, Repr

structure ControlPlane where
  version : Nat
  nonceSeq : Nat
  desired : List ToolDecl
  deriving DecidableEq, Repr

namespace ControlPlane

def new : ControlPlane :=
  { version := 0, nonceSeq := 0, desired := [] }

def snapshot (c : ControlPlane) : ControlPlane × ConfigSnapshot :=
  let c := { c with nonceSeq := c.nonceSeq + 1 }
  (c, {
    typeUrl := toolRegistryTypeUrl
    version := c.version
    nonce := s!"nonce-{c.version}-{c.nonceSeq}"
    resources := c.desired
  })

def publish (c : ControlPlane) (tools : List ToolDecl) : ControlPlane × ConfigSnapshot :=
  snapshot { c with version := c.version + 1, desired := tools }

end ControlPlane

structure ReconcileOutcome where
  added : List String
  removed : List String
  updated : List String
  deriving DecidableEq, Repr

namespace ReconcileOutcome

def default : ReconcileOutcome :=
  { added := [], removed := [], updated := [] }

def isNoop (o : ReconcileOutcome) : Bool :=
  o.added.isEmpty && o.removed.isEmpty && o.updated.isEmpty

end ReconcileOutcome

variable {τ : Type} [Tool τ]

structure ToolFactory (τ : Type) [Tool τ] where
  build : ToolDecl → Except CoreError τ
  name_build : ∀ d t, build d = .ok t → Tool.name t = d.name
  version_build : ∀ d t, build d = .ok t → Tool.version t = d.version

def ToolFactory.buildAll (factory : ToolFactory τ) : List ToolDecl → Except String (List τ)
  | [] => .ok []
  | decl :: decls =>
    match factory.build decl with
    | .ok tool => (factory.buildAll decls).map (tool :: ·)
    | .error e => .error s!"build failed for {decl.name}: {e.toText}"

structure DataPlaneReconciler (τ : Type) [Tool τ] where
  registry : ToolRegistry τ
  appliedVersion : Nat
  lastGood : List ToolDecl

namespace DataPlaneReconciler

def new (registry : ToolRegistry τ) : DataPlaneReconciler τ :=
  { registry, appliedVersion := 0, lastGood := [] }

variable (r : DataPlaneReconciler τ)

def observed (name : String) : Option String :=
  (r.registry.get name).map Tool.version

def desired (s : ConfigSnapshot) : List ToolDecl :=
  s.resources.insertionSort (·.name ≤ ·.name)

def toAdd (s : ConfigSnapshot) : List ToolDecl :=
  (desired s).filter fun d => r.observed d.name = none

def toUpdate (s : ConfigSnapshot) : List ToolDecl :=
  (desired s).filter fun d => r.observed d.name ≠ none ∧ r.observed d.name ≠ some d.version

def toRemove (s : ConfigSnapshot) : List String :=
  r.registry.names.filter fun name => !s.resources.any (·.name = name)

def check (s : ConfigSnapshot) (factory : ToolFactory τ) : Except String (List τ) := do
  ensure (s.typeUrl = toolRegistryTypeUrl) s!"unknown type_url: {s.typeUrl}"
  distinct (fun name => s!"duplicate tool name: {name}") [] (s.resources.map (·.name))
  ensure (r.appliedVersion ≤ s.version) s!"stale version {s.version} < applied {r.appliedVersion}"
  factory.buildAll (r.toAdd s ++ r.toUpdate s)

def apply (s : ConfigSnapshot) (built : List τ) : DataPlaneReconciler τ where
  registry :=
    (r.toRemove s).foldl ToolRegistry.withRemoved
      (built.foldl ToolRegistry.withInserted r.registry)
  appliedVersion := s.version
  lastGood := s.resources

def outcome (s : ConfigSnapshot) : ReconcileOutcome where
  added := ((r.toAdd s).map (·.name)).insertionSort (· ≤ ·)
  removed := (r.toRemove s).insertionSort (· ≤ ·)
  updated := ((r.toUpdate s).map (·.name)).insertionSort (· ≤ ·)

def reconcile (s : ConfigSnapshot) (factory : ToolFactory τ)
    : DataPlaneReconciler τ × ConfigAck × ReconcileOutcome :=
  match r.check s factory with
  | .error error => (r, .nack s.version s.nonce error, .default)
  | .ok built => (r.apply s built, .ack s.version s.nonce, r.outcome s)

end DataPlaneReconciler

theorem ToolFactory.map_name_buildAll {factory : ToolFactory τ} {decls : List ToolDecl}
    {built : List τ} (h : factory.buildAll decls = .ok built)
    : built.map Tool.name = decls.map (·.name) := by
  induction decls generalizing built with
  | nil =>
    cases h
    rfl
  | cons d decls ih =>
    unfold buildAll at h
    split at h
    . next t ht =>
      cases hrest : factory.buildAll decls with
      | error e => simp [hrest, Except.map] at h
      | ok rest =>
        simp only [hrest, Except.map, Except.ok.injEq] at h
        rw [← h]
        simp [ih hrest, factory.name_build d t ht]
    . cases h

theorem ToolFactory.find_buildAll {factory : ToolFactory τ} {decls : List ToolDecl}
    {built : List τ} (h : factory.buildAll decls = .ok built)
    (hnodup : (decls.map (·.name)).Nodup) {d : ToolDecl} (hd : d ∈ decls)
    : ∃ t, factory.build d = .ok t ∧ built.find? (Tool.name · = d.name) = some t := by
  induction decls generalizing built with
  | nil => cases hd
  | cons d' decls ih =>
    simp only [List.map_cons, List.nodup_cons] at hnodup
    unfold buildAll at h
    split at h
    . next t ht =>
      have hname := factory.name_build d' t ht
      cases hrest : factory.buildAll decls with
      | error e => simp [hrest, Except.map] at h
      | ok rest =>
        simp only [hrest, Except.map, Except.ok.injEq] at h
        rw [← h]
        rw [List.mem_cons] at hd
        cases hd with
        | inl hd =>
          rw [hd]
          refine ⟨t, ht, ?_⟩
          simp [hname]
        | inr hd =>
          rcases ih hrest hnodup.2 hd with ⟨t', ht', hfind⟩
          have hne : ¬ d'.name = d.name := by
            intro heq
            apply hnodup.1
            rw [heq]
            apply List.mem_map_of_mem hd
          refine ⟨t', ht', ?_⟩
          simp [hname, hne, hfind]
    . cases h

namespace DataPlaneReconciler

variable {r : DataPlaneReconciler τ} {s : ConfigSnapshot} {factory : ToolFactory τ}

structure Checked (r : DataPlaneReconciler τ) (s : ConfigSnapshot) (factory : ToolFactory τ)
    (built : List τ) : Prop where
  typeUrl : s.typeUrl = toolRegistryTypeUrl
  distinctNames : (s.resources.map (·.name)).Nodup
  current : r.appliedVersion ≤ s.version
  built : factory.buildAll (r.toAdd s ++ r.toUpdate s) = .ok built

theorem check_eq_ok {built : List τ} : r.check s factory = .ok built ↔ r.Checked s factory built := by
  simp only [check, bind_eq_ok, ensure_eq_ok, distinct_eq_ok]
  constructor
  . rintro ⟨_, htype, _, hdistinct, _, hcurrent, hbuilt⟩
    exact ⟨htype, hdistinct.1, hcurrent, hbuilt⟩
  . intro h
    exact ⟨(), h.typeUrl, (), ⟨h.distinctNames, by simp⟩, (), h.current, h.built⟩

theorem mem_changed {d : ToolDecl}
    : d ∈ r.toAdd s ++ r.toUpdate s
        ↔
      d ∈ s.resources ∧ r.observed d.name ≠ some d.version := by
  simp only [toAdd, toUpdate, desired, List.mem_append, List.mem_filter, List.mem_insertionSort,
    decide_eq_true_eq]
  cases r.observed d.name <;> simp

theorem nodup_changed (h : (s.resources.map (·.name)).Nodup)
    : ((r.toAdd s ++ r.toUpdate s).map (·.name)).Nodup := by
  have hdesired : ((desired s).map (·.name)).Nodup := by
    rw [desired, ((List.perm_insertionSort _ _).map _).nodup_iff]
    exact h
  rw [List.map_append, List.nodup_append]
  refine ⟨(List.filter_sublist.map _).nodup hdesired, (List.filter_sublist.map _).nodup hdesired, ?_⟩
  intro name hname name' hname' heq
  simp only [toAdd, toUpdate, List.mem_map, List.mem_filter, decide_eq_true_eq] at hname hname'
  grind

theorem mem_toRemove {name : String}
    : name ∈ r.toRemove s ↔ r.registry.get name ≠ none ∧ name ∉ s.resources.map (·.name) := by
  simp only [toRemove, List.mem_filter, ToolRegistry.mem_names, ne_eq, ToolRegistry.get_eq_none]
  simp

theorem get_apply {built : List τ} (h : r.Checked s factory built) (name : String)
    : (r.apply s built).registry.get name
        =
      if name ∈ r.toRemove s then
        none
      else
        (built.find? (Tool.name · = name)).or (r.registry.get name) := by
  have hnodup : (built.map Tool.name).Nodup := by
    rw [ToolFactory.map_name_buildAll h.built]
    apply nodup_changed h.distinctNames
  rw [apply, ToolRegistry.get_foldl_withRemoved, ToolRegistry.get_foldl_withInserted hnodup]

structure Converged (r : DataPlaneReconciler τ) (s : ConfigSnapshot) (factory : ToolFactory τ)
    (registry : ToolRegistry τ) : Prop where
  kept : ∀ d ∈ s.resources, ∀ t, r.registry.get d.name = some t → Tool.version t = d.version →
    registry.get d.name = some t
  built : ∀ d ∈ s.resources, r.observed d.name ≠ some d.version →
    ∃ t, factory.build d = .ok t ∧ registry.get d.name = some t
  only : ∀ t ∈ registry.tools, ∃ d ∈ s.resources, d.name = Tool.name t

theorem converged_apply {built : List τ} (h : r.Checked s factory built)
    : r.Converged s factory (r.apply s built).registry := by
  have hstays {d : ToolDecl} (hd : d ∈ s.resources) : d.name ∉ r.toRemove s := by
    rw [mem_toRemove]
    intro hremove
    apply hremove.2
    apply List.mem_map_of_mem hd
  constructor
  . intro d hd t ht hversion
    rw [get_apply h, if_neg (hstays hd)]
    have hunchanged : d.name ∉ built.map Tool.name := by
      rw [ToolFactory.map_name_buildAll h.built, List.mem_map]
      rintro ⟨d', hd', hname⟩
      rw [mem_changed] at hd'
      have heq := List.inj_on_of_nodup_map h.distinctNames hd'.1 hd hname
      apply hd'.2
      simp [heq, observed, ht, hversion]
    have hnone : built.find? (Tool.name · = d.name) = none := by
      simpa using hunchanged
    simp [hnone, ht]
  . intro d hd hchanged
    rw [get_apply h, if_neg (hstays hd)]
    have hmem := mem_changed.mpr ⟨hd, hchanged⟩
    rcases ToolFactory.find_buildAll h.built (nodup_changed h.distinctNames) hmem with
      ⟨t, ht, hfind⟩
    refine ⟨t, ht, ?_⟩
    simp [hfind]
  . intro t ht
    have hget := ToolRegistry.get_eq_some.mpr ⟨ht, rfl⟩
    rw [get_apply h] at hget
    split at hget
    . cases hget
    . next hstays =>
      cases hfind : built.find? (Tool.name · = Tool.name t) with
      | some t' =>
        have hmem : Tool.name t' ∈ built.map Tool.name := by
          apply List.mem_map_of_mem (List.mem_of_find?_eq_some hfind)
        rw [ToolFactory.map_name_buildAll h.built, List.mem_map] at hmem
        rcases hmem with ⟨d, hd, hname⟩
        refine ⟨d, (mem_changed.mp hd).1, ?_⟩
        rw [hname]
        simpa using List.find?_some hfind
      | none =>
        simp only [hfind, Option.none_or] at hget
        rw [mem_toRemove] at hstays
        simpa [hget] using hstays

structure InLine (registry : ToolRegistry τ) (decls : List ToolDecl) : Prop where
  distinctNames : (decls.map (·.name)).Nodup
  declared : ∀ d ∈ decls, ∃ t, registry.get d.name = some t ∧ Tool.version t = d.version
  only : ∀ t ∈ registry.tools, ∃ d ∈ decls, d.name = Tool.name t

theorem Converged.inLine {registry : ToolRegistry τ} (h : r.Converged s factory registry)
    (hdistinct : (s.resources.map (·.name)).Nodup)
    : InLine registry s.resources := by
  refine ⟨hdistinct, ?_, h.only⟩
  intro d hd
  by_cases hchanged : r.observed d.name = some d.version
  . rw [observed, Option.map_eq_some_iff] at hchanged
    rcases hchanged with ⟨t, ht, hversion⟩
    exact ⟨t, h.kept d hd t ht hversion, hversion⟩
  . rcases h.built d hd hchanged with ⟨t, ht, hget⟩
    exact ⟨t, hget, factory.version_build d t ht⟩

theorem reconcile_of_inLine (hline : InLine r.registry r.lastGood)
    (htype : s.typeUrl = toolRegistryTypeUrl) (hversion : s.version = r.appliedVersion)
    (hresources : s.resources = r.lastGood) (factory : ToolFactory τ)
    : r.reconcile s factory = (r, .ack s.version s.nonce, .default) := by
  have hchanged : r.toAdd s ++ r.toUpdate s = [] := by
    rw [List.eq_nil_iff_forall_not_mem]
    intro d hd
    rw [mem_changed, hresources] at hd
    rcases hline.declared d hd.1 with ⟨t, ht, hversion⟩
    apply hd.2
    simp [observed, ht, hversion]
  have hremove : r.toRemove s = [] := by
    rw [List.eq_nil_iff_forall_not_mem]
    intro name hname
    rw [mem_toRemove, hresources, Option.ne_none_iff_exists'] at hname
    rcases hname with ⟨⟨t, ht⟩, hname⟩
    rw [ToolRegistry.get_eq_some] at ht
    rcases hline.only t ht.1 with ⟨d, hd, hsame⟩
    apply hname
    rw [← ht.2, ← hsame]
    apply List.mem_map_of_mem hd
  have hcheck : r.check s factory = .ok [] := by
    rw [check_eq_ok]
    refine ⟨htype, ?_, by omega, ?_⟩
    . rw [hresources]
      apply hline.distinctNames
    . rw [hchanged]
      rfl
  have happly : r.apply s [] = r := by
    simp only [apply, hremove, List.foldl_nil, hversion, hresources]
  rw [List.append_eq_nil_iff] at hchanged
  simp [reconcile, hcheck, happly, outcome, hchanged, hremove, ReconcileOutcome.default]

theorem reconcile_cases (r : DataPlaneReconciler τ) (s : ConfigSnapshot) (factory : ToolFactory τ)
    : (∃ error, r.reconcile s factory = (r, .nack s.version s.nonce error, .default)) ∨
      (∃ built, r.Checked s factory built ∧
        r.reconcile s factory = (r.apply s built, .ack s.version s.nonce, r.outcome s)) := by
  unfold reconcile
  split
  . next error _ => exact .inl ⟨error, rfl⟩
  . next built hcheck => exact .inr ⟨built, check_eq_ok.mp hcheck, rfl⟩

end DataPlaneReconciler

end Plugin
end MemStack
