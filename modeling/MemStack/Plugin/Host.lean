import MemStack.Util.Dict
import MemStack.Util.Machine
import MemStack.Plugin.Convergence

/-!
This module contains the plugin host (`plugin-host/host.rs`), which enables and disables plugins on a
registry that nobody else writes to.
-/

namespace MemStack
namespace Plugin

open History Machine

structure PluginManifest where
  name : String
  tools : List ToolDecl
  deriving DecidableEq, Repr

def PluginManifest.toolNames (manifest : PluginManifest) : List String :=
  manifest.tools.map (·.name)

variable {τ : Type} [Tool τ]

structure PluginHost (τ : Type) [Tool τ] where
  registry : ToolRegistry τ
  enabled : Dict String (List String)

inductive HostRequest (τ : Type) [Tool τ] where
  | enable (manifest : PluginManifest) (factory : ToolFactory τ)
  | disable (pluginName : String)

namespace PluginHost

def new (registry : ToolRegistry τ) : PluginHost τ :=
  { registry, enabled := .empty }

def isEnabled (host : PluginHost τ) (name : String) : Bool :=
  (host.enabled.get name).isSome

def registerAll (factory : ToolFactory τ) (registry : ToolRegistry τ) (registered : List String)
    : List ToolDecl → ToolRegistry τ × Except CoreError (List String)
  | [] => (registry, .ok registered)
  | decl :: decls =>
    match factory.build decl with
    | .error e => (registry, .error e)
    | .ok tool => registerAll factory (registry.withInserted tool) (registered ++ [decl.name]) decls

def enable (host : PluginHost τ) (manifest : PluginManifest) (factory : ToolFactory τ)
    : PluginHost τ × Except CoreError (List String) :=
  if host.isEnabled manifest.name then
    (host, .error (.tool s!"plugin already enabled: {manifest.name}"))
  else
    match registerAll factory host.registry [] manifest.tools with
    | (registry, .error e) => ({ host with registry }, .error e)
    | (registry, .ok registered) =>
      ({ registry, enabled := host.enabled.set manifest.name registered }, .ok registered)

def disable (host : PluginHost τ) (pluginName : String) : PluginHost τ × List String :=
  let removed := (host.enabled.get pluginName).getD []
  ({
    registry := removed.foldl ToolRegistry.withRemoved host.registry
    enabled := host.enabled.erase pluginName
  }, removed)

def step (host : PluginHost τ)
    : HostRequest τ → PluginHost τ × Except CoreError (List String)
  | .enable manifest factory => host.enable manifest factory
  | .disable pluginName => ((host.disable pluginName).1, .ok (host.disable pluginName).2)

end PluginHost

abbrev HostEntry (τ : Type) [Tool τ] :=
  Entry (PluginHost τ) (HostRequest τ) (Except CoreError (List String))

def manifestsAfter (manifests : Dict String PluginManifest) (e : HostEntry τ)
    : Dict String PluginManifest :=
  match e.request, e.reply with
  | .enable manifest _, .ok _ => manifests.set manifest.name manifest
  | .enable _ _, .error _ => manifests
  | .disable pluginName, _ => manifests.erase pluginName

def manifests (past : List (HostEntry τ)) : Dict String PluginManifest :=
  past.foldl manifestsAfter .empty

structure ExactlyDeclared (past : List (HostEntry τ)) (e : HostEntry τ) : Prop where
  names : ∀ name, name ∈ e.after.registry.names
      ↔
    ∃ plugin manifest, (manifests (past ++ [e])).get plugin = some manifest ∧
      name ∈ manifest.toolNames
  failed : ∀ manifest factory error, e.request = .enable manifest factory →
    e.reply = .error error →
    ∀ name, e.after.registry.get name = e.before.registry.get name
  disabled : ∀ plugin, e.request = .disable plugin →
    ∀ name, name ∈ e.before.registry.names → name ∉ e.after.registry.names →
    ∀ other manifest, other ≠ plugin → (manifests past).get other = some manifest →
    name ∉ manifest.toolNames

def ToolFactory.builtBefore (factory : ToolFactory τ) : List ToolDecl → List τ
  | [] => []
  | decl :: decls =>
    match factory.build decl with
    | .error _ => []
    | .ok tool => tool :: factory.builtBefore decls

def Undisturbed (host : PluginHost τ) : HostRequest τ → Prop
  | .enable manifest factory =>
    host.isEnabled manifest.name ∨ (∀ decl ∈ manifest.tools, ∃ t, factory.build decl = .ok t) ∨
      ∀ t ∈ factory.builtBefore manifest.tools, host.registry.get (Tool.name t) = some t
  | .disable plugin =>
    ∀ names, host.enabled.get plugin = some names → ∀ name ∈ names,
      ∀ other names', other ≠ plugin → host.enabled.get other = some names' → name ∉ names'

theorem mem_names_foldl_withInserted (tools : List τ) (r : ToolRegistry τ) (name : String)
    : name ∈ (tools.foldl ToolRegistry.withInserted r).names
        ↔
      name ∈ tools.map Tool.name ∨ name ∈ r.names := by
  induction tools generalizing r with
  | nil => simp
  | cons tool tools ih =>
    have hinserted : name ∈ (r.withInserted tool).names ↔ name = Tool.name tool ∨ name ∈ r.names := by
      rw [← not_iff_not, ToolRegistry.mem_names, ← ToolRegistry.get_eq_none]
      rw [ToolRegistry.get_withInserted, ToolRegistry.mem_names]
      split <;> simp_all [ToolRegistry.get_eq_none]
    rw [List.foldl_cons, ih, hinserted, List.map_cons, List.mem_cons]
    tauto

theorem mem_names_foldl_withRemoved (removed : List String) (r : ToolRegistry τ) (name : String)
    : name ∈ (removed.foldl ToolRegistry.withRemoved r).names
        ↔
      name ∈ r.names ∧ name ∉ removed := by
  rw [← not_iff_not, ToolRegistry.mem_names, ← ToolRegistry.get_eq_none]
  rw [ToolRegistry.get_foldl_withRemoved, ToolRegistry.mem_names]
  split <;> simp_all [ToolRegistry.get_eq_none]

theorem get_foldl_withInserted_of_registered {tools : List τ} {r : ToolRegistry τ}
    (h : ∀ t ∈ tools, r.get (Tool.name t) = some t) (name : String)
    : (tools.foldl ToolRegistry.withInserted r).get name = r.get name := by
  induction tools generalizing r with
  | nil => rfl
  | cons tool tools ih =>
    have hinserted (name : String) : (r.withInserted tool).get name = r.get name := by
      rw [ToolRegistry.get_withInserted]
      split
      . next heq =>
        rw [heq]
        exact (h tool List.mem_cons_self).symm
      . rfl
    rw [List.foldl_cons, ih, hinserted]
    intro t ht
    rw [hinserted]
    apply h
    apply List.mem_cons_of_mem _ ht

namespace PluginHost

theorem registerAll_registry (factory : ToolFactory τ) (registry : ToolRegistry τ)
    (registered : List String) (decls : List ToolDecl)
    : (registerAll factory registry registered decls).1
        =
      (factory.builtBefore decls).foldl ToolRegistry.withInserted registry := by
  induction decls generalizing registry registered with
  | nil => rfl
  | cons decl decls ih =>
    unfold registerAll ToolFactory.builtBefore
    cases factory.build decl with
    | error e => rfl
    | ok tool => apply ih

theorem registerAll_ok {factory : ToolFactory τ} {registry : ToolRegistry τ}
    {registered names : List String} {decls : List ToolDecl}
    (h : (registerAll factory registry registered decls).2 = .ok names)
    : names = registered ++ decls.map (·.name) ∧
      (factory.builtBefore decls).map Tool.name = decls.map (·.name) := by
  induction decls generalizing registry registered with
  | nil =>
    cases h
    simp [ToolFactory.builtBefore]
  | cons decl decls ih =>
    unfold registerAll at h
    unfold ToolFactory.builtBefore
    cases hbuild : factory.build decl with
    | error e => simp [hbuild] at h
    | ok tool =>
      rw [hbuild] at h
      have ih := ih h
      simp [ih.1, ih.2, factory.name_build decl tool hbuild]

theorem registerAll_error {factory : ToolFactory τ} {registry : ToolRegistry τ}
    {registered : List String} {decls : List ToolDecl} {e : CoreError}
    (h : (registerAll factory registry registered decls).2 = .error e)
    : ¬ ∀ decl ∈ decls, ∃ t, factory.build decl = .ok t := by
  intro hall
  induction decls generalizing registry registered with
  | nil => cases h
  | cons decl decls ih =>
    rcases hall decl List.mem_cons_self with ⟨tool, hbuild⟩
    unfold registerAll at h
    rw [hbuild] at h
    apply ih h
    intro d hd
    apply hall d
    apply List.mem_cons_of_mem _ hd

theorem enable_cases (host : PluginHost τ) (manifest : PluginManifest) (factory : ToolFactory τ)
    : (host.isEnabled manifest.name ∧ ∃ e, host.enable manifest factory = (host, .error e)) ∨
      (¬ host.isEnabled manifest.name ∧
        (¬ ∀ decl ∈ manifest.tools, ∃ t, factory.build decl = .ok t) ∧
        ∃ e, host.enable manifest factory = ({ host with
          registry := (factory.builtBefore manifest.tools).foldl ToolRegistry.withInserted host.registry
        }, .error e)) ∨
      (¬ host.isEnabled manifest.name ∧
        (factory.builtBefore manifest.tools).map Tool.name = manifest.toolNames ∧
        host.enable manifest factory = ({
          registry := (factory.builtBefore manifest.tools).foldl ToolRegistry.withInserted host.registry
          enabled := host.enabled.set manifest.name manifest.toolNames
        }, .ok manifest.toolNames)) := by
  have hregistry := registerAll_registry factory host.registry [] manifest.tools
  unfold enable
  split
  . next henabled => exact .inl ⟨henabled, _, rfl⟩
  . next henabled =>
    cases hrun : registerAll factory host.registry [] manifest.tools with
    | mk registry result =>
      have hresult : (registerAll factory host.registry [] manifest.tools).2 = result := by
        rw [hrun]
      rw [hrun] at hregistry
      cases result with
      | error e =>
        refine .inr (.inl ⟨henabled, registerAll_error hresult, e, ?_⟩)
        simp [← hregistry]
      | ok names =>
        have hok := registerAll_ok hresult
        refine .inr (.inr ⟨henabled, hok.2, ?_⟩)
        simp [← hregistry, hok.1, PluginManifest.toolNames]

end PluginHost

structure HostInv (past : List (HostEntry τ)) (host : PluginHost τ) : Prop where
  enabled : ∀ plugin, host.enabled.get plugin
      =
    ((manifests past).get plugin).map PluginManifest.toolNames
  names : ∀ name, name ∈ host.registry.names
      ↔
    ∃ plugin manifest, (manifests past).get plugin = some manifest ∧ name ∈ manifest.toolNames

theorem manifests_concat (past : List (HostEntry τ)) (e : HostEntry τ)
    : manifests (past ++ [e]) = manifestsAfter (manifests past) e := by
  simp [manifests]

theorem HostInv.start : HostInv [] (PluginHost.new ToolRegistry.new : PluginHost τ) where
  enabled := by simp [PluginHost.new, manifests]
  names := by simp [PluginHost.new, manifests, ToolRegistry.new, ToolRegistry.names]

variable {past : List (HostEntry τ)} {host : PluginHost τ}

theorem HostInv.unchanged (h : HostInv past host) {e : HostEntry τ} {host' : PluginHost τ}
    (hmanifests : manifestsAfter (manifests past) e = manifests past)
    (henabled : host'.enabled = host.enabled)
    (hget : ∀ name, host'.registry.get name = host.registry.get name)
    : HostInv (past ++ [e]) host' := by
  have hnames (name : String) : name ∈ host'.registry.names ↔ name ∈ host.registry.names := by
    rw [← not_iff_not, ToolRegistry.mem_names, ToolRegistry.mem_names]
    rw [← ToolRegistry.get_eq_none, ← ToolRegistry.get_eq_none, hget]
  constructor
  . intro plugin
    rw [henabled, manifests_concat, hmanifests, h.enabled]
  . intro name
    rw [hnames, manifests_concat, hmanifests, h.names]

theorem HostInv.enabled_step (h : HostInv past host) {e : HostEntry τ} {manifest : PluginManifest}
    {tools : List τ} (hnew : ¬ host.isEnabled manifest.name)
    (hmanifests : manifestsAfter (manifests past) e = (manifests past).set manifest.name manifest)
    (htools : tools.map Tool.name = manifest.toolNames)
    : HostInv (past ++ [e]) {
        registry := tools.foldl ToolRegistry.withInserted host.registry
        enabled := host.enabled.set manifest.name manifest.toolNames
      } := by
  have hfresh : (manifests past).get manifest.name = none := by
    unfold PluginHost.isEnabled at hnew
    rw [h.enabled] at hnew
    simpa using hnew
  constructor
  . intro plugin
    rw [manifests_concat, hmanifests, Dict.get_set, Dict.get_set, h.enabled]
    split <;> rfl
  . intro name
    rw [mem_names_foldl_withInserted, htools, h.names, manifests_concat, hmanifests]
    simp only [Dict.get_set]
    constructor
    . rintro (hname | ⟨plugin, manifest', hget, hname⟩)
      . exact ⟨manifest.name, manifest, by simp, hname⟩
      . refine ⟨plugin, manifest', ?_, hname⟩
        rw [if_neg, hget]
        intro heq
        rw [heq, hfresh] at hget
        cases hget
    . rintro ⟨plugin, manifest', hget, hname⟩
      split at hget
      . cases hget
        exact .inl hname
      . exact .inr ⟨plugin, manifest', hget, hname⟩

theorem HostInv.disabled_step (h : HostInv past host) {e : HostEntry τ} {plugin : String}
    (hclean : Undisturbed host (.disable plugin))
    (hmanifests : manifestsAfter (manifests past) e = (manifests past).erase plugin)
    : HostInv (past ++ [e]) (host.disable plugin).1 := by
  constructor
  . intro other
    unfold PluginHost.disable
    rw [manifests_concat, hmanifests, Dict.get_erase, Dict.get_erase, h.enabled]
    split <;> rfl
  . intro name
    unfold PluginHost.disable
    rw [mem_names_foldl_withRemoved, h.names, manifests_concat, hmanifests]
    simp only [Dict.get_erase]
    constructor
    . rintro ⟨⟨other, manifest, hget, hname⟩, hkept⟩
      refine ⟨other, manifest, ?_, hname⟩
      rw [if_neg, hget]
      intro heq
      apply hkept
      rw [← heq, h.enabled, hget]
      exact hname
    . rintro ⟨other, manifest, hget, hname⟩
      split at hget
      . cases hget
      . next hother =>
        refine ⟨⟨other, manifest, hget, hname⟩, ?_⟩
        intro hremoved
        cases hplugin : host.enabled.get plugin with
        | none => simp [hplugin] at hremoved
        | some names =>
          rw [hplugin] at hremoved
          apply hclean names hplugin name hremoved other manifest.toolNames hother _ hname
          rw [h.enabled, hget]
          rfl

theorem HostInv.step (h : HostInv past host) (q : HostRequest τ) (hclean : Undisturbed host q)
    : ExactlyDeclared past (entry PluginHost.step host q) ∧
      HostInv (past ++ [entry PluginHost.step host q]) (host.step q).1 := by
  cases q with
  | enable manifest factory =>
    have hstep : host.step (.enable manifest factory) = host.enable manifest factory := rfl
    rcases host.enable_cases manifest factory with ⟨_, e, heq⟩ | ⟨hnew, hfails, e, heq⟩ | ⟨hnew, hnames, heq⟩
    . have hinv : HostInv (past ++ [entry PluginHost.step host (.enable manifest factory)])
          (host.step (.enable manifest factory)).1 := by
        apply h.unchanged <;> simp [manifestsAfter, entry, hstep, heq]
      exact ⟨{
        names := hinv.names
        failed := by simp [entry, hstep, heq]
        disabled := by simp [entry]
      }, hinv⟩
    . have hregistered : ∀ t ∈ factory.builtBefore manifest.tools,
          host.registry.get (Tool.name t) = some t := by
        simpa [Undisturbed, hnew, hfails] using hclean
      have hget := get_foldl_withInserted_of_registered hregistered
      have hinv : HostInv (past ++ [entry PluginHost.step host (.enable manifest factory)])
          (host.step (.enable manifest factory)).1 := by
        apply h.unchanged
        . simp [manifestsAfter, entry, hstep, heq]
        . simp [hstep, heq]
        . simpa [hstep, heq] using hget
      exact ⟨{
        names := hinv.names
        failed := by
          intro _ _ _ _ _ name
          simp only [entry, hstep, heq, hget]
        disabled := by simp [entry]
      }, hinv⟩
    . have hinv : HostInv (past ++ [entry PluginHost.step host (.enable manifest factory)])
          (host.step (.enable manifest factory)).1 := by
        rw [hstep, heq]
        apply h.enabled_step hnew _ hnames
        simp [manifestsAfter, entry, hstep, heq]
      exact ⟨{
        names := hinv.names
        failed := by simp [entry, hstep, heq]
        disabled := by simp [entry]
      }, hinv⟩
  | disable plugin =>
    have hinv : HostInv (past ++ [entry PluginHost.step host (.disable plugin)])
        (host.step (.disable plugin)).1 := by
      apply h.disabled_step hclean
      simp [manifestsAfter, entry]
    refine ⟨{
      names := hinv.names
      failed := by simp [entry]
      disabled := ?_
    }, hinv⟩
    intro plugin' hrequest name _ hgone other manifest hother hget hname
    cases hrequest
    apply hgone
    apply (hinv.names name).mpr
    refine ⟨other, manifest, ?_, hname⟩
    rw [manifests_concat]
    simp [manifestsAfter, entry, hother, hget]

/--
What a run leaves registered, as long as no failing request had replaced a tool and no plugin is
disabled while another one contributes a tool of the same name.
-/
theorem registered_exactly_declared (requests : List (HostRequest τ))
    (hclean : ∀ e ∈ transcript PluginHost.step (PluginHost.new ToolRegistry.new) requests,
      Undisturbed e.before e.request)
    : AtEach ExactlyDeclared
        (transcript PluginHost.step (PluginHost.new ToolRegistry.new) requests) := by
  have hstep (past : List (HostEntry τ)) (host : PluginHost τ) (q : HostRequest τ)
      (h : HostInv past host) (hq : Undisturbed host q) :=
    h.step q hq
  apply atEach_transcript hstep HostInv.start
  apply hclean

def wasmFactory : ToolFactory ToolDecl where
  build decl :=
    if decl.wat = none then
      .error (.tool s!"wasm tool '{decl.name}' has no `wat` in manifest")
    else
      .ok decl
  name_build := by
    intro d t h
    split at h <;> cases h
    rfl
  version_build := by
    intro d t h
    split at h <;> cases h
    rfl

def summarize : ToolDecl :=
  { name := "summarize", version := "1.0.0", trust := "wasm", wat := none }

theorem registered_exactly_declared_greet
    : AtEach ExactlyDeclared (transcript PluginHost.step (PluginHost.new ToolRegistry.new) [
        .enable { name := "a", tools := [greet "(module)"] } wasmFactory,
        .enable { name := "b", tools := [greet "(module)", summarize] } wasmFactory,
        .disable "a"]) := by
  apply registered_exactly_declared
  intro e he
  simp only [transcript, List.mem_cons, List.not_mem_nil, or_false] at he
  rcases he with rfl | rfl | rfl
  . refine .inr (.inl ?_)
    intro decl hdecl
    exact ⟨decl, by simp_all [wasmFactory, greet]⟩
  . refine .inr (.inr ?_)
    intro t ht
    have : t = greet "(module)" := by
      simpa [entry, wasmFactory, ToolFactory.builtBefore, greet, summarize] using ht
    rw [this]
    rfl
  . intro names hnames name hname other names' hother hother'
    have : other = "a" := by
      have hkeys : other ∈ ["a"] := Dict.mem_keys.mpr ⟨names', hother'⟩
      simpa using hkeys
    exact absurd this hother

/--
In one run the second declaration of a manifest fails, in the other two plugins contribute a tool
of one name.
-/
theorem registered_not_declared
    : (¬ AtEach ExactlyDeclared (transcript PluginHost.step (PluginHost.new ToolRegistry.new) [
        .enable { name := "a", tools := [greet "(module)", summarize] } wasmFactory])) ∧
      ¬ AtEach ExactlyDeclared (transcript PluginHost.step (PluginHost.new ToolRegistry.new) [
        .enable { name := "a", tools := [greet "(module)"] } wasmFactory,
        .enable { name := "b", tools := [greet "(module)"] } wasmFactory,
        .disable "b"]) := by
  constructor
  . intro h
    have hfailed := (h.get (n := 0) rfl).failed _ _ _ rfl rfl "greet"
    revert hfailed
    decide
  . intro h
    have hnames := ((h.get (n := 2) rfl).names "greet").mpr
    have hgone := hnames ⟨"a", { name := "a", tools := [greet "(module)"] }, by decide, by decide⟩
    revert hgone
    decide

end Plugin
end MemStack
