import MemStack.Plugin.DataPlane

/-!
This module contains the system of one control plane and one data plane, and what holds of the data
plane for every history of publications, resends and deliveries.
-/

namespace MemStack
namespace Plugin

open History Machine DataPlaneReconciler

variable {τ : Type} [Tool τ]

structure System (τ : Type) [Tool τ] where
  control : ControlPlane
  -- all snapshots the control plane handed over to the transport
  emitted : List ConfigSnapshot
  dataPlane : DataPlaneReconciler τ

inductive Action (τ : Type) [Tool τ] where
  | publish (tools : List ToolDecl)
  | snapshot
  | deliver (index : Nat) (factory : ToolFactory τ)

structure Delivery where
  snapshot : ConfigSnapshot
  answer : ConfigAck
  outcome : ReconcileOutcome
  deriving DecidableEq, Repr

namespace Delivery

def Acked (d : Delivery) : Prop :=
  d.answer = .ack d.snapshot.version d.snapshot.nonce

def Nacked (d : Delivery) : Prop :=
  ∃ error, d.answer = .nack d.snapshot.version d.snapshot.nonce error

end Delivery

namespace System

def start : System τ :=
  { control := .new, emitted := [], dataPlane := .new .new }

def step (sys : System τ) : Action τ → System τ × Option Delivery
  | .publish tools =>
    let (control, snapshot) := sys.control.publish tools
    ({ sys with control, emitted := sys.emitted ++ [snapshot] }, none)
  | .snapshot =>
    let (control, snapshot) := sys.control.snapshot
    ({ sys with control, emitted := sys.emitted ++ [snapshot] }, none)
  | .deliver index factory =>
    match sys.emitted[index]? with
    | none => (sys, none)
    | some snapshot =>
      let (dataPlane, answer, outcome) := sys.dataPlane.reconcile snapshot factory
      ({ sys with dataPlane }, some { snapshot, answer, outcome })

end System

abbrev SystemEntry (τ : Type) [Tool τ] :=
  Entry (System τ) (Action τ) (Option Delivery)

structure DeliverySound (past : List (SystemEntry τ)) (e : SystemEntry τ) : Prop where
  monotone : e.before.dataPlane.appliedVersion ≤ e.after.dataPlane.appliedVersion
  nacked : ∀ d, e.reply = some d → d.Nacked → e.after.dataPlane = e.before.dataPlane
  acked : ∀ d index factory, e.reply = some d → d.Acked → e.request = .deliver index factory →
    e.before.dataPlane.Converged d.snapshot factory e.after.dataPlane.registry
  redelivered : ∀ d, e.reply = some d →
    d.snapshot.version = e.before.dataPlane.appliedVersion →
      d.Acked ∧ d.outcome.isNoop ∧ e.after.dataPlane = e.before.dataPlane
  stale : ∀ d, e.reply = some d →
    d.snapshot.version < e.before.dataPlane.appliedVersion → d.Nacked
  settled : ∀ old ∈ past, ∀ d, old.reply = some d → d.Acked →
    d.snapshot.version = e.before.control.version →
      d.snapshot.resources = e.before.control.desired ∧ e.after.dataPlane = old.after.dataPlane

structure Emitted (control : ControlPlane) (emitted : List ConfigSnapshot) : Prop where
  typeUrl : ∀ s ∈ emitted, s.typeUrl = toolRegistryTypeUrl
  version : ∀ s ∈ emitted, s.version ≤ control.version
  current : ∀ s ∈ emitted, s.version = control.version → s.resources = control.desired
  agree : ∀ s ∈ emitted, ∀ s' ∈ emitted, s.version = s'.version → s.resources = s'.resources

structure Tracks (sys : System τ) : Prop where
  inLine : InLine sys.dataPlane.registry sys.dataPlane.lastGood
  version : sys.dataPlane.appliedVersion ≤ sys.control.version
  current : sys.dataPlane.appliedVersion = sys.control.version →
    sys.dataPlane.lastGood = sys.control.desired
  agree : ∀ s ∈ sys.emitted, s.version = sys.dataPlane.appliedVersion →
    s.resources = sys.dataPlane.lastGood

structure SystemInv (past : List (SystemEntry τ)) (sys : System τ) : Prop where
  emitted : Emitted sys.control sys.emitted
  tracks : Tracks sys
  acked : ∀ old ∈ past, ∀ d, old.reply = some d → d.Acked →
    d.snapshot.version ≤ sys.dataPlane.appliedVersion ∧
    (d.snapshot.version = sys.control.version →
      d.snapshot.resources = sys.control.desired ∧ old.after.dataPlane = sys.dataPlane)

section Inv

variable {past : List (SystemEntry τ)} {sys : System τ}

theorem SystemInv.start : SystemInv [] (System.start : System τ) := by
  constructor
  . constructor <;> simp [System.start]
  . constructor
    . constructor <;> simp [System.start, DataPlaneReconciler.new, ToolRegistry.new]
    . simp [System.start, DataPlaneReconciler.new]
    . simp [System.start, DataPlaneReconciler.new, ControlPlane.new]
    . simp [System.start]
  . simp

theorem SystemInv.sound_silent (h : SystemInv past sys) {e : SystemEntry τ} (hbefore : e.before = sys)
    (hafter : e.after.dataPlane = sys.dataPlane) (hreply : e.reply = none)
    : DeliverySound past e := by
  subst hbefore
  constructor
  . rw [hafter]
  . simp [hreply]
  . simp [hreply]
  . simp [hreply]
  . simp [hreply]
  . intro old hold d hd hack hversion
    rcases (h.acked old hold d hd hack).2 hversion with ⟨hresources, hsame⟩
    rw [hafter, hsame]
    exact ⟨hresources, rfl⟩

theorem SystemInv.append_silent (h : SystemInv past sys) {e : SystemEntry τ} (hreply : e.reply = none)
    : SystemInv (past ++ [e]) sys := by
  refine ⟨h.emitted, h.tracks, ?_⟩
  intro old hold d hd
  rw [List.mem_append, List.mem_singleton] at hold
  cases hold with
  | inl hold => apply h.acked old hold d hd
  | inr hold =>
    rw [hold, hreply] at hd
    cases hd

section Emit

variable {control : ControlPlane} {s : ConfigSnapshot}

theorem Emitted.resources_eq {old : ControlPlane} {emitted : List ConfigSnapshot}
    (h : Emitted old emitted) (hle : old.version ≤ control.version)
    (hsame : old.version = control.version → old.desired = control.desired) {s : ConfigSnapshot}
    (hs : s ∈ emitted) (heq : s.version = control.version)
    : s.resources = control.desired := by
  have := h.version s hs
  rw [h.current s hs (by omega), hsame (by omega)]

theorem Emitted.append {old : ControlPlane} {emitted : List ConfigSnapshot}
    (h : Emitted old emitted) (htype : s.typeUrl = toolRegistryTypeUrl)
    (hversion : s.version = control.version) (hresources : s.resources = control.desired)
    (hle : old.version ≤ control.version)
    (hsame : old.version = control.version → old.desired = control.desired)
    : Emitted control (emitted ++ [s]) := by
  have hcurrent (s' : ConfigSnapshot) (hs' : s' ∈ emitted ++ [s])
      (heq : s'.version = control.version)
      : s'.resources = control.desired := by
    rw [List.mem_append, List.mem_singleton] at hs'
    cases hs' with
    | inl hs' => apply h.resources_eq hle hsame hs' heq
    | inr hs' => rw [hs', hresources]
  constructor
  . simpa [or_imp, forall_and, htype] using h.typeUrl
  . intro s' hs'
    rw [List.mem_append, List.mem_singleton] at hs'
    cases hs' with
    | inl hs' =>
      have := h.version s' hs'
      omega
    | inr hs' => rw [hs', hversion]
  . exact hcurrent
  . intro s₁ hs₁ s₂ hs₂ heq
    by_cases hnew : s₁.version = control.version
    . rw [hcurrent s₁ hs₁ hnew, hcurrent s₂ hs₂ (by omega)]
    . have hold (s' : ConfigSnapshot) (hs' : s' ∈ emitted ++ [s])
          (hne : s'.version ≠ control.version)
          : s' ∈ emitted := by
        rw [List.mem_append, List.mem_singleton] at hs'
        cases hs' with
        | inl hs' => exact hs'
        | inr hs' =>
          rw [hs'] at hne
          cases hne hversion
      apply h.agree s₁ (hold s₁ hs₁ hnew) s₂ (hold s₂ hs₂ (by omega)) heq

theorem Tracks.emit (h : Tracks sys) (hversion : s.version = control.version)
    (hresources : s.resources = control.desired) (hle : sys.control.version ≤ control.version)
    (hsame : sys.control.version = control.version → sys.control.desired = control.desired)
    : Tracks { sys with control, emitted := sys.emitted ++ [s] } := by
  have happlied := h.version
  have hcurrent (heq : sys.dataPlane.appliedVersion = control.version)
      : sys.dataPlane.lastGood = control.desired := by
    rw [h.current (by omega), hsame (by omega)]
  constructor
  . apply h.inLine
  . apply happlied.trans hle
  . apply hcurrent
  . intro s' hs' heq
    dsimp only at hs' heq ⊢
    rw [List.mem_append, List.mem_singleton] at hs'
    cases hs' with
    | inl hs' => apply h.agree s' hs' heq
    | inr hs' =>
      rw [hs'] at heq ⊢
      rw [hresources, hcurrent (by omega)]

theorem SystemInv.emit (h : SystemInv past sys) (htype : s.typeUrl = toolRegistryTypeUrl)
    (hversion : s.version = control.version) (hresources : s.resources = control.desired)
    (hle : sys.control.version ≤ control.version)
    (hsame : sys.control.version = control.version → sys.control.desired = control.desired)
    : SystemInv past { sys with control, emitted := sys.emitted ++ [s] } := by
  refine ⟨h.emitted.append htype hversion hresources hle hsame,
    h.tracks.emit hversion hresources hle hsame, ?_⟩
  intro old hold d hd hack
  rcases h.acked old hold d hd hack with ⟨happlied, hnewest⟩
  refine ⟨happlied, ?_⟩
  intro heq
  have := h.tracks.version
  dsimp only at heq ⊢
  have hcontrol : sys.control.version = control.version := by
    omega
  rw [← hsame hcontrol]
  apply hnewest
  omega

end Emit

theorem SystemInv.reconcile_applied (h : SystemInv past sys) {s : ConfigSnapshot}
    (hs : s ∈ sys.emitted) (heq : s.version = sys.dataPlane.appliedVersion) (factory : ToolFactory τ)
    : sys.dataPlane.reconcile s factory = (sys.dataPlane, .ack s.version s.nonce, .default) := by
  apply reconcile_of_inLine h.tracks.inLine (h.emitted.typeUrl s hs) heq
  apply h.tracks.agree s hs heq

theorem SystemInv.reconcile_newest (h : SystemInv past sys)
    (hnewest : sys.dataPlane.appliedVersion = sys.control.version) {s : ConfigSnapshot}
    (hs : s ∈ sys.emitted) (factory : ToolFactory τ)
    : (sys.dataPlane.reconcile s factory).1 = sys.dataPlane := by
  have hversion := h.emitted.version s hs
  have hcases := reconcile_cases sys.dataPlane s factory
  cases hcases with
  | inl hnack =>
    rcases hnack with ⟨error, hnack⟩
    rw [hnack]
  | inr hack =>
    rcases hack with ⟨built, hchecked, -⟩
    have := hchecked.current
    rw [h.reconcile_applied hs (by omega)]

def System.delivered (sys : System τ) (index : Nat) (s : ConfigSnapshot) (factory : ToolFactory τ)
    : SystemEntry τ where
  before := sys
  request := .deliver index factory
  reply := some {
    snapshot := s
    answer := (sys.dataPlane.reconcile s factory).2.1
    outcome := (sys.dataPlane.reconcile s factory).2.2
  }
  after := { sys with dataPlane := (sys.dataPlane.reconcile s factory).1 }

theorem SystemInv.sound_delivered (h : SystemInv past sys) {s : ConfigSnapshot}
    (hs : s ∈ sys.emitted) (index : Nat) (factory : ToolFactory τ)
    : DeliverySound past (sys.delivered index s factory) := by
  have happlied := fun heq => h.reconcile_applied hs heq factory
  have hsettled : ∀ old ∈ past, ∀ d, old.reply = some d → d.Acked →
      d.snapshot.version = sys.control.version →
        d.snapshot.resources = sys.control.desired ∧
          (sys.dataPlane.reconcile s factory).1 = old.after.dataPlane := by
    intro old hold d hd hack hversion
    rcases h.acked old hold d hd hack with ⟨hle, hnewest⟩
    have := h.tracks.version
    rw [h.reconcile_newest (by omega) hs factory, (hnewest hversion).2]
    exact ⟨(hnewest hversion).1, rfl⟩
  have hcases := reconcile_cases sys.dataPlane s factory
  cases hcases with
  | inl hnack =>
    rcases hnack with ⟨error, hnack⟩
    rw [hnack] at happlied hsettled
    constructor
    . simp [System.delivered, hnack]
    . simp [System.delivered, hnack]
    . intro d index' factory' hd hack
      simp only [System.delivered, hnack, Option.some.injEq] at hd
      simp [← hd, Delivery.Acked] at hack
    . intro d hd heq
      simp only [System.delivered, hnack, Option.some.injEq] at hd
      rw [← hd] at heq
      simpa using happlied heq
    . intro d hd _
      simp only [System.delivered, hnack, Option.some.injEq] at hd
      rw [← hd]
      exact ⟨error, rfl⟩
    . simpa [System.delivered, hnack] using hsettled
  | inr hack =>
    rcases hack with ⟨built, hchecked, hack⟩
    have hcurrent := hchecked.current
    constructor
    . simpa [System.delivered, hack, apply] using hcurrent
    . intro d hd hnack
      simp only [System.delivered, hack, Option.some.injEq] at hd
      simp [← hd, Delivery.Nacked] at hnack
    . intro d index' factory' hd _ hrequest
      simp only [System.delivered, hack, Option.some.injEq] at hd
      simp only [System.delivered, Action.deliver.injEq] at hrequest
      rw [← hd, ← hrequest.2]
      simp only [System.delivered, hack]
      apply converged_apply hchecked
    . intro d hd heq
      simp only [System.delivered, Option.some.injEq] at hd
      rw [← hd] at heq ⊢
      simp [System.delivered, happlied heq, Delivery.Acked, ReconcileOutcome.isNoop,
        ReconcileOutcome.default]
    . intro d hd hlt
      simp only [System.delivered, Option.some.injEq] at hd
      rw [← hd] at hlt
      simp only [System.delivered] at hlt
      omega
    . apply hsettled

theorem SystemInv.delivered (h : SystemInv past sys) {s : ConfigSnapshot} (hs : s ∈ sys.emitted)
    (index : Nat) (factory : ToolFactory τ)
    : SystemInv (past ++ [sys.delivered index s factory]) (sys.delivered index s factory).after := by
  have hcases := reconcile_cases sys.dataPlane s factory
  cases hcases with
  | inl hnack =>
    rcases hnack with ⟨error, hnack⟩
    have hafter : (sys.delivered index s factory).after = sys := by
      simp [System.delivered, hnack]
    rw [hafter]
    refine ⟨h.emitted, h.tracks, ?_⟩
    intro old hold d hd hack
    rw [List.mem_append, List.mem_singleton] at hold
    cases hold with
    | inl hold => apply h.acked old hold d hd hack
    | inr hold =>
      simp only [hold, System.delivered, hnack, Option.some.injEq] at hd
      simp [← hd, Delivery.Acked] at hack
  | inr hack =>
    rcases hack with ⟨built, hchecked, hack⟩
    have hafter : (sys.delivered index s factory).after
        = { sys with dataPlane := sys.dataPlane.apply s built } := by
      simp [System.delivered, hack]
    rw [hafter]
    have hcurrent := hchecked.current
    constructor
    . apply h.emitted
    . constructor
      . apply (converged_apply hchecked).inLine hchecked.distinctNames
      . apply h.emitted.version s hs
      . apply h.emitted.current s hs
      . intro s' hs' heq
        apply h.emitted.agree s' hs' s hs heq
    . intro old hold d hd hacked
      rw [List.mem_append, List.mem_singleton] at hold
      cases hold with
      | inl hold =>
        rcases h.acked old hold d hd hacked with ⟨hle, hnewest⟩
        refine ⟨hle.trans hcurrent, ?_⟩
        intro heq
        have := h.tracks.version
        have hsame := h.reconcile_newest (by dsimp only at heq; omega) hs factory
        rw [hack] at hsame
        dsimp only at hsame heq ⊢
        rw [hsame]
        apply hnewest heq
      | inr hold =>
        rw [hold, hafter]
        simp only [hold, System.delivered, Option.some.injEq] at hd
        rw [← hd]
        exact ⟨le_refl _, fun heq => ⟨h.emitted.current s hs heq, rfl⟩⟩

theorem SystemInv.step (h : SystemInv past sys) (a : Action τ)
    : DeliverySound past (entry System.step sys a) ∧
        SystemInv (past ++ [entry System.step sys a]) (sys.step a).1 := by
  cases a with
  | publish tools =>
    constructor
    . apply h.sound_silent <;> rfl
    . apply SystemInv.append_silent _ rfl
      apply h.emit
      . rfl
      . rfl
      . rfl
      . simp
      . simp
  | snapshot =>
    constructor
    . apply h.sound_silent <;> rfl
    . apply SystemInv.append_silent _ rfl
      apply h.emit
      . rfl
      . rfl
      . rfl
      . simp
      . simp
  | deliver index factory =>
    cases hget : sys.emitted[index]? with
    | none =>
      have hstep : sys.step (.deliver index factory) = (sys, none) := by
        simp [System.step, hget]
      constructor
      . apply h.sound_silent <;> simp [entry, hstep]
      . rw [hstep]
        apply h.append_silent
        simp [entry, hstep]
    | some s =>
      have hentry : entry System.step sys (.deliver index factory)
          = sys.delivered index s factory := by
        simp [entry, System.step, System.delivered, hget]
      have hafter : (sys.step (.deliver index factory)).1 = (sys.delivered index s factory).after := by
        rw [← hentry]
        rfl
      have hs := List.mem_of_getElem? hget
      rw [hentry, hafter]
      exact ⟨h.sound_delivered hs index factory, h.delivered hs index factory⟩

end Inv

theorem delivery_sound (actions : List (Action τ))
    : AtEach DeliverySound (transcript System.step System.start actions) := by
  have hstep (past : List (SystemEntry τ)) (sys : System τ) (a : Action τ) (h : SystemInv past sys)
      (_ : True) :=
    h.step a
  apply atEach_transcript (C := fun _ _ => True) hstep SystemInv.start
  simp

instance : Tool ToolDecl where
  name := ToolDecl.name
  version := ToolDecl.version

def identityFactory : ToolFactory ToolDecl where
  build := .ok
  name_build := by simp [Tool.name]
  version_build := by simp [Tool.version]

def BuiltAsDeclared (past : List (SystemEntry τ)) (e : SystemEntry τ) : Prop :=
  ∀ d, e.reply = some d → d.Acked → ∀ decl ∈ d.snapshot.resources,
    ∃ t, e.after.dataPlane.registry.get decl.name = some t ∧
      ∃ old ∈ past ++ [e], ∃ index factory, old.request = .deliver index factory ∧
        factory.build decl = .ok t

def greet (wat : String) : ToolDecl :=
  { name := "greet", version := "1.0.0", trust := "wasm", wat := some wat }

/--
The declaration of a tool changes while its version stays the same.
-/
theorem changed_wat_not_built
    : ¬ AtEach BuiltAsDeclared (transcript System.step System.start [
        .publish [greet "(module)"], .deliver 0 identityFactory,
        .publish [greet "(module (memory 1))"], .deliver 1 identityFactory]) := by
  intro h
  have hlast := h.get (n := 3) rfl
  rcases hlast _ rfl rfl (greet "(module (memory 1))") (by decide) with
    ⟨t, ht, old, hold, index, factory, hrequest, hbuild⟩
  have hkept : some (greet "(module)") = some t := ht
  have hfactory : factory = identityFactory := by
    simp only [transcript, entry, List.take, List.mem_append, List.mem_cons, List.not_mem_nil,
      or_false] at hold
    grind
  rw [hfactory] at hbuild
  cases hkept
  revert hbuild
  decide

end Plugin
end MemStack
