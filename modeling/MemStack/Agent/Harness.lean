import MemStack.Util.Dict
import MemStack.Util.Incumbent

/-!
This module contains the registry of the harnesses that run agents and its choice of one for a context
(`core/src/agent/harness.rs`), and when the choice follows the precedence of the pins.
-/

namespace MemStack
namespace Agent
namespace Harness

structure HarnessCtx where
  provider : String
  model : String
  deriving DecidableEq, Repr

-- What a registry asks a harness.
class RuntimeHarness (H : Type) where
  runtimeId : H → String
  -- The priority with which a context is supported.
  supports : H → HarnessCtx → Option Nat

inductive SelectionReason where
  | modelPolicy
  | providerPolicy
  | auto
  | fallback
  deriving DecidableEq, Repr

structure HarnessPolicy where
  modelScoped : Dict (String × String) String := Dict.empty
  providerScoped : Dict String String := Dict.empty

namespace HarnessPolicy

variable (policy : HarnessPolicy)

def pinModel (provider model runtimeId : String) : HarnessPolicy :=
  { policy with modelScoped := policy.modelScoped.set (provider, model) runtimeId }

def pinProvider (provider runtimeId : String) : HarnessPolicy :=
  { policy with providerScoped := policy.providerScoped.set provider runtimeId }

def preferred (ctx : HarnessCtx) : Option (String × SelectionReason) :=
  match policy.modelScoped.get (ctx.provider, ctx.model) with
  | some rid => some (rid, .modelPolicy)
  | none => (policy.providerScoped.get ctx.provider).map (·, .providerPolicy)

end HarnessPolicy

structure HarnessRegistry (H : Type) where
  harnesses : List H := []
  fallback : H
  policy : HarnessPolicy := {}

section Registry

variable {H : Type} [RuntimeHarness H]

open RuntimeHarness

def better (candidate : Nat × H) : Option (Nat × H) → Prop
  | none => True
  | some best =>
    candidate.1 > best.1 ∨ (candidate.1 = best.1 ∧ runtimeId candidate.2 < runtimeId best.2)

instance (candidate : Nat × H) (best : Option (Nat × H)) : Decidable (better candidate best) :=
  match best with
  | none => isTrue trivial
  | some best =>
    inferInstanceAs
      (Decidable (candidate.1 > best.1 ∨ (candidate.1 = best.1 ∧ runtimeId candidate.2 < runtimeId best.2)))

namespace HarnessRegistry

variable (registry : HarnessRegistry H)

def register (harness : H) : HarnessRegistry H :=
  { registry with
    harnesses := registry.harnesses.filter (runtimeId · ≠ runtimeId harness) ++ [harness] }

def byId (rid : String) : Option H :=
  if runtimeId registry.fallback = rid then some registry.fallback
  else registry.harnesses.find? (runtimeId · = rid)

def bestStep (ctx : HarnessCtx) (best : Option (Nat × H)) (h : H) : Option (Nat × H) :=
  match supports h ctx with
  | some prio => if better (prio, h) best then some (prio, h) else best
  | none => best

def best (ctx : HarnessCtx) : Option (Nat × H) :=
  registry.harnesses.foldl (bestStep ctx) none

def pinned (ctx : HarnessCtx) : Option (H × SelectionReason) :=
  match registry.policy.preferred ctx with
  | some (rid, reason) =>
    match registry.byId rid with
    | some h => if (supports h ctx).isSome then some (h, reason) else none
    | none => none
  | none => none

def select (ctx : HarnessCtx) : H × SelectionReason :=
  match registry.pinned ctx with
  | some selected => selected
  | none =>
    match registry.best ctx with
    | some (_, h) => (h, .auto)
    | none => (registry.fallback, .fallback)

end HarnessRegistry

def built (fallback : H) (policy : HarnessPolicy) (registrations : List H) : HarnessRegistry H :=
  registrations.foldl HarnessRegistry.register { fallback, policy }

def lastRegistered (registrations : List H) (rid : String) : Option H :=
  LastMatch.lastMatch (fun h rid => runtimeId h = rid) rid registrations

end Registry

section Registered

variable {H : Type} [RuntimeHarness H] {fallback : H} {policy : HarnessPolicy}

open RuntimeHarness

theorem built_concat (registrations : List H) (h : H)
    : built fallback policy (registrations ++ [h]) = (built fallback policy registrations).register h := by
  unfold built
  rw [List.foldl_concat]

theorem lastRegistered_concat (registrations : List H) (h : H) (rid : String)
    : lastRegistered (registrations ++ [h]) rid =
      if runtimeId h = rid then some h else lastRegistered registrations rid := by
  unfold lastRegistered LastMatch.lastMatch
  rw [List.reverse_concat, List.find?_cons]
  by_cases heq : runtimeId h = rid
  . simp [heq]
  . simp [heq]

theorem built_fallback (registrations : List H) : (built fallback policy registrations).fallback = fallback := by
  induction registrations using List.reverseRecOn with
  | nil => rfl
  | append_singleton registrations h ih =>
    rw [built_concat]
    exact ih

theorem built_policy (registrations : List H) : (built fallback policy registrations).policy = policy := by
  induction registrations using List.reverseRecOn with
  | nil => rfl
  | append_singleton registrations h ih =>
    rw [built_concat]
    exact ih

theorem mem_built {registrations : List H} {h : H}
    : h ∈ (built fallback policy registrations).harnesses ↔
      lastRegistered registrations (runtimeId h) = some h := by
  induction registrations using List.reverseRecOn with
  | nil => simp [built, lastRegistered, LastMatch.lastMatch]
  | append_singleton registrations h' ih =>
    rw [built_concat, lastRegistered_concat, HarnessRegistry.register, List.mem_append, List.mem_filter, ih,
      List.mem_singleton]
    by_cases hid : runtimeId h' = runtimeId h
    . simp only [hid, ne_eq, not_true_eq_false, decide_false, Bool.false_eq_true, and_false, false_or, if_true,
        Option.some.injEq]
      exact eq_comm
    . have hne : h ≠ h' := fun heq => hid (congrArg runtimeId heq.symm)
      have hid' : runtimeId h ≠ runtimeId h' := fun heq => hid heq.symm
      simp [hid, hid', hne]

theorem nodup_built (registrations : List H)
    : ((built fallback policy registrations).harnesses.map runtimeId).Nodup := by
  induction registrations using List.reverseRecOn with
  | nil => exact List.nodup_nil
  | append_singleton registrations h ih =>
    rw [built_concat, HarnessRegistry.register, List.map_append, List.map_singleton, List.nodup_append]
    refine ⟨?_, List.nodup_singleton _, ?_⟩
    . exact ih.sublist (List.Sublist.map _ List.filter_sublist)
    . intro rid hrid rid' hrid'
      obtain ⟨h', hh', rfl⟩ := List.mem_map.mp hrid
      rw [List.mem_singleton] at hrid'
      rw [hrid']
      simpa using (List.mem_filter.mp hh').2

theorem find_built (registrations : List H) (rid : String)
    : (built fallback policy registrations).harnesses.find? (runtimeId · = rid) =
      lastRegistered registrations rid := by
  apply Option.ext
  intro h
  constructor
  . intro hfind
    have hid : runtimeId h = rid := by simpa using List.find?_some hfind
    rw [← hid]
    exact mem_built.mp (List.mem_of_find?_eq_some hfind)
  . intro hlast
    have hid : runtimeId h = rid := by simpa using (LastMatch.lastMatch_eq_some.mp hlast).1
    rw [← hid] at hlast ⊢
    have hmem : h ∈ (built fallback policy registrations).harnesses := mem_built.mpr hlast
    obtain ⟨h', hh'⟩ := Option.isSome_iff_exists.mp
      (List.find?_isSome.mpr ⟨h, hmem, by simp⟩ :
        ((built fallback policy registrations).harnesses.find? (runtimeId · = runtimeId h)).isSome)
    have hid' : runtimeId h' = runtimeId h := by simpa using List.find?_some hh'
    rw [hh', List.inj_on_of_nodup_map (nodup_built registrations) (List.mem_of_find?_eq_some hh') hmem hid']

end Registered

section Best

variable {H : Type} [RuntimeHarness H] {ctx : HarnessCtx}

open RuntimeHarness

def key (candidate : Nat × H) : Nat ×ₗ Stringᵒᵈ :=
  toLex (candidate.1, OrderDual.toDual (runtimeId candidate.2))

def rank : Option (Nat × H) → WithBot (Nat ×ₗ Stringᵒᵈ)
  | none => ⊥
  | some candidate => (key candidate : WithBot (Nat ×ₗ Stringᵒᵈ))

theorem rank_some (candidate : Nat × H) : rank (some candidate) = (key candidate : WithBot (Nat ×ₗ Stringᵒᵈ)) :=
  rfl

theorem better_iff (candidate : Nat × H) (best : Option (Nat × H))
    : better candidate best ↔ rank best < rank (some candidate) := by
  cases best with
  | none => exact iff_of_true trivial (WithBot.bot_lt_coe _)
  | some best =>
    rw [rank_some, rank_some, WithBot.coe_lt_coe, key, key, Prod.Lex.toLex_lt_toLex]
    unfold better
    simp only [OrderDual.toDual_lt_toDual]
    constructor
    . rintro (hlt | ⟨heq, hlt⟩)
      . exact Or.inl hlt
      . exact Or.inr ⟨heq.symm, hlt⟩
    . rintro (hlt | ⟨heq, hlt⟩)
      . exact Or.inl hlt
      . exact Or.inr ⟨heq.symm, hlt⟩

def candidates (ctx : HarnessCtx) (harnesses : List H) : List (Nat × H) :=
  harnesses.filterMap (fun h => (supports h ctx).map (·, h))

theorem mem_candidates {harnesses : List H} {candidate : Nat × H}
    : candidate ∈ candidates ctx harnesses ↔
      candidate.2 ∈ harnesses ∧ supports candidate.2 ctx = some candidate.1 := by
  unfold candidates
  rw [List.mem_filterMap]
  constructor
  . rintro ⟨h, hmem, hmap⟩
    obtain ⟨prio, hprio, rfl⟩ := Option.map_eq_some_iff.mp hmap
    exact ⟨hmem, hprio⟩
  . rintro ⟨hmem, hprio⟩
    exact ⟨candidate.2, hmem, by rw [hprio]; rfl⟩

theorem best_eq_pick (registry : HarnessRegistry H)
    : registry.best ctx = Incumbent.pick better (candidates ctx registry.harnesses) := by
  unfold HarnessRegistry.best Incumbent.pick candidates
  rw [List.foldl_filterMap]
  congr 1
  funext best h
  unfold HarnessRegistry.bestStep
  cases supports h ctx with
  | none => rfl
  | some prio => rfl

theorem rank_le_best (registry : HarnessRegistry H) {candidate : Nat × H}
    (h : candidate ∈ candidates ctx registry.harnesses)
    : rank (some candidate) ≤ rank (registry.best ctx) := by
  rw [best_eq_pick]
  apply Incumbent.rank_le_pick better rank _ _ candidate h
  . intro a best hbetter
    exact le_of_lt ((better_iff a best).mp hbetter)
  . intro a best hnot
    rw [better_iff] at hnot
    exact not_lt.mp hnot

end Best

section Precedence

variable {H : Type} [RuntimeHarness H] (fallback : H) (policy : HarnessPolicy) (registrations : List H)
  (ctx : HarnessCtx)

open RuntimeHarness

def Named (rid : String) (h : H) : Prop :=
  (runtimeId fallback = rid ∧ h = fallback) ∨
    (runtimeId fallback ≠ rid ∧ lastRegistered registrations rid = some h)

def PinnedByModel (h : H) : Prop :=
  ∃ rid, policy.modelScoped.get (ctx.provider, ctx.model) = some rid ∧ Named fallback registrations rid h ∧
    (supports h ctx).isSome

def PinnedByProvider (h : H) : Prop :=
  ∃ rid, policy.providerScoped.get ctx.provider = some rid ∧ Named fallback registrations rid h ∧
    (supports h ctx).isSome

def Registered (h : H) : Prop :=
  lastRegistered registrations (runtimeId h) = some h

def IsBest (h : H) : Prop :=
  Registered registrations h ∧ ∃ prio, supports h ctx = some prio ∧
    ∀ h' prio', Registered registrations h' → supports h' ctx = some prio' → h' ≠ h →
      prio' < prio ∨ (prio' = prio ∧ runtimeId h < runtimeId h')

def Unpinned (h : H) : Prop :=
  IsBest registrations ctx h ∨ ((∀ h', ¬ IsBest registrations ctx h') ∧ h = fallback)

def Chosen (h : H) : Prop :=
  PinnedByModel fallback policy registrations ctx h ∨
  ((∀ h', ¬ PinnedByModel fallback policy registrations ctx h') ∧
    PinnedByProvider fallback policy registrations ctx h) ∨
  ((∀ h', ¬ PinnedByModel fallback policy registrations ctx h') ∧
    (∀ h', ¬ PinnedByProvider fallback policy registrations ctx h') ∧
    Unpinned fallback registrations ctx h)

def ProviderPassedOver : Prop :=
  (policy.modelScoped.get (ctx.provider, ctx.model)).isSome ∧
  (∀ h, ¬ PinnedByModel fallback policy registrations ctx h) ∧
  ∃ h, PinnedByProvider fallback policy registrations ctx h ∧ ¬ Unpinned fallback registrations ctx h

structure SelectsByPrecedence : Prop where
  chosen : Chosen fallback policy registrations ctx ((built fallback policy registrations).select ctx).1
  order : ∀ registrations', lastRegistered registrations' = lastRegistered registrations →
    (built fallback policy registrations').select ctx = (built fallback policy registrations).select ctx

variable {fallback policy registrations ctx}

theorem Named.unique {rid : String} {h h' : H} (hnamed : Named fallback registrations rid h)
    (hnamed' : Named fallback registrations rid h')
    : h = h' := by
  rcases hnamed with ⟨hid, rfl⟩ | ⟨hne, hlast⟩
  . rcases hnamed' with ⟨-, rfl⟩ | ⟨hne', -⟩
    . rfl
    . exact absurd hid hne'
  . rcases hnamed' with ⟨hid', -⟩ | ⟨-, hlast'⟩
    . exact absurd hid' hne
    . rw [hlast, Option.some.injEq] at hlast'
      exact hlast'

theorem byId_eq_some {rid : String} {h : H}
    : (built fallback policy registrations).byId rid = some h ↔ Named fallback registrations rid h := by
  unfold HarnessRegistry.byId Named
  rw [built_fallback, find_built]
  by_cases hid : runtimeId fallback = rid
  . simp only [hid, if_true, Option.some.injEq, true_and, ne_eq, not_true_eq_false, false_and, or_false]
    exact eq_comm
  . simp [hid]

theorem best_eq_some {prio : Nat} {h : H} (hbest : (built fallback policy registrations).best ctx = some (prio, h))
    : IsBest registrations ctx h := by
  have hmem : (prio, h) ∈ candidates ctx (built fallback policy registrations).harnesses := by
    rw [best_eq_pick] at hbest
    exact Incumbent.pick_mem hbest
  obtain ⟨hregistered, hprio⟩ := mem_candidates.mp hmem
  refine ⟨mem_built.mp hregistered, prio, hprio, ?_⟩
  intro h' prio' hregistered' hprio' hne
  have hmem' : h' ∈ (built fallback policy registrations).harnesses := mem_built.mpr hregistered'
  have hcandidate : (prio', h') ∈ candidates ctx (built fallback policy registrations).harnesses :=
    mem_candidates.mpr ⟨hmem', hprio'⟩
  have hle := rank_le_best (built fallback policy registrations) hcandidate
  rw [hbest, rank_some, rank_some, WithBot.coe_le_coe, key, key, Prod.Lex.toLex_le_toLex] at hle
  have hid : runtimeId h' ≠ runtimeId h :=
    fun hid => hne (List.inj_on_of_nodup_map (nodup_built registrations) hmem' hregistered hid)
  rcases hle with hlt | ⟨heq, hle⟩
  . exact Or.inl hlt
  . exact Or.inr ⟨heq, lt_of_le_of_ne hle hid.symm⟩

theorem best_eq_none (hbest : (built fallback policy registrations).best ctx = none) (h : H)
    : ¬ IsBest registrations ctx h := by
  rintro ⟨hregistered, prio, hprio, -⟩
  have hmem : h ∈ (built fallback policy registrations).harnesses := mem_built.mpr hregistered
  have hcandidate : (prio, h) ∈ candidates ctx (built fallback policy registrations).harnesses :=
    mem_candidates.mpr ⟨hmem, hprio⟩
  have hle := rank_le_best (built fallback policy registrations) hcandidate
  rw [hbest] at hle
  exact absurd hle (not_le.mpr (WithBot.bot_lt_coe _))

theorem IsBest.unique {h h' : H} (hbest : IsBest registrations ctx h) (hbest' : IsBest registrations ctx h')
    : h = h' := by
  obtain ⟨hregistered, prio, hprio, hall⟩ := hbest
  obtain ⟨hregistered', prio', hprio', hall'⟩ := hbest'
  by_contra hne
  rcases hall h' prio' hregistered' hprio' (Ne.symm hne) with hlt | ⟨heq, hid⟩
  . rcases hall' h prio hregistered hprio hne with hlt' | ⟨heq', -⟩
    . omega
    . omega
  . rcases hall' h prio hregistered hprio hne with hlt' | ⟨-, hid'⟩
    . omega
    . exact lt_asymm hid hid'

theorem Unpinned.unique {h h' : H} (hunpinned : Unpinned fallback registrations ctx h)
    (hunpinned' : Unpinned fallback registrations ctx h')
    : h = h' := by
  rcases hunpinned with hbest | ⟨hnone, rfl⟩
  . rcases hunpinned' with hbest' | ⟨hnone', -⟩
    . exact hbest.unique hbest'
    . exact absurd hbest (hnone' h)
  . rcases hunpinned' with hbest' | ⟨-, rfl⟩
    . exact absurd hbest' (hnone h')
    . rfl

theorem pinned_eq_some {h : H} {reason : SelectionReason}
    (hpinned : (built fallback policy registrations).pinned ctx = some (h, reason))
    : PinnedByModel fallback policy registrations ctx h ∨
      (policy.modelScoped.get (ctx.provider, ctx.model) = none ∧
        PinnedByProvider fallback policy registrations ctx h) := by
  unfold HarnessRegistry.pinned HarnessPolicy.preferred at hpinned
  rw [built_policy] at hpinned
  have husable {rid : String} {reason' : SelectionReason}
      (hfound : (match (built fallback policy registrations).byId rid with
        | some h => if (supports h ctx).isSome then some (h, reason') else none
        | none => none) = some (h, reason))
      : Named fallback registrations rid h ∧ (supports h ctx).isSome := by
    split at hfound
    . next h' hbyId =>
      rw [Option.ite_none_right_eq_some, Option.some.injEq, Prod.mk.injEq] at hfound
      obtain ⟨hsupports, rfl, -⟩ := hfound
      exact ⟨byId_eq_some.mp hbyId, hsupports⟩
    . cases hfound
  cases hmodel : policy.modelScoped.get (ctx.provider, ctx.model) with
  | some rid =>
    rw [hmodel] at hpinned
    exact Or.inl ⟨rid, hmodel, husable hpinned⟩
  | none =>
    rw [hmodel] at hpinned
    cases hprovider : policy.providerScoped.get ctx.provider with
    | some rid =>
      rw [hprovider] at hpinned
      exact Or.inr ⟨rfl, rid, hprovider, husable hpinned⟩
    | none =>
      rw [hprovider] at hpinned
      cases hpinned

theorem pinned_eq_none (hpinned : (built fallback policy registrations).pinned ctx = none)
    : (∀ h, ¬ PinnedByModel fallback policy registrations ctx h) ∧
      (policy.modelScoped.get (ctx.provider, ctx.model) = none →
        ∀ h, ¬ PinnedByProvider fallback policy registrations ctx h) := by
  unfold HarnessRegistry.pinned HarnessPolicy.preferred at hpinned
  rw [built_policy] at hpinned
  constructor
  . rintro h ⟨rid, hrid, hnamed, hsupports⟩
    rw [hrid] at hpinned
    dsimp only at hpinned
    rw [byId_eq_some.mpr hnamed] at hpinned
    simp [hsupports] at hpinned
  . rintro hmodel h ⟨rid, hrid, hnamed, hsupports⟩
    rw [hmodel, hrid, Option.map_some] at hpinned
    dsimp only at hpinned
    rw [byId_eq_some.mpr hnamed] at hpinned
    simp [hsupports] at hpinned

theorem select_of_pinned_none (hpinned : (built fallback policy registrations).pinned ctx = none)
    : Unpinned fallback registrations ctx ((built fallback policy registrations).select ctx).1 := by
  unfold HarnessRegistry.select
  rw [hpinned]
  dsimp only
  cases hbest : (built fallback policy registrations).best ctx with
  | some candidate => exact Or.inl (best_eq_some hbest)
  | none =>
    right
    refine ⟨best_eq_none hbest, ?_⟩
    dsimp only
    rw [built_fallback]

theorem chosen_select_iff
    : Chosen fallback policy registrations ctx ((built fallback policy registrations).select ctx).1 ↔
      ¬ ProviderPassedOver fallback policy registrations ctx := by
  cases hpinned : (built fallback policy registrations).pinned ctx with
  | some selected =>
    have hselect : (built fallback policy registrations).select ctx = selected := by
      unfold HarnessRegistry.select
      rw [hpinned]
    rw [hselect]
    rcases pinned_eq_some hpinned with hmodel | ⟨hnone, hprovider⟩
    . refine iff_of_true (Or.inl hmodel) ?_
      rintro ⟨-, hno, -⟩
      exact hno _ hmodel
    . refine iff_of_true (Or.inr (Or.inl ⟨?_, hprovider⟩)) ?_
      . rintro h ⟨rid, hrid, -⟩
        rw [hnone] at hrid
        cases hrid
      . rintro ⟨hsome, -⟩
        rw [hnone] at hsome
        cases hsome
  | none =>
    obtain ⟨hmodel, hprovider⟩ := pinned_eq_none hpinned
    have hunpinned := select_of_pinned_none hpinned
    constructor
    . rintro hchosen ⟨-, -, h, hpin, hnot⟩
      rcases hchosen with hpin' | ⟨-, hpin'⟩ | ⟨-, hno, -⟩
      . exact hmodel _ hpin'
      . obtain ⟨rid, hrid, hnamed, -⟩ := hpin
        obtain ⟨rid', hrid', hnamed', -⟩ := hpin'
        rw [hrid, Option.some.injEq] at hrid'
        rw [← hrid'] at hnamed'
        rw [hnamed.unique hnamed'] at hnot
        exact hnot hunpinned
      . exact hno h hpin
    . intro hnot
      by_cases hpin : ∃ h, PinnedByProvider fallback policy registrations ctx h
      . obtain ⟨h, hpin⟩ := hpin
        have hsome : (policy.modelScoped.get (ctx.provider, ctx.model)).isSome := by
          rw [Option.isSome_iff_ne_none]
          exact fun hnone => hprovider hnone h hpin
        have hsame : Unpinned fallback registrations ctx h := by
          by_contra hother
          exact hnot ⟨hsome, hmodel, h, hpin, hother⟩
        rw [hunpinned.unique hsame]
        exact Or.inr (Or.inl ⟨hmodel, hpin⟩)
      . rw [not_exists] at hpin
        exact Or.inr (Or.inr ⟨hmodel, hpin, hunpinned⟩)

theorem best_congr {registrations' : List H} (h : lastRegistered registrations' = lastRegistered registrations)
    : ((built fallback policy registrations').best ctx).map Prod.snd =
      ((built fallback policy registrations).best ctx).map Prod.snd := by
  have hisBest (a : H) : IsBest registrations' ctx a ↔ IsBest registrations ctx a := by
    unfold IsBest Registered
    rw [h]
  cases hbest : (built fallback policy registrations').best ctx with
  | none =>
    cases hbest' : (built fallback policy registrations).best ctx with
    | none => rfl
    | some candidate => exact absurd ((hisBest _).mpr (best_eq_some hbest')) (best_eq_none hbest _)
  | some candidate =>
    have hmax := (hisBest _).mp (best_eq_some hbest)
    cases hbest' : (built fallback policy registrations).best ctx with
    | none => exact absurd hmax (best_eq_none hbest' _)
    | some candidate' => exact congrArg some (hmax.unique (best_eq_some hbest'))

theorem select_congr {registrations' : List H} (h : lastRegistered registrations' = lastRegistered registrations)
    : (built fallback policy registrations').select ctx = (built fallback policy registrations).select ctx := by
  have hbyId (rid : String) : (built fallback policy registrations').byId rid =
      (built fallback policy registrations).byId rid := by
    unfold HarnessRegistry.byId
    rw [built_fallback, built_fallback, find_built, find_built, h]
  have hpinned : (built fallback policy registrations').pinned ctx =
      (built fallback policy registrations).pinned ctx := by
    unfold HarnessRegistry.pinned
    simp only [built_policy, hbyId]
  have hbest : ((built fallback policy registrations').best ctx).map Prod.snd = _ := best_congr h
  unfold HarnessRegistry.select
  rw [hpinned, built_fallback, built_fallback]
  cases (built fallback policy registrations).pinned ctx with
  | some selected => rfl
  | none =>
    dsimp only
    cases hmax : (built fallback policy registrations').best ctx with
    | none =>
      rw [hmax] at hbest
      cases hmax' : (built fallback policy registrations).best ctx with
      | none => rfl
      | some candidate' =>
        rw [hmax'] at hbest
        cases hbest
    | some candidate =>
      rw [hmax] at hbest
      cases hmax' : (built fallback policy registrations).best ctx with
      | none =>
        rw [hmax'] at hbest
        cases hbest
      | some candidate' =>
        rw [hmax', Option.map_some, Option.map_some, Option.some.injEq] at hbest
        dsimp only
        rw [hbest]

end Precedence

theorem selectsByPrecedence_iff {H : Type} [RuntimeHarness H] (fallback : H) (policy : HarnessPolicy)
    (registrations : List H) (ctx : HarnessCtx)
    : SelectsByPrecedence fallback policy registrations ctx ↔
      ¬ ProviderPassedOver fallback policy registrations ctx := by
  rw [← chosen_select_iff]
  constructor
  . exact fun h => h.chosen
  . exact fun h => ⟨h, fun _ hlast => select_congr hlast⟩

section PassedOver

instance : RuntimeHarness (String × Nat) where
  runtimeId := Prod.fst
  supports h _ := some h.2

def ghostPolicy : HarnessPolicy :=
  (({} : HarnessPolicy).pinModel "openai" "gpt-4o" "ghost").pinProvider "openai" "provider-harness"

theorem provider_passed_over
    : ¬ SelectsByPrecedence ("builtin", 0) ghostPolicy [("provider-harness", 1), ("auto-harness", 100)]
      ⟨"openai", "gpt-4o"⟩ := by
  intro hselects
  apply chosen_select_iff.mp hselects.chosen
  refine ⟨by decide +kernel, ?_, ("provider-harness", 1), ?_, ?_⟩
  . rintro h ⟨rid, hrid, hnamed, -⟩
    have hghost : some "ghost" = some rid := by
      rw [← hrid]
      decide +kernel
    rw [← Option.some.inj hghost] at hnamed
    rcases hnamed with ⟨hid, -⟩ | ⟨-, hlast⟩
    . exact absurd hid (by decide)
    . have hnone : lastRegistered [("provider-harness", 1), ("auto-harness", 100)] "ghost" = none := by
        decide +kernel
      rw [hnone] at hlast
      cases hlast
  . exact ⟨"provider-harness", by decide +kernel, Or.inr ⟨by decide, by decide +kernel⟩, rfl⟩
  . rintro (⟨-, prio, hprio, hall⟩ | ⟨-, heq⟩)
    . have hregistered : Registered [("provider-harness", 1), ("auto-harness", 100)] ("auto-harness", 100) := by
        unfold Registered
        decide +kernel
      rcases hall ("auto-harness", 100) 100 hregistered rfl (by decide) with hlt | ⟨heq, -⟩
      . rw [← Option.some.inj hprio] at hlt
        exact absurd hlt (by decide)
      . rw [← Option.some.inj hprio] at heq
        exact absurd heq (by decide)
    . exact absurd heq (by decide)

end PassedOver

end Harness
end Agent
end MemStack
