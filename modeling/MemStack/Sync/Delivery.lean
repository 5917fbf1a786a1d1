import MemStack.Sync.View

/-!
This module is about replicas whose deltas travel over an unreliable channel: the records of a delta
may be merged one by one, in any order, more than once or never. `merge` raises the high-water mark
of an origin with every record, so a version vector stays honest exactly as long as every delivery
closes the gap between what was seen of an origin and what the delivery brings of it.
-/

namespace MemStack
namespace Sync
namespace Delivery

open OrdMap PrefixLog

structure Net (ι : Type u) where
  replicas : ι → Replica
  wire : List SyncRecord

inductive Op (ι : Type u) where
  | applyLocal (i : ι) (event : ChangeEvent)
  | deltaSince (i : ι) (theirVv : VersionVector)
  | merge (i : ι) (picks : List Nat)

def Net.delivered (net : Net ι) (picks : List Nat) : List SyncRecord :=
  picks.filterMap fun n => net.wire[n]?

variable {ι : Type u} [DecidableEq ι]

def step (net : Net ι) : Op ι → Net ι
  | .applyLocal i event =>
    { net with replicas := Function.update net.replicas i ((net.replicas i).applyLocal event).1 }
  | .deltaSince i theirVv =>
    { net with wire := net.wire ++ (net.replicas i).deltaSince theirVv }
  | .merge i picks =>
    { net with
      replicas := Function.update net.replicas i ((net.replicas i).merge (net.delivered picks)) }

def run (net : Net ι) (ops : List (Op ι)) : Net ι :=
  ops.foldl step net

def start (ids : ι → String) : Net ι :=
  { replicas := fun i => Replica.new (ids i), wire := [] }

theorem run_append (net : Net ι) (ops : List (Op ι)) (op : Op ι)
    : run net (ops ++ [op]) = step (run net ops) op := by
  simp [run]

def histStep (ids : ι → String) (hist : String → List ChangeEvent)
    : Op ι → String → List ChangeEvent
  | .applyLocal i event => issue hist (ids i) event
  | .deltaSince _ _ => hist
  | .merge _ _ => hist

structure Inv (ids : ι → String) (hist : String → List ChangeEvent) (net : Net ι) : Prop where
  id_eq : ∀ i, (net.replicas i).id = ids i
  within : ∀ i, Within hist (net.replicas i)
  wire : ∀ rec ∈ net.wire, Authentic hist rec

omit [DecidableEq ι] in
theorem Inv.delivered {ids : ι → String} {hist : String → List ChangeEvent} {net : Net ι}
    (h : Inv ids hist net) (picks : List Nat)
    : ∀ rec ∈ net.delivered picks, Authentic hist rec := by
  intro rec hrec
  simp only [Net.delivered, List.mem_filterMap] at hrec
  cases hrec with
  | intro n hn =>
    apply h.wire
    apply List.mem_of_getElem? hn.2

omit [DecidableEq ι] in
theorem inv_start (ids : ι → String) : Inv ids (fun _ => []) (start ids) := by
  constructor
  . intro i
    rfl
  . intro i
    apply Within.new
  . intro rec hrec
    simp [start] at hrec

theorem inv_step {ids : ι → String} (hids : ids.Injective) {hist : String → List ChangeEvent}
    {net : Net ι} (h : Inv ids hist net) (op : Op ι)
    : Inv ids (histStep ids hist op) (step net op) := by
  cases op with
  | applyLocal i event =>
    constructor
    . intro k
      simp only [step, Function.update_apply]
      split
      . next hk =>
        subst hk
        apply h.id_eq
      . apply h.id_eq
    . intro k
      simp only [step, histStep, Function.update_apply, ← h.id_eq i]
      split
      . apply (h.within i).applyLocal
      . next hk =>
        apply (h.within k).issue_other
        rw [h.id_eq, h.id_eq]
        intro heq
        apply hk
        apply hids heq
    . intro rec hrec
      apply (h.wire rec hrec).issue
  | deltaSince i theirVv =>
    constructor
    . apply h.id_eq
    . apply h.within
    . intro rec hrec
      simp only [step, List.mem_append] at hrec
      cases hrec with
      | inl hold => apply h.wire rec hold
      | inr hnew => apply (h.within i).authentic_of_mem_deltaSince hnew
  | merge i picks =>
    constructor
    . intro k
      simp only [step, Function.update_apply]
      split
      . next hk =>
        rw [Replica.merge_id, hk]
        apply h.id_eq
      . apply h.id_eq
    . intro k
      simp only [step, histStep, Function.update_apply]
      split
      . apply (h.within i).merge (h.delivered picks)
      . apply h.within
    . apply h.wire

theorem inv_run {ids : ι → String} (hids : ids.Injective) (ops : List (Op ι))
    : ∃ hist, Inv ids hist (run (start ids) ops) := by
  induction ops using List.reverseRecOn with
  | nil => exact ⟨_, inv_start ids⟩
  | append_singleton ops op ih =>
    rw [run_append]
    cases ih with
    | intro hist h => exact ⟨_, inv_step hids h op⟩

def Honest (net : Net ι) : Prop :=
  (∀ i, NoOverclaim (net.replicas i)) ∧
  ∀ i j, i ≠ j →
    let a := net.replicas i
    let b := net.replicas j
    (∀ rec ∈ values a.log, Replica.slot rec ∉ b.log → rec ∈ a.deltaSince b.vv) ∧
    (reconcile a b).1.view = (reconcile a b).2.view

def Op.GapFree (net : Net ι) : Op ι → Prop
  | .merge i picks => Sync.GapFree (net.replicas i).vv (net.delivered picks)
  | .applyLocal _ _ => True
  | .deltaSince _ _ => True

omit [DecidableEq ι] in
theorem honest_of_noOverclaim {ids : ι → String} {hist : String → List ChangeEvent} {net : Net ι}
    (h : Inv ids hist net) (hclaim : ∀ i, NoOverclaim (net.replicas i))
    : Honest net := by
  refine ⟨hclaim, ?_⟩
  intro i j hne
  dsimp only
  constructor
  . intro rec hrec hmissing
    rw [mem_values] at hrec
    cases hrec with
    | intro k hk =>
      have hslot := (h.within i).slot_eq k rec hk
      have hauth := (h.within i).authentic k rec hk
      rw [(h.within i).mem_deltaSince, hslot]
      refine ⟨hk, ?_⟩
      apply Nat.lt_of_not_le
      intro hle
      apply hmissing
      apply hclaim j rec.replicaId rec.seq hauth.seq_pos hle
  . simp only [Replica.view]
    rw [log_reconcile (h.within i) (h.within j) (hclaim i) (hclaim j)]

theorem noOverclaim_step_iff {ids : ι → String} {hist : String → List ChangeEvent} {net : Net ι}
    (h : Inv ids hist net) (hclaim : ∀ i, NoOverclaim (net.replicas i)) (op : Op ι)
    : (∀ i, NoOverclaim ((step net op).replicas i)) ↔ op.GapFree net := by
  cases op with
  | applyLocal i event =>
    simp only [Op.GapFree, iff_true]
    intro k
    simp only [step, Function.update_apply]
    split
    . apply (h.within i).noOverclaim_applyLocal (hclaim i)
    . apply hclaim
  | deltaSince i theirVv =>
    simp only [Op.GapFree, iff_true]
    apply hclaim
  | merge i picks =>
    simp only [Op.GapFree]
    rw [← (h.within i).noOverclaim_merge_iff (hclaim i)]
    constructor
    . intro hall
      have := hall i
      simpa [step] using this
    . intro hi k
      simp only [step, Function.update_apply]
      split
      . apply hi
      . apply hclaim

theorem noOverclaim_run {ids : ι → String} (hids : ids.Injective) {ops : List (Op ι)}
    (hgap : ∀ (n : Nat) op, ops[n]? = some op → op.GapFree (run (start ids) (ops.take n)))
    : ∀ i, NoOverclaim ((run (start ids) ops).replicas i) := by
  induction ops using List.reverseRecOn with
  | nil =>
    intro i o s hpos hle
    simp [run, start, Replica.new, VersionVector.seen] at hle
    omega
  | append_singleton ops op ih =>
    have hops : ∀ i, NoOverclaim ((run (start ids) ops).replicas i) := by
      apply ih
      intro n op' hn
      have hlt := (List.getElem?_eq_some_iff.mp hn).1
      have := hgap n op' (by rw [List.getElem?_append_left hlt, hn])
      rwa [List.take_append_of_le_length (by omega)] at this
    rw [run_append]
    cases inv_run hids ops with
    | intro hist h =>
      rw [noOverclaim_step_iff h hops]
      have := hgap ops.length op (by simp)
      simpa using this

theorem honest_iff_gapFree (ids : ι → String) (hids : ids.Injective) (ops : List (Op ι))
    : (∀ n, Honest (run (start ids) (ops.take n)))
        ↔
      ∀ (n : Nat) op, ops[n]? = some op → op.GapFree (run (start ids) (ops.take n)) := by
  constructor
  . intro hhonest n op hn
    cases inv_run hids (ops.take n) with
    | intro hist h =>
      rw [← noOverclaim_step_iff h (hhonest n).1, ← run_append]
      have hnext := (hhonest (n + 1)).1
      rwa [List.take_add_one, hn] at hnext
  . intro hgap n
    cases inv_run hids (ops.take n) with
    | intro hist h =>
      apply honest_of_noOverclaim h
      apply noOverclaim_run hids
      intro m op hm
      rw [List.getElem?_take] at hm
      split at hm
      . rw [List.take_take, Nat.min_eq_left (by omega)]
        apply hgap m op hm
      . simp at hm

-- Both records of `A` are shipped, but only the second one reaches `B`.
def lossyOps : List (Op (Fin 2)) :=
  [
    .applyLocal 0 ⟨"memory", "m1", "create", 1, 1⟩,
    .applyLocal 0 ⟨"memory", "m2", "create", 1, 2⟩,
    .deltaSince 0 ∅,
    .merge 1 [1]
  ]

theorem lossy_delivery_hides_record
    : let net := run (start ![ "A", "B"]) lossyOps
      let a := net.replicas 0
      let b := net.replicas 1
      ¬ NoOverclaim b ∧ ("A", 1) ∈ a.log ∧ ("A", 1) ∉ b.log ∧ a.deltaSince b.vv = [] ∧
        (reconcile a b).1.view ≠ (reconcile a b).2.view := by
  dsimp only
  refine ⟨?_, by decide, by decide, by decide, ?_⟩
  . intro h
    have : ("A", 1) ∈ ((run (start ![ "A", "B"]) lossyOps).replicas 1).log := by
      apply h "A" 1
      . decide
      . decide
    revert this
    decide
  . intro h
    have := congrArg (fun v => v[("memory", "m1")]?) h
    revert this
    decide

-- The one record of `A` reaches `B` twice in one delivery.
def orderedOps : List (Op (Fin 2)) :=
  [
    .applyLocal 0 ⟨"memory", "m1", "create", 1, 1⟩,
    .deltaSince 0 ∅,
    .merge 1 [0, 0]
  ]

theorem honest_orderedOps
    : Function.Injective ![ "A", "B"] ∧
      ∀ n, Honest (run (start ![ "A", "B"]) (orderedOps.take n)) := by
  have hids : Function.Injective ![ "A", "B"] := by decide
  refine ⟨hids, (honest_iff_gapFree ![ "A", "B"] hids orderedOps).mpr ?_⟩
  intro n op hn
  match n with
  | 0 =>
    obtain rfl : Op.applyLocal _ _ = op := by simpa [orderedOps] using hn
    trivial
  | 1 =>
    obtain rfl : Op.deltaSince _ _ = op := by simpa [orderedOps] using hn
    trivial
  | 2 =>
    obtain rfl : Op.merge 1 [0, 0] = op := by simpa [orderedOps] using hn
    have hseq : ∀ rec ∈ (run (start ![ "A", "B"]) (orderedOps.take 2)).delivered [0, 0],
        rec.seq = 1 := by
      decide
    intro rec hrec t hlt hgt
    have := hseq rec hrec
    omega
  | n + 3 => simp [orderedOps] at hn

end Delivery
end Sync
end MemStack
