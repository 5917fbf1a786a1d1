import MemStack.Sync.View

/-!
This module is about any number of replicas with distinct ids that write locally and reconcile in
pairs, in any order.
-/

namespace MemStack
namespace Sync
namespace Gossip

open OrdMap PrefixLog

-- `reconcile` borrows both replicas mutably, so they are never the same one.
inductive Op (ι : Type u) where
  | applyLocal (i : ι) (event : ChangeEvent)
  | reconcile (i j : ι) (hne : i ≠ j)

def Op.touches : Op ι → ι → Prop
  | .applyLocal i _, k => i = k
  | .reconcile i j _, k => i = k ∨ j = k

variable {ι : Type u} [DecidableEq ι]

def step (net : ι → Replica) : Op ι → ι → Replica
  | .applyLocal i event => Function.update net i ((net i).applyLocal event).1
  | .reconcile i j _ =>
    let ab := reconcile (net i) (net j)
    Function.update (Function.update net i ab.1) j ab.2

def run (net : ι → Replica) (ops : List (Op ι)) : ι → Replica :=
  ops.foldl step net

def start (ids : ι → String) : ι → Replica :=
  fun i => Replica.new (ids i)

def written (ids : ι → String) (ops : List (Op ι)) (o : String) : List ChangeEvent :=
  ops.filterMap fun
    | .applyLocal i event => if ids i = o then some event else none
    | .reconcile _ _ _ => none

def histStep (ids : ι → String) (hist : String → List ChangeEvent)
    : Op ι → String → List ChangeEvent
  | .applyLocal i event => issue hist (ids i) event
  | .reconcile _ _ _ => hist

omit [DecidableEq ι] in
theorem written_append (ids : ι → String) (ops : List (Op ι)) (op : Op ι)
    : written ids (ops ++ [op]) = histStep ids (written ids ops) op := by
  funext o
  cases op with
  | applyLocal i event =>
    simp only [histStep, issue]
    by_cases h : ids i = o
    . subst h
      simp [written]
    . rw [Function.update_of_ne (Ne.symm h)]
      simp [written, h]
  | reconcile i j hne => simp [written, histStep]

structure Inv (ids : ι → String) (hist : String → List ChangeEvent) (net : ι → Replica) : Prop where
  id_eq : ∀ i, (net i).id = ids i
  within : ∀ i, Within hist (net i)
  noOverclaim : ∀ i, NoOverclaim (net i)

omit [DecidableEq ι] in
theorem inv_start (ids : ι → String) : Inv ids (fun _ => []) (start ids) := by
  constructor
  . intro i
    rfl
  . intro i
    apply Within.new
  . intro i o s hpos hle
    simp [start, Replica.new, VersionVector.seen] at hle
    omega

theorem step_applyLocal (net : ι → Replica) (i k : ι) (event : ChangeEvent)
    : step net (.applyLocal i event) k = if k = i then ((net i).applyLocal event).1 else net k := by
  simp only [step, Function.update_apply]

theorem step_reconcile (net : ι → Replica) (i j k : ι) (hne : i ≠ j)
    : step net (.reconcile i j hne) k
        =
      if k = j then
        (net j).merge ((net i).deltaSince (net j).vv)
      else if k = i then
        (net i).merge ((net j).deltaSince (net i).vv)
      else
        net k := by
  simp only [step, reconcile, Function.update_apply]

theorem inv_step {ids : ι → String} (hids : ids.Injective) {hist : String → List ChangeEvent}
    {net : ι → Replica} (h : Inv ids hist net) (op : Op ι)
    : Inv ids (histStep ids hist op) (step net op) := by
  cases op with
  | applyLocal i event =>
    constructor
    . intro k
      rw [step_applyLocal]
      split
      . next hk =>
        subst hk
        apply h.id_eq
      . apply h.id_eq
    . intro k
      rw [step_applyLocal, histStep, ← h.id_eq i]
      split
      . apply (h.within i).applyLocal
      . next hk =>
        apply (h.within k).issue_other
        rw [h.id_eq, h.id_eq]
        intro heq
        apply hk
        apply hids heq
    . intro k
      rw [step_applyLocal]
      split
      . apply (h.within i).noOverclaim_applyLocal (h.noOverclaim i)
      . apply h.noOverclaim
  | reconcile i j hne =>
    constructor
    . intro k
      rw [step_reconcile]
      split
      . next hk =>
        rw [Replica.merge_id, hk]
        apply h.id_eq
      . split
        . next hk =>
          rw [Replica.merge_id, hk]
          apply h.id_eq
        . apply h.id_eq
    . intro k
      rw [step_reconcile]
      split
      . apply within_exchange (h.within j) (h.within i)
      . split
        . apply within_exchange (h.within i) (h.within j)
        . apply h.within
    . intro k
      rw [step_reconcile]
      split
      . apply noOverclaim_exchange (h.within j) (h.within i) (h.noOverclaim j) (h.noOverclaim i)
      . split
        . apply noOverclaim_exchange (h.within i) (h.within j) (h.noOverclaim i) (h.noOverclaim j)
        . apply h.noOverclaim

theorem inv_run {ids : ι → String} (hids : ids.Injective) (ops : List (Op ι))
    : Inv ids (written ids ops) (run (start ids) ops) := by
  induction ops using List.reverseRecOn with
  | nil => apply inv_start
  | append_singleton ops op ih =>
    have : run (start ids) (ops ++ [op]) = step (run (start ids) ops) op := by
      simp [run]
    rw [this, written_append]
    apply inv_step hids ih

theorem run_untouched {net : ι → Replica} {ops : List (Op ι)} {k : ι}
    (h : ∀ op ∈ ops, ¬ op.touches k)
    : run net ops k = net k := by
  induction ops generalizing net with
  | nil => rfl
  | cons op ops ih =>
    have hrest : run net (op :: ops) k = run (step net op) ops k := by rfl
    rw [hrest, ih]
    . have hop := h op List.mem_cons_self
      cases op with
      | applyLocal i event =>
        simp only [Op.touches] at hop
        rw [step_applyLocal]
        simp [Ne.symm hop]
      | reconcile i j hne =>
        simp only [Op.touches, not_or] at hop
        rw [step_reconcile]
        simp [Ne.symm hop.1, Ne.symm hop.2]
    . intro op' hop'
      apply h
      apply List.mem_cons_of_mem _ hop'

def HoldsPrefixes (hist : String → List ChangeEvent) (r : Replica) : Prop :=
  (∀ o s, (o, s) ∈ r.log ↔ 0 < s ∧ s ≤ r.vv.seen o) ∧
  ∀ o s rec, r.log[(o, s)]? = some rec →
    ∃ event, (hist o)[s - 1]? = some event ∧ rec = ⟨o, s, event⟩

def ViewIsMax (r : Replica) : Prop :=
  ∀ k event,
    r.view[k]? = some event
      ↔
    ∃ rec ∈ values r.log, key rec.event = k ∧ rec.event = event ∧
      ∀ rec' ∈ values r.log, key rec'.event = k → rec' ≠ rec → wins rec rec'

omit [DecidableEq ι] in
theorem holdsPrefixes_of_inv {ids : ι → String} {hist : String → List ChangeEvent}
    {net : ι → Replica} (h : Inv ids hist net) (i : ι)
    : HoldsPrefixes hist (net i) := by
  have hw := h.within i
  constructor
  . intro o s
    rw [Std.ExtTreeMap.mem_iff_isSome_getElem?, hw.log_eq (h.noOverclaim i)]
    rw [Option.isSome_map, isSome_upTo hw.covers]
  . intro o s rec hrec
    have hslot := hw.slot_eq _ _ hrec
    have hauth := hw.authentic _ _ hrec
    rcases rec with ⟨o', s', event⟩
    simp only [Replica.slot, Prod.mk.injEq] at hslot
    rcases hslot with ⟨rfl, rfl⟩
    refine ⟨event, ?_, rfl⟩
    apply ((entry_eq_some_iff ..).mp hauth).2

theorem reconcile_agrees {ids : ι → String} (hids : ids.Injective) (ops : List (Op ι)) {i j : ι}
    (hne : i ≠ j)
    : let net := run (start ids) (ops ++ [.reconcile i j hne])
      (net i).log = (net j).log ∧ (net i).vv = (net j).vv := by
  have hinv := inv_run hids ops
  have hrun : run (start ids) (ops ++ [.reconcile i j hne])
      = step (run (start ids) ops) (.reconcile i j hne) := by
    simp [run]
  dsimp only
  rw [hrun, step_reconcile, step_reconcile]
  simp only [hne, ↓reduceIte]
  constructor
  . apply log_reconcile (hinv.within i) (hinv.within j) (hinv.noOverclaim i) (hinv.noOverclaim j)
  . apply vv_reconcile (hinv.within i) (hinv.within j) (hinv.noOverclaim i) (hinv.noOverclaim j)

theorem run_between (ids : ι → String) (ops between : List (Op ι)) (op : Op ι) {i : ι}
    (h : ∀ op' ∈ between, ¬ op'.touches i)
    : run (start ids) (ops ++ op :: between) i = run (start ids) (ops ++ [op]) i := by
  have hsplit : ops ++ op :: between = (ops ++ [op]) ++ between := by
    simp
  have hrun : run (start ids) (ops ++ op :: between)
      = run (run (start ids) (ops ++ [op])) between := by
    rw [hsplit]
    simp only [run, List.foldl_append]
  rw [hrun]
  apply run_untouched h

theorem reconcile_again {ids : ι → String} (hids : ids.Injective) (ops between : List (Op ι))
    {i j : ι} (hne : i ≠ j) (hi : ∀ op ∈ between, ¬ op.touches i)
    (hj : ∀ op ∈ between, ¬ op.touches j)
    : let net := run (start ids) (ops ++ .reconcile i j hne :: between)
      (net i).deltaSince (net j).vv = [] ∧ (net j).deltaSince (net i).vv = [] ∧
        step net (.reconcile i j hne) = net := by
  have hinv := inv_run hids (ops ++ .reconcile i j hne :: between)
  have hvv := (reconcile_agrees hids ops hne).2
  rw [← run_between ids ops between _ hi, ← run_between ids ops between _ hj] at hvv
  have hself := reconcile_eq_self (hinv.within i) (hinv.within j) hvv
  refine ⟨?_, ?_, ?_⟩
  . apply deltaSince_eq_nil (hinv.within i) hvv.symm
  . apply deltaSince_eq_nil (hinv.within j) hvv
  . simp only [step, hself, Function.update_eq_self]

theorem gossip_converges (ids : ι → String) (hids : ids.Injective) (ops : List (Op ι))
    : (∀ i, HoldsPrefixes (written ids ops) (run (start ids) ops i)) ∧
      (∀ i j (hne : i ≠ j),
        let net := run (start ids) (ops ++ [.reconcile i j hne])
        (net i).log = (net j).log ∧ (net i).vv = (net j).vv ∧ (net i).view = (net j).view) ∧
      (∀ i j (hne : i ≠ j) (between : List (Op ι)),
        (∀ op ∈ between, ¬ op.touches i ∧ ¬ op.touches j) →
          let net := run (start ids) (ops ++ .reconcile i j hne :: between)
          (net i).deltaSince (net j).vv = [] ∧ (net j).deltaSince (net i).vv = [] ∧
            step net (.reconcile i j hne) = net) ∧
      (∀ i, ViewIsMax (run (start ids) ops i) ∧
        ∀ arrived, arrived.Perm (values (run (start ids) ops i).log) →
          Replica.viewOf arrived = (run (start ids) ops i).view) := by
  have hinv := inv_run hids ops
  refine ⟨?_, ?_, ?_, ?_⟩
  . intro i
    apply holdsPrefixes_of_inv hinv
  . intro i j hne
    have h := reconcile_agrees hids ops hne
    refine ⟨h.1, h.2, ?_⟩
    simp only [Replica.view, h.1]
  . intro i j hne between huntouched
    apply reconcile_again hids ops between hne
    . intro op hop
      apply (huntouched op hop).1
    . intro op hop
      apply (huntouched op hop).2
  . intro i
    have hslot := (hinv.within i).eq_of_slot_eq
    constructor
    . intro k event
      apply Replica.viewOf_eq_some_iff hslot
    . intro arrived harrived
      rw [Replica.view]
      symm
      apply Replica.viewOf_eq_of_perm hslot harrived.symm

def ringOps : List (Op (Fin 3)) :=
  [
    .applyLocal 0 ⟨"memory", "m1", "update", 1, 10⟩,
    .applyLocal 1 ⟨"memory", "m1", "update", 2, 20⟩,
    .applyLocal 2 ⟨"memory", "m2", "create", 1, 30⟩,
    .reconcile 0 1 (by decide),
    .reconcile 1 2 (by decide)
  ]

theorem gossip_converges_ring
    : Function.Injective ![ "A", "B", "C"] ∧
      let net := run (start ![ "A", "B", "C"]) (ringOps ++ [.reconcile 0 2 (by decide)])
      (net 0).log = (net 2).log ∧ (net 0).vv = (net 2).vv ∧ (net 0).view = (net 2).view := by
  have hids : Function.Injective ![ "A", "B", "C"] := by decide
  exact ⟨hids, (gossip_converges ![ "A", "B", "C"] hids ringOps).2.1 0 2 (by decide)⟩

end Gossip
end Sync
end MemStack
