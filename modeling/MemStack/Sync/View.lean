import MemStack.Util.Incumbent
import MemStack.Sync.Lemmas

/-!
This module shows that the view of a log is the last-writer-wins map of its records: every key is
mapped to the maximum of its records under `(version, at_ms, replica_id, seq)`, in whichever order
the records are looked at. The part of the history a replica holds is the prefix its version vector describes, so
exchanging deltas is the join of two version vectors and `reconcile` makes both sides equal.
-/

namespace MemStack
namespace Sync

open OrdMap ArgMax
open Std (ExtTreeMap LawfulEqCmp)

theorem slot_eq_of_rank_eq {a b : SyncRecord} (h : rank a = rank b)
    : Replica.slot a = Replica.slot b := by
  unfold rank at h
  simp only [EmbeddingLike.apply_eq_iff_eq, Prod.mk.injEq] at h
  unfold Replica.slot
  rw [h.2.2.1, h.2.2.2]

namespace Replica

theorem challenge_getElem? (winners : ExtTreeMap (String × String) SyncRecord cmpPair)
    (r : SyncRecord) (k : String × String)
    : (challenge winners r)[k]?
        =
      if key r.event = k then
        List.argAux (fun b c => rank c < rank b) winners[k]? r
      else
        winners[k]? := by
  unfold challenge
  rw [ExtTreeMap.getElem?_alter]
  simp only [LawfulEqCmp.compare_eq_iff_eq]
  split
  . next h =>
    rw [h]
    cases winners[k]? with
    | none => rfl
    | some cur =>
      simp only [List.argAux, wins, decide_eq_true_eq]
      split <;> rfl
  . rfl

theorem foldl_challenge_getElem? (winners : ExtTreeMap (String × String) SyncRecord cmpPair)
    (records : List SyncRecord) (k : String × String)
    : (records.foldl challenge winners)[k]?
        =
      (records.filter fun r => key r.event = k).foldl (List.argAux fun b c => rank c < rank b)
        winners[k]? := by
  induction records generalizing winners with
  | nil => rfl
  | cons r records ih =>
    rw [List.foldl_cons, ih, challenge_getElem?]
    by_cases h : key r.event = k
    . simp [h]
    . simp [h]

theorem viewOf_getElem? (records : List SyncRecord) (k : String × String)
    : (viewOf records)[k]?
        =
      ((records.filter fun r => key r.event = k).argmax rank).map SyncRecord.event := by
  unfold viewOf
  rw [ExtTreeMap.getElem?_map, foldl_challenge_getElem?]
  simp [List.argmax]

theorem rank_injOn {records : List SyncRecord} {k : String × String}
    (hslot : ∀ a ∈ records, ∀ b ∈ records, slot a = slot b → a = b)
    : ∀ a ∈ records.filter (fun r => key r.event = k),
        ∀ b ∈ records.filter (fun r => key r.event = k), rank a = rank b → a = b := by
  intro a ha b hb h
  apply hslot
  . exact List.mem_of_mem_filter ha
  . exact List.mem_of_mem_filter hb
  . exact slot_eq_of_rank_eq h

theorem viewOf_eq_of_perm {records records' : List SyncRecord}
    (hslot : ∀ a ∈ records, ∀ b ∈ records, slot a = slot b → a = b)
    (hperm : records.Perm records')
    : viewOf records = viewOf records' := by
  apply ExtTreeMap.ext_getElem?
  intro k
  rw [viewOf_getElem?, viewOf_getElem?]
  rw [argmax_eq_of_perm]
  . apply rank_injOn
    exact hslot
  . apply hperm.filter

theorem viewOf_eq_some_iff {records : List SyncRecord}
    (hslot : ∀ a ∈ records, ∀ b ∈ records, slot a = slot b → a = b) (k : String × String)
    (event : ChangeEvent)
    : (viewOf records)[k]? = some event
        ↔
      ∃ rec ∈ records, key rec.event = k ∧ rec.event = event ∧
        ∀ rec' ∈ records, key rec'.event = k → rec' ≠ rec → wins rec rec' := by
  rw [viewOf_getElem?]
  simp only [Option.map_eq_some_iff, argmax_eq_some_iff (rank_injOn hslot), List.mem_filter,
    decide_eq_true_eq, and_imp, wins]
  constructor
  . intro h
    rcases h with ⟨rec, ⟨⟨hrec, hkey⟩, hmax⟩, hevent⟩
    refine ⟨rec, hrec, hkey, hevent, ?_⟩
    intro rec' hrec' hkey' hne
    apply lt_of_le_of_ne
    . apply hmax rec' hrec' hkey'
    . intro heq
      apply hne
      apply hslot rec' hrec' rec hrec
      apply slot_eq_of_rank_eq heq
  . intro h
    rcases h with ⟨rec, hrec, hkey, hevent, hmax⟩
    refine ⟨rec, ⟨⟨hrec, hkey⟩, ?_⟩, hevent⟩
    intro rec' hrec' hkey'
    by_cases h : rec' = rec
    . rw [h]
    . apply le_of_lt
      apply hmax rec' hrec' hkey' h

end Replica

namespace Within

variable {hist : String → List ChangeEvent} {r : Replica}

theorem eq_of_slot_eq (h : Within hist r)
    : ∀ a ∈ values r.log, ∀ b ∈ values r.log, Replica.slot a = Replica.slot b → a = b := by
  intro a ha b hb heq
  rw [mem_values] at ha hb
  cases ha with
  | intro k hk =>
    cases hb with
    | intro k' hk' =>
      apply Authentic.eq_of_slot_eq _ _ heq
      . exact hist
      . apply h.authentic k a hk
      . apply h.authentic k' b hk'

end Within

open Std (ExtTreeMap)

variable {hist : String → List ChangeEvent} {a b : Replica}

theorem gapFree_deltaSince (hb : Within hist b) (hclaim : NoOverclaim b)
    : GapFree a.vv (b.deltaSince a.vv) := by
  intro rec hrec t hlt hgt
  rw [hb.mem_deltaSince] at hrec
  have hle := hb.le_seen _ _ hrec.1
  have hmem := hclaim rec.replicaId t (by omega) (by omega)
  rw [ExtTreeMap.mem_iff_isSome_getElem?, Option.isSome_iff_exists] at hmem
  cases hmem with
  | intro rec' hrec' =>
    have hslot := hb.slot_eq _ _ hrec'
    refine ⟨rec', ?_, hslot⟩
    rw [hb.mem_deltaSince, hslot]
    refine ⟨hrec', ?_⟩
    simp only [Replica.slot, Prod.mk.injEq] at hslot
    rw [hslot.1, hslot.2]
    exact hlt

theorem within_exchange (ha : Within hist a) (hb : Within hist b)
    : Within hist (a.merge (b.deltaSince a.vv)) := by
  apply ha.merge
  intro rec hrec
  apply hb.authentic_of_mem_deltaSince hrec

theorem noOverclaim_exchange (ha : Within hist a) (hb : Within hist b) (hca : NoOverclaim a)
    (hcb : NoOverclaim b)
    : NoOverclaim (a.merge (b.deltaSince a.vv)) := by
  rw [ha.noOverclaim_merge_iff hca]
  apply gapFree_deltaSince hb hcb

theorem seen_exchange (hb : Within hist b) (hcb : NoOverclaim b) (o : String)
    : (a.merge (b.deltaSince a.vv)).vv.seen o = max (a.vv.seen o) (b.vv.seen o) := by
  apply Nat.le_antisymm
  . have h := (Replica.merge_seen a (b.deltaSince a.vv) o _).mp (Nat.le_refl _)
    cases h with
    | inl h => omega
    | inr h =>
      rcases h with ⟨rec, hrec, rfl, hle⟩
      rw [hb.mem_deltaSince] at hrec
      have := hb.le_seen _ _ hrec.1
      omega
  . rw [Replica.merge_seen]
    by_cases h : b.vv.seen o ≤ a.vv.seen o
    . left
      omega
    . right
      have hmem := hcb o (b.vv.seen o) (by omega) (Nat.le_refl _)
      rw [ExtTreeMap.mem_iff_isSome_getElem?, Option.isSome_iff_exists] at hmem
      cases hmem with
      | intro rec hrec =>
        have hslot := hb.slot_eq _ _ hrec
        have heq := hslot
        simp only [Replica.slot, Prod.mk.injEq] at heq
        refine ⟨rec, ?_, heq.1, by omega⟩
        rw [hb.mem_deltaSince, hslot]
        refine ⟨hrec, ?_⟩
        rw [heq.1, heq.2]
        omega

theorem log_eq_of_seen_eq (ha : Within hist a) (hb : Within hist b) (hca : NoOverclaim a)
    (hcb : NoOverclaim b) (hseen : ∀ o, a.vv.seen o = b.vv.seen o)
    : a.log = b.log := by
  have : a.vv.seen = b.vv.seen := by
    funext o
    apply hseen
  apply ExtTreeMap.ext_getElem?
  intro k
  rw [ha.log_eq hca k.1 k.2, hb.log_eq hcb k.1 k.2, this]

theorem vv_reconcile (ha : Within hist a) (hb : Within hist b) (hca : NoOverclaim a)
    (hcb : NoOverclaim b)
    : (reconcile a b).1.vv = (reconcile a b).2.vv := by
  apply VersionVector.eq_of_seen_eq
  . apply (within_exchange ha hb).nonZero
  . apply (within_exchange hb ha).nonZero
  . intro o
    dsimp only [reconcile]
    rw [seen_exchange hb hcb, seen_exchange ha hca, Nat.max_comm]

theorem log_reconcile (ha : Within hist a) (hb : Within hist b) (hca : NoOverclaim a)
    (hcb : NoOverclaim b)
    : (reconcile a b).1.log = (reconcile a b).2.log := by
  apply log_eq_of_seen_eq
  . apply within_exchange ha hb
  . apply within_exchange hb ha
  . apply noOverclaim_exchange ha hb hca hcb
  . apply noOverclaim_exchange hb ha hcb hca
  . intro o
    rw [vv_reconcile ha hb hca hcb]

theorem deltaSince_eq_nil (hb : Within hist b) (hvv : a.vv = b.vv) : b.deltaSince a.vv = [] := by
  rw [List.eq_nil_iff_forall_not_mem]
  intro rec hrec
  rw [hb.mem_deltaSince, hvv] at hrec
  have := hb.le_seen _ _ hrec.1
  omega

theorem reconcile_eq_self (ha : Within hist a) (hb : Within hist b) (hvv : a.vv = b.vv)
    : reconcile a b = (a, b) := by
  unfold reconcile
  rw [deltaSince_eq_nil hb hvv, deltaSince_eq_nil ha hvv.symm]
  rfl

end Sync
end MemStack
