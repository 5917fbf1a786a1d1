import MemStack.Cron.Operations
import MemStack.Util.Lists

/-!
This module contains the fencing of the operation queue: who may write to an operation, how often it is tried
and that none is stranded.
-/

namespace MemStack
namespace Cron

def CronOperationReply.claims : CronOperationReply → List CronOperation
  | .claimed (.ok rows) => rows
  | _ => []

def CronOperationReply.succeeded : CronOperationReply → Bool
  | .renewed ok => ok
  | .written row => row.isSome
  | _ => false

def CronOperationRequest.fence? : CronOperationRequest → Option Fence
  | .renew fence _ => some fence
  | .complete fence => some fence
  | .markWaitingRuntime fence => some fence
  | .fail fence _ => some fence
  | _ => none

namespace CronStore

abbrev Entry :=
  Machine.Entry CronStore CronOperationRequest CronOperationReply

def claims (past : List Entry) : List CronOperation :=
  past.flatMap (·.reply.claims)

structure Lease where
  leaseOwner : Option String
  leaseToken : Option String
  leaseExpiresAt : Option Timestamp
  deriving DecidableEq, Repr

def leaseOf (o : CronOperation) : Lease where
  leaseOwner := o.leaseOwner
  leaseToken := o.leaseToken
  leaseExpiresAt := o.leaseExpiresAt

def leaseAfter (id : String) (lease : Option Lease) (e : Entry) : Option Lease :=
  match e.reply with
  | .claimed (.ok rows) => ((rows.find? (·.id = id)).map leaseOf).or lease
  | .renewed true =>
    match e.request with
    | .renew fence leaseSeconds =>
      if fence.operationId = id then
        lease.map ({ · with leaseExpiresAt := some (fence.now + positiveSeconds leaseSeconds * Timestamp.second) })
      else
        lease
    | _ => lease
  | _ => lease

def latestLease (past : List Entry) (id : String) : Option Lease :=
  past.foldl (leaseAfter id) none

section Step

variable {s : CronStore} {request : CronOperationRequest} {o : CronOperation} {fence : Fence}

def live (o : CronOperation) : Bool :=
  o.status ≠ .completed && o.status ≠ .deadLetter

structure Ends (old new : CronOperation) : Prop where
  live : live old
  id : new.id = old.id
  attemptCount : new.attemptCount = old.attemptCount
  maxAttempts : new.maxAttempts = old.maxAttempts
  status : new.status ≠ .processing

inductive Change (e : Entry) (old : CronOperation) : CronOperation → Prop where
  | same (hclaims : ∀ row ∈ e.reply.claims, row.id ≠ old.id)
      (hlease : ∀ lease, leaseAfter old.id lease e = lease)
      : Change e old old
  | claimed {leaseOwner : String} {leaseSeconds : Int} {now : Timestamp} (hlive : live old)
      (hattempts : old.attemptCount < old.maxAttempts)
      (hmem : old.claimed leaseOwner leaseSeconds now e.before.txid ∈ e.reply.claims)
      : Change e old (old.claimed leaseOwner leaseSeconds now e.before.txid)
  | renewed {fence : Fence} {leaseSeconds : Int} (hleased : old.isLeased fence)
      (hrequest : e.request = .renew fence leaseSeconds) (hreply : e.reply = .renewed true)
      : Change e old (old.renewed leaseSeconds fence.now)
  | ended {new : CronOperation} (hends : Ends old new) (hclaims : ∀ row ∈ e.reply.claims, row.id ≠ old.id)
      : Change e old new

structure Steps (e : Entry) (f : CronOperation → CronOperation) (added : List CronOperation) : Prop where
  operations : e.after.operations = e.before.operations.map f ++ added
  change : ∀ old ∈ e.before.operations, Change e old (f old)
  fresh : ∀ new ∈ added, ∃ operation, new = .ofNew operation ∧ ∀ old ∈ e.before.operations, old.id ≠ new.id
  few : added.length ≤ 1

theorem steps_of_same (hoperations : (step s request).1.operations = s.operations)
    (hclaims : (step s request).2.claims = [])
    (hlease : ∀ id lease, leaseAfter id lease (Machine.entry step s request) = lease)
    : Steps (Machine.entry step s request) id [] where
  operations := by
    rw [List.map_id, List.append_nil]
    exact hoperations
  change := by
    intro old _
    apply Change.same
    . intro row hrow
      change row ∈ (step s request).2.claims at hrow
      rw [hclaims] at hrow
      cases hrow
    . apply hlease
  fresh := by
    intro new hnew
    cases hnew
  few := by
    simp

theorem live_of_leased (h : o.isLeased fence) : live o := by
  simp only [CronOperation.isLeased, Bool.and_eq_true, decide_eq_true_eq] at h
  simp [live, h.1.1.1.2]

theorem id_of_leased (h : o.isLeased fence) : o.id = fence.operationId := by
  simp only [CronOperation.isLeased, Bool.and_eq_true, decide_eq_true_eq] at h
  exact h.1.1.1.1.1

theorem live_of_waiting {now : Timestamp} (h : o.isWaiting now) : live o := by
  unfold CronOperation.isWaiting at h
  unfold live
  split at h
  . simp_all
  . simp_all
  . simp_all
  . cases h

theorem ends_completed (h : o.isLeased fence) {now : Timestamp} : Ends o (o.completed now) where
  live := live_of_leased h
  id := rfl
  attemptCount := rfl
  maxAttempts := rfl
  status := by
    simp [CronOperation.completed]

theorem ends_waitingRuntime (h : o.isLeased fence) {now : Timestamp} : Ends o (o.waitingRuntime now) where
  live := live_of_leased h
  id := rfl
  attemptCount := rfl
  maxAttempts := rfl
  status := by
    simp [CronOperation.waitingRuntime]

theorem ends_failed (h : o.isLeased fence) {failure : CronOperationFailure} {now : Timestamp}
    : Ends o (o.failed failure now) where
  live := live_of_leased h
  id := rfl
  attemptCount := rfl
  maxAttempts := rfl
  status := by
    unfold CronOperation.failed
    dsimp only
    split <;> simp

theorem ends_reconciled {run : CronRunRow} (h : o.hasTerminalRun run) {row : Option CronRunRow} {now : Timestamp}
    : Ends o (o.reconciled row now) where
  live := by
    simp only [CronOperation.hasTerminalRun, Bool.and_eq_true, decide_eq_true_eq] at h
    simp [live, h.1.1.1.1.1.1.1]
  id := rfl
  attemptCount := rfl
  maxAttempts := rfl
  status := by
    simp [CronOperation.reconciled]

theorem ends_expired {now : Timestamp} (h : o.isWaiting now) : Ends o (o.expired now) where
  live := live_of_waiting h
  id := rfl
  attemptCount := rfl
  maxAttempts := rfl
  status := by
    simp [CronOperation.expired]

theorem steps_update {p : CronOperation → Bool} {f : CronOperation → CronOperation}
    {row : Option CronOperation}
    (hstep : step s request = ({ s with operations := Table.update p f s.operations, txid := s.txid + 1 },
      .written row))
    (hends : ∀ old ∈ s.operations, p old → Ends old (f old))
    : Steps (Machine.entry step s request) (fun old => if p old then f old else old) [] where
  operations := by
    rw [List.append_nil]
    change (step s request).1.operations = _
    rw [hstep]
    rfl
  change := by
    intro old hold
    have hreply : (Machine.entry step s request).reply = .written row := by
      change (step s request).2 = _
      rw [hstep]
    have hclaims : ∀ row ∈ (Machine.entry step s request).reply.claims, row.id ≠ old.id := by
      intro row hrow
      rw [hreply] at hrow
      cases hrow
    split
    . next hp => exact .ended (hends old hold hp) hclaims
    . apply Change.same hclaims
      intro lease
      unfold leaseAfter
      rw [hreply]
  fresh := by
    intro new hnew
    cases hnew
  few := by
    simp

theorem steps_enqueue {operation : NewCronOperation}
    : ∃ f added, Steps (Machine.entry step s (.enqueue operation)) f added := by
  by_cases hconflict : s.operations.any (CronOperation.ofNew operation).conflicts
  . refine ⟨id, [], ?_⟩
    have hstep : step s (.enqueue operation) = ({ s with txid := s.txid + 1 }, .enqueued none) := by
      simp [step, answer, enqueue, hconflict]
    apply steps_of_same
    . rw [hstep]
    . rw [hstep]
      rfl
    . intro id lease
      unfold leaseAfter Machine.entry
      rw [hstep]
  . refine ⟨id, [.ofNew operation], ?_⟩
    have hstep : step s (.enqueue operation)
        = ({ s with operations := s.operations ++ [.ofNew operation], txid := s.txid + 1 },
            .enqueued (some (.ofNew operation))) := by
      simp [step, answer, enqueue, hconflict]
    constructor
    . change (step s (.enqueue operation)).1.operations = _
      rw [hstep, List.map_id]
      rfl
    . intro old _
      apply Change.same
      . intro row hrow
        change row ∈ (step s (.enqueue operation)).2.claims at hrow
        rw [hstep] at hrow
        cases hrow
      . intro lease
        unfold leaseAfter Machine.entry
        rw [hstep]
    . intro new hnew
      rw [List.mem_singleton] at hnew
      refine ⟨operation, hnew, ?_⟩
      intro old hold heq
      apply hconflict
      rw [List.any_eq_true]
      refine ⟨old, hold, ?_⟩
      rw [hnew] at heq
      simp [CronOperation.conflicts, heq]
    . simp

theorem steps_renew (hnodup : (s.operations.map (·.id)).Nodup) {leaseSeconds : Int}
    : Steps (Machine.entry step s (.renew fence leaseSeconds))
        (fun old => if old.isLeased fence then old.renewed leaseSeconds fence.now else old) [] where
  operations := by
    rw [List.append_nil]
    rfl
  change := by
    intro old hold
    have hreply : (Machine.entry step s (.renew fence leaseSeconds)).reply
        = .renewed ((Table.updated (·.isLeased fence) (·.renewed leaseSeconds fence.now) s.operations).length = 1) :=
      rfl
    split
    . next hleased =>
      apply Change.renewed hleased rfl
      rw [hreply, Table.updated_eq_singleton hnodup hold hleased]
      . rfl
      . intro other _ hother
        rw [id_of_leased hother, id_of_leased hleased]
    . next hleased =>
      apply Change.same
      . intro row hrow
        cases hrow
      . intro lease
        unfold leaseAfter
        rw [hreply]
        split
        . next h => cases h
        . next h =>
          -- Another row that is renewed has another id.
          dsimp only [Machine.entry]
          rw [if_neg]
          intro hid
          rw [CronOperationReply.renewed.injEq, decide_eq_true_eq] at h
          rcases List.length_eq_one_iff.mp h with ⟨row, hrow⟩
          have hmem : row ∈ Table.updated (·.isLeased fence) (·.renewed leaseSeconds fence.now) s.operations := by
            rw [hrow]
            exact List.mem_singleton_self row
          rcases Table.mem_updated.mp hmem with ⟨other, hother, hotherLeased, _⟩
          have : other = old := by
            apply Table.eq_of_key hnodup hother hold
            rw [id_of_leased hotherLeased, hid]
          apply hleased
          rw [← this]
          exact hotherLeased
        . rfl
  fresh := by
    intro new hnew
    cases hnew
  few := by
    simp

section ClaimDue

variable {scope : CronOperationScope} {authority : CronSchedulerLease} {limit : Int} {leaseOwner : String}
  {leaseSeconds : Int} {now : Timestamp}

theorem claimDue_eq (hlimit : 0 < limit) (hvalid : authority.isStructurallyValid)
    (hcurrent : s.owner.any (·.isCurrent authority now))
    : step s (.claimDue scope authority limit leaseOwner leaseSeconds now)
        =
      ({ s with
          operations := s.operations.map (s.afterClaim scope limit leaseOwner leaseSeconds now)
          txid := s.txid + 1 },
        .claimed (.ok ((s.due scope limit now).map (·.claimed leaseOwner leaseSeconds now s.txid)))) := by
  have hnot : ¬ limit ≤ 0 := by omega
  simp [step, answer, claimDue, hnot, hvalid, hcurrent]

theorem claimDue_idle (h : ¬ (0 < limit ∧ authority.isStructurallyValid ∧ s.owner.any (·.isCurrent authority now)))
    : (step s (.claimDue scope authority limit leaseOwner leaseSeconds now)).1.operations = s.operations ∧
        ((step s (.claimDue scope authority limit leaseOwner leaseSeconds now)).2 = .claimed (.ok []) ∨
          ∃ e, (step s (.claimDue scope authority limit leaseOwner leaseSeconds now)).2 = .claimed (.error e)) := by
  unfold step answer claimDue
  dsimp only
  split
  . exact ⟨rfl, .inl rfl⟩
  . next hlimit =>
    split
    . exact ⟨rfl, .inr ⟨_, rfl⟩⟩
    . next hvalid =>
      split
      . next hcurrent =>
        exfalso
        apply h
        refine ⟨by omega, by simpa using hvalid, hcurrent⟩
      . exact ⟨rfl, .inl rfl⟩

theorem dueBefore_iff {other : CronOperation}
    : o.dueBefore other ↔
        toLex (o.nextAttemptAt.getD o.createdAt, toLex (o.createdAt, o.id))
          ≤
        toLex (other.nextAttemptAt.getD other.createdAt, toLex (other.createdAt, other.id)) := by
  simp [CronOperation.dueBefore, Prod.Lex.le_iff]

theorem mem_due (h : o ∈ s.due scope limit now) : o ∈ s.operations ∧ o.isDue scope now :=
  Table.mem_of_mem_select h

theorem not_exhausted_of_due (h : o.isDue scope now) : ¬ o.isExhausted scope now := by
  simp only [CronOperation.isDue, CronOperation.isExhausted, Bool.and_eq_true, decide_eq_true_eq] at h ⊢
  omega

theorem waiting_of_due (h : o.isDue scope now) : o.isWaiting now := by
  simp only [CronOperation.isDue, Bool.and_eq_true] at h
  exact h.2

theorem attempts_of_due (h : o.isDue scope now) : o.attemptCount < o.maxAttempts := by
  simp only [CronOperation.isDue, Bool.and_eq_true, decide_eq_true_eq] at h
  exact h.1.2

theorem due_iff_any (hnodup : (s.operations.map (·.id)).Nodup) (ho : o ∈ s.operations)
    : (s.due scope limit now).any (·.id = o.id) ↔ o ∈ s.due scope limit now := by
  rw [List.any_eq_true]
  constructor
  . rintro ⟨other, hother, hid⟩
    have : other = o := by
      apply Table.eq_of_key hnodup (mem_due hother).1 ho
      simpa using hid
    rw [← this]
    exact hother
  . intro h
    exact ⟨o, h, by simp⟩

theorem steps_claimDue (hnodup : (s.operations.map (·.id)).Nodup)
    : ∃ f, Steps (Machine.entry step s (.claimDue scope authority limit leaseOwner leaseSeconds now)) f [] := by
  by_cases h : 0 < limit ∧ authority.isStructurallyValid ∧ s.owner.any (·.isCurrent authority now)
  . have hstep := @claimDue_eq s scope authority limit leaseOwner leaseSeconds now h.1 h.2.1 h.2.2
    refine ⟨s.afterClaim scope limit leaseOwner leaseSeconds now, ?_, ?_, ?_, ?_⟩
    . rw [List.append_nil]
      unfold Machine.entry
      rw [hstep]
    . intro old hold
      have hreply : (Machine.entry step s
            (.claimDue scope authority limit leaseOwner leaseSeconds now)).reply
          = .claimed (.ok ((s.due scope limit now).map (·.claimed leaseOwner leaseSeconds now s.txid))) := by
        unfold Machine.entry
        rw [hstep]
      have hunclaimed : old ∉ s.due scope limit now →
          ∀ row ∈ (s.due scope limit now).map (·.claimed leaseOwner leaseSeconds now s.txid), row.id ≠ old.id := by
        intro hnot row hrow hid
        rcases List.mem_map.mp hrow with ⟨other, hother, rfl⟩
        apply hnot
        have : other = old := Table.eq_of_key hnodup (mem_due hother).1 hold hid
        rw [← this]
        exact hother
      unfold afterClaim
      split
      . next hexhausted =>
        apply Change.ended
        . apply ends_expired
          simp only [CronOperation.isExhausted, Bool.and_eq_true] at hexhausted
          exact hexhausted.2
        . rw [hreply]
          apply hunclaimed
          intro hdue
          apply not_exhausted_of_due (mem_due hdue).2 hexhausted
      . split
        . next hany =>
          have hdue := (due_iff_any hnodup hold).mp hany
          apply @Change.claimed (Machine.entry step s _)
          . apply live_of_waiting (waiting_of_due (mem_due hdue).2)
          . apply attempts_of_due (mem_due hdue).2
          . rw [hreply]
            exact List.mem_map_of_mem hdue
        . next hany =>
          have hnot := mt (due_iff_any hnodup hold).mpr hany
          apply Change.same
          . rw [hreply]
            apply hunclaimed hnot
          . intro lease
            unfold leaseAfter
            rw [hreply]
            dsimp only
            rw [List.find?_eq_none.mpr]
            . rfl
            . intro row hrow
              simpa using hunclaimed hnot row hrow
    . intro new hnew
      cases hnew
    . simp
  . have hidle := @claimDue_idle s scope authority limit leaseOwner leaseSeconds now h
    refine ⟨id, ?_⟩
    apply steps_of_same hidle.1
    . cases hidle.2 with
      | inl hreply => rw [hreply]; rfl
      | inr hreply =>
        rcases hreply with ⟨e, hreply⟩
        rw [hreply]
        rfl
    . intro id lease
      unfold leaseAfter Machine.entry
      dsimp only
      cases hidle.2 with
      | inl hreply =>
        rw [hreply]
        rfl
      | inr hreply =>
        rcases hreply with ⟨e, hreply⟩
        rw [hreply]

end ClaimDue

theorem steps_entry (hnodup : (s.operations.map (·.id)).Nodup) (request : CronOperationRequest)
    : ∃ f added, Steps (Machine.entry step s request) f added := by
  cases request with
  | owner request =>
    refine ⟨id, [], ?_⟩
    apply steps_of_same
    . rfl
    . rfl
    . intro id lease
      rfl
  | enqueue operation => apply steps_enqueue
  | claimDue scope authority limit leaseOwner leaseSeconds now =>
    rcases @steps_claimDue s scope authority limit leaseOwner leaseSeconds now hnodup with ⟨f, hf⟩
    exact ⟨f, [], hf⟩
  | renew fence leaseSeconds => exact ⟨_, [], steps_renew hnodup⟩
  | complete fence =>
    refine ⟨_, [], steps_update rfl ?_⟩
    intro old _ h
    exact ends_completed h
  | markWaitingRuntime fence =>
    refine ⟨_, [], steps_update rfl ?_⟩
    intro old _ h
    exact ends_waitingRuntime h
  | reconcileRuntimeTerminal scope operationId runs now =>
    refine ⟨_, [], steps_update rfl ?_⟩
    intro old _ h
    simp only [Bool.and_eq_true, List.any_eq_true] at h
    rcases h.2 with ⟨run, _, hrun⟩
    exact ends_reconciled hrun
  | fail fence failure =>
    refine ⟨_, [], steps_update rfl ?_⟩
    intro old _ h
    exact ends_failed h

end Step

section Change

variable {past : List Entry} {e : Entry} {old new : CronOperation}

theorem Change.id (h : Change e old new) : new.id = old.id := by
  cases h with
  | same => rfl
  | claimed => rfl
  | renewed => rfl
  | ended hends => exact hends.id

theorem Change.bounded (h : Change e old new) (hbounded : old.attemptCount ≤ old.maxAttempts)
    : new.attemptCount ≤ new.maxAttempts := by
  cases h with
  | same => exact hbounded
  | claimed _ hattempts => exact hattempts
  | renewed => exact hbounded
  | ended hends =>
    rw [hends.attemptCount, hends.maxAttempts]
    exact hbounded

theorem countP_claims_eq_zero (h : ∀ row ∈ e.reply.claims, row.id ≠ old.id)
    : e.reply.claims.countP (·.id = old.id) = 0 := by
  rw [List.countP_eq_zero]
  intro row hrow
  simpa using h row hrow

theorem countP_claims_eq_one (hnodup : (e.reply.claims.map (·.id)).Nodup) {row : CronOperation}
    (hrow : row ∈ e.reply.claims) (hid : row.id = old.id)
    : e.reply.claims.countP (·.id = old.id) = 1 := by
  have hcount := List.count_eq_one_of_mem hnodup (List.mem_map_of_mem hrow)
  rw [List.count_eq_countP, List.countP_map, hid] at hcount
  rw [← hcount]
  apply List.countP_congr
  intro other _
  simp

theorem Change.attemptCount (h : Change e old new) (hnodup : (e.reply.claims.map (·.id)).Nodup)
    : new.attemptCount = old.attemptCount + e.reply.claims.countP (·.id = old.id) := by
  cases h with
  | same hclaims => rw [countP_claims_eq_zero hclaims, Nat.add_zero]
  | claimed _ _ hmem =>
    rw [@countP_claims_eq_one e old hnodup _ hmem rfl]
    rfl
  | renewed _ _ hreply =>
    rw [hreply]
    rfl
  | ended hends hclaims => rw [countP_claims_eq_zero hclaims, hends.attemptCount, Nat.add_zero]

theorem latestLease_concat (id : String)
    : latestLease (past ++ [e]) id = leaseAfter id (latestLease past id) e := by
  simp [latestLease]

theorem leaseAfter_claimed (hnodup : (e.reply.claims.map (·.id)).Nodup) {row : CronOperation}
    (hrow : row ∈ e.reply.claims) (lease : Option Lease)
    : leaseAfter row.id lease e = some (leaseOf row) := by
  unfold leaseAfter
  cases hreply : e.reply with
  | claimed result =>
    cases result with
    | ok rows =>
      rw [hreply] at hrow hnodup
      have hfind : rows.find? (·.id = row.id) = some row := by
        cases hfound : rows.find? (·.id = row.id) with
        | none =>
          rw [List.find?_eq_none] at hfound
          simpa using hfound row hrow
        | some other =>
          rw [Table.eq_of_key hnodup (List.mem_of_find?_eq_some hfound) hrow
            (by simpa using List.find?_some hfound)]
      dsimp only
      rw [hfind]
      rfl
    | error error =>
      rw [hreply] at hrow
      cases hrow
  | _ =>
    rw [hreply] at hrow
    cases hrow

theorem Change.leased (h : Change e old new) (hnodup : (e.reply.claims.map (·.id)).Nodup)
    (hleased : old.status = .processing → latestLease past old.id = some (leaseOf old))
    (hstatus : new.status = .processing)
    : latestLease (past ++ [e]) new.id = some (leaseOf new) := by
  rw [latestLease_concat, h.id]
  cases h with
  | same _ hlease =>
    rw [hlease]
    exact hleased hstatus
  | claimed _ _ hmem => exact leaseAfter_claimed hnodup hmem _
  | renewed hlease hrequest hreply =>
    unfold leaseAfter
    rw [hreply, hrequest]
    dsimp only
    rw [if_pos (id_of_leased hlease).symm, hleased hstatus]
    rfl
  | ended hends => exact absurd hstatus hends.status

theorem Change.absorbed (h : Change e old new) (hover : old.status = .completed ∨ old.status = .deadLetter)
    : new = old := by
  have hlive : live old = false := by
    cases hover with
    | inl hover => simp [live, hover]
    | inr hover => simp [live, hover]
  cases h with
  | same => rfl
  | claimed h =>
    rw [hlive] at h
    cases h
  | renewed h =>
    rw [live_of_leased h] at hlive
    cases hlive
  | ended hends =>
    rw [hends.live] at hlive
    cases hlive

end Change

section Claims

variable {s : CronStore} {request : CronOperationRequest} {row : CronOperation}

theorem nodup_ids_due (hnodup : (s.operations.map (·.id)).Nodup) (scope : CronOperationScope) (limit : Int)
    (now : Timestamp)
    : ((s.due scope limit now).map (·.id)).Nodup := by
  apply Table.nodup_map_select hnodup

theorem claims_cases (request : CronOperationRequest)
    : (step s request).2.claims = [] ∨
        ∃ scope limit leaseOwner leaseSeconds now,
          (step s request).2.claims
            =
          (s.due scope limit now).map (·.claimed leaseOwner leaseSeconds now s.txid) := by
  cases request with
  | claimDue scope authority limit leaseOwner leaseSeconds now =>
    by_cases h : 0 < limit ∧ authority.isStructurallyValid ∧ s.owner.any (·.isCurrent authority now)
    . right
      refine ⟨scope, limit, leaseOwner, leaseSeconds, now, ?_⟩
      rw [claimDue_eq h.1 h.2.1 h.2.2]
      rfl
    . left
      cases (@claimDue_idle s scope authority limit leaseOwner leaseSeconds now h).2 with
      | inl hreply =>
        rw [hreply]
        rfl
      | inr hreply =>
        rcases hreply with ⟨e, hreply⟩
        rw [hreply]
        rfl
  | enqueue operation =>
    left
    unfold step answer enqueue
    dsimp only
    split <;> rfl
  | _ =>
    left
    rfl

theorem nodup_ids_claims (hnodup : (s.operations.map (·.id)).Nodup)
    : ((step s request).2.claims.map (·.id)).Nodup := by
  cases claims_cases (s := s) request with
  | inl h =>
    rw [h]
    apply List.nodup_nil
  | inr h =>
    rcases h with ⟨scope, limit, leaseOwner, leaseSeconds, now, h⟩
    rw [h, List.map_map]
    exact nodup_ids_due hnodup scope limit now

theorem claimed_of_mem_claims (h : row ∈ (step s request).2.claims)
    : ∃ old ∈ s.operations, row.id = old.id ∧ row.attemptCount = old.attemptCount + 1 ∧
        row.leaseToken = some (old.token s.txid) := by
  cases claims_cases (s := s) request with
  | inl hnone =>
    rw [hnone] at h
    cases h
  | inr hsome =>
    rcases hsome with ⟨scope, limit, leaseOwner, leaseSeconds, now, hsome⟩
    rw [hsome] at h
    rcases List.mem_map.mp h with ⟨old, hold, rfl⟩
    exact ⟨old, (mem_due hold).1, rfl, rfl, rfl⟩

end Claims

end CronStore

end Cron
end MemStack
