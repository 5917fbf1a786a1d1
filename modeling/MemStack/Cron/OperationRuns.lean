import MemStack.Cron.Fenced

/-!
This module contains what holds in every run of the operation queue.
-/

namespace MemStack
namespace Cron
namespace CronStore

section Token

theorem token_inj {id : String} {n m t u : Nat}
    (h : id ++ ":" ++ toString n ++ ":" ++ toString t = id ++ ":" ++ toString m ++ ":" ++ toString u)
    : n = m :=
  @Text.toString_inj_of_append n m (id ++ ":") (toString t) (toString u) ':' (by decide) h

end Token

section Invariant

structure Inv (past : List Entry) (s : CronStore) : Prop where
  nodup : (s.operations.map (·.id)).Nodup
  bounded : ∀ o ∈ s.operations, o.attemptCount ≤ o.maxAttempts
  counted : ∀ o ∈ s.operations, o.attemptCount = (claims past).countP (·.id = o.id)
  leased : ∀ o ∈ s.operations, o.status = .processing → latestLease past o.id = some (leaseOf o)
  known : ∀ row ∈ claims past, ∃ o ∈ s.operations, o.id = row.id ∧ row.attemptCount ≤ o.attemptCount
  tokens : ∀ row ∈ claims past,
    ∃ txid : Nat, row.leaseToken = some (row.id ++ ":" ++ toString row.attemptCount ++ ":" ++ toString txid)

variable {past : List Entry} {s : CronStore} {e : Entry} {f : CronOperation → CronOperation}
  {added : List CronOperation} {o : CronOperation}

theorem claims_concat : claims (past ++ [e]) = claims past ++ e.reply.claims := by
  simp [claims]

theorem Steps.old_or_new (h : Steps e f added) (ho : o ∈ e.after.operations)
    : (∃ old ∈ e.before.operations, Change e old o) ∨
        (∃ operation, o = .ofNew operation) ∧ ∀ old ∈ e.before.operations, old.id ≠ o.id := by
  rw [h.operations, List.mem_append, List.mem_map] at ho
  rcases ho with ⟨old, hold, rfl⟩ | ho
  . exact .inl ⟨old, hold, h.change old hold⟩
  . rcases h.fresh o ho with ⟨operation, hnew, hother⟩
    exact .inr ⟨⟨operation, hnew⟩, hother⟩

theorem Steps.mem_after (h : Steps e f added) {old : CronOperation} (hold : old ∈ e.before.operations)
    : f old ∈ e.after.operations := by
  rw [h.operations]
  apply List.mem_append_left
  exact List.mem_map_of_mem hold

theorem Steps.nodup (h : Steps e f added) (hnodup : (e.before.operations.map (·.id)).Nodup)
    : (e.after.operations.map (·.id)).Nodup := by
  have hids : (e.before.operations.map f).map (·.id) = e.before.operations.map (·.id) := by
    rw [List.map_map]
    apply List.map_congr_left
    intro old hold
    exact (h.change old hold).id
  rw [h.operations, List.map_append, hids, List.nodup_append]
  refine ⟨hnodup, ?_, ?_⟩
  . apply List.Nodup.map_on
    . intro a ha b hb _
      have := h.few
      match hadded : added with
      | [] => cases ha
      | [c] =>
        rw [List.mem_singleton] at ha hb
        rw [ha, hb]
      | c :: d :: rest => simp at this
    . match hadded : added with
      | [] => apply List.nodup_nil
      | [c] => apply List.nodup_singleton
      | c :: d :: rest =>
        have := h.few
        simp at this
  . intro id hid id' hid' heq
    rcases List.mem_map.mp hid with ⟨old, hold, rfl⟩
    rcases List.mem_map.mp hid' with ⟨new, hnew, rfl⟩
    rcases h.fresh new hnew with ⟨_, _, hother⟩
    exact hother old hold heq

theorem inv_empty : Inv [] {} where
  nodup := List.nodup_nil
  bounded := by
    intro o ho
    cases ho
  counted := by
    intro o ho
    cases ho
  leased := by
    intro o ho
    cases ho
  known := by
    intro row hrow
    cases hrow
  tokens := by
    intro row hrow
    cases hrow

theorem inv_step (request : CronOperationRequest) (h : Inv past s)
    : Inv (past ++ [Machine.entry step s request]) (step s request).1 := by
  rcases steps_entry h.nodup request with ⟨f, added, hsteps⟩
  have hclaims : ((Machine.entry step s request).reply.claims.map (·.id)).Nodup := nodup_ids_claims h.nodup
  constructor
  case nodup => exact hsteps.nodup h.nodup
  case bounded =>
    intro o ho
    rcases hsteps.old_or_new ho with ⟨old, hold, hchange⟩ | ⟨⟨operation, hnew⟩, _⟩
    . exact hchange.bounded (h.bounded old hold)
    . rw [hnew]
      exact Nat.zero_le _
  case counted =>
    intro o ho
    rw [claims_concat, List.countP_append]
    rcases hsteps.old_or_new ho with ⟨old, hold, hchange⟩ | ⟨⟨operation, hnew⟩, hother⟩
    . rw [hchange.attemptCount hclaims, hchange.id, h.counted old hold]
    . have hpast : (claims past).countP (·.id = o.id) = 0 := by
        rw [List.countP_eq_zero]
        intro row hrow hid
        rcases h.known row hrow with ⟨old, hold, hknown, _⟩
        apply hother old hold
        rw [hknown]
        simpa using hid
      rw [hpast, @countP_claims_eq_zero _ o]
      . rw [hnew]
        rfl
      . intro row hrow hid
        rcases claimed_of_mem_claims hrow with ⟨old, hold, hknown, _⟩
        apply hother old hold
        rw [← hknown, hid]
  case leased =>
    intro o ho hstatus
    rcases hsteps.old_or_new ho with ⟨old, hold, hchange⟩ | ⟨⟨operation, hnew⟩, _⟩
    . exact hchange.leased hclaims (h.leased old hold) hstatus
    . rw [hnew] at hstatus
      cases hstatus
  case known =>
    intro row hrow
    rw [claims_concat, List.mem_append] at hrow
    have hgrows : ∀ old ∈ s.operations, old.attemptCount ≤ (f old).attemptCount := by
      intro old hold
      rw [(hsteps.change old hold).attemptCount hclaims]
      apply Nat.le_add_right
    cases hrow with
    | inl hrow =>
      rcases h.known row hrow with ⟨old, hold, hid, hle⟩
      refine ⟨f old, hsteps.mem_after hold, ?_, hle.trans (hgrows old hold)⟩
      rw [(hsteps.change old hold).id, hid]
    | inr hrow =>
      rcases claimed_of_mem_claims hrow with ⟨old, hold, hid, hattempts, _⟩
      refine ⟨f old, hsteps.mem_after hold, ?_, ?_⟩
      . rw [(hsteps.change old hold).id, hid]
      . rw [(hsteps.change old hold).attemptCount hclaims, hattempts,
          countP_claims_eq_one hclaims hrow hid]
  case tokens =>
    intro row hrow
    rw [claims_concat, List.mem_append] at hrow
    cases hrow with
    | inl hrow => exact h.tokens row hrow
    | inr hrow =>
      rcases claimed_of_mem_claims hrow with ⟨old, _, hid, hattempts, htoken⟩
      refine ⟨s.txid, ?_⟩
      rw [htoken, hid, hattempts]
      rfl

end Invariant

section Contract

def ahead (s : CronStore) (scope : CronOperationScope) (now : Timestamp) (o : CronOperation) : List CronOperation :=
  s.operations.filter fun other => other.isDue scope now && other.dueBefore o && other ≠ o

def Taken (e : Entry) (o : CronOperation) : Prop :=
  ∃ row ∈ e.after.operations, row.id = o.id ∧ (row.status = .deadLetter ∨ row ∈ e.reply.claims)

structure Fenced (past : List Entry) (e : Entry) : Prop where
  bounded : ∀ o ∈ e.after.operations, o.attemptCount ≤ o.maxAttempts
  -- The attempts of an operation are its claims.
  counted : ∀ o ∈ e.after.operations, o.attemptCount = (claims (past ++ [e])).countP (·.id = o.id)
  latest : ∀ fence, e.request.fence? = some fence → e.reply.succeeded →
    ∃ expires, fence.now < expires ∧ latestLease past fence.operationId =
      some { leaseOwner := fence.leaseOwner, leaseToken := fence.leaseToken, leaseExpiresAt := some expires }
  fresh : ∀ row ∈ e.reply.claims, ∀ old ∈ claims past, old.id = row.id → old.leaseToken ≠ row.leaseToken
  absorbing : ∀ o ∈ e.before.operations, o.status = .completed ∨ o.status = .deadLetter → o ∈ e.after.operations
  unstranded : ∀ scope authority limit leaseOwner leaseSeconds now,
    e.request = .claimDue scope authority limit leaseOwner leaseSeconds now →
    authority.isStructurallyValid → e.before.owner.any (·.isCurrent authority now) →
    0 < limit → ∀ o ∈ e.before.operations, o.inScope scope → o.isWaiting now →
    (o.isDue scope now → (e.before.ahead scope now o).length < min limit 100) → Taken e o

variable {past : List Entry} {s : CronStore} {request : CronOperationRequest} {fence : Fence}

theorem succeeded_leased (hfence : request.fence? = some fence) (hsucceeded : (step s request).2.succeeded)
    : ∃ o ∈ s.operations, o.isLeased fence := by
  have hwritten : ∀ f : CronOperation → CronOperation,
      (Table.updated (·.isLeased fence) f s.operations).head?.isSome → ∃ o ∈ s.operations, o.isLeased fence := by
    intro f h
    rw [Option.isSome_iff_exists] at h
    rcases h with ⟨row, hrow⟩
    rcases Table.mem_updated.mp (List.mem_of_head? hrow) with ⟨old, hold, hleased, _⟩
    exact ⟨old, hold, hleased⟩
  cases request with
  | renew fence' leaseSeconds =>
    cases hfence
    have hlength : (Table.updated (·.isLeased fence) (·.renewed leaseSeconds fence.now) s.operations).length = 1 := by
      simpa [step, answer, renew, CronOperationReply.succeeded] using hsucceeded
    rcases List.length_eq_one_iff.mp hlength with ⟨row, hrow⟩
    apply hwritten
    rw [hrow]
    rfl
  | complete fence' =>
    cases hfence
    exact hwritten _ hsucceeded
  | markWaitingRuntime fence' =>
    cases hfence
    exact hwritten _ hsucceeded
  | fail fence' failure =>
    cases hfence
    exact hwritten _ hsucceeded
  | _ => cases hfence

theorem lease_of_leased {o : CronOperation} (h : o.isLeased fence)
    : o.status = .processing ∧ ∃ expires, fence.now < expires ∧ leaseOf o =
        { leaseOwner := fence.leaseOwner, leaseToken := fence.leaseToken, leaseExpiresAt := some expires } := by
  simp only [CronOperation.isLeased, Bool.and_eq_true, decide_eq_true_eq, Option.any_eq_true] at h
  rcases h with ⟨⟨⟨⟨_, hstatus⟩, howner⟩, htoken⟩, expires, hexpires, hlt⟩
  refine ⟨hstatus, expires, hlt, ?_⟩
  simp [leaseOf, howner, htoken, hexpires]

theorem mem_due_of_ahead {scope : CronOperationScope} {limit : Int} {now : Timestamp} {o : CronOperation}
    (hnodup : (s.operations.map (·.id)).Nodup) (ho : o ∈ s.operations) (hdue : o.isDue scope now)
    (hahead : (s.ahead scope now o).length < min limit 100)
    : o ∈ s.due scope limit now := by
  apply Table.mem_select_of_ahead _ _ (List.Nodup.of_map _ hnodup) ho hdue
  . unfold ahead at hahead
    omega
  . intro a b
    rw [dueBefore_iff, dueBefore_iff]
    apply le_total
  . intro a b c hab hbc
    rw [dueBefore_iff] at hab hbc ⊢
    exact hab.trans hbc

theorem taken_claimDue {scope : CronOperationScope} {authority : CronSchedulerLease} {limit : Int}
    {leaseOwner : String} {leaseSeconds : Int} {now : Timestamp} {o : CronOperation}
    (hnodup : (s.operations.map (·.id)).Nodup)
    (hvalid : authority.isStructurallyValid) (hcurrent : s.owner.any (·.isCurrent authority now))
    (hlimit : 0 < limit) (ho : o ∈ s.operations) (hscope : o.inScope scope) (hwaiting : o.isWaiting now)
    (hahead : o.isDue scope now → (s.ahead scope now o).length < min limit 100)
    : Taken (Machine.entry step s (.claimDue scope authority limit leaseOwner leaseSeconds now)) o := by
  unfold Machine.entry Taken
  rw [claimDue_eq hlimit hvalid hcurrent]
  refine ⟨s.afterClaim scope limit leaseOwner leaseSeconds now o, List.mem_map_of_mem ho, ?_⟩
  unfold afterClaim
  by_cases hattempts : o.attemptCount < o.maxAttempts
  . have hisDue : o.isDue scope now := by
      simp [CronOperation.isDue, hscope, hattempts, hwaiting]
    have hdue := mem_due_of_ahead hnodup ho hisDue (hahead hisDue)
    rw [if_neg (not_exhausted_of_due hisDue), if_pos ((due_iff_any hnodup ho).mpr hdue)]
    exact ⟨rfl, .inr (List.mem_map_of_mem hdue)⟩
  . have hexhausted : o.isExhausted scope now := by
      simp only [CronOperation.isExhausted, Bool.and_eq_true, decide_eq_true_eq]
      exact ⟨⟨hscope, by omega⟩, hwaiting⟩
    rw [if_pos hexhausted]
    exact ⟨rfl, .inl rfl⟩

theorem fenced_step (request : CronOperationRequest) (h : Inv past s)
    : Fenced past (Machine.entry step s request) := by
  have hafter := inv_step request h
  constructor
  case bounded => exact hafter.bounded
  case counted => exact hafter.counted
  case latest =>
    intro fence hfence hsucceeded
    rcases succeeded_leased hfence hsucceeded with ⟨o, ho, hleased⟩
    rcases lease_of_leased hleased with ⟨hstatus, expires, hlt, hlease⟩
    refine ⟨expires, hlt, ?_⟩
    rw [← id_of_leased hleased, h.leased o ho hstatus, hlease]
  case fresh =>
    intro row hrow old hold hid htoken
    rcases claimed_of_mem_claims hrow with ⟨o, ho, hrowId, hattempts, _⟩
    rcases h.known old hold with ⟨o', ho', hoId, hle⟩
    have hsame : o' = o := by
      apply Table.eq_of_key h.nodup ho' ho
      rw [hoId, hid, hrowId]
    rcases hafter.tokens row (by simp [claims_concat, hrow]) with ⟨txid, hrowToken⟩
    rcases h.tokens old hold with ⟨txid', holdToken⟩
    rw [hrowToken, holdToken, hid, Option.some.injEq] at htoken
    have := token_inj htoken
    rw [hsame] at hle
    omega
  case absorbing =>
    intro o ho hover
    rcases steps_entry h.nodup request with ⟨f, added, hsteps⟩
    have := hsteps.mem_after ho
    rwa [(hsteps.change o ho).absorbed hover] at this
  case unstranded =>
    intro scope authority limit leaseOwner leaseSeconds now hrequest hvalid hcurrent hlimit o ho hscope hwaiting
    cases hrequest
    exact taken_claimDue h.nodup hvalid hcurrent hlimit ho hscope hwaiting

/-
In every run of the queue each step is fenced: attempts are the claims and stay within their bound, only who
has the latest lease writes, what is over stays as it is, and a claim takes all that waits, but for what has
a whole batch ahead of it.
-/
theorem fenced_run (requests : List CronOperationRequest)
    : History.AtEach Fenced (Machine.transcript step {} requests) := by
  apply @Machine.atEach_transcript _ _ _ step (fun _ _ => True) Inv Fenced
  . intro past s request h _
    exact ⟨fenced_step request h, inv_step request h⟩
  . exact inv_empty
  . intro e _
    trivial

theorem due_of_taken {scope : CronOperationScope} {authority : CronSchedulerLease} {limit : Int}
    {leaseOwner : String} {leaseSeconds : Int} {now : Timestamp} {o : CronOperation}
    (hnodup : (s.operations.map (·.id)).Nodup) (hvalid : authority.isStructurallyValid)
    (hcurrent : s.owner.any (·.isCurrent authority now)) (hlimit : 0 < limit) (ho : o ∈ s.operations)
    (hisDue : o.isDue scope now) (hlive : o.status ≠ .deadLetter)
    (htaken : Taken (Machine.entry step s (.claimDue scope authority limit leaseOwner leaseSeconds now)) o)
    : o ∈ s.due scope limit now := by
  unfold Machine.entry Taken at htaken
  rw [claimDue_eq hlimit hvalid hcurrent] at htaken
  rcases htaken with ⟨row, hrow, hid, hstatus⟩
  cases hstatus with
  | inl hdead =>
    rcases List.mem_map.mp hrow with ⟨other, hother, rfl⟩
    have hsame : other = o := by
      apply Table.eq_of_key hnodup hother ho
      rw [← hid]
      unfold afterClaim
      split
      . rfl
      . split <;> rfl
    rw [hsame] at hdead
    unfold afterClaim at hdead
    rw [if_neg (not_exhausted_of_due hisDue)] at hdead
    split at hdead
    . cases hdead
    . exact absurd hdead hlive
  | inr hclaimed =>
    rcases List.mem_map.mp hclaimed with ⟨other, hother, rfl⟩
    have hsame : other = o := Table.eq_of_key hnodup (mem_due hother).1 ho hid
    rw [← hsame]
    exact hother

def backlogOperation (i : Nat) : NewCronOperation where
  id := "op-" ++ toString i
  tenantId := "tenant"
  projectId := "project"
  jobId := "job"
  jobRevision := 1
  scheduleRevision := none
  kind := .executeRun
  runId := none
  triggerType := none
  scheduledFor := none
  maxAttempts := 5
  nextAttemptAt := none
  createdAt := 0

def backlog (n : Nat) : List CronOperationRequest :=
  [.owner (.delegate .rust 0), .owner (.tryAcquireGlobal "scheduler" 60 0)] ++
    (List.range n).map fun i => .enqueue (backlogOperation i)

def backlogScope : CronOperationScope where
  tenantId := "tenant"
  projectId := "project"

def backlogLease : CronSchedulerLease where
  scopeId := "global"
  ownerId := "scheduler"
  ownerEpoch := 1
  leaseToken := "global:1:1"
  leaseExpiresAt := 60 * Timestamp.second
  acquiredAt := 0

theorem backlogOperation_id_inj {i j : Nat} (h : (backlogOperation i).id = (backlogOperation j).id) : i = j := by
  have hid : "op-" ++ toString i = "op-" ++ toString j := h
  have happend := congrArg (· ++ String.singleton ':' ++ "") hid
  exact Text.toString_inj_of_append (by decide) happend

theorem final_backlog (n : Nat)
    : (Machine.final step {} (backlog n)).operations
          = (List.range n).map (fun i => .ofNew (backlogOperation i)) ∧
        (Machine.final step {} (backlog n)).owner.any (·.isCurrent backlogLease 1) := by
  induction n with
  | zero =>
    refine ⟨rfl, ?_⟩
    decide +kernel
  | succ n ih =>
    have hsplit : backlog (n + 1) = backlog n ++ [.enqueue (backlogOperation n)] := by
      simp [backlog, List.range_succ]
    have hfree : ¬ (Machine.final step {} (backlog n)).operations.any
        (CronOperation.ofNew (backlogOperation n)).conflicts := by
      rw [ih.1, List.any_map, List.any_eq_true]
      rintro ⟨i, hi, hconflicts⟩
      have hid : (backlogOperation n).id = (backlogOperation i).id := by
        simpa [CronOperation.conflicts, CronOperation.ofNew, backlogOperation] using hconflicts
      have := backlogOperation_id_inj hid
      rw [List.mem_range] at hi
      omega
    rw [hsplit, Machine.final_concat]
    simp only [step, answer, enqueue, if_neg hfree]
    refine ⟨?_, ih.2⟩
    rw [ih.1, List.range_succ, List.map_append]
    rfl

/--
No limit is large enough for more than a hundred operations.
-/
theorem backlog_not_taken
    : ¬ ∀ (requests : List CronOperationRequest) (scope : CronOperationScope) (authority : CronSchedulerLease)
        (leaseOwner : String) (leaseSeconds : Int) (now : Timestamp),
        let s := Machine.final step {} requests
        authority.isStructurallyValid → s.owner.any (·.isCurrent authority now) →
        ∃ large : Int, ∀ limit ≥ large, ∀ o ∈ s.operations, o.inScope scope → o.isWaiting now →
          Taken (Machine.entry step s (.claimDue scope authority limit leaseOwner leaseSeconds now)) o := by
  intro hclaim
  rcases final_backlog 101 with ⟨hoperations, hcurrent⟩
  have hvalid : backlogLease.isStructurallyValid := by
    decide +kernel
  rcases hclaim (backlog 101) backlogScope backlogLease "worker" 30 1 hvalid hcurrent with ⟨large, hlarge⟩
  have hnodup : ((Machine.final step {} (backlog 101)).operations.map (·.id)).Nodup := by
    rw [hoperations, List.map_map]
    apply List.nodup_range.map
    intro i j h
    exact backlogOperation_id_inj h
  have hsubset : (Machine.final step {} (backlog 101)).operations
      ⊆ (Machine.final step {} (backlog 101)).due backlogScope (max large 1) 1 := by
    intro o ho
    have hmem := ho
    rw [hoperations, List.mem_map] at hmem
    rcases hmem with ⟨i, _, rfl⟩
    apply due_of_taken hnodup hvalid hcurrent (by omega) ho (by rfl) nofun
    exact hlarge (max large 1) (by omega) _ ho (by rfl) (by rfl)
  have hle := (List.subperm_of_subset (List.Nodup.of_map _ hnodup) hsubset).length_le
  have hbatch : ((Machine.final step {} (backlog 101)).due backlogScope (max large 1) 1).length
      ≤ (min (max (max large 1) 1) 100).toNat :=
    Table.length_select_le
  rw [hoperations, List.length_map, List.length_range] at hle
  omega

end Contract

end CronStore
end Cron
end MemStack
