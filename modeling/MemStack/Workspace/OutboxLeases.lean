import MemStack.Workspace.OutboxLemmas

/-!
This module contains the leases that the workers of the outbox have, and just when they protect an item.
-/

namespace MemStack
namespace Workspace

structure WorkerLease where
  owner : String
  item : String
  expires : Timestamp
  deriving DecidableEq, Repr

structure Workers where
  outbox : Outbox
  leases : List WorkerLease := []
  deriving Repr

namespace Workers

open Outbox

def dropLease (leases : List WorkerLease) (owner item : String) : List WorkerLease :=
  leases.filter fun l => !(l.owner = owner && l.item = item)

def claimLeases (leases : List WorkerLease) (owner : String) (rows : List PlanOutbox) : List WorkerLease :=
  leases.filter (fun l => !(l.owner = owner && rows.any (·.id = l.item))) ++
    rows.filterMap fun row => row.leaseExpiresAt.map fun expires => { owner, item := row.id, expires }

def renewLease (leases : List WorkerLease) (owner item : String) (expires : Timestamp) : List WorkerLease :=
  leases.map fun l => if l.owner = owner ∧ l.item = item then { l with expires } else l

def leasesAfter (w : Workers) : OutboxRequest → OutboxReply → List WorkerLease
  | .claimDue _ owner _ _, .claimed rows => claimLeases w.leases owner rows
  | .renew id owner leaseSeconds lag, .recorded true =>
    renewLease w.leases owner id ((w.outbox.now lag).addSeconds (max leaseSeconds 1))
  | .markCompleted id (some owner) _, .recorded true => dropLease w.leases owner id
  | .release id _ (some owner) _, .recorded true => dropLease w.leases owner id
  | .park id _ (some owner) _, .recorded true => dropLease w.leases owner id
  | .write call, .recorded true =>
    match w.outbox.calls[call]? with
    | some (.failing { id, leaseOwner := some owner, .. }) => dropLease w.leases owner id
    | _ => w.leases
  | _, _ => w.leases

def step (w : Workers) (request : OutboxRequest) : Workers × OutboxReply :=
  let (outbox, reply) := w.outbox.step request
  ({ outbox, leases := w.leasesAfter request reply }, reply)

def NamesOwner : OutboxRequest → Prop
  | .markCompleted _ leaseOwner _ => leaseOwner.isSome
  | .markFailed _ _ leaseOwner _ => leaseOwner.isSome
  | .release _ _ leaseOwner _ => leaseOwner.isSome
  | .park _ _ leaseOwner _ => leaseOwner.isSome
  | _ => True

inductive Records (s : Outbox) (l : WorkerLease) : OutboxRequest → Prop where
  | completed (lag : Nat) : Records s l (.markCompleted l.item (some l.owner) lag)
  | released (errorMessage : Option String) (lag : Nat) : Records s l (.release l.item errorMessage (some l.owner) lag)
  | parked (status : PlanOutboxStatus) (lag : Nat) : Records s l (.park l.item status (some l.owner) lag)
  | failing (errorMessage : String) (lag : Nat) : Records s l (.markFailed l.item errorMessage (some l.owner) lag)
  | failed {call : Nat} {failure : Failure} (hcall : s.calls[call]? = some (.failing failure))
      (hid : failure.id = l.item) (howner : failure.leaseOwner = some l.owner)
      : Records s l (.write call)

def succeeds : OutboxReply → Bool
  | .recorded ok => ok
  | .started _ => true
  | _ => false

structure Protected (s : Outbox) (l : WorkerLease) : Prop where
  exclusive : ∀ limit owner leaseSeconds lag, owner ≠ l.owner →
    ∀ row ∈ (s.step (.claimDue limit owner leaseSeconds lag)).2.claims, row.id ≠ l.item
  recorded : ∀ request, Records s l request → succeeds (s.step request).2

def AllProtected (w : Workers) : Prop :=
  ∀ l ∈ w.leases, w.outbox.clock < l.expires → Protected w.outbox l

inductive Overwrites (w : Workers) : OutboxRequest → Prop where
  | retried {call : Nat} {retry : Retry} {l : WorkerLease} (hcall : w.outbox.calls[call]? = some (.retrying retry))
      (hl : l ∈ w.leases) (hitem : l.item = retry.id) (hunexpired : w.outbox.clock < l.expires)
      : Overwrites w (.write call)

section Backed

structure Backs (l : WorkerLease) (o : PlanOutbox) : Prop where
  id : o.id = l.item
  status : o.status = .processing
  leaseOwner : o.leaseOwner = some l.owner
  leaseExpiresAt : o.leaseExpiresAt = some l.expires

def Backed (s : Outbox) (l : WorkerLease) : Prop :=
  ∃ o ∈ s.items, Backs l o

structure Inv (w : Workers) : Prop where
  nodup : (w.outbox.items.map (·.id)).Nodup
  named : ∀ failure, .failing failure ∈ w.outbox.calls → failure.leaseOwner.isSome
  backed : ∀ l ∈ w.leases, w.outbox.clock < l.expires → Backed w.outbox l

variable {w : Workers} {s : Outbox} {l : WorkerLease} {o : PlanOutbox} {request : OutboxRequest}

theorem held_of_backs (h : Backs l o) : o.isHeld l.item (some l.owner) := by
  rw [PlanOutbox.isHeld_iff]
  refine ⟨h.id, h.status, ?_⟩
  rintro owner ⟨⟩
  exact h.leaseOwner

theorem not_due_of_backs (h : Backs l o) {now : Timestamp} (hunexpired : now < l.expires) : ¬ o.isDue now := by
  intro hdue
  simp only [PlanOutbox.isDue, h.status, h.leaseExpiresAt, Option.any_some, Bool.and_eq_true,
    decide_eq_true_eq] at hdue
  exact absurd hdue.2 (not_le.mpr hunexpired)

theorem now_le (s : Outbox) (lag : Nat) : s.now lag ≤ s.clock := by
  unfold Outbox.now
  exact Int.sub_le_self _ (Int.natCast_nonneg lag)

theorem get_of_mem (hnodup : (s.items.map (·.id)).Nodup) (ho : o ∈ s.items) : s.get o.id = some o := by
  unfold Outbox.get
  cases hfound : s.items.find? (·.id = o.id) with
  | none =>
    rw [List.find?_eq_none] at hfound
    simpa using hfound o ho
  | some other =>
    rw [Table.eq_of_key hnodup (List.mem_of_find?_eq_some hfound) ho (by simpa using List.find?_some hfound)]

theorem mem_claims {limit : Int} {owner : String} {leaseSeconds : Int} {lag : Nat} {row : PlanOutbox}
    (h : row ∈ (s.step (.claimDue limit owner leaseSeconds lag)).2.claims)
    : 0 < limit ∧ ∃ o ∈ s.due limit (s.now lag), row = o.claimed owner leaseSeconds (s.now lag) := by
  simp only [Outbox.step, claimDue] at h
  split at h
  . cases h
  . rcases List.mem_map.mp h with ⟨o, ho, rfl⟩
    exact ⟨by omega, o, ho, rfl⟩

theorem any_held (ho : o ∈ s.items) (hbacks : Backs l o) : s.items.any (·.isHeld l.item (some l.owner)) := by
  rw [List.any_eq_true]
  exact ⟨o, ho, held_of_backs hbacks⟩

theorem protected_of_backed (hnodup : (s.items.map (·.id)).Nodup) (hunexpired : s.clock < l.expires)
    (hbacked : Backed s l)
    : Protected s l := by
  rcases hbacked with ⟨o, ho, hbacks⟩
  constructor
  . intro limit owner leaseSeconds lag _ row hrow hid
    rcases (mem_claims hrow).2 with ⟨other, hother, rfl⟩
    have : other = o := by
      apply Table.eq_of_key hnodup (mem_due hother).1 ho
      rw [hbacks.id]
      exact hid
    rw [this] at hother
    apply not_due_of_backs hbacks _ (mem_due hother).2
    exact Int.lt_of_le_of_lt (now_le s lag) hunexpired
  . intro request hrecords
    cases hrecords with
    | completed lag => exact any_held ho hbacks
    | released errorMessage lag => exact any_held ho hbacks
    | parked status lag => exact any_held ho hbacks
    | failing errorMessage lag =>
      have hget := get_of_mem hnodup ho
      rw [hbacks.id] at hget
      simp [Outbox.step, markFailed, hget, hbacks.status, hbacks.leaseOwner, start, succeeds]
    | failed hcall hid howner =>
      simp only [Outbox.step, write, hcall, record, hid, howner]
      exact any_held ho hbacks

theorem not_protected_of_unheld (h : ∀ o ∈ s.items, ¬ o.isHeld l.item (some l.owner)) : ¬ Protected s l := by
  intro hprotected
  have hsucceeds := hprotected.recorded _ (.completed 0)
  rcases List.any_eq_true.mp hsucceeds with ⟨o, ho, hheld⟩
  exact h o ho hheld

end Backed

section Step

variable {w : Workers} {s : Outbox} {l : WorkerLease} {o : PlanOutbox} {request : OutboxRequest}

theorem backed_of_unselected (ho : o ∈ s.items) (hbacks : Backs l o) (h : s.selects request o = false)
    : Backed (s.step request).1 l := by
  refine ⟨o, ?_, hbacks⟩
  rw [mem_items_step]
  refine .inl ⟨o, ho, ?_⟩
  rw [if_neg]
  simp [h]

theorem mem_dropLease {leases : List WorkerLease} {owner item : String}
    : l ∈ dropLease leases owner item ↔ l ∈ leases ∧ ¬ (l.owner = owner ∧ l.item = item) := by
  simp [dropLease, imp_iff_not_or]

theorem not_held_of_backs (hbacks : Backs l o) {id owner : String} (hother : ¬ (l.owner = owner ∧ l.item = id))
    : o.isHeld id (some owner) = false := by
  rw [Bool.eq_false_iff]
  intro hheld
  rw [PlanOutbox.isHeld_iff] at hheld
  apply hother
  refine ⟨?_, ?_⟩
  . have howner := hheld.2.2 owner rfl
    rw [hbacks.leaseOwner] at howner
    exact Option.some.inj howner
  . rw [← hbacks.id, hheld.1]

theorem backed_of_dropped {id owner : String} (ho : o ∈ s.items) (hbacks : Backs l o)
    (hselects : s.selects request = (·.isHeld id (some owner))) (hother : ¬ (l.owner = owner ∧ l.item = id))
    : Backed (s.step request).1 l := by
  apply backed_of_unselected ho hbacks
  rw [hselects]
  exact not_held_of_backs hbacks hother

theorem backed_of_outcome {leases : List WorkerLease} {id owner : String}
    (hselects : s.selects request = (·.isHeld id (some owner)))
    (hbacked : ∀ l ∈ leases, s.clock < l.expires → Backed s l)
    (hl : l ∈ if s.items.any (·.isHeld id (some owner)) then dropLease leases owner id else leases)
    (hunexpired : s.clock < l.expires)
    : Backed (s.step request).1 l := by
  split at hl
  . rw [mem_dropLease] at hl
    rcases hbacked l hl.1 hunexpired with ⟨o, ho, hbacks⟩
    exact backed_of_dropped ho hbacks hselects hl.2
  . next hnone =>
    rcases hbacked l hl hunexpired with ⟨o, ho, hbacks⟩
    apply backed_of_unselected ho hbacks
    rw [hselects, Bool.eq_false_iff]
    intro hheld
    apply hnone
    rw [List.any_eq_true]
    exact ⟨o, ho, hheld⟩

theorem backed_claimDue (h : Inv w) {limit : Int} {owner : String} {leaseSeconds : Int} {lag : Nat}
    (hl : l ∈ w.leasesAfter (.claimDue limit owner leaseSeconds lag)
      (w.outbox.step (.claimDue limit owner leaseSeconds lag)).2)
    (hunexpired : w.outbox.clock < l.expires)
    : Backed (w.outbox.step (.claimDue limit owner leaseSeconds lag)).1 l := by
  have hmem : l ∈ claimLeases w.leases owner (w.outbox.step (.claimDue limit owner leaseSeconds lag)).2.claims := by
    revert hl
    simp only [Outbox.step, claimDue]
    split
    . exact id
    . exact id
  rcases List.mem_append.mp hmem with hold | hnew
  . rcases h.backed l (List.mem_filter.mp hold).1 hunexpired with ⟨o, ho, hbacks⟩
    apply backed_of_unselected ho hbacks
    rw [Bool.eq_false_iff]
    intro hselects
    simp only [selects, Bool.and_eq_true] at hselects
    have hdue := (due_iff_any h.nodup ho).mp hselects.2
    apply not_due_of_backs hbacks _ (mem_due hdue).2
    exact Int.lt_of_le_of_lt (now_le _ lag) hunexpired
  . rcases List.mem_filterMap.mp hnew with ⟨row, hrow, hlease⟩
    rcases mem_claims hrow with ⟨hlimit, o, ho, rfl⟩
    simp only [PlanOutbox.claimed, Option.map_some, Option.some.injEq] at hlease
    refine ⟨o.claimed owner leaseSeconds (w.outbox.now lag), ?_, ?_⟩
    . rw [mem_items_step]
      refine .inl ⟨o, (mem_due ho).1, ?_⟩
      rw [if_pos]
      . rfl
      . simp only [selects, Bool.and_eq_true, decide_eq_true_eq]
        exact ⟨hlimit, (due_iff_any h.nodup (mem_due ho).1).mpr ho⟩
    . rw [← hlease]
      exact ⟨rfl, rfl, rfl, rfl⟩

theorem backed_renew (h : Inv w) {id owner : String} {leaseSeconds : Int} {lag : Nat}
    (hl : l ∈ w.leasesAfter (.renew id owner leaseSeconds lag) (w.outbox.step (.renew id owner leaseSeconds lag)).2)
    (hunexpired : w.outbox.clock < l.expires)
    : Backed (w.outbox.step (.renew id owner leaseSeconds lag)).1 l := by
  have hreply : (w.outbox.step (.renew id owner leaseSeconds lag)).2
      = .recorded (w.outbox.items.any (·.isHeld id (some owner))) := rfl
  rw [hreply] at hl
  cases hany : w.outbox.items.any (·.isHeld id (some owner)) with
  | false =>
    rw [hany] at hl
    rcases h.backed l hl hunexpired with ⟨o, ho, hbacks⟩
    apply backed_of_unselected ho hbacks
    rw [Bool.eq_false_iff]
    intro hheld
    rw [Bool.eq_false_iff] at hany
    apply hany
    rw [List.any_eq_true]
    exact ⟨o, ho, hheld⟩
  | true =>
    rw [hany] at hl
    rcases List.mem_map.mp hl with ⟨old, hold, heq⟩
    split at heq
    . next hmine =>
      rcases List.any_eq_true.mp hany with ⟨o, ho, hheld⟩
      refine ⟨o.renewed leaseSeconds (w.outbox.now lag), ?_, ?_⟩
      . rw [mem_items_step]
        refine .inl ⟨o, ho, ?_⟩
        rw [if_pos]
        . rfl
        . exact hheld
      . rw [PlanOutbox.isHeld_iff] at hheld
        rw [← heq]
        constructor
        . exact hheld.1.trans hmine.2.symm
        . exact hheld.2.1
        . rw [hmine.1]
          exact hheld.2.2 owner rfl
        . rfl
    . next hother =>
      rw [heq] at hold hother
      rcases h.backed l hold hunexpired with ⟨o, ho, hbacks⟩
      exact backed_of_dropped ho hbacks rfl hother

theorem leasesAfter_outcome {id owner : String} {leases' : List WorkerLease}
    (hreply : (w.outbox.step request).2 = .recorded (w.outbox.items.any (·.isHeld id (some owner))))
    (htrue : w.leasesAfter request (.recorded true) = leases')
    (hfalse : w.leasesAfter request (.recorded false) = w.leases)
    : w.leasesAfter request (w.outbox.step request).2
        =
      if w.outbox.items.any (·.isHeld id (some owner)) then leases' else w.leases := by
  rw [hreply]
  split
  . next hany =>
    rw [hany]
    exact htrue
  . next hany =>
    rw [Bool.not_eq_true] at hany
    rw [hany]
    exact hfalse

theorem backed_write (h : Inv w) {call : Nat} (hnot : ¬ Overwrites w (.write call))
    (hl : l ∈ w.leasesAfter (.write call) (w.outbox.step (.write call)).2)
    (hunexpired : w.outbox.clock < l.expires)
    : Backed (w.outbox.step (.write call)).1 l := by
  have hkept (hleases : w.leasesAfter (.write call) (w.outbox.step (.write call)).2 = w.leases)
      (hnone : ∀ o, w.outbox.selects (.write call) o = false) : Backed (w.outbox.step (.write call)).1 l := by
    rw [hleases] at hl
    rcases h.backed l hl hunexpired with ⟨o, ho, hbacks⟩
    exact backed_of_unselected ho hbacks (hnone o)
  cases hcall : w.outbox.calls[call]? with
  | none => exact hkept (by simp [Outbox.step, write, hcall, leasesAfter]) (by simp [selects, hcall, selectsCall])
  | some c =>
    cases c with
    | failing failure =>
      rcases Option.isSome_iff_exists.mp (h.named failure (List.mem_of_getElem? hcall)) with ⟨owner, howner⟩
      have hleases := @leasesAfter_outcome w (.write call) failure.id owner
        (dropLease w.leases owner failure.id)
        (by simp [Outbox.step, write, hcall, record, howner])
        (by
          cases failure
          cases howner
          simp [leasesAfter, hcall])
        (by simp [leasesAfter])
      rw [hleases] at hl
      apply backed_of_outcome _ h.backed hl hunexpired
      simp [selects, hcall, selectsCall, howner]
    | retrying retry =>
      have hleases : w.leasesAfter (.write call) (w.outbox.step (.write call)).2 = w.leases := by
        simp [Outbox.step, write, hcall, leasesAfter]
      rw [hleases] at hl
      rcases h.backed l hl hunexpired with ⟨o, ho, hbacks⟩
      apply backed_of_unselected ho hbacks
      rw [Bool.eq_false_iff]
      intro hselects
      apply hnot
      apply Overwrites.retried hcall hl _ hunexpired
      rw [← hbacks.id]
      simpa [selects, hcall, selectsCall] using hselects
    | done => exact hkept (by simp [Outbox.step, write, hcall, leasesAfter]) (by simp [selects, hcall, selectsCall])

theorem backed_step (h : Inv w) (hnames : NamesOwner request) (hnot : ¬ Overwrites w request)
    (hl : l ∈ w.leasesAfter request (w.outbox.step request).2)
    (hunexpired : (w.outbox.step request).1.clock < l.expires)
    : Backed (w.outbox.step request).1 l := by
  have hsame : ∀ l ∈ w.leases, w.outbox.clock < l.expires → (∀ o, w.outbox.selects request o = false) →
      Backed (w.outbox.step request).1 l := by
    intro l hl hunexpired hselects
    rcases h.backed l hl hunexpired with ⟨o, ho, hbacks⟩
    exact backed_of_unselected ho hbacks (hselects o)
  rw [clock_step] at hunexpired
  cases request with
  | advance time =>
    apply hsame l hl
    . apply lt_of_le_of_lt _ hunexpired
      exact Int.le_add_of_nonneg_right (Int.natCast_nonneg time)
    . intro o
      rfl
  | enqueue item =>
    apply hsame l _ hunexpired
    . intro o
      rfl
    . exact hl
  | claimDue limit owner leaseSeconds lag => exact backed_claimDue h hl hunexpired
  | markCompleted id leaseOwner lag =>
    rcases Option.isSome_iff_exists.mp hnames with ⟨owner, rfl⟩
    rw [leasesAfter_outcome rfl rfl rfl] at hl
    exact backed_of_outcome rfl h.backed hl hunexpired
  | markFailed id errorMessage leaseOwner lag =>
    apply hsame l _ hunexpired
    . intro o
      rfl
    . exact hl
  | release id errorMessage leaseOwner lag =>
    rcases Option.isSome_iff_exists.mp hnames with ⟨owner, rfl⟩
    rw [leasesAfter_outcome rfl rfl rfl] at hl
    exact backed_of_outcome rfl h.backed hl hunexpired
  | park id status leaseOwner lag =>
    rcases Option.isSome_iff_exists.mp hnames with ⟨owner, rfl⟩
    rw [leasesAfter_outcome rfl rfl rfl] at hl
    exact backed_of_outcome rfl h.backed hl hunexpired
  | renew id owner leaseSeconds lag => exact backed_renew h hl hunexpired
  | retryNow id workspaceId lag =>
    apply hsame l _ hunexpired
    . intro o
      rfl
    . exact hl
  | write call => exact backed_write h hnot hl hunexpired

end Step

section Run

variable {w : Workers} {request : OutboxRequest}

theorem named_step (h : Inv w) (hnames : NamesOwner request)
    : ∀ failure, .failing failure ∈ (w.outbox.step request).1.calls → failure.leaseOwner.isSome := by
  intro failure hfailure
  rcases mem_calls_step hfailure with hold | hdone | ⟨o, _, id, errorMessage, leaseOwner, lag, hrequest, hnew⟩ | hretry
  . exact h.named failure hold
  . cases hdone
  . rw [hrequest] at hnames
    cases hnew
    unfold PlanOutbox.failure
    split <;> exact hnames
  . rcases hretry with ⟨_, _, _, _, _, _, hnew⟩
    cases hnew

theorem inv_step (h : Inv w) (hnames : NamesOwner request) (hnot : ¬ Overwrites w request)
    : Inv (step w request).1 where
  nodup := nodup_step h.nodup
  named := named_step h hnames
  backed := by
    intro l hl hunexpired
    exact backed_step h hnames hnot hl hunexpired

theorem allProtected_of_inv (h : Inv w) : AllProtected w := by
  intro l hl hunexpired
  exact protected_of_backed h.nodup hunexpired (h.backed l hl hunexpired)

theorem not_allProtected_of_overwrites (hoverwrites : Overwrites w request) : ¬ AllProtected (step w request).1 := by
  intro hall
  cases hoverwrites with
  | @retried call retry l hcall hl hitem hunexpired =>
    have hleases : (step w (.write call)).1.leases = w.leases := by
      simp [step, Outbox.step, write, hcall, leasesAfter]
    have hclock : (step w (.write call)).1.outbox.clock = w.outbox.clock := clock_step w.outbox (.write call)
    have hprotected := hall l (by rw [hleases]; exact hl) (by rw [hclock]; exact hunexpired)
    apply not_protected_of_unheld _ hprotected
    intro o ho hheld
    have hmem : o ∈ (w.outbox.step (.write call)).1.items := ho
    rw [PlanOutbox.isHeld_iff] at hheld
    rcases mem_items_step.mp hmem with ⟨old, _, rfl⟩ | hnew
    . by_cases hselects : w.outbox.selects (.write call) old
      . rw [if_pos hselects] at hheld
        simp [sets, hcall, setsCall, PlanOutbox.retried] at hheld
      . rw [if_neg hselects] at hheld
        apply hselects
        simp [selects, hcall, selectsCall, hheld.1, hitem]
    . cases hnew

/-
As long as each worker passes its own name, every unexpired lease keeps other workers off its item and lets
its holder record an outcome, just when no retry writes to an item that was claimed after the retry had read it.
-/
theorem allProtected_iff (clock : Timestamp) (requests : List OutboxRequest)
    (hnames : ∀ e ∈ Machine.transcript step { outbox := { clock } } requests, NamesOwner e.request)
    : (∀ e ∈ Machine.transcript step { outbox := { clock } } requests, AllProtected e.after)
        ↔
      ∀ e ∈ Machine.transcript step { outbox := { clock } } requests, ¬ Overwrites e.before e.request := by
  apply Machine.forall_transcript_iff_of (I := Inv) (C := fun w request => ¬ Overwrites w request)
    (D := fun _ request => NamesOwner request) _ _ requests hnames
  . intro w request h hnames
    refine ⟨⟨?_, ?_⟩, inv_step h hnames⟩
    . intro hall hoverwrites
      exact not_allProtected_of_overwrites hoverwrites hall
    . intro hnot
      exact allProtected_of_inv (inv_step h hnames hnot)
  . constructor
    . exact List.nodup_nil
    . intro failure hfailure
      cases hfailure
    . intro l hl
      cases hl

def planItem : NewPlanOutbox where
  id := "item"
  planId := none
  workspaceId := "workspace"
  eventType := "worker_launch"
  maxAttempts := 3
  maxAttempts_pos := by decide
  createdAt := 0

def promptRetry : List OutboxRequest :=
  [.enqueue planItem, .claimDue 10 "first" 30 0, .markFailed "item" "boom" (some "first") 0, .write 0,
    .retryNow "item" "workspace" 0, .write 1, .claimDue 10 "second" 30 0]

def lateRetry : List OutboxRequest :=
  [.enqueue planItem, .claimDue 10 "first" 30 0, .markFailed "item" "boom" (some "first") 0, .write 0,
    .retryNow "item" "workspace" 0, .advance 2000000000, .claimDue 10 "second" 30 0, .write 1]

theorem promptRetry_protected : AllProtected (Machine.final step { outbox := { clock := 0 } } promptRetry) := by
  refine (allProtected_iff 0 promptRetry ?_).mpr ?_ _ (List.mem_of_mem_getLast? rfl)
  . intro e he
    simp only [promptRetry, Machine.transcript, List.mem_cons, List.not_mem_nil, or_false] at he
    rcases he with rfl | rfl | rfl | rfl | rfl | rfl | rfl <;> trivial
  . have hleases : (Machine.final step { outbox := { clock := 0 } } (promptRetry.take 5)).leases = [] := by
      decide +kernel
    have hcall : ∃ failure, (Machine.final step { outbox := { clock := 0 } } (promptRetry.take 3)).outbox.calls[0]? =
        some (.failing failure) := ⟨_, rfl⟩
    obtain ⟨failure, hcall⟩ := hcall
    intro e he
    simp only [promptRetry, Machine.transcript, List.mem_cons, List.not_mem_nil, or_false] at he
    rcases he with rfl | rfl | rfl | rfl | rfl | rfl | rfl
    . intro hoverwrites
      cases hoverwrites
    . intro hoverwrites
      cases hoverwrites
    . intro hoverwrites
      cases hoverwrites
    . intro hoverwrites
      cases hoverwrites with
      | retried hretry _ _ _ =>
        change (Machine.final step { outbox := { clock := 0 } } (promptRetry.take 3)).outbox.calls[0]? = _ at hretry
        rw [hcall] at hretry
        cases hretry
    . intro hoverwrites
      cases hoverwrites
    . intro hoverwrites
      cases hoverwrites with
      | retried _ hl _ _ =>
        change _ ∈ (Machine.final step { outbox := { clock := 0 } } (promptRetry.take 5)).leases at hl
        rw [hleases] at hl
        cases hl
    . intro hoverwrites
      cases hoverwrites

theorem lateRetry_unprotected
    : ¬ ∀ (clock : Timestamp) (requests : List OutboxRequest),
        (∀ e ∈ Machine.transcript step { outbox := { clock } } requests, NamesOwner e.request) →
        ∀ e ∈ Machine.transcript step { outbox := { clock } } requests, AllProtected e.after := by
  intro hclaim
  have hall := hclaim 0 lateRetry ?_ _ (List.mem_of_mem_getLast? rfl)
  . have hprotected := hall { owner := "second", item := "item", expires := 32000000000 } (by decide +kernel)
      (by decide +kernel)
    have hrows := hprotected.exclusive 10 "third" 30 0 (by decide)
    revert hrows
    decide +kernel
  . intro e he
    simp only [lateRetry, Machine.transcript, List.mem_cons, List.not_mem_nil, or_false] at he
    rcases he with rfl | rfl | rfl | rfl | rfl | rfl | rfl | rfl <;> trivial

end Run

end Workers

end Workspace
end MemStack
