import MemStack.Messaging.DeadLetterQueueRuns
import MemStack.Util.Glob

/-!
This module contains what cleaning up and listing miss in the dead letter queue, where messages may also be gone
because their time to live is over.
-/

namespace MemStack
namespace Messaging
namespace RedisDLQ

variable {F : Type} {s s' : RedisDLQ F} {id : String} {m m' : DeadLetterMessage F}

section Listing

variable (s)

structure Filter where
  status : Option DLQMessageStatus := none
  eventType : Option String := none
  errorType : Option String := none
  routingKeyPattern : Option String := none

def given (text : Option String) : Option String :=
  text.filter (· ≠ "")

def index (filter : Filter) : List (String × Int) :=
  match given filter.errorType, given filter.eventType with
  | some errorType, _ => (s.errorTypeIndex.entries.filter (·.1.1 = errorType)).map fun entry => (entry.1.2, entry.2)
  | none, some eventType => (s.eventTypeIndex.entries.filter (·.1.1 = eventType)).map fun entry => (entry.1.2, entry.2)
  | none, none => s.pendingIndex.entries

def ranked (entries : List (String × Int)) : List String :=
  ((entries.insertionSort (fun a b => a.2 < b.2 ∨ (a.2 = b.2 ∧ a.1 ≤ b.1))).map Prod.fst).reverse

def zrange {α : Type} (l : List α) (start stop : Int) : List α :=
  let start := max 0 (if start < 0 then start + l.length else start)
  let stop := if stop < 0 then stop + l.length else stop
  (l.drop start.toNat).take (stop - start + 1).toNat

def Filter.selects (filter : Filter) (message : DeadLetterMessage F) : Bool :=
  (match filter.status with
    | none => true
    | some status => message.status = status) &&
  (match given filter.routingKeyPattern with
    | none => true
    | some pattern => Glob.fnmatch message.routingKey pattern)

def getMessages (filter : Filter) (limit offset : Int) : List (DeadLetterMessage F) :=
  (zrange (ranked (s.index filter)) offset (offset + limit - 1)).filterMap fun messageId =>
    (s.getMessage messageId).filter filter.selects

def listed (status : DLQMessageStatus) (limit : Int) (pages : Nat) : List (DeadLetterMessage F) :=
  (List.range pages).flatMap fun (page : Nat) => s.getMessages { status := some status } limit (page * limit)

end Listing

section Happenings

-- A call, or the end of the time to live of a message. Where that comes within a call, the call has already read the
-- message and stores it again, or has not read it yet.
inductive Happening (F : Type) where
  | request (request : Request F)
  | expiry (messageId : String)

def happen (isoformat : Int → String) (hasBus : Bool) (s : RedisDLQ F) : Happening F → RedisDLQ F
  | .request request => (step isoformat hasBus s request).1
  | .expiry messageId => { s with messages := s.messages.erase messageId }

def run (isoformat : Int → String) (hasBus : Bool) (happenings : List (Happening F)) : RedisDLQ F :=
  happenings.foldl (happen isoformat hasBus) {}

structure Indexed (s : RedisDLQ F) : Prop where
  keyed : Keyed s
  bounded : ∀ id m, s.getMessage id = some m → -4 ≤ m.retryCount
  settled : ∀ id m, s.getMessage id = some m → m.status ≠ .retrying
  pending : ∀ id m, s.getMessage id = some m → (m.status = .pending ↔ (s.pendingIndex.get id).isSome)

theorem Indexed.set (h : Indexed s) (hmessages : s'.messages = s.messages.set id m') (hid : m'.id = id)
    (hbounded : -4 ≤ m'.retryCount) (hsettled : m'.status ≠ .retrying)
    (hindexed : m'.status = .pending ↔ (s'.pendingIndex.get id).isSome)
    (hothers : ∀ id', id' ≠ id → s'.pendingIndex.get id' = s.pendingIndex.get id')
    : Indexed s' := by
  have hget := getMessage_of_set hmessages
  refine ⟨each_of_set hget hid h.keyed, each_of_set hget hbounded h.bounded, each_of_set hget hsettled h.settled, ?_⟩
  intro id' other hother
  rw [hget] at hother
  split at hother
  . next heq =>
    cases hother
    rw [heq]
    exact hindexed
  . next hne =>
    rw [hothers id' hne]
    exact h.pending id' other hother

theorem Indexed.becomes (h : Indexed s) (hm : s.getMessage id = some m) (hb : Becomes s s' id m') (hid : m'.id = id)
    (hbounded : -4 ≤ m'.retryCount) (hsettled : m'.status ≠ .retrying)
    (hpending : m'.status = .pending → m.status = .pending)
    : Indexed s' := by
  apply h.set hb.messages hid hbounded hsettled
  . rw [hb.index]
    by_cases hstatus : m'.status = .pending
    . have hindexed := (h.pending id m hm).mp (hpending hstatus)
      simp [hstatus, hindexed]
    . simp [hstatus]
  . intro id' hne
    rw [hb.index, if_neg]
    rintro ⟨heq, -⟩
    exact hne heq

theorem Indexed.expiry (h : Indexed s) (messageId : String)
    : Indexed { s with messages := s.messages.erase messageId } := by
  have hget {id : String} {m : DeadLetterMessage F}
      (hm : ({ s with messages := s.messages.erase messageId } : RedisDLQ F).getMessage id = some m)
      : s.getMessage id = some m := by
    unfold getMessage at hm
    rw [Dict.get_erase] at hm
    split at hm
    . cases hm
    . exact hm
  exact ⟨fun id m hm => h.keyed id m (hget hm), fun id m hm => h.bounded id m (hget hm),
    fun id m hm => h.settled id m (hget hm), fun id m hm => h.pending id m (hget hm)⟩

theorem sendToDlq_indexed (h : Indexed s) (event : FailedEvent F) (now : Int)
    : Indexed (s.sendToDlq event now).1 := by
  cases hdelay : retryDelay event.retryCount with
  | none =>
    rw [sendToDlq_of_none hdelay]
    exact h
  | some delay =>
    have hsome : (retryDelay event.retryCount).isSome := by
      rw [hdelay]
      rfl
    obtain ⟨m', hid, hcount, hstatus, hmessages, hindex, -⟩ := @sendToDlq_of_isSome F s event now hsome
    apply h.set hmessages hid
    . rw [hcount]
      exact (retryDelay_isSome_iff _).mp hsome
    . rw [hstatus]
      decide
    . rw [hindex, Dict.get_set, if_pos rfl, hstatus]
      simp
    . intro id' hne
      rw [hindex, Dict.get_set, if_neg hne]

theorem retryMessage_indexed (h : Indexed s) (hasBus : Bool) (messageId : String) (now : Int)
    (published : Except PublishError Unit)
    : Indexed (s.retryMessage hasBus messageId now published).1 := by
  cases hm : s.getMessage messageId with
  | none =>
    rw [retryMessage_of_none hm]
    exact h
  | some m =>
    have hbounded := h.bounded _ _ hm
    cases hretry : m.canRetry with
    | false =>
      rw [retryMessage_of_not_canRetry hm hretry]
      exact h
    | true =>
      obtain ⟨m', hretried⟩ := @retryMessage_of_canRetry F s messageId m hasBus now published hm (h.keyed _ _ hm)
        hretry hbounded
      have hcount := hretried.retryCount
      apply h.becomes hm hretried.becomes hretried.sameId
      . omega
      . rcases hretried.outcome with ⟨hstatus, -⟩ | ⟨hstatus, -⟩ <;> rw [hstatus] <;> decide
      . intro _
        exact pending_of_canRetry hretry

theorem retryBatch_indexed (h : Indexed s) (hasBus : Bool) (now : Int)
    (attempts : List (String × Except PublishError Unit)) (results : Dict String Bool)
    : Indexed (s.retryBatch hasBus now attempts results).1 := by
  induction attempts generalizing s results with
  | nil => exact h
  | cons attempt attempts ih =>
    rw [retryBatch]
    exact ih (retryMessage_indexed h hasBus attempt.1 now attempt.2) _

theorem discardMessage_indexed (h : Indexed s) (isoformat : Int → String) (messageId reason : String) (now : Int)
    : Indexed (s.discardMessage isoformat messageId reason now).1 := by
  cases hm : s.getMessage messageId with
  | none =>
    rw [discardMessage_of_none hm]
    exact h
  | some m =>
    obtain ⟨m', hb, hid, hcount, hstatus, -⟩ :=
      @discardMessage_of_some F s messageId m isoformat reason now h.keyed hm
    apply h.becomes hm hb hid
    . rw [hcount]
      exact h.bounded _ _ hm
    . rw [hstatus]
      decide
    . intro hpending
      rw [hstatus] at hpending
      cases hpending

theorem discardBatch_indexed (h : Indexed s) (isoformat : Int → String) (reason : String) (now : Int)
    (ids : List String) (results : Dict String Bool)
    : Indexed (s.discardBatch isoformat reason now ids results).1 := by
  induction ids generalizing s results with
  | nil => exact h
  | cons id ids ih =>
    rw [discardBatch]
    exact ih (discardMessage_indexed h isoformat id reason now) _

structure Passed (s s' : RedisDLQ F) (ids : List String) : Prop where
  indexed : Indexed s'
  stored : ∀ id, (s'.getMessage id).isSome = (s.getMessage id).isSome
  index : ∀ id, s'.pendingIndex.get id
    = if id ∈ ids ∧ (s.getMessage id).isSome then none else s.pendingIndex.get id

theorem expireAll_passed (h : Indexed s) (ids : List String) (count : Nat)
    : Passed s (s.expireAll ids count).1 ids := by
  induction ids generalizing s count with
  | nil => exact ⟨h, fun _ => rfl, fun _ => by simp [expireAll]⟩
  | cons id ids ih =>
    cases hm : s.getMessage id with
    | none =>
      have hrest := ih h count
      rw [expireAll, hm]
      refine ⟨hrest.indexed, hrest.stored, ?_⟩
      intro id'
      dsimp only
      rw [hrest.index]
      by_cases heq : id' = id
      . simp [heq, hm]
      . simp [heq]
    | some m =>
      have hid := h.keyed _ _ hm
      have hb := @becomes_expired F s id m hid
      rw [expireAll_of_some hm]
      generalize s.expireMessage m = s' at hb
      have hindexed : Indexed s' := h.becomes hm hb hid (h.bounded id m hm) (by simp) (by simp)
      have hrest := ih hindexed (count + 1)
      have hstored : ∀ id', (s'.getMessage id').isSome = (s.getMessage id').isSome := by
        intro id'
        rw [hb.getMessage]
        split
        . next heq =>
          rw [heq, hm]
          rfl
        . rfl
      refine ⟨hrest.indexed, ?_, ?_⟩
      . intro id'
        rw [hrest.stored, hstored]
      . intro id'
        rw [hrest.index, hstored, hb.index]
        by_cases heq : id' = id
        . simp [heq, hm]
        . simp [heq]

theorem mem_pendingUntil {cutoff : Int}
    : id ∈ s.pendingUntil cutoff ↔ ∃ score, s.pendingIndex.get id = some score ∧ score ≤ cutoff := by
  unfold pendingUntil
  simp only [List.mem_map, List.mem_insertionSort, List.mem_filter, decide_eq_true_eq, Dict.get_eq_some]
  constructor
  . rintro ⟨⟨_, score⟩, hentry, rfl⟩
    exact ⟨score, hentry⟩
  . rintro ⟨score, hentry⟩
    exact ⟨(id, score), hentry, rfl⟩

theorem cleanupExpired_passed (h : Indexed s) (olderThanHours now : Int)
    : Passed s (s.cleanupExpired olderThanHours now).1 (s.pendingUntil (cutoff now olderThanHours)) := by
  have hpass := expireAll_passed h (s.pendingUntil (cutoff now olderThanHours)) 0
  unfold cleanupExpired
  dsimp only
  split
  . -- The counters are apart from the messages and the index.
    exact ⟨⟨hpass.indexed.keyed, hpass.indexed.bounded, hpass.indexed.settled, hpass.indexed.pending⟩,
      hpass.stored, hpass.index⟩
  . exact hpass

theorem cleanupResolved_same (h : Indexed s) (olderThanHours now : Int)
    : s.cleanupResolved olderThanHours now = (s, 0) := by
  apply cleanupResolved_eq
  intro id hid m hm
  obtain ⟨score, hscore, -⟩ := mem_pendingUntil.mp hid
  have hpending := (h.pending id m hm).mpr (by rw [hscore]; rfl)
  rw [hpending]
  decide

theorem happen_indexed (isoformat : Int → String) (hasBus : Bool) (h : Indexed s) (happening : Happening F)
    : Indexed (happen isoformat hasBus s happening) := by
  cases happening with
  | expiry messageId => exact h.expiry messageId
  | request request =>
    cases request with
    | mk call now =>
      cases call with
      | sendToDlq event => exact sendToDlq_indexed h event now
      | retryMessage messageId published => exact retryMessage_indexed h hasBus messageId now published
      | retryBatch attempts => exact retryBatch_indexed h hasBus now attempts .empty
      | discardMessage messageId reason => exact discardMessage_indexed h isoformat messageId reason now
      | discardBatch messageIds reason => exact discardBatch_indexed h isoformat reason now messageIds .empty
      | cleanupExpired olderThanHours => exact (cleanupExpired_passed h olderThanHours now).indexed
      | cleanupResolved olderThanHours =>
        show Indexed (s.cleanupResolved olderThanHours now).1
        rw [cleanupResolved_same h]
        exact h

theorem run_indexed (isoformat : Int → String) (hasBus : Bool) (happenings : List (Happening F))
    : Indexed (run isoformat hasBus happenings) := by
  unfold run
  have hempty : Indexed ({} : RedisDLQ F) := by
    refine ⟨?_, ?_, ?_, ?_⟩ <;> intro _ _ h <;> cases h
  generalize ({} : RedisDLQ F) = s at hempty ⊢
  induction happenings generalizing s with
  | nil => exact hempty
  | cons happening happenings ih =>
    rw [List.foldl_cons]
    exact ih _ (happen_indexed isoformat hasBus hempty happening)

end Happenings

section Complete

variable {olderThanHours now : Int} {status : DLQMessageStatus}

theorem zrange_page {α : Type} (l : List α) {limit : Int} (hlimit : 0 < limit) (page : Nat)
    : zrange l (page * limit) (page * limit + limit - 1) = (l.drop (page * limit.toNat)).take limit.toNat := by
  obtain ⟨n, rfl⟩ := Int.eq_ofNat_of_zero_le (Int.le_of_lt hlimit)
  unfold zrange
  have hstart : ¬((page : Int) * (n : Int) < 0) := Int.not_lt.mpr (by positivity)
  have hstop : ¬((page : Int) * (n : Int) + (n : Int) - 1 < 0) := by
    have hpage : 0 ≤ (page : Int) * (n : Int) := by positivity
    omega
  dsimp only
  rw [if_neg hstart, if_neg hstop, max_eq_right (Int.not_lt.mp hstart)]
  congr 1
  omega

theorem mem_ranked {entries : List (String × Int)} : id ∈ ranked entries ↔ ∃ score, (id, score) ∈ entries := by
  unfold ranked
  simp only [List.mem_reverse, List.mem_map, List.mem_insertionSort]
  constructor
  . rintro ⟨⟨_, score⟩, hentry, rfl⟩
    exact ⟨score, hentry⟩
  . rintro ⟨score, hentry⟩
    exact ⟨(id, score), hentry, rfl⟩

theorem length_ranked (entries : List (String × Int)) : (ranked entries).length = entries.length := by
  unfold ranked
  rw [List.length_reverse, List.length_map, List.length_insertionSort]

theorem exists_page {α : Type} {l : List α} {a : α} {limit pages : Nat} (ha : a ∈ l)
    (hpages : l.length ≤ pages * limit)
    : ∃ page < pages, a ∈ (l.drop (page * limit)).take limit := by
  obtain ⟨i, hi, rfl⟩ := List.mem_iff_getElem.mp ha
  have hlimit : 0 < limit := by
    rw [Nat.pos_iff_ne_zero]
    rintro rfl
    omega
  refine ⟨i / limit, Nat.div_lt_of_lt_mul (by rw [Nat.mul_comm]; omega), ?_⟩
  rw [List.mem_take_iff_getElem]
  have hmod := Nat.mod_lt i hlimit
  have hdiv := Nat.div_add_mod' i limit
  refine ⟨i % limit, ?_, ?_⟩
  . rw [List.length_drop]
    omega
  . rw [List.getElem_drop]
    congr 1

def Expires (s : RedisDLQ F) (olderThanHours now : Int) : Prop :=
  ∀ id score, (s.cleanupExpired olderThanHours now).1.pendingIndex.get id = some score →
    cutoff now olderThanHours < score

def RemovesResolved (s : RedisDLQ F) (olderThanHours now : Int) : Prop :=
  ∀ id m, (s.cleanupResolved olderThanHours now).1.getMessage id = some m → m.status = .resolved →
    cutoff now olderThanHours ≤ m.firstFailedAt

def ListsAll (s : RedisDLQ F) (status : DLQMessageStatus) : Prop :=
  ∀ limit : Int, 0 < limit → ∀ pages : Nat, (s.pendingIndex.entries.length : Int) ≤ pages * limit →
    ∀ id m, s.getMessage id = some m → m.status = status → m ∈ s.listed status limit pages

def StoredUntil (s : RedisDLQ F) (olderThanHours now : Int) : Prop :=
  ∀ id score, s.pendingIndex.get id = some score → score ≤ cutoff now olderThanHours → (s.getMessage id).isSome

def ResolvedSince (s : RedisDLQ F) (olderThanHours now : Int) : Prop :=
  ∀ id m, s.getMessage id = some m → m.status = .resolved → cutoff now olderThanHours ≤ m.firstFailedAt

theorem expires_iff (h : Indexed s) : Expires s olderThanHours now ↔ StoredUntil s olderThanHours now := by
  have hpass := cleanupExpired_passed h olderThanHours now
  constructor
  . intro hexpires id score hscore hle
    by_contra hmissing
    have hleft := hexpires id score
    rw [hpass.index, if_neg (fun hgone => hmissing hgone.2)] at hleft
    have hlt := hleft hscore
    omega
  . intro hstored id score hscore
    rw [hpass.index] at hscore
    split at hscore
    . cases hscore
    . next hkept =>
      by_contra hle
      rw [Int.not_lt] at hle
      exact hkept ⟨mem_pendingUntil.mpr ⟨score, hscore, hle⟩, hstored id score hscore hle⟩

theorem removesResolved_iff (h : Indexed s)
    : RemovesResolved s olderThanHours now ↔ ResolvedSince s olderThanHours now := by
  unfold RemovesResolved ResolvedSince
  rw [cleanupResolved_same h]

theorem mem_getMessages {limit offset : Int}
    : m ∈ s.getMessages { status := some status } limit offset ↔
      ∃ id ∈ zrange (ranked s.pendingIndex.entries) offset (offset + limit - 1),
        s.getMessage id = some m ∧ m.status = status := by
  unfold getMessages
  simp only [List.mem_filterMap, Option.filter_eq_some_iff]
  constructor
  . rintro ⟨id, hid, hm, hstatus⟩
    exact ⟨id, hid, hm, by simpa [Filter.selects, given] using hstatus⟩
  . rintro ⟨id, hid, hm, hstatus⟩
    exact ⟨id, hid, hm, by simpa [Filter.selects, given] using hstatus⟩

theorem listsAll_iff (h : Indexed s)
    : ListsAll s status ↔ status = .pending ∨ ∀ id m, s.getMessage id = some m → m.status ≠ status := by
  constructor
  . intro hlists
    by_cases hpending : status = .pending
    . exact .inl hpending
    right
    intro id m hm hstatus
    have hmem := hlists 1 (by decide) s.pendingIndex.entries.length (by omega) id m hm hstatus
    obtain ⟨page, -, hpage⟩ := List.mem_flatMap.mp hmem
    obtain ⟨id', hid', hm', -⟩ := mem_getMessages.mp hpage
    rw [zrange_page _ (by decide)] at hid'
    obtain ⟨score, hscore⟩ := mem_ranked.mp (List.mem_of_mem_drop (List.mem_of_mem_take hid'))
    have hindexed := (h.pending id' m hm').mpr (by rw [Dict.get_eq_some.mpr hscore]; rfl)
    rw [hstatus] at hindexed
    exact hpending hindexed
  . rintro (rfl | hnone)
    . intro limit hlimit pages hpages id m hm hstatus
      obtain ⟨score, hscore⟩ := Option.isSome_iff_exists.mp ((h.pending id m hm).mp hstatus)
      have hid : id ∈ ranked s.pendingIndex.entries := mem_ranked.mpr ⟨score, Dict.get_eq_some.mp hscore⟩
      have hlength : (ranked s.pendingIndex.entries).length ≤ pages * limit.toNat := by
        rw [length_ranked]
        have hcast : ((pages * limit.toNat : Nat) : Int) = pages * limit := by
          rw [Int.natCast_mul, Int.toNat_of_nonneg (Int.le_of_lt hlimit)]
        omega
      obtain ⟨page, hlt, hpage⟩ := exists_page hid hlength
      apply List.mem_flatMap.mpr
      refine ⟨page, List.mem_range.mpr hlt, mem_getMessages.mpr ⟨id, ?_, hm, hstatus⟩⟩
      rw [zrange_page _ hlimit]
      exact hpage
    . intro _ _ _ _ id m hm hstatus
      exact absurd hstatus (hnone id m hm)

theorem complete_run_iff (isoformat : Int → String) (hasBus : Bool) (happenings : List (Happening F))
    (olderThanHours now : Int) (status : DLQMessageStatus)
    : (Expires (run isoformat hasBus happenings) olderThanHours now ↔
        StoredUntil (run isoformat hasBus happenings) olderThanHours now) ∧
      (RemovesResolved (run isoformat hasBus happenings) olderThanHours now ↔
        ResolvedSince (run isoformat hasBus happenings) olderThanHours now) ∧
      (ListsAll (run isoformat hasBus happenings) status ↔
        status = .pending ∨
          ∀ id m, (run isoformat hasBus happenings).getMessage id = some m → m.status ≠ status) := by
  have h := run_indexed isoformat hasBus happenings
  exact ⟨expires_iff h, removesResolved_iff h, listsAll_iff h⟩

def hours (n : Int) : Int :=
  n * 3600 * second

def failure (id : String) : FailedEvent Unit :=
  { id, eventId := "e", eventType := "t", eventData := "d", routingKey := "r", error := "x", errorType := "X" }

def week : List (Happening Unit) :=
  [.request ⟨.sendToDlq (failure "dlq_1"), 0⟩, .request ⟨.sendToDlq (failure "dlq_2"), hours 1⟩,
    .request ⟨.retryMessage "dlq_2" (.ok ()), hours 2⟩, .expiry "dlq_1"]

theorem week_incomplete
    : ¬Expires (run (fun _ => "") true week) 168 (hours 168) ∧
      ¬RemovesResolved (run (fun _ => "") true week) 24 (hours 168) ∧
      ¬ListsAll (run (fun _ => "") true week) .resolved := by
  have h := run_indexed (fun _ => "") true week
  have hresolved : ((run (fun _ => "") true week).getMessage "dlq_2").map (fun m => (m.status, m.firstFailedAt)) =
      some (.resolved, hours 1) := by
    decide +kernel
  obtain ⟨m, hm, hfields⟩ := Option.map_eq_some_iff.mp hresolved
  rw [Prod.mk.injEq] at hfields
  refine ⟨?_, ?_, ?_⟩
  . rw [expires_iff h]
    intro hstored
    exact absurd (hstored "dlq_1" 0 (by decide +kernel) (by decide)) (by decide +kernel)
  . rw [removesResolved_iff h]
    intro hsince
    have hle := hsince "dlq_2" m hm hfields.1
    rw [hfields.2] at hle
    revert hle
    decide
  . rw [listsAll_iff h]
    rintro (hpending | hnone)
    . cases hpending
    . exact hnone "dlq_2" m hm hfields.1

end Complete

end RedisDLQ
end Messaging
end MemStack
