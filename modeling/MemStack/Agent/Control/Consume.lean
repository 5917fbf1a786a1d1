import MemStack.Agent.Control.Delivery

/-!
This module contains just when the control channel hands every message to one consumer, in the order of the
senders' timestamps.
-/

namespace MemStack
namespace Agent
namespace Control

open Lists

variable {Time : Type} [PyTime Time]

section Read

variable {F : Type} [PyFloat F] {channel : Channel Time} {runId : String} {now : Time} {i : Nat}
  {messages : List (Received Time)} {entryIds : List Nat}

def Channel.streamed (channel : Channel Time) : List (Received Time) :=
  channel.stream.map fun e => { sent := e.1, message := e.1.message }

theorem mem_streamed (h : Inv F channel) {received : Received Time} (hmem : received ∈ channel.streamed)
    : received.sent ∈ channel.sends ∧ ¬ received.isKill ∧ received.message = received.sent.message := by
  unfold Channel.streamed at hmem
  rw [List.mem_map] at hmem
  rcases hmem with ⟨e, he, rfl⟩
  have := h.stream e he
  exact ⟨this.1, this.2.1, rfl⟩

theorem takenOf_streamed (h : Inv F channel) : takenOf channel.streamed = channel.entryIds := by
  unfold takenOf
  rw [List.filter_eq_self.mpr]
  . unfold Channel.streamed Channel.entryIds
    rw [List.map_map]
    rfl
  . intro received hreceived
    simp [(mem_streamed h hreceived).2.1]

theorem nodup_streamed (h : Inv F channel) : channel.streamed.Nodup := by
  apply List.Nodup.of_map (·.sent.number)
  unfold Channel.streamed
  rw [List.map_map]
  exact h.stream_nodup

theorem callInv_xdel (h : Inv F channel) (hcall : CallInv channel.sends (.xrange messages))
    (hne : channel.stream ≠ [])
    : CallInv channel.sends (.xdel (messages ++ channel.streamed) channel.entryIds) := by
  refine ⟨?_, ?_, ?_, ?_, ?_, ?_, ?_, ?_⟩
  . intro received hreceived
    rw [Consume.received, List.mem_append] at hreceived
    cases hreceived with
    | inl hold => apply hcall.sent received hold
    | inr hnew => apply (mem_streamed h hnew).1
  . intro received hreceived hkill
    rw [Consume.received, List.mem_append] at hreceived
    cases hreceived with
    | inl hold => apply hcall.kill received hold hkill
    | inr hnew => exact absurd hkill (mem_streamed h hnew).2.1
  . intro received hreceived hnot
    rw [Consume.received, List.mem_append] at hreceived
    cases hreceived with
    | inl hold => apply hcall.fields received hold hnot
    | inr hnew => apply (mem_streamed h hnew).2.2
  . rw [Consume.received, List.pairwise_append]
    refine ⟨hcall.single, ?_, ?_⟩
    . apply List.pairwise_of_forall_mem_list
      intro a ha b _ hab
      exact (mem_streamed h ha).2.1 hab.1
    . intro a _ b hb hab
      exact (mem_streamed h hb).2.1 hab.2
  . rw [Consume.received, List.nodup_append]
    refine ⟨hcall.nodup, nodup_streamed h, ?_⟩
    intro a ha b hb heq
    rw [← heq] at hb
    exact (mem_streamed h hb).2.1 (hcall.shape a ha)
  . rw [takenOf_append, takenOf_of_isKill hcall.shape, takenOf_streamed h, List.nil_append]
  . unfold Channel.entryIds
    simpa using hne
  . intro kill hkill hisKill received hreceived hnot
    rw [List.mem_append] at hkill hreceived
    have hkill := hkill.resolve_right fun hnew => (mem_streamed h hnew).2.1 hisKill
    have hreceived := hreceived.resolve_left fun hold => hnot (hcall.shape received hold)
    rw [← List.singleton_append]
    apply List.Sublist.append
    . rw [List.singleton_sublist]
      exact hkill
    . rw [List.singleton_sublist]
      exact hreceived

theorem taken_xrange_perm (h : Inv F channel) (hi : channel.calls[i]? = some (.xrange messages))
    : ({ channel with
          calls := channel.calls.set i (.xdel (messages ++ channel.streamed) channel.entryIds)
        } : Channel Time).taken.Perm (channel.entryIds ++ channel.taken) := by
  apply flatMap_set_perm hi
  unfold Consume.taken Consume.received
  dsimp only
  rw [takenOf_append, takenOf_streamed h]
  apply List.perm_append_comm

theorem inv_xrange (h : Inv F channel) (hi : channel.calls[i]? = some (.xrange messages))
    (hne : channel.stream ≠ [])
    (halone : ∀ messages' entryIds, .xdel messages' entryIds ∉ channel.calls)
    : Inv F { channel with
        calls := channel.calls.set i (.xdel (messages ++ channel.streamed) channel.entryIds) } := by
  have hperm := taken_xrange_perm h hi
  have hxdel : ∀ messages' entryIds',
      .xdel messages' entryIds' ∈
        channel.calls.set i (.xdel (messages ++ channel.streamed) channel.entryIds) →
      entryIds' = channel.entryIds := by
    intro messages' entryIds' hmem
    cases List.mem_or_eq_of_mem_set hmem with
    | inl hold => exact absurd hold (halone messages' entryIds')
    | inr hnew =>
      cases hnew
      rfl
  have honly : ∀ (j : Nat) (a : Consume Time),
      (channel.calls.set i (.xdel (messages ++ channel.streamed) channel.entryIds))[j]? = some a →
      a.IsXdel → j = i := by
    rintro j _ hj ⟨messages', entryIds', rfl⟩
    by_contra hij
    rw [List.getElem?_set_ne (Ne.symm hij)] at hj
    exact halone _ _ (List.mem_of_getElem? hj)
  refine ⟨h.numbers, h.stream, h.stream_nodup, h.kill, ?_, ?_, ?_, ?_, ?_, ?_⟩
  . intro call hmem
    cases List.mem_or_eq_of_mem_set hmem with
    | inl hold => apply h.calls call hold
    | inr hnew =>
      rw [hnew]
      apply callInv_xdel h (h.calls _ (List.mem_of_getElem? hi)) hne
  . apply hperm.nodup_iff.mpr
    rw [List.nodup_append]
    refine ⟨h.stream_nodup, h.once, ?_⟩
    intro a ha b hb heq
    rw [← heq] at hb
    rcases h.taken a hb ha with ⟨messages', entryIds', hmem, _⟩
    exact halone messages' entryIds' hmem
  . intro sent hsent hnot
    cases h.kept sent hsent hnot with
    | inl hentry => exact .inl hentry
    | inr htaken => exact .inr (hperm.mem_iff.mpr (List.mem_append_right _ htaken))
  . intro messages' entryIds' hmem entryId hentry
    rw [hxdel _ _ hmem] at hentry
    exact hentry
  . intro j k a b hj hk ha hb
    rw [honly j a hj ha, honly k b hk hb]
  . intro entryId _ hentry
    exact ⟨_, _, mem_set_of_mem hi, hentry⟩

theorem not_safe_xrange (h : Inv F channel) (hi : channel.calls[i]? = some (.xrange messages))
    {messages' : List (Received Time)} (hxdel : .xdel messages' entryIds ∈ channel.calls)
    : ¬ Safe { channel with
        calls := channel.calls.set i (.xdel (messages ++ channel.streamed) channel.entryIds) } := by
  intro hsafe
  have hnodup := (taken_xrange_perm h hi).nodup_iff.mp hsafe.once
  have hshape := (h.calls _ hxdel).shape
  rcases List.exists_mem_of_ne_nil _ hshape.2.1 with ⟨entryId, hentry⟩
  have hstream := h.hand messages' entryIds hxdel entryId hentry
  have htaken : entryId ∈ channel.taken := by
    rw [Channel.taken, List.mem_flatMap]
    refine ⟨_, hxdel, ?_⟩
    rw [hshape.1] at hentry
    exact hentry
  apply (List.nodup_append.mp hnodup).2.2 entryId hstream entryId htaken rfl

theorem inv_xdel (h : Inv F channel) (hi : channel.calls[i]? = some (.xdel messages entryIds))
    (hordered : InOrder (sortMessages messages))
    : Inv F { channel with
        stream := channel.stream.filter (·.1.number ∉ entryIds)
        calls := channel.calls.set i (.returned (sortMessages messages)) } := by
  have hcall := h.calls _ (List.mem_of_getElem? hi)
  have hnotXdel : ¬ (Consume.returned (sortMessages messages)).IsXdel := by
    rintro ⟨_, _, heq⟩
    cases heq
  have hperm : ((channel.calls.set i (.returned (sortMessages messages))).flatMap Consume.taken).Perm
      channel.taken := by
    apply @flatMap_set_perm _ _ _ _ _ _ _ [] hi
    apply takenOf_perm
    apply sortMessages_perm
  have honly : ∀ messages' entryIds', .xdel messages' entryIds' ∈ channel.calls →
      entryIds' = entryIds := by
    intro messages' entryIds' hmem
    rcases List.mem_iff_getElem?.mp hmem with ⟨j, hj⟩
    have heq := h.single i j _ _ hi hj ⟨_, _, rfl⟩ ⟨_, _, rfl⟩
    rw [← heq, hi] at hj
    cases hj
    rfl
  have hgone : ∀ messages' entryIds',
      .xdel messages' entryIds' ∉ channel.calls.set i (.returned (sortMessages messages)) := by
    intro messages' entryIds' hmem
    rcases List.mem_iff_getElem?.mp hmem with ⟨j, hj⟩
    have hold := getElem?_set_isXdel hnotXdel hj ⟨_, _, rfl⟩
    have heq := h.single i j _ _ hi hold ⟨_, _, rfl⟩ ⟨_, _, rfl⟩
    rw [← heq, List.getElem?_set_self'] at hj
    rw [hi] at hj
    cases hj
  have hids : ({ channel with
      stream := channel.stream.filter (·.1.number ∉ entryIds)
      calls := channel.calls.set i (.returned (sortMessages messages)) } : Channel Time).entryIds
      = channel.entryIds.filter (· ∉ entryIds) := by
    unfold Channel.entryIds
    rw [List.filter_map]
    rfl
  refine ⟨h.numbers, ?_, ?_, h.kill, ?_, ?_, ?_, ?_, ?_, ?_⟩
  . intro e he
    apply h.stream e (List.mem_of_mem_filter he)
  . rw [hids]
    apply h.stream_nodup.filter
  . intro call hmem
    cases List.mem_or_eq_of_mem_set hmem with
    | inl hold => apply h.calls call hold
    | inr hnew =>
      rw [hnew]
      apply hcall.sorted hordered
  . apply hperm.nodup_iff.mpr h.once
  . intro sent hsent hnot
    rw [hids, List.mem_filter, decide_eq_true_eq]
    cases h.kept sent hsent hnot with
    | inl hentry =>
      by_cases hmem : sent.number ∈ entryIds
      . right
        apply hperm.mem_iff.mpr
        rw [Channel.taken, List.mem_flatMap]
        refine ⟨_, List.mem_of_getElem? hi, ?_⟩
        rw [hcall.shape.1] at hmem
        exact hmem
      . exact .inl ⟨hentry, hmem⟩
    | inr htaken => exact .inr (hperm.mem_iff.mpr htaken)
  . intro messages' entryIds' hmem
    exact absurd hmem (hgone messages' entryIds')
  . intro j k a b hj _ ha _
    rcases ha with ⟨messages', entryIds', rfl⟩
    exact absurd (List.mem_of_getElem? hj) (hgone messages' entryIds')
  . intro entryId htaken hentry
    rw [hids, List.mem_filter, decide_eq_true_eq] at hentry
    rcases h.taken entryId (hperm.mem_iff.mp htaken) hentry.1 with ⟨messages', entryIds', hmem, hin⟩
    rw [honly _ _ hmem] at hin
    exact absurd hin hentry.2

end Read

section Step

variable {F : Type} [PyFloat F] {channel : Channel Time} {runId : String} {now : Time} {i : Nat}
  {request : Request Time} {call : Consume Time}

def HasRoom (runId : String) (request : Request Time) (channel : Channel Time) : Prop :=
  ∀ message, request = .sendControl message → message.runId = runId → message.messageType ≠ .kill →
    channel.stream.length < 100

theorem step_advance (hi : channel.calls[i]? = some call) (hcall : ∀ messages, call ≠ .returned messages)
    : (channel.step F runId (.advance i now)).1
        =
      { (call.advance F runId now channel).1 with
        calls := (call.advance F runId now channel).1.calls.set i (call.advance F runId now channel).2 } := by
  unfold Channel.step
  dsimp only
  rw [hi]
  cases call with
  | returned messages => exact absurd rfl (hcall messages)
  | _ => rfl

theorem orderly_advance (hi : channel.calls[i]? = some call)
    (hxrange : ∀ messages, call = .xrange messages → channel.stream = []) (hxdel : ¬ call.IsXdel)
    : Orderly (.advance i now) channel := by
  refine ⟨?_, ?_⟩
  . rintro _ _ messages ⟨rfl, rfl⟩ hget hne
    rw [hi] at hget
    cases hget
    exact absurd (hxrange messages rfl) hne
  . rintro _ _ messages entryIds ⟨rfl, rfl⟩ hget
    rw [hi] at hget
    cases hget
    exact absurd ⟨messages, entryIds, rfl⟩ hxdel

theorem orderly_xrange_iff {messages : List (Received Time)}
    (hi : channel.calls[i]? = some (.xrange messages)) (hne : channel.stream ≠ [])
    : Orderly (.advance i now) channel
        ↔
      ∀ messages' entryIds, .xdel messages' entryIds ∉ channel.calls := by
  constructor
  . intro horderly
    apply horderly.alone i now messages rfl hi hne
  . intro halone
    refine ⟨?_, ?_⟩
    . intro _ _ _ _ _ _
      exact halone
    . rintro _ _ messages' entryIds ⟨rfl, rfl⟩ hget
      rw [hi] at hget
      cases hget

theorem orderly_xdel_iff {messages : List (Received Time)} {entryIds : List Nat}
    (hi : channel.calls[i]? = some (.xdel messages entryIds))
    : Orderly (.advance i now) channel
        ↔
      ∀ kill ∈ messages, kill.isKill → ∀ received ∈ messages, ¬ received.isKill →
        ¬ Misplaced kill received := by
  constructor
  . intro horderly
    apply horderly.placed i now messages entryIds rfl hi
  . intro hplaced
    refine ⟨?_, ?_⟩
    . rintro _ _ messages' ⟨rfl, rfl⟩ hget
      rw [hi] at hget
      cases hget
    . rintro _ _ messages' entryIds' ⟨rfl, rfl⟩ hget
      rw [hi] at hget
      cases hget
      exact hplaced

theorem orderly_of_not_advance (h : ∀ i now, request ≠ .advance i now) : Orderly request channel := by
  refine ⟨?_, ?_⟩
  . intro i now _ hrequest
    exact absurd hrequest (h i now)
  . intro i now _ _ hrequest
    exact absurd hrequest (h i now)

def Kept (F : Type) [PyFloat F] (runId : String) (channel : Channel Time) (request : Request Time) : Prop :=
  (Safe (channel.step F runId request).1 ↔ Orderly request channel) ∧
    (Orderly request channel → Inv F (channel.step F runId request).1)

theorem kept_of_inv (hinv : Inv F (channel.step F runId request).1) (horderly : Orderly request channel)
    : Kept F runId channel request :=
  ⟨iff_of_true hinv.safe horderly, fun _ => hinv⟩

theorem kept_getKill (h : Inv F channel) (hi : channel.calls[i]? = some .getKill)
    : Kept F runId channel (.advance i now) := by
  have hnot : ¬ (Consume.getKill : Consume Time).IsXdel := by
    rintro ⟨_, _, heq⟩
    cases heq
  apply kept_of_inv
  . rw [step_advance hi (by simp)]
    unfold Consume.advance
    have hnone : Inv F { channel with calls := channel.calls.set i (.xrange []) } := by
      apply h.set hi hnot
      . rintro ⟨_, _, heq⟩
        cases heq
      . constructor <;> simp [Consume.received, Consume.Shape]
      . rfl
      . simp
    cases hkill : channel.kill with
    | none => exact hnone
    | some e =>
      rcases e with ⟨sent, raw⟩
      dsimp only
      cases hread : readKill F runId now raw with
      | none => exact hnone
      | some message =>
        have hsent := h.kill sent raw hkill
        apply h.set hi hnot
        . rintro ⟨_, _, heq⟩
          cases heq
        . constructor
          . simp [Consume.received, hsent.1]
          . simp [Consume.received, messageType_readKill hread]
          . simp [Consume.received, Received.isKill, hsent.2.1]
          . simp [Consume.received]
          . simp [Consume.received]
          . exact hsent.2.1
        . apply List.Perm.of_eq
          apply takenOf_of_isKill
          simp [Consume.received, Received.isKill, hsent.2.1]
        . simp
  . apply orderly_advance hi _ hnot
    intro messages heq
    cases heq

theorem kept_deleteKill {kill : Received Time} (h : Inv F channel)
    (hi : channel.calls[i]? = some (.deleteKill kill))
    : Kept F runId channel (.advance i now) := by
  have hnot : ¬ (Consume.deleteKill kill).IsXdel := by
    rintro ⟨_, _, heq⟩
    cases heq
  have hcall := h.calls _ (List.mem_of_getElem? hi)
  apply kept_of_inv
  . rw [step_advance hi (by simp)]
    apply h.set hi hnot
    . rintro ⟨_, _, heq⟩
      cases heq
    . refine ⟨hcall.sent, hcall.kill, hcall.fields, hcall.single, hcall.nodup, ?_⟩
      intro received hreceived
      rw [List.mem_singleton] at hreceived
      rw [hreceived]
      exact hcall.shape
    . rfl
    . intro _ hkill
      cases hkill
  . apply orderly_advance hi _ hnot
    intro messages heq
    cases heq

theorem inOrder_of_isKill {messages : List (Received Time)} (hkill : ∀ received ∈ messages, received.isKill)
    (hsingle : messages.Pairwise fun a b => ¬ (a.isKill ∧ b.isKill))
    : InOrder (sortMessages messages) := by
  have hperm := sortMessages_perm messages
  have hsorted : (sortMessages messages).Pairwise fun a b => ¬ (a.isKill ∧ b.isKill) := by
    apply (hperm.pairwise_iff _).mpr hsingle
    intro a b hab hba
    exact hab hba.symm
  rw [InOrder, List.pairwise_iff_forall_sublist]
  intro a b hsub
  have hnot := List.pairwise_iff_forall_sublist.mp hsorted hsub
  have ha := hkill a (hperm.mem_iff.mp (hsub.subset (by simp)))
  have hb := hkill b (hperm.mem_iff.mp (hsub.subset (by simp)))
  exact absurd ⟨ha, hb⟩ hnot

theorem kept_xrange {messages : List (Received Time)} (h : Inv F channel)
    (hi : channel.calls[i]? = some (.xrange messages))
    : Kept F runId channel (.advance i now) := by
  have hnot : ¬ (Consume.xrange messages).IsXdel := by
    rintro ⟨_, _, heq⟩
    cases heq
  have hcall := h.calls _ (List.mem_of_getElem? hi)
  by_cases hempty : channel.stream = []
  . apply kept_of_inv
    . rw [step_advance hi (by simp)]
      unfold Consume.advance
      dsimp only
      rw [if_pos hempty]
      apply h.set hi hnot
      . rintro ⟨_, _, heq⟩
        cases heq
      . apply hcall.sorted
        apply inOrder_of_isKill hcall.shape hcall.single
      . apply takenOf_perm
        apply sortMessages_perm
      . simp
    . apply orderly_advance hi _ hnot
      intro _ _
      exact hempty
  . have hstep : (channel.step F runId (.advance i now)).1 = { channel with
        calls := channel.calls.set i (.xdel (messages ++ channel.streamed) channel.entryIds) } := by
      rw [step_advance hi (by simp)]
      unfold Consume.advance
      dsimp only
      rw [if_neg hempty, readEntries_eq channel.stream fun e he => (h.stream e he).2.2]
      rfl
    unfold Kept
    rw [hstep, orderly_xrange_iff hi hempty]
    refine ⟨⟨?_, ?_⟩, ?_⟩
    . intro hsafe messages' entryIds hxdel
      exact not_safe_xrange h hi hxdel hsafe
    . intro halone
      apply (inv_xrange h hi hempty halone).safe
    . intro halone
      apply inv_xrange h hi hempty halone

theorem kept_xdel {messages : List (Received Time)} {entryIds : List Nat} (h : Inv F channel)
    (hi : channel.calls[i]? = some (.xdel messages entryIds))
    : Kept F runId channel (.advance i now) := by
  have hcall := h.calls _ (List.mem_of_getElem? hi)
  have hstep : (channel.step F runId (.advance i now)).1 = { channel with
      stream := channel.stream.filter (·.1.number ∉ entryIds)
      calls := channel.calls.set i (.returned (sortMessages messages)) } := by
    rw [step_advance hi (by simp)]
    rfl
  unfold Kept
  rw [hstep, orderly_xdel_iff hi, ← inOrder_iff hcall]
  refine ⟨⟨?_, ?_⟩, ?_⟩
  . intro hsafe
    apply hsafe.ordered
    apply mem_set_of_mem hi
  . intro hordered
    apply (inv_xdel h hi hordered).safe
  . intro hordered
    apply inv_xdel h hi hordered

theorem kept_step (h : Inv F channel) (hroom : HasRoom runId request channel)
    : Kept F runId channel request := by
  cases request with
  | sendControl message =>
    apply kept_of_inv _ (orderly_of_not_advance (by simp))
    unfold Channel.step
    dsimp only
    split
    . next hrun =>
      split
      . next hkill => apply inv_sendKill h hkill
      . next hkill => apply inv_sendStream h hkill (hroom message rfl hrun hkill)
    . exact h
  | consumeControl =>
    apply kept_of_inv _ (orderly_of_not_advance (by simp))
    apply inv_consume h
  | advance i now =>
    cases hi : channel.calls[i]? with
    | none =>
      apply kept_of_inv
      . unfold Channel.step
        dsimp only
        rw [hi]
        exact h
      . refine ⟨?_, ?_⟩
        . rintro _ _ _ ⟨rfl, rfl⟩ hget
          rw [hi] at hget
          cases hget
        . rintro _ _ _ _ ⟨rfl, rfl⟩ hget
          rw [hi] at hget
          cases hget
    | some call =>
      cases call with
      | getKill => apply kept_getKill h hi
      | deleteKill kill => apply kept_deleteKill h hi
      | xrange messages => apply kept_xrange h hi
      | xdel messages entryIds => apply kept_xdel h hi
      | returned messages =>
        apply kept_of_inv
        . unfold Channel.step
          dsimp only
          rw [hi]
          exact h
        . apply orderly_advance hi
          . intro _ heq
            cases heq
          . rintro ⟨_, _, heq⟩
            cases heq

end Step

section Kills

variable {F : Type} [PyFloat F] {channel : Channel Time} {runId : String} {now : Time} {i : Nat}
  {request : Request Time} {call : Consume Time}

def HasKill (messages : List (Received Time)) : Prop :=
  ∃ received ∈ messages, received.message.messageType = .kill

def Channel.KillPending (channel : Channel Time) : Prop :=
  channel.kill ≠ none ∨
    ∃ call ∈ channel.calls, (∀ messages, call ≠ .returned messages) ∧ HasKill call.received

def Channel.ReadsKills (channel : Channel Time) : Prop :=
  ∀ kill, .deleteKill kill ∈ channel.calls → kill.message.messageType = .kill

theorem hasKill_sortMessages {messages : List (Received Time)} (h : HasKill messages)
    : HasKill (sortMessages messages) := by
  rcases h with ⟨received, hreceived, hkill⟩
  exact ⟨received, (sortMessages_perm messages).mem_iff.mpr hreceived, hkill⟩

theorem hasKill_advance (h : HasKill call.received)
    : HasKill (call.advance F runId now channel).2.received := by
  cases call with
  | getKill =>
    rcases h with ⟨received, hreceived, _⟩
    cases hreceived
  | deleteKill kill => exact h
  | xrange messages =>
    unfold Consume.advance
    dsimp only
    split
    . apply hasKill_sortMessages h
    . have happend : HasKill (messages ++ (readEntries now channel.stream).1) := by
        rcases h with ⟨received, hreceived, hkill⟩
        exact ⟨received, List.mem_append_left _ hreceived, hkill⟩
      split
      . exact happend
      . apply hasKill_sortMessages happend
  | xdel messages entryIds => apply hasKill_sortMessages h
  | returned messages => exact h

theorem frame_advance
    : (call.advance F runId now channel).1.calls = channel.calls ∧
      ((∀ kill, call ≠ .deleteKill kill) → (call.advance F runId now channel).1.kill = channel.kill) := by
  cases call with
  | getKill =>
    unfold Consume.advance
    dsimp only
    split
    . exact ⟨rfl, fun _ => rfl⟩
    . split <;> exact ⟨rfl, fun _ => rfl⟩
  | deleteKill kill => exact ⟨rfl, fun h => absurd rfl (h kill)⟩
  | xrange messages =>
    unfold Consume.advance
    dsimp only
    split
    . exact ⟨rfl, fun _ => rfl⟩
    . split <;> exact ⟨rfl, fun _ => rfl⟩
  | xdel messages entryIds => exact ⟨rfl, fun _ => rfl⟩
  | returned messages => exact ⟨rfl, fun _ => rfl⟩

theorem advance_eq_deleteKill {kill : Received Time}
    (h : (call.advance F runId now channel).2 = .deleteKill kill)
    : kill.message.messageType = .kill := by
  cases call with
  | getKill =>
    unfold Consume.advance at h
    dsimp only at h
    split at h
    . cases h
    . split at h
      . cases h
      . next hread =>
        cases h
        apply messageType_readKill hread
  | deleteKill kill => cases h
  | xrange messages =>
    unfold Consume.advance at h
    dsimp only at h
    split at h
    . cases h
    . split at h <;> cases h
  | xdel messages entryIds => cases h
  | returned messages => cases h

theorem readsKills_step (h : channel.ReadsKills) : (channel.step F runId request).1.ReadsKills := by
  cases request with
  | sendControl message =>
    unfold Channel.step
    dsimp only
    split
    . split <;> exact h
    . exact h
  | consumeControl =>
    intro kill hkill
    have hkill : .deleteKill kill ∈ channel.calls ++ [.getKill] := hkill
    rw [List.mem_append, List.mem_singleton] at hkill
    apply h kill (hkill.resolve_right (by simp))
  | advance i now =>
    cases hi : channel.calls[i]? with
    | none =>
      unfold Channel.step
      dsimp only
      rw [hi]
      exact h
    | some call =>
      by_cases hreturned : ∃ messages, call = .returned messages
      . rcases hreturned with ⟨messages, rfl⟩
        unfold Channel.step
        dsimp only
        rw [hi]
        exact h
      . rw [step_advance hi fun messages heq => hreturned ⟨messages, heq⟩]
        intro kill hkill
        rw [frame_advance.1] at hkill
        cases List.mem_or_eq_of_mem_set hkill with
        | inl hold => apply h kill hold
        | inr hnew => apply advance_eq_deleteKill hnew.symm

theorem reply_advance {messages : List (Received Time)} (hi : channel.calls[i]? = some call)
    (hcall : ∀ messages, call ≠ .returned messages)
    (hreturned : (call.advance F runId now channel).2 = .returned messages)
    : (channel.step F runId (.advance i now)).2 = some messages := by
  unfold Channel.step
  dsimp only
  rw [hi]
  cases call with
  | returned messages => exact absurd rfl (hcall messages)
  | _ =>
    dsimp only
    rw [hreturned]

theorem killPending_advance (h : channel.ReadsKills) (hi : channel.calls[i]? = some call)
    (hcall : ∀ messages, call ≠ .returned messages) (hpending : channel.KillPending)
    : (channel.step F runId (.advance i now)).1.KillPending ∨
      ∃ messages, (channel.step F runId (.advance i now)).2 = some messages ∧ HasKill messages := by
  -- The kill goes on with this call, which holds on to it or returns it.
  have hgoesOn : HasKill (call.advance F runId now channel).2.received →
      (channel.step F runId (.advance i now)).1.KillPending ∨
        ∃ messages, (channel.step F runId (.advance i now)).2 = some messages ∧ HasKill messages := by
    intro hhas
    by_cases hreturned : ∃ messages, (call.advance F runId now channel).2 = .returned messages
    . rcases hreturned with ⟨messages, hreturned⟩
      rw [hreturned] at hhas
      exact .inr ⟨messages, reply_advance hi hcall hreturned, hhas⟩
    . left
      rw [step_advance hi hcall]
      refine .inr ⟨_, ?_, fun messages heq => hreturned ⟨messages, heq⟩, hhas⟩
      dsimp only
      rw [frame_advance.1]
      apply mem_set_of_mem hi
  cases hpending with
  | inl hkill =>
    by_cases hdelete : ∃ kill, call = .deleteKill kill
    . rcases hdelete with ⟨kill, rfl⟩
      apply hgoesOn
      exact ⟨kill, List.mem_singleton_self kill, h kill (List.mem_of_getElem? hi)⟩
    . left
      rw [step_advance hi hcall]
      left
      dsimp only
      rw [frame_advance.2 fun kill heq => hdelete ⟨kill, heq⟩]
      exact hkill
  | inr hheld =>
    rcases hheld with ⟨call', hmem, hcall', hhas⟩
    by_cases hsame : call' = call
    . rw [hsame] at hhas
      apply hgoesOn
      apply hasKill_advance hhas
    . left
      rw [step_advance hi hcall]
      refine .inr ⟨call', ?_, hcall', hhas⟩
      dsimp only
      rw [frame_advance.1]
      apply mem_set_of_ne hi hmem hsame

theorem killPending_step (h : channel.ReadsKills) (hpending : channel.KillPending)
    : (channel.step F runId request).1.KillPending ∨
      ∃ messages, (channel.step F runId request).2 = some messages ∧ HasKill messages := by
  cases request with
  | sendControl message =>
    left
    unfold Channel.step
    dsimp only
    split
    . split
      . exact .inl (by simp [sendKill])
      . exact hpending
    . exact hpending
  | consumeControl =>
    left
    cases hpending with
    | inl hkill => exact .inl hkill
    | inr hcall =>
      rcases hcall with ⟨call, hcall, hhas⟩
      exact .inr ⟨call, List.mem_append_left _ hcall, hhas⟩
  | advance i now =>
    cases hi : channel.calls[i]? with
    | none =>
      left
      unfold Channel.step
      dsimp only
      rw [hi]
      exact hpending
    | some call =>
      by_cases hreturned : ∃ messages, call = .returned messages
      . rcases hreturned with ⟨messages, rfl⟩
        left
        unfold Channel.step
        dsimp only
        rw [hi]
        exact hpending
      . have hcall : ∀ messages, call ≠ .returned messages := fun messages heq => hreturned ⟨messages, heq⟩
        apply killPending_advance h hi hcall hpending

end Kills

section Run

variable {F : Type} [PyFloat F] {channel : Channel Time} {runId : String} {request : Request Time}

abbrev Entry (Time : Type) := Machine.Entry (Channel Time) (Request Time) (Option (List (Received Time)))

def Request.IsKill (runId : String) (request : Request Time) : Prop :=
  ∃ message, request = .sendControl message ∧ message.runId = runId ∧ message.messageType = .kill

def KillsFollowed (runId : String) (run : List (Entry Time)) (channel : Channel Time) : Prop :=
  ∀ before e after, run = before ++ e :: after → e.request.IsKill runId →
    channel.KillPending ∨ ∃ e' ∈ after, ∃ messages, e'.reply = some messages ∧ HasKill messages

theorem killPending_sendKill (h : request.IsKill runId)
    : (channel.step F runId request).1.KillPending := by
  rcases h with ⟨message, rfl, hrun, hkill⟩
  unfold Channel.step
  dsimp only
  rw [if_pos hrun, if_pos hkill]
  exact .inl (by simp [sendKill])

theorem killsFollowed_step {run : List (Entry Time)} (hreads : channel.ReadsKills)
    (h : KillsFollowed runId run channel)
    : KillsFollowed runId (run ++ [Machine.entry (Channel.step F runId) channel request])
        (channel.step F runId request).1 := by
  intro before e after hsplit hkill
  cases after using List.reverseRecOn with
  | nil =>
    have hlast := List.append_inj' hsplit rfl
    rw [List.cons.injEq] at hlast
    rw [← hlast.2.1] at hkill
    left
    apply killPending_sendKill hkill
  | append_singleton after last =>
    rw [← List.cons_append, ← List.append_assoc] at hsplit
    have hlast := List.append_inj' hsplit rfl
    rw [List.cons.injEq] at hlast
    cases h before e after hlast.1 hkill with
    | inl hpending =>
      cases @killPending_step _ _ F _ _ runId request hreads hpending with
      | inl hpending => exact .inl hpending
      | inr hreturned =>
        rcases hreturned with ⟨messages, hreply, hhas⟩
        refine .inr ⟨last, by simp, messages, ?_, hhas⟩
        rw [← hlast.2.1]
        exact hreply
    | inr hreturned =>
      rcases hreturned with ⟨e', he', hreturned⟩
      exact .inr ⟨e', List.mem_append_left _ he', hreturned⟩

theorem killsFollowed_run (requests : List (Request Time))
    : KillsFollowed runId (Machine.transcript (Channel.step F runId) {} requests)
        (Machine.final (Channel.step F runId) {} requests) := by
  have hrun := @Machine.inv_transcript (Channel Time) (Request Time) _ (Channel.step F runId) (fun _ _ => True)
    (fun run channel => channel.ReadsKills ∧ KillsFollowed runId run channel)
  refine (hrun ?_ ?_ requests fun _ _ => trivial).2
  . intro run channel request h _
    exact ⟨readsKills_step h.1, killsFollowed_step h.1 h.2⟩
  . refine ⟨?_, ?_⟩
    . intro kill hkill
      cases hkill
    . intro before e after hsplit
      simp at hsplit

/-
While no more than 100 messages wait in the stream, each message goes to one call with all its fields, each
kill is followed by one that is returned, and what is returned is in the order in which it was sent, just
when no call reads the stream while another one has yet to delete what it read, and no message has a
timestamp between those at which the kill that goes with it was sent and read.
-/
theorem delivered_iff_orderly (F : Type) [PyFloat F] (runId : String) (requests : List (Request Time))
    (hroom : ∀ e ∈ Machine.transcript (Channel.step F runId) {} requests, HasRoom runId e.request e.before)
    : ((∀ e ∈ Machine.transcript (Channel.step F runId) {} requests, Safe e.after) ∧
        KillsFollowed runId (Machine.transcript (Channel.step F runId) {} requests)
          (Machine.final (Channel.step F runId) {} requests))
        ↔
      ∀ e ∈ Machine.transcript (Channel.step F runId) {} requests, Orderly e.request e.before := by
  rw [and_iff_left (killsFollowed_run requests)]
  apply Machine.forall_transcript_iff_of (I := Inv F) (C := fun channel request => Orderly request channel)
    (D := fun channel request => HasRoom runId request channel) _ inv_empty requests hroom
  intro channel request h hroom
  apply kept_step h hroom

end Run

section Example

instance : PyTime Nat where
  toLinearOrder := inferInstance
  isoformat n := String.ofList (Nat.toDigits 10 n)
  fromisoformat text := some (Nat.ofDigitChars 10 text.toList 0)
  fromisoformat_isoformat n := by
    rw [String.toList_ofList, Nat.ofDigitChars_ten_toDigits]

def steer : ControlMessage Nat where
  runId := "run"
  messageType := .steer
  payload := "focus"
  timestamp := 1

def oneConsumer : List (Request Nat) :=
  [.sendControl steer, .consumeControl, .advance 0 2, .advance 0 3, .advance 0 4]

def twoConsumers : List (Request Nat) :=
  [.sendControl steer, .consumeControl, .consumeControl, .advance 0 2, .advance 1 2, .advance 0 3, .advance 1 3]

theorem delivered_oneConsumer
    : (∀ e ∈ Machine.transcript (Channel.step Nat "run") {} oneConsumer, Safe e.after) ∧
        KillsFollowed "run" (Machine.transcript (Channel.step Nat "run") {} oneConsumer)
          (Machine.final (Channel.step Nat "run") {} oneConsumer) := by
  refine (delivered_iff_orderly Nat "run" oneConsumer ?_).mpr ?_
  . intro e he message hrequest _ _
    simp only [oneConsumer, Machine.transcript, List.mem_cons, List.not_mem_nil, or_false] at he
    rcases he with rfl | rfl | rfl | rfl | rfl
    . decide
    all_goals cases hrequest
  . intro e he
    simp only [oneConsumer, Machine.transcript, List.mem_cons, List.not_mem_nil, or_false] at he
    rcases he with rfl | rfl | rfl | rfl | rfl
    . apply orderly_of_not_advance
      simp [Machine.entry]
    . apply orderly_of_not_advance
      simp [Machine.entry]
    . apply @orderly_advance _ _ _ _ _ .getKill (by decide +kernel)
      . simp
      . simp [Consume.IsXdel]
    . apply (@orderly_xrange_iff _ _ _ _ _ [] (by decide +kernel) (by decide +kernel)).mpr
      simp [Machine.entry, Channel.step, Consume.advance, steer, sendStream]
    . apply (@orderly_xdel_iff _ _ _ _ _ [{ sent := { number := 0, message := steer }, message := steer }] [0]
        (by decide +kernel)).mpr
      simp [Received.isKill, Sent.isKill, steer]

/--
Both calls read the stream before one of them deletes what it read.
-/
theorem steer_delivered_twice
    : ¬ ∀ (requests : List (Request Nat)),
        (∀ e ∈ Machine.transcript (Channel.step Nat "run") {} requests, HasRoom "run" e.request e.before) →
        ∀ e ∈ Machine.transcript (Channel.step Nat "run") {} requests, Safe e.after := by
  intro hclaim
  have hsafe := hclaim twoConsumers ?_ _ (List.mem_of_mem_getLast? rfl)
  . have hnodup := hsafe.once
    revert hnodup
    decide +kernel
  . intro e he message hrequest _ _
    simp only [twoConsumers, Machine.transcript, List.mem_cons, List.not_mem_nil, or_false] at he
    rcases he with rfl | rfl | rfl | rfl | rfl | rfl | rfl
    . decide
    all_goals cases hrequest

end Example

end Control
end Agent
end MemStack
