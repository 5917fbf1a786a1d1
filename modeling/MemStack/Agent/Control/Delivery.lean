import MemStack.Agent.Control.Channel
import MemStack.Util.Lists

/-!
This module contains what the control channel is to guarantee, and the invariant that it keeps while no two
consumers read at once.
-/

namespace MemStack
namespace Agent
namespace Control

open Lists

variable {Time : Type} [PyTime Time]

section Accounting

def Sent.isKill (sent : Sent Time) : Bool :=
  sent.message.messageType = .kill

def Received.isKill (received : Received Time) : Bool :=
  received.sent.isKill

def Consume.received : Consume Time → List (Received Time)
  | .getKill => []
  | .deleteKill kill => [kill]
  | .xrange messages => messages
  | .xdel messages _ => messages
  | .returned messages => messages

def takenOf (messages : List (Received Time)) : List Nat :=
  (messages.filter fun received => !received.isKill).map (·.sent.number)

def Consume.taken (call : Consume Time) : List Nat :=
  takenOf call.received

def Channel.taken (channel : Channel Time) : List Nat :=
  channel.calls.flatMap Consume.taken

def Channel.entryIds (channel : Channel Time) : List Nat :=
  channel.stream.map (·.1.number)

def InOrder (messages : List (Received Time)) : Prop :=
  messages.Pairwise fun a b => a.sent.message.timestamp ≤ b.sent.message.timestamp

-- A message of the stream is in the stream or went to a call, and to one call only, with all its fields.
-- What a call returns is in the order in which it was sent.
structure Safe (channel : Channel Time) : Prop where
  once : channel.taken.Nodup
  kept : ∀ sent ∈ channel.sends, ¬ sent.isKill →
    sent.number ∈ channel.entryIds ∨ sent.number ∈ channel.taken
  fields : ∀ call ∈ channel.calls, ∀ received ∈ call.received, ¬ received.isKill →
    received.message = received.sent.message
  ordered : ∀ messages, .returned messages ∈ channel.calls → InOrder messages

end Accounting

section Condition

def Misplaced (kill received : Received Time) : Prop :=
  (kill.sent.message.timestamp < received.sent.message.timestamp ∧
    received.sent.message.timestamp < kill.message.timestamp) ∨
  (kill.message.timestamp ≤ received.sent.message.timestamp ∧
    received.sent.message.timestamp < kill.sent.message.timestamp)

structure Orderly (request : Request Time) (channel : Channel Time) : Prop where
  alone : ∀ call now messages, request = .advance call now →
    channel.calls[call]? = some (.xrange messages) → channel.stream ≠ [] →
    ∀ messages' entryIds, .xdel messages' entryIds ∉ channel.calls
  placed : ∀ call now messages entryIds, request = .advance call now →
    channel.calls[call]? = some (.xdel messages entryIds) →
    ∀ kill ∈ messages, kill.isKill → ∀ received ∈ messages, ¬ received.isKill → ¬ Misplaced kill received

end Condition

section Invariant

def Consume.Shape : Consume Time → Prop
  | .getKill => True
  | .deleteKill kill => kill.isKill
  | .xrange messages => ∀ received ∈ messages, received.isKill
  | .xdel messages entryIds => entryIds = takenOf messages ∧ entryIds ≠ [] ∧
    ∀ kill ∈ messages, kill.isKill → ∀ received ∈ messages, ¬ received.isKill →
      [kill, received].Sublist messages
  | .returned messages => InOrder messages

structure CallInv (sends : List (Sent Time)) (call : Consume Time) : Prop where
  sent : ∀ received ∈ call.received, received.sent ∈ sends
  kill : ∀ received ∈ call.received, received.isKill → received.message.messageType = .kill
  fields : ∀ received ∈ call.received, ¬ received.isKill → received.message = received.sent.message
  single : call.received.Pairwise fun a b => ¬ (a.isKill ∧ b.isKill)
  nodup : call.received.Nodup
  shape : call.Shape

def Consume.IsXdel (call : Consume Time) : Prop :=
  ∃ messages entryIds, call = .xdel messages entryIds

structure Inv (F : Type) [PyFloat F] (channel : Channel Time) : Prop where
  numbers : channel.sends.map (·.number) = List.range channel.sends.length
  stream : ∀ e ∈ channel.stream, e.1 ∈ channel.sends ∧ ¬ e.1.isKill ∧ e.2 = serializeMessage e.1.message
  stream_nodup : channel.entryIds.Nodup
  kill : ∀ sent raw, channel.kill = some (sent, raw) →
    sent ∈ channel.sends ∧ sent.isKill ∧ raw = killText F sent.message
  calls : ∀ call ∈ channel.calls, CallInv channel.sends call
  once : channel.taken.Nodup
  kept : ∀ sent ∈ channel.sends, ¬ sent.isKill →
    sent.number ∈ channel.entryIds ∨ sent.number ∈ channel.taken
  hand : ∀ messages entryIds, .xdel messages entryIds ∈ channel.calls →
    ∀ entryId ∈ entryIds, entryId ∈ channel.entryIds
  single : ∀ (i j : Nat) (a b : Consume Time), channel.calls[i]? = some a →
    channel.calls[j]? = some b → a.IsXdel → b.IsXdel → i = j
  taken : ∀ entryId ∈ channel.taken, entryId ∈ channel.entryIds →
    ∃ messages entryIds, .xdel messages entryIds ∈ channel.calls ∧ entryId ∈ entryIds

variable {F : Type} [PyFloat F] {channel : Channel Time} {message : ControlMessage Time} {runId : String}
  {now : Time} {i : Nat} {call : Consume Time}

theorem inv_empty : Inv F ({} : Channel Time) := by
  constructor <;> simp [Channel.entryIds, Channel.taken]

theorem Inv.safe (h : Inv F channel) : Safe channel := by
  refine ⟨h.once, h.kept, ?_, ?_⟩
  . intro call hcall
    apply (h.calls call hcall).fields
  . intro messages hcall
    apply (h.calls _ hcall).shape

theorem CallInv.mono {sends sends' : List (Sent Time)} (h : CallInv sends call)
    (hsub : ∀ sent ∈ sends, sent ∈ sends')
    : CallInv sends' call :=
  { h with sent := fun received hreceived => hsub _ (h.sent received hreceived) }

theorem Inv.number_lt (h : Inv F channel) {sent : Sent Time} (hsent : sent ∈ channel.sends)
    : sent.number < channel.sends.length := by
  rw [← List.mem_range, ← h.numbers]
  apply List.mem_map_of_mem hsent

theorem Inv.entryId_lt (h : Inv F channel) {entryId : Nat} (hentry : entryId ∈ channel.entryIds)
    : entryId < channel.sends.length := by
  rw [Channel.entryIds, List.mem_map] at hentry
  rcases hentry with ⟨e, he, rfl⟩
  apply h.number_lt (h.stream e he).1

theorem Inv.taken_lt (h : Inv F channel) {entryId : Nat} (htaken : entryId ∈ channel.taken)
    : entryId < channel.sends.length := by
  rw [Channel.taken, List.mem_flatMap] at htaken
  rcases htaken with ⟨call, hcall, hmem⟩
  rw [Consume.taken, takenOf, List.mem_map] at hmem
  rcases hmem with ⟨received, hreceived, rfl⟩
  apply h.number_lt
  apply (h.calls call hcall).sent
  apply List.mem_of_mem_filter hreceived

theorem numbers_concat (h : Inv F channel)
    : (channel.sends ++ [channel.next message]).map (·.number)
        =
      List.range (channel.sends ++ [channel.next message]).length := by
  rw [List.map_append, h.numbers, List.length_append, List.length_singleton, List.range_succ]
  rfl

theorem inv_sendKill (h : Inv F channel) (hkill : message.messageType = .kill)
    : Inv F (sendKill F message channel) := by
  have hsub : ∀ sent ∈ channel.sends, sent ∈ channel.sends ++ [channel.next message] :=
    fun sent hsent => List.mem_append_left _ hsent
  have hisKill : (channel.next message).isKill := by
    simp [Sent.isKill, Channel.next, hkill]
  refine ⟨numbers_concat h, ?_, h.stream_nodup, ?_, ?_, h.once, ?_, h.hand, h.single, h.taken⟩
  . intro e he
    have := h.stream e he
    exact ⟨hsub _ this.1, this.2⟩
  . rintro sent raw ⟨rfl⟩
    exact ⟨List.mem_append_right _ (by simp), hisKill, rfl⟩
  . intro call hcall
    apply (h.calls call hcall).mono hsub
  . intro sent hsent hnot
    apply h.kept sent _ hnot
    have hsent : sent ∈ channel.sends ++ [channel.next message] := hsent
    rw [List.mem_append, List.mem_singleton] at hsent
    cases hsent with
    | inl hold => exact hold
    | inr hnew =>
      rw [hnew] at hnot
      exact absurd hisKill hnot

theorem inv_sendStream (h : Inv F channel) (hkill : message.messageType ≠ .kill)
    (hroom : channel.stream.length < 100)
    : Inv F (sendStream message channel) := by
  have hsub : ∀ sent ∈ channel.sends, sent ∈ channel.sends ++ [channel.next message] :=
    fun sent hsent => List.mem_append_left _ hsent
  have hnotKill : ¬ (channel.next message).isKill := by
    simp [Sent.isKill, Channel.next, hkill]
  have hstream : sendStream message channel =
      { channel with
        stream := channel.stream ++ [(channel.next message, serializeMessage message)]
        sends := channel.sends ++ [channel.next message] } := by
    unfold sendStream
    dsimp only
    rw [Nat.sub_eq_zero_of_le (by simp; omega), List.drop_zero]
  have hids : (sendStream message channel).entryIds = channel.entryIds ++ [channel.sends.length] := by
    rw [hstream, Channel.entryIds, List.map_append]
    rfl
  have htaken : (sendStream message channel).taken = channel.taken := by
    rw [hstream]
    rfl
  refine ⟨?_, ?_, ?_, ?_, ?_, ?_, ?_, ?_, ?_, ?_⟩
  . rw [hstream]
    apply numbers_concat h
  . rw [hstream]
    intro e he
    have he : e ∈ channel.stream ++ [(channel.next message, serializeMessage message)] := he
    rw [List.mem_append, List.mem_singleton] at he
    cases he with
    | inl hold =>
      have := h.stream e hold
      exact ⟨hsub _ this.1, this.2⟩
    | inr hnew =>
      rw [hnew]
      exact ⟨List.mem_append_right _ (by simp), hnotKill, rfl⟩
  . rw [hids, List.nodup_append]
    refine ⟨h.stream_nodup, List.nodup_singleton _, ?_⟩
    intro entryId hentry number hnumber heq
    rw [List.mem_singleton] at hnumber
    have := h.entryId_lt hentry
    omega
  . rw [hstream]
    intro sent raw hraw
    have := h.kill sent raw hraw
    exact ⟨hsub _ this.1, this.2⟩
  . rw [hstream]
    intro call hcall
    apply (h.calls call hcall).mono hsub
  . rw [htaken]
    exact h.once
  . rw [hids, htaken, hstream]
    intro sent hsent hnot
    have hsent : sent ∈ channel.sends ++ [channel.next message] := hsent
    rw [List.mem_append, List.mem_singleton] at hsent ⊢
    cases hsent with
    | inl hold =>
      cases h.kept sent hold hnot with
      | inl hentry => exact .inl (.inl hentry)
      | inr htaken => exact .inr htaken
    | inr hnew =>
      rw [hnew]
      exact .inl (.inr rfl)
  . rw [hids, hstream]
    intro messages entryIds hcall entryId hentry
    apply List.mem_append_left
    apply h.hand messages entryIds hcall entryId hentry
  . rw [hstream]
    exact h.single
  . rw [htaken, hids, hstream]
    intro entryId htaken hentry
    rw [List.mem_append, List.mem_singleton] at hentry
    cases hentry with
    | inl hold => apply h.taken entryId htaken hold
    | inr hnew =>
      have := h.taken_lt htaken
      omega

theorem inv_consume (h : Inv F channel)
    : Inv F { channel with calls := channel.calls ++ [.getKill] } := by
  have htaken : ({ channel with calls := channel.calls ++ [.getKill] } : Channel Time).taken
      = channel.taken := by
    unfold Channel.taken
    rw [List.flatMap_append]
    apply List.append_nil
  refine ⟨h.numbers, h.stream, h.stream_nodup, h.kill, ?_, ?_, ?_, ?_, ?_, ?_⟩
  . intro call hcall
    have hcall : call ∈ channel.calls ++ [.getKill] := hcall
    rw [List.mem_append, List.mem_singleton] at hcall
    cases hcall with
    | inl hold => apply h.calls call hold
    | inr hnew =>
      rw [hnew]
      constructor <;> simp [Consume.received, Consume.Shape]
  . rw [htaken]
    exact h.once
  . rw [htaken]
    exact h.kept
  . intro messages entryIds hcall
    have hcall : .xdel messages entryIds ∈ channel.calls ++ [.getKill] := hcall
    rw [List.mem_append, List.mem_singleton] at hcall
    apply h.hand messages entryIds (hcall.resolve_right (by simp))
  . intro i j a b hi hj ha hb
    have hold : ∀ (i : Nat) (a : Consume Time), (channel.calls ++ [.getKill])[i]? = some a → a.IsXdel →
        channel.calls[i]? = some a := by
      intro i a hi ha
      by_cases hlt : i < channel.calls.length
      . rw [List.getElem?_append_left hlt] at hi
        exact hi
      . rw [List.getElem?_append_right (Nat.le_of_not_lt hlt)] at hi
        have := List.mem_of_getElem? hi
        rw [List.mem_singleton] at this
        rcases ha with ⟨messages, entryIds, heq⟩
        rw [this] at heq
        cases heq
    apply h.single i j a b (hold i a hi ha) (hold j b hj hb) ha hb
  . rw [htaken]
    intro entryId htaken hentry
    rcases h.taken entryId htaken hentry with ⟨messages, entryIds, hcall, hmem⟩
    exact ⟨messages, entryIds, List.mem_append_left _ hcall, hmem⟩

omit [PyTime Time] in
theorem getElem?_set_isXdel {a b : Consume Time} {j : Nat} {calls : List (Consume Time)}
    (hb : ¬ b.IsXdel) (hj : (calls.set i b)[j]? = some a) (ha : a.IsXdel)
    : calls[j]? = some a := by
  by_cases hij : i = j
  . rw [hij] at hj
    have := List.mem_of_getElem? hj
    rw [List.getElem?_set_self'] at hj
    cases hget : calls[j]? with
    | none =>
      rw [hget] at hj
      cases hj
    | some c =>
      rw [hget] at hj
      cases hj
      exact absurd ha hb
  . rw [List.getElem?_set_ne hij] at hj
    exact hj

theorem Inv.set (h : Inv F channel) {a b : Consume Time} {kill' : Option (Sent Time × String)}
    (hi : channel.calls[i]? = some a) (ha : ¬ a.IsXdel) (hb : ¬ b.IsXdel)
    (hcall : CallInv channel.sends b) (htaken : b.taken.Perm a.taken)
    (hkill : ∀ kill, kill' = some kill → channel.kill = some kill)
    : Inv F { channel with kill := kill', calls := channel.calls.set i b } := by
  have hperm : ((channel.calls.set i b).flatMap Consume.taken).Perm channel.taken := by
    apply @flatMap_set_perm _ _ _ _ _ _ _ [] hi htaken
  have hmem : ∀ messages entryIds, .xdel messages entryIds ∈ channel.calls.set i b →
      .xdel messages entryIds ∈ channel.calls := by
    intro messages entryIds hxdel
    cases List.mem_or_eq_of_mem_set hxdel with
    | inl hold => exact hold
    | inr hnew => exact absurd ⟨messages, entryIds, hnew.symm⟩ hb
  refine ⟨h.numbers, h.stream, h.stream_nodup, ?_, ?_, ?_, ?_, ?_, ?_, ?_⟩
  . intro sent raw hraw
    apply h.kill sent raw (hkill _ hraw)
  . intro call hmem
    cases List.mem_or_eq_of_mem_set hmem with
    | inl hold => apply h.calls call hold
    | inr hnew =>
      rw [hnew]
      exact hcall
  . apply hperm.nodup_iff.mpr h.once
  . intro sent hsent hnot
    cases h.kept sent hsent hnot with
    | inl hentry => exact .inl hentry
    | inr htaken => exact .inr (hperm.mem_iff.mpr htaken)
  . intro messages entryIds hxdel
    apply h.hand messages entryIds (hmem messages entryIds hxdel)
  . intro j k c d hj hk hc hd
    apply h.single j k c d (getElem?_set_isXdel hb hj hc) (getElem?_set_isXdel hb hk hd) hc hd
  . intro entryId htaken hentry
    rcases h.taken entryId (hperm.mem_iff.mp htaken) hentry with ⟨messages, entryIds, hxdel, hentryIds⟩
    refine ⟨messages, entryIds, ?_, hentryIds⟩
    apply mem_set_of_ne hi hxdel
    intro heq
    exact ha ⟨messages, entryIds, heq.symm⟩

omit [PyTime Time] in
theorem takenOf_append (messages messages' : List (Received Time))
    : takenOf (messages ++ messages') = takenOf messages ++ takenOf messages' := by
  unfold takenOf
  rw [List.filter_append, List.map_append]

omit [PyTime Time] in
theorem takenOf_perm {messages messages' : List (Received Time)} (h : messages.Perm messages')
    : (takenOf messages).Perm (takenOf messages') :=
  (h.filter _).map _

omit [PyTime Time] in
theorem takenOf_of_isKill {messages : List (Received Time)} (h : ∀ received ∈ messages, received.isKill)
    : takenOf messages = [] := by
  unfold takenOf
  rw [List.filter_eq_nil_iff.mpr, List.map_nil]
  intro received hreceived
  simp [h received hreceived]

theorem sortMessages_perm (messages : List (Received Time)) : (sortMessages messages).Perm messages :=
  List.mergeSort_perm _ _

theorem readEntries_eq (stream : List (Sent Time × Fields))
    (h : ∀ e ∈ stream, e.2 = serializeMessage e.1.message)
    : readEntries now stream = (stream.map fun e => { sent := e.1, message := e.1.message }, true) := by
  induction stream with
  | nil => rfl
  | cons e stream ih =>
    rw [List.forall_mem_cons] at h
    rw [readEntries, h.1, deserialize_serialize, ih h.2]
    rfl

theorem CallInv.sorted {sends : List (Sent Time)} (h : CallInv sends call)
    (hordered : InOrder (sortMessages call.received))
    : CallInv sends (.returned (sortMessages call.received)) := by
  have hperm := sortMessages_perm call.received
  refine ⟨?_, ?_, ?_, ?_, hperm.nodup_iff.mpr h.nodup, hordered⟩
  . intro received hreceived
    apply h.sent received (hperm.mem_iff.mp hreceived)
  . intro received hreceived
    apply h.kill received (hperm.mem_iff.mp hreceived)
  . intro received hreceived
    apply h.fields received (hperm.mem_iff.mp hreceived)
  . apply (hperm.pairwise_iff _).mpr h.single
    intro a b hab hba
    exact hab hba.symm

end Invariant

section Order

variable {sends : List (Sent Time)} {messages : List (Received Time)} {entryIds : List Nat}

theorem le_of_sublist_sortMessages {a b : Received Time} (h : [a, b].Sublist (sortMessages messages))
    : a.message.timestamp ≤ b.message.timestamp := by
  have hsorted : (sortMessages messages).Pairwise
      fun a b => decide (a.message.timestamp ≤ b.message.timestamp) = true := by
    apply List.pairwise_mergeSort
    . intro a b c hab hbc
      rw [decide_eq_true_eq] at hab hbc ⊢
      exact le_trans hab hbc
    . intro a b
      rw [Bool.or_eq_true, decide_eq_true_eq, decide_eq_true_eq]
      apply le_total
  have hpair := hsorted.sublist h
  simpa using hpair

theorem sublist_sortMessages {kill received : Received Time} (h : [kill, received].Sublist messages)
    (hle : kill.message.timestamp ≤ received.message.timestamp)
    : [kill, received].Sublist (sortMessages messages) := by
  apply List.pair_sublist_mergeSort
  . intro a b c hab hbc
    rw [decide_eq_true_eq] at hab hbc ⊢
    exact le_trans hab hbc
  . intro a b
    rw [Bool.or_eq_true, decide_eq_true_eq, decide_eq_true_eq]
    apply le_total
  . rw [decide_eq_true_eq]
    exact hle
  . exact h

theorem inOrder_iff (h : CallInv sends (.xdel messages entryIds))
    : InOrder (sortMessages messages)
        ↔
      ∀ kill ∈ messages, kill.isKill → ∀ received ∈ messages, ¬ received.isKill →
        ¬ Misplaced kill received := by
  have hperm := sortMessages_perm messages
  constructor
  . intro hordered kill hkill hisKill received hreceived hnot hmisplaced
    have hfirst := h.shape.2.2 kill hkill hisKill received hreceived hnot
    have heq := h.fields received hreceived hnot
    have hle : ∀ {a b : Received Time}, [a, b].Sublist (sortMessages messages) →
        a.sent.message.timestamp ≤ b.sent.message.timestamp := by
      intro a b hsub
      have := List.Pairwise.sublist hsub hordered
      simpa using this
    by_cases hbefore : kill.message.timestamp ≤ received.message.timestamp
    . have := hle (sublist_sortMessages hfirst hbefore)
      rw [heq] at hbefore
      cases hmisplaced with
      | inl hmisplaced => exact absurd hmisplaced.2 (not_lt_of_ge hbefore)
      | inr hmisplaced => exact absurd hmisplaced.2 (not_lt_of_ge this)
    . have hne : kill ≠ received := by
        intro heq
        rw [heq] at hisKill
        exact hnot hisKill
      have hafter : [received, kill].Sublist (sortMessages messages) := by
        apply (sublist_or_sublist (hperm.mem_iff.mpr hkill) (hperm.mem_iff.mpr hreceived) hne).resolve_left
        intro hsub
        exact hbefore (le_of_sublist_sortMessages hsub)
      have := hle hafter
      rw [heq] at hbefore
      cases hmisplaced with
      | inl hmisplaced => exact absurd hmisplaced.1 (not_lt_of_ge this)
      | inr hmisplaced => exact hbefore hmisplaced.1
  . intro hplaced
    have hsingle : (sortMessages messages).Pairwise fun a b => ¬ (a.isKill ∧ b.isKill) := by
      apply (hperm.pairwise_iff _).mpr h.single
      intro a b hab hba
      exact hab hba.symm
    rw [InOrder, List.pairwise_iff_forall_sublist]
    intro a b hsub
    have hab := le_of_sublist_sortMessages hsub
    have hnot := List.pairwise_iff_forall_sublist.mp hsingle hsub
    have ha : a ∈ messages := hperm.mem_iff.mp (hsub.subset (by simp))
    have hb : b ∈ messages := hperm.mem_iff.mp (hsub.subset (by simp))
    by_cases haKill : a.isKill
    . have hbNot : ¬ b.isKill := fun hbKill => hnot ⟨haKill, hbKill⟩
      have := hplaced a ha haKill b hb hbNot
      rw [h.fields b hb hbNot] at hab
      by_contra hgt
      exact this (.inr ⟨hab, lt_of_not_ge hgt⟩)
    . rw [h.fields a ha haKill] at hab
      by_cases hbKill : b.isKill
      . have := hplaced b hb hbKill a ha haKill
        by_contra hgt
        cases lt_or_eq_of_le hab with
        | inl hlt => exact this (.inl ⟨lt_of_not_ge hgt, hlt⟩)
        | inr heq =>
          have hfirst := h.shape.2.2 b hb hbKill a ha haKill
          apply not_sublist_swap (hperm.nodup_iff.mpr h.nodup) hsub
          apply sublist_sortMessages hfirst
          rw [h.fields a ha haKill, heq]
      . rw [h.fields b hb hbKill] at hab
        exact hab

end Order

end Control
end Agent
end MemStack
