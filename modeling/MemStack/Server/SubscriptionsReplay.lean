import MemStack.Server.Subscriptions
import MemStack.Util.Cursor
import MemStack.Util.Machine

/-!
This module contains that each subscription of a connection is sent what is appended to its topic, in order and
without gaps.
-/

namespace MemStack
namespace Server

open EventStream (fromStart)

variable {F : Type}

section Delivered

variable (fromStr : String → Option (Json F))

def acceptedMessages (kind : Kind) (key : String) (subscription : Subscription F) (read : List StreamEntry)
    : List (String × Json F) :=
  (read.filter fun entry => kind.accepts subscription (kind.entryMessage fromStr key entry)).map fun entry =>
    (entry.id, kind.entryMessage fromStr key entry)

structure Delivered (kind : Kind) (key : String) (log : List StreamEntry) (subscription : Subscription F)
    (read rest : List StreamEntry) : Prop where
  split : Cursor.after StreamEntry.id (fromStart subscription.start) log = read ++ rest
  cursor : fromStart subscription.lastId = Cursor.moved StreamEntry.id (fromStart subscription.start) read
  sent : subscription.sent = acceptedMessages fromStr kind key subscription read

def Shared (log : String → List StreamEntry) (wsMessages : Dict (String × String) (Json F)) : Prop :=
  ∀ topic entryId message, wsMessages.get (topic, entryId) = some message →
    ∃ conversationId, ∃ entry ∈ log topic, topic = Kind.conversation.topic conversationId ∧ entry.id = entryId ∧
      message = Kind.conversation.entryMessage fromStr conversationId entry

variable {fromStr} {kind : Kind} {key : String} {log : List StreamEntry} {subscription : Subscription F}
  {read rest : List StreamEntry} {entry : StreamEntry}

theorem fromStart_of_ne {id : String} (h : id ≠ "0") : fromStart id = id := by
  unfold fromStart
  rw [if_neg h]

theorem accepts_moved (kind : Kind) (subscription : Subscription F) (lastId : String) (sent : List (String × Json F))
    : kind.accepts { subscription with lastId, sent } = kind.accepts subscription := by
  cases kind <;> rfl

theorem delivered_new (subscription : Subscription F) (hstart : subscription.start = subscription.lastId)
    (hsent : subscription.sent = [])
    : Delivered fromStr kind key log subscription []
        (Cursor.after StreamEntry.id (fromStart subscription.start) log) where
  split := rfl
  cursor := by rw [hstart, Cursor.moved_nil]
  sent := hsent

theorem Delivered.next (h : Delivered fromStr kind key log subscription read (entry :: rest)) (hid : entry.id ≠ "0")
    {sent : List (String × Json F)}
    (hsent : sent = if kind.accepts subscription (kind.entryMessage fromStr key entry) then
      subscription.sent ++ [(entry.id, kind.entryMessage fromStr key entry)] else subscription.sent)
    : Delivered fromStr kind key log { subscription with lastId := entry.id, sent } (read ++ [entry]) rest where
  split := by
    rw [h.split]
    simp
  cursor := by rw [Cursor.moved_concat, fromStart_of_ne hid]
  sent := by
    unfold acceptedMessages
    dsimp only
    rw [accepts_moved, hsent, h.sent, List.filter_append, List.map_append]
    unfold acceptedMessages
    split <;> simp_all

theorem Delivered.concat (h : Delivered fromStr kind key log subscription read rest) (entry : StreamEntry)
    : ∃ rest, Delivered fromStr kind key (log ++ [entry]) subscription read rest := by
  by_cases hlt : fromStart subscription.start < entry.id
  . refine ⟨rest ++ [entry], ?_, h.cursor, h.sent⟩
    rw [Cursor.after_concat, if_pos hlt, h.split, List.append_assoc]
  . refine ⟨rest, ?_, h.cursor, h.sent⟩
    rw [Cursor.after_concat, if_neg hlt, h.split]

theorem Delivered.rest_eq (h : Delivered fromStr kind key log subscription read rest)
    (hsorted : Cursor.Sorted StreamEntry.id log)
    : Cursor.after StreamEntry.id (fromStart subscription.lastId) log = rest := by
  rw [h.cursor]
  exact Cursor.after_moved hsorted h.split

end Delivered

section Batch

variable {fromStr : String → Option (Json F)} {kind : Kind} {key : String} {logs : String → List StreamEntry}
  {wsMessages : Dict (String × String) (Json F)} {entry : StreamEntry}

theorem topic_injective {conversationId conversationId' : String}
    (h : Kind.conversation.topic conversationId = Kind.conversation.topic conversationId')
    : conversationId = conversationId' := by
  have hlist := congrArg String.toList h
  simp only [Kind.topic, String.toList_append, List.append_cancel_left_eq] at hlist
  exact String.toList_inj.mp hlist

theorem shared_getOrParse {conversationId : String} (hshared : Shared fromStr logs wsMessages)
    (hentry : entry ∈ logs (Kind.conversation.topic conversationId))
    : Shared fromStr logs (messageOf fromStr .conversation conversationId entry wsMessages).1 := by
  unfold messageOf getOrParse
  dsimp only
  split
  . exact hshared
  . intro topic entryId message hget
    rw [Dict.get_set] at hget
    split at hget
    . next heq =>
      cases hget
      cases heq
      exact ⟨conversationId, entry, hentry, rfl, rfl, rfl⟩
    . split at hget
      . rw [Dict.get_empty] at hget
        cases hget
      . exact hshared topic entryId message hget

theorem messageOf_spec (hshared : Shared fromStr logs wsMessages)
    (hsorted : Cursor.Sorted StreamEntry.id (logs (kind.topic key))) (hentry : entry ∈ logs (kind.topic key))
    : (messageOf fromStr kind key entry wsMessages).2 = kind.entryMessage fromStr key entry ∧
      Shared fromStr logs (messageOf fromStr kind key entry wsMessages).1 := by
  cases kind with
  | conversation =>
    refine ⟨?_, shared_getOrParse hshared hentry⟩
    unfold messageOf getOrParse
    dsimp only
    split
    . next message hget =>
      rcases hshared _ _ _ hget with ⟨conversationId, other, hother, htopic, hid, rfl⟩
      rw [topic_injective htopic]
      dsimp only
      rw [hsorted.eq_of_key hother hentry hid]
    . rfl
  | sandbox => exact ⟨rfl, hshared⟩
  | workspace => exact ⟨rfl, hshared⟩

variable (fromStr) (kind) (key) (logs) in
structure Delivering (d : Delivery F) (read rest : List StreamEntry) : Prop where
  delivered : Delivered fromStr kind key (logs (kind.topic key)) d.subscription read rest
  shared : Shared fromStr logs d.wsMessages
  counted : d.sentThisFlush = (d.messages.filter Outgoing.isEvent).length

variable {d : Delivery F} {read more entries : List StreamEntry} {sends : List Bool}

theorem flushEntries_spec (sends : List Bool) (hsorted : Cursor.Sorted StreamEntry.id (logs (kind.topic key)))
    (hids : ∀ entry ∈ logs (kind.topic key), entry.id ≠ "0")
    (h : Delivering fromStr kind key logs d read (entries ++ more))
    (hbudget : d.sentThisFlush + entries.length ≤ maxEventsPerFlush)
    : ∃ read' rest', Delivering fromStr kind key logs (flushEntries fromStr kind key entries sends d).1 read' rest' ∧
        (flushEntries fromStr kind key entries sends d).1.sentThisFlush ≤ maxEventsPerFlush := by
  induction entries generalizing d read sends with
  | nil => exact ⟨read, more, h, hbudget⟩
  | cons entry entries ih =>
    have hentry : entry ∈ logs (kind.topic key) := by
      have hafter : entry ∈ Cursor.after StreamEntry.id (fromStart d.subscription.start) (logs (kind.topic key)) := by
        rw [h.delivered.split]
        simp
      exact (Cursor.mem_after.mp hafter).1
    have hmessage := messageOf_spec h.shared hsorted hentry
    rw [List.length_cons] at hbudget
    unfold flushEntries
    rw [show messageOf fromStr kind key entry d.wsMessages =
      ((messageOf fromStr kind key entry d.wsMessages).1, kind.entryMessage fromStr key entry) from
      Prod.ext rfl hmessage.1]
    dsimp only
    split
    . next haccepts =>
      have hnext : Delivering fromStr kind key logs
          { subscription := { d.subscription with
              lastId := entry.id
              sent := d.subscription.sent ++ [(entry.id, kind.entryMessage fromStr key entry)] }
            wsMessages := (messageOf fromStr kind key entry d.wsMessages).1
            sentThisFlush := d.sentThisFlush + 1
            messages := d.messages ++ [.event (kind.entryMessage fromStr key entry)] }
          (read ++ [entry]) (entries ++ more) := by
        refine ⟨h.delivered.next (hids entry hentry) (by rw [if_pos haccepts]), hmessage.2, ?_⟩
        dsimp only
        rw [h.counted, List.filter_append, List.length_append]
        rfl
      split
      . exact ⟨read, entry :: (entries ++ more), ⟨h.delivered, hmessage.2, h.counted⟩, by dsimp only; omega⟩
      . split
        . exact ⟨_, _, hnext, by dsimp only; omega⟩
        . exact ih _ hnext (by dsimp only; omega)
    . next haccepts =>
      have hnext : Delivering fromStr kind key logs
          { d with
            subscription := { d.subscription with lastId := entry.id }
            wsMessages := (messageOf fromStr kind key entry d.wsMessages).1 }
          (read ++ [entry]) (entries ++ more) := by
        refine ⟨?_, hmessage.2, h.counted⟩
        exact h.delivered.next (hids entry hentry) (by rw [if_neg haccepts])
      split
      . exact ⟨_, _, hnext, by dsimp only; omega⟩
      . exact ih _ hnext (by dsimp only; omega)

end Batch

namespace ConnectionSubscriptions

variable {subscriptions : ConnectionSubscriptions F}

@[simp]
theorem ofKind_setKind (kind kind' : Kind) (d : Dict String (Subscription F))
    : (subscriptions.setKind kind d).ofKind kind' = if kind' = kind then d else subscriptions.ofKind kind' := by
  cases kind <;> cases kind' <;> rfl

variable (fromStr : String → Option (Json F)) (logs : String → List StreamEntry)

def AllDelivered (subscriptions : ConnectionSubscriptions F) : Prop :=
  ∀ kind key subscription, (subscriptions.ofKind kind).get key = some subscription →
    ∃ read rest, Delivered fromStr kind key (logs (kind.topic key)) subscription read rest

variable {fromStr} {logs}

theorem allDelivered_empty : AllDelivered fromStr logs ({} : ConnectionSubscriptions F) := by
  intro kind key subscription hget
  cases kind <;> cases hget

theorem allDelivered_set (h : AllDelivered fromStr logs subscriptions) {kind : Kind} {key : String}
    {subscription : Subscription F}
    (hdelivered : ∃ read rest, Delivered fromStr kind key (logs (kind.topic key)) subscription read rest)
    : AllDelivered fromStr logs (subscriptions.setKind kind ((subscriptions.ofKind kind).set key subscription)) := by
  intro kind' key' subscription' hget
  rw [ofKind_setKind] at hget
  split at hget
  . next hkind =>
    rw [Dict.get_set] at hget
    split at hget
    . next hkey =>
      cases hget
      rw [hkind, hkey]
      exact hdelivered
    . rw [hkind]
      exact h kind key' subscription' hget
  . exact h kind' key' subscription' hget

theorem allDelivered_unsubscribe (h : AllDelivered fromStr logs subscriptions) (kind : Kind) (key : String)
    : AllDelivered fromStr logs (subscriptions.unsubscribe kind key) := by
  intro kind' key' subscription' hget
  unfold unsubscribe at hget
  rw [ofKind_setKind] at hget
  split at hget
  . next hkind =>
    rw [Dict.get_erase] at hget
    split at hget
    . cases hget
    . rw [hkind]
      exact h kind key' subscription' hget
  . exact h kind' key' subscription' hget

theorem allDelivered_subscribe (h : AllDelivered fromStr logs subscriptions) {kind : Kind} {key : String}
    {subscription : Subscription F} {subscriptions' : ConnectionSubscriptions F}
    (hsubscribe : subscriptions.subscribe kind key subscription = some subscriptions')
    (hdelivered : ∃ read rest, Delivered fromStr kind key (logs (kind.topic key)) subscription read rest)
    : AllDelivered fromStr logs subscriptions' := by
  unfold subscribe at hsubscribe
  split at hsubscribe
  . cases hsubscribe
    exact allDelivered_set h hdelivered
  . cases hsubscribe

end ConnectionSubscriptions

namespace Connection

section Statements

variable (fromStr : String → Option (Json F)) (s : Connection F)

def log (topic : String) : List StreamEntry :=
  (s.appended.filter (·.1 = topic)).map Prod.snd

structure Kept : Prop where
  ordered : ∀ topic, Cursor.Sorted StreamEntry.id (s.log topic)
  untrimmed : ∀ kind key subscription, s.get kind key = some subscription →
    ∀ entry ∈ Cursor.after StreamEntry.id (fromStart subscription.lastId) (s.log (kind.topic key)),
      entry ∈ s.events.entries (kind.topic key)

def Replayed : Prop :=
  ∀ kind key subscription, s.get kind key = some subscription →
    ∃ read,
      Cursor.after StreamEntry.id (fromStart subscription.start) (s.log (kind.topic key)) =
        read ++ Cursor.after StreamEntry.id (fromStart subscription.lastId) (s.log (kind.topic key)) ∧
      subscription.sent = acceptedMessages fromStr kind key subscription read

def WithinBudget : Prop :=
  ∀ flush, s.flush = some flush → (flush.messages.filter Outgoing.isEvent).length ≤ 256

end Statements

section Invariant

variable (fromStr : String → Option (Json F))

structure Inv (s : Connection F) : Prop where
  sublist : ∀ topic, (s.events.entries topic).Sublist (s.log topic)
  ids : ∀ topic, ∀ entry ∈ s.log topic, entry.id ≠ "0"
  shared : Shared fromStr s.log s.wsMessages
  delivered : s.subscriptions.AllDelivered fromStr s.log
  counted : ∀ flush, s.flush = some flush →
    flush.sentThisFlush = (flush.messages.filter Outgoing.isEvent).length ∧ flush.sentThisFlush ≤ maxEventsPerFlush

variable {fromStr} {s : Connection F}

theorem inv_empty : Inv fromStr ({} : Connection F) where
  sublist := fun _ => List.Sublist.refl _
  ids := by
    intro topic entry hentry
    cases hentry
  shared := by
    intro topic entryId message hget
    cases hget
  delivered := ConnectionSubscriptions.allDelivered_empty
  counted := by
    intro flush hflush
    cases hflush

theorem replayed_of_inv (h : Inv fromStr s) (hkept : Kept s) : Replayed fromStr s := by
  intro kind key subscription hget
  rcases h.delivered kind key subscription hget with ⟨read, rest, hdelivered⟩
  refine ⟨read, ?_, hdelivered.sent⟩
  rw [hdelivered.rest_eq (hkept.ordered _)]
  exact hdelivered.split

theorem withinBudget_of_inv (h : Inv fromStr s) : WithinBudget s := by
  intro flush hflush
  rcases h.counted flush hflush with ⟨hcounted, hle⟩
  rw [← hcounted]
  exact hle

theorem log_append (topic topic' payload : String) (maxLen : Nat)
    : (step fromStr s (.append topic' payload maxLen)).1.log topic =
        if topic' = topic then s.log topic ++ [s.events.nextEntry payload] else s.log topic := by
  unfold step log
  dsimp only
  rw [List.filter_append]
  by_cases heq : topic' = topic <;> simp [heq]

theorem entries_append (stream : EventStream) (topic topic' payload : String) (maxLen : Nat)
    : ((stream.append topic' payload maxLen).entries topic).Sublist
        (if topic' = topic then stream.entries topic ++ [stream.nextEntry payload] else stream.entries topic) := by
  unfold EventStream.append EventStream.entries
  dsimp only
  rw [Dict.get_set]
  by_cases heq : topic = topic'
  . rw [if_pos heq, if_pos heq.symm, heq]
    dsimp only [Option.getD_some]
    split
    . exact List.drop_sublist _ _
    . exact List.Sublist.refl _
  . rw [if_neg heq, if_neg (Ne.symm heq)]

theorem nextEntry_id_ne (stream : EventStream) (payload : String) : (stream.nextEntry payload).id ≠ "0" := by
  intro h
  have hlength := Digits.le_length_padded 20 (stream.seq + 1)
  change (stream.nextEntry payload).id.toList.length ≥ 20 at hlength
  rw [h] at hlength
  revert hlength
  decide

theorem inv_append (h : Inv fromStr s) (topic payload : String) (maxLen : Nat)
    : Inv fromStr (step fromStr s (.append topic payload maxLen)).1 := by
  have hlog := fun topic' => @log_append F fromStr s topic' topic payload maxLen
  constructor
  . intro topic'
    rw [hlog]
    apply (entries_append s.events topic' topic payload maxLen).trans
    split
    . exact (h.sublist topic').append_right _
    . exact h.sublist topic'
  . intro topic' entry hentry
    rw [hlog] at hentry
    split at hentry
    . rcases List.mem_append.mp hentry with hentry | hentry
      . exact h.ids topic' entry hentry
      . rw [List.mem_singleton.mp hentry]
        exact nextEntry_id_ne s.events payload
    . exact h.ids topic' entry hentry
  . intro topic' entryId message hget
    rcases h.shared topic' entryId message hget with ⟨conversationId, entry, hentry, hrest⟩
    refine ⟨conversationId, entry, ?_, hrest⟩
    rw [hlog]
    split
    . exact List.mem_append_left _ hentry
    . exact hentry
  . intro kind key subscription hget
    rcases h.delivered kind key subscription hget with ⟨read, rest, hdelivered⟩
    rw [hlog]
    split
    . exact ⟨read, hdelivered.concat _⟩
    . exact ⟨read, rest, hdelivered⟩
  . exact h.counted

theorem inv_subscribed (h : Inv fromStr s) (action : String) {subscriptions : Option (ConnectionSubscriptions F)}
    (hdelivered : ∀ subscriptions', subscriptions = some subscriptions' → subscriptions'.AllDelivered fromStr s.log)
    : Inv fromStr (s.subscribed action subscriptions).1 := by
  unfold subscribed
  split
  . split
    . next subscriptions' => exact ⟨h.sublist, h.ids, h.shared, hdelivered subscriptions' rfl, h.counted⟩
    . exact h
  . exact h

theorem accepts_refreshed (kind : Kind) (now : Int) (subscription : Subscription F)
    : kind.accepts (kind.refreshed now subscription) = kind.accepts subscription := by
  rcases subscription with ⟨_, _, _, _, _, scope, _, _⟩
  cases kind <;> cases scope <;> rfl

theorem delivered_refreshed {kind : Kind} {key : String} {log : List StreamEntry} {subscription : Subscription F}
    (h : ∃ read rest, Delivered fromStr kind key log subscription read rest) (now : Int)
    : ∃ read rest, Delivered fromStr kind key log (kind.refreshed now subscription) read rest := by
  rcases h with ⟨read, rest, hdelivered⟩
  refine ⟨read, rest, ?_, ?_, ?_⟩
  . cases kind <;> exact hdelivered.split
  . cases kind <;> exact hdelivered.cursor
  . unfold acceptedMessages
    rw [accepts_refreshed]
    cases kind <;> exact hdelivered.sent

variable {logs : String → List StreamEntry} (now : Int) (denied : List (Kind × String))

theorem reauthorize_spec (kind : Kind) {state : ConnectionSubscriptions F × List (Outgoing F)}
    (h : state.1.AllDelivered fromStr logs)
    : (reauthorize now denied kind state).1.AllDelivered fromStr logs ∧
      (reauthorize now denied kind state).2.filter Outgoing.isEvent = state.2.filter Outgoing.isEvent := by
  unfold reauthorize
  dsimp only
  have hcandidates : ∀ entry ∈ (state.1.ofKind kind).entries.filter fun entry => kind.needsRefresh now entry.2,
      ∃ read rest, Delivered fromStr kind entry.1 (logs (kind.topic entry.1)) entry.2 read rest := by
    intro entry hentry
    apply h kind entry.1 entry.2
    rw [Dict.get_eq_some]
    exact (List.mem_filter.mp hentry).1
  generalize (state.1.ofKind kind).entries.filter (fun entry => kind.needsRefresh now entry.2) =
    candidates at hcandidates
  induction candidates generalizing state with
  | nil => exact ⟨h, rfl⟩
  | cons entry candidates ih =>
    rw [List.forall_mem_cons] at hcandidates
    rw [List.foldl_cons]
    split
    . have hrest := @ih (state.1.unsubscribe kind entry.1, state.2 ++ [.accessDenied kind entry.1])
        (ConnectionSubscriptions.allDelivered_unsubscribe h kind entry.1) hcandidates.2
      refine ⟨hrest.1, hrest.2.trans ?_⟩
      dsimp only
      rw [List.filter_append]
      simp [Outgoing.isEvent]
    . exact @ih (state.1.setKind kind ((state.1.ofKind kind).set entry.1 (kind.refreshed now entry.2)), state.2)
        (ConnectionSubscriptions.allDelivered_set h (delivered_refreshed hcandidates.1 now)) hcandidates.2

theorem inv_startFlush (h : Inv fromStr s) (order : List (Kind × String)) (ok : Bool)
    : Inv fromStr (s.startFlush now denied order ok) := by
  have hfirst := @reauthorize_spec F fromStr s.log now denied .conversation (s.subscriptions, []) h.delivered
  have hsecond := reauthorize_spec now denied .sandbox hfirst.1
  have hthird := reauthorize_spec now denied .workspace hsecond.1
  have hnone := hthird.2.trans (hsecond.2.trans hfirst.2)
  refine ⟨h.sublist, h.ids, h.shared, hthird.1, ?_⟩
  intro flush hflush
  rw [← Option.some.inj hflush]
  exact ⟨(congrArg List.length hnone).symm, Nat.zero_le _⟩

theorem readAfter_eq (h : Inv fromStr s) (hkept : Kept s) {kind : Kind} {key : String} {subscription : Subscription F}
    (hget : s.get kind key = some subscription) (limit : Nat)
    : s.events.readAfter (kind.topic key) subscription.lastId limit =
        (Cursor.after StreamEntry.id (fromStart subscription.lastId) (s.log (kind.topic key))).take limit := by
  unfold EventStream.readAfter
  have hsorted : Cursor.Sorted StreamEntry.id (s.events.entries (kind.topic key)) :=
    (hkept.ordered _).sublist (h.sublist _)
  rw [Cursor.dropWhile_eq_after hsorted]
  rw [Cursor.after_eq_of_sublist (h.sublist _) (hkept.ordered _) (hkept.untrimmed kind key subscription hget)]

theorem replayLimit_le {sentThisFlush limit : Nat} (h : replayLimit sentThisFlush = some limit)
    : sentThisFlush + limit ≤ maxEventsPerFlush := by
  unfold replayLimit at h
  grind

theorem inv_visitSubscription (h : Inv fromStr s) (hkept : Kept s) {flush : Flush F} {kind : Kind} {key : String}
    {limit : Nat} {subscription : Subscription F} (hget : s.get kind key = some subscription)
    (hcounted : flush.sentThisFlush = (flush.messages.filter Outgoing.isEvent).length)
    (hlimit : replayLimit flush.sentThisFlush = some limit) (sends : List Bool)
    : Inv fromStr (s.visitSubscription fromStr flush kind key limit sends subscription) := by
  rcases h.delivered kind key subscription hget with ⟨read, rest, hdelivered⟩
  have hrest := hdelivered.rest_eq (hkept.ordered _)
  have hbatch := readAfter_eq h hkept hget limit
  rw [hrest] at hbatch
  have hdelivering : Delivering fromStr kind key s.log
      { subscription, wsMessages := s.wsMessages, sentThisFlush := flush.sentThisFlush, messages := flush.messages }
      read (rest.take limit ++ rest.drop limit) := by
    rw [List.take_append_drop]
    exact ⟨hdelivered, h.shared, hcounted⟩
  have hbudget : flush.sentThisFlush + (rest.take limit).length ≤ maxEventsPerFlush := by
    have := replayLimit_le hlimit
    rw [List.length_take]
    omega
  rcases flushEntries_spec sends (hkept.ordered _) (h.ids _) hdelivering hbudget with
    ⟨read', rest', hdone, hle⟩
  unfold visitSubscription
  rw [hbatch]
  refine ⟨h.sublist, h.ids, hdone.shared, ?_, ?_⟩
  . exact ConnectionSubscriptions.allDelivered_set h.delivered ⟨read', rest', hdone.delivered⟩
  . intro flush' hflush'
    cases hflush'
    exact ⟨hdone.counted, hle⟩

theorem inv_visit (h : Inv fromStr s) (hkept : Kept s) (readOk : Bool) (sends : List Bool)
    : Inv fromStr (s.visit fromStr readOk sends) := by
  unfold visit
  split
  . exact h
  . next flush hflush =>
    have hcounted := h.counted flush hflush
    split
    . refine ⟨h.sublist, h.ids, h.shared, h.delivered, ?_⟩
      intro flush' hflush'
      cases hflush'
    . next kind key order horder =>
      dsimp only
      split
      . next limit subscription hlimit hget =>
        split
        . exact @inv_visitSubscription F fromStr s h hkept
            { flush with order } kind key limit subscription hget hcounted.1 hlimit sends
        . refine ⟨h.sublist, h.ids, h.shared, h.delivered, ?_⟩
          intro flush' hflush'
          cases hflush'
          exact hcounted
      . refine ⟨h.sublist, h.ids, h.shared, h.delivered, ?_⟩
        intro flush' hflush'
        cases hflush'
        exact hcounted

theorem inv_step (h : Inv fromStr s) (hkept : Kept s) (request : ConnectionRequest)
    : Inv fromStr (step fromStr s request).1 := by
  cases request with
  | append topic payload maxLen => exact inv_append h topic payload maxLen
  | share conversationId entry =>
    unfold step
    dsimp only
    split
    . next hentry =>
      refine ⟨h.sublist, h.ids, ?_, h.delivered, h.counted⟩
      exact shared_getOrParse h.shared ((h.sublist _).subset hentry)
    . exact h
  | subscribeConversation conversationId lastId messageId fromTimeUs fromCounter now =>
    apply inv_subscribed h
    intro subscriptions' hsubscribe
    exact ConnectionSubscriptions.allDelivered_subscribe h.delivered hsubscribe ⟨_, _, delivered_new _ rfl rfl⟩
  | sendMessage conversationId messageId now =>
    apply inv_subscribed h
    intro subscriptions' hsubscribe
    unfold ConnectionSubscriptions.ensureConversation at hsubscribe
    split at hsubscribe
    . next subscription hget =>
      apply ConnectionSubscriptions.allDelivered_subscribe h.delivered hsubscribe
      exact @delivered_refreshed F fromStr .conversation _ _ _ (h.delivered .conversation conversationId _ hget) now
    . exact ConnectionSubscriptions.allDelivered_subscribe h.delivered hsubscribe ⟨_, _, delivered_new _ rfl rfl⟩
  | subscribeSandbox projectId tenantId now =>
    apply inv_subscribed h
    intro subscriptions' hsubscribe
    exact ConnectionSubscriptions.allDelivered_subscribe h.delivered hsubscribe ⟨_, _, delivered_new _ rfl rfl⟩
  | subscribeWorkspace workspaceId projectId tenantId lastId now =>
    apply inv_subscribed h
    intro subscriptions' hsubscribe
    exact ConnectionSubscriptions.allDelivered_subscribe h.delivered hsubscribe ⟨_, _, delivered_new _ rfl rfl⟩
  | unsubscribe kind key =>
    apply inv_subscribed h
    intro subscriptions' hsubscribe
    cases hsubscribe
    exact ConnectionSubscriptions.allDelivered_unsubscribe h.delivered kind key
  | startFlush now denied order ok =>
    unfold step
    dsimp only
    split
    . exact inv_startFlush now denied h order ok
    . exact h
  | visit readOk sends =>
    unfold step
    dsimp only
    split
    . exact h
    . exact inv_visit h hkept readOk sends

end Invariant

section Run

variable (fromStr : String → Option (Json F))

theorem kept_empty : Kept ({} : Connection F) where
  ordered := fun _ => List.Pairwise.nil
  untrimmed := by
    intro kind key subscription hget
    cases kind <;> cases hget

/--
Denials of access are no events, and come on top.
-/
theorem replayed_run (requests : List ConnectionRequest)
    (hkept : ∀ e ∈ Machine.transcript (step fromStr) {} requests, Kept e.after)
    : ∀ e ∈ Machine.transcript (step fromStr) {} requests, Replayed fromStr e.after ∧ WithinBudget e.after := by
  apply @Machine.forall_transcript _ _ _ (step fromStr) (fun s request => Kept (step fromStr s request).1)
    (fun s => Inv fromStr s ∧ Kept s) (fun e => Replayed fromStr e.after ∧ WithinBudget e.after) _ _
    ⟨inv_empty, kept_empty⟩ requests
  . intro e he
    have := hkept e he
    rw [Machine.eq_entry_of_mem he] at this
    exact this
  . rintro s request ⟨h, hbefore⟩ hafter
    have hstep := inv_step h hbefore request
    exact ⟨⟨replayed_of_inv hstep hafter, withinBudget_of_inv hstep⟩, hstep, hafter⟩

end Run

section Untrimmed

variable {fromStr : String → Option (Json F)} {s : Connection F}

structure Whole (s : Connection F) : Prop where
  numbered : s.appended.map (·.2.id) = (List.range s.events.seq).map (fun n => Digits.padded 20 (n + 1))
  entries : ∀ topic, s.events.entries topic = s.log topic

theorem kept_of_whole (h : Whole s) (hseq : s.events.seq < 10 ^ 20) : Kept s where
  ordered := by
    intro topic
    have hall : Cursor.Sorted StreamEntry.id (s.appended.map Prod.snd) := by
      unfold Cursor.Sorted
      rw [List.pairwise_map, ← @List.pairwise_map _ _ (fun entry : String × StreamEntry => entry.2.id)]
      rw [h.numbered, List.pairwise_map]
      apply List.Pairwise.imp_of_mem _ List.pairwise_lt_range
      intro m n hm hn hlt
      apply Digits.padded_lt _ (Nat.succ_lt_succ hlt)
      have := List.mem_range.mp hn
      omega
    exact hall.sublist (List.filter_sublist.map _)
  untrimmed := by
    intro kind key subscription _ entry hentry
    rw [h.entries]
    exact (Cursor.mem_after.mp hentry).1

theorem length_log_le (s : Connection F) (topic : String) : (s.log topic).length ≤ s.appended.length := by
  unfold log
  rw [List.length_map]
  exact List.length_filter_le _ _

theorem whole_append (h : Whole s) (topic payload : String) {maxLen : Nat}
    (hlen : maxLen = 0 ∨ s.events.seq + 1 ≤ maxLen)
    : Whole (step fromStr s (.append topic payload maxLen)).1 := by
  have hseq : s.appended.length = s.events.seq := by
    have := congrArg List.length h.numbered
    simpa using this
  constructor
  . change (s.appended ++ [(topic, s.events.nextEntry payload)]).map (·.2.id) = _
    rw [List.map_append, h.numbered]
    change _ = (List.range (s.events.seq + 1)).map _
    rw [List.range_succ, List.map_append]
    rfl
  . intro topic'
    rw [log_append]
    unfold step EventStream.append EventStream.entries
    dsimp only
    rw [Dict.get_set]
    by_cases heq : topic' = topic
    . rw [if_pos heq, if_pos heq.symm, heq, Option.getD_some, if_neg]
      . rw [← h.entries]
        rfl
      . have hlog := length_log_le s topic
        rw [← h.entries, hseq] at hlog
        unfold EventStream.entries at hlog
        rw [List.length_append, List.length_singleton]
        omega
    . rw [if_neg heq, if_neg (Ne.symm heq)]
      exact h.entries topic'

theorem events_subscribed (action : String) (subscriptions : Option (ConnectionSubscriptions F))
    : (s.subscribed action subscriptions).1.events = s.events ∧
      (s.subscribed action subscriptions).1.appended = s.appended := by
  unfold subscribed
  split
  . split
    . exact ⟨rfl, rfl⟩
    . exact ⟨rfl, rfl⟩
  . exact ⟨rfl, rfl⟩

theorem events_visit (readOk : Bool) (sends : List Bool)
    : (s.visit fromStr readOk sends).events = s.events ∧ (s.visit fromStr readOk sends).appended = s.appended := by
  unfold visit
  split
  . exact ⟨rfl, rfl⟩
  . split
    . exact ⟨rfl, rfl⟩
    . dsimp only
      split
      . split
        . exact ⟨rfl, rfl⟩
        . exact ⟨rfl, rfl⟩
      . exact ⟨rfl, rfl⟩

theorem events_step (request : ConnectionRequest) (h : ∀ topic payload maxLen, request ≠ .append topic payload maxLen)
    : (step fromStr s request).1.events = s.events ∧ (step fromStr s request).1.appended = s.appended := by
  cases request with
  | append topic payload maxLen => exact absurd rfl (h topic payload maxLen)
  | share conversationId entry =>
    unfold step
    dsimp only
    split
    . exact ⟨rfl, rfl⟩
    . exact ⟨rfl, rfl⟩
  | startFlush now denied order ok =>
    unfold step
    dsimp only
    split
    . exact ⟨rfl, rfl⟩
    . exact ⟨rfl, rfl⟩
  | visit readOk sends =>
    unfold step
    dsimp only
    split
    . exact ⟨rfl, rfl⟩
    . exact events_visit readOk sends
  | _ => exact events_subscribed _ _

theorem whole_step (h : Whole s) {bound : Nat} (hbound : s.events.seq + 1 ≤ bound) {request : ConnectionRequest}
    (hlen : ∀ topic payload maxLen, request = .append topic payload maxLen → maxLen = 0 ∨ bound ≤ maxLen)
    : Whole (step fromStr s request).1 ∧ (step fromStr s request).1.events.seq ≤ s.events.seq + 1 := by
  by_cases happend : ∃ topic payload maxLen, request = .append topic payload maxLen
  . rcases happend with ⟨topic, payload, maxLen, rfl⟩
    refine ⟨whole_append h topic payload ?_, le_rfl⟩
    have := hlen topic payload maxLen rfl
    omega
  . have hsame := @events_step F fromStr s request
      (fun topic payload maxLen heq => happend ⟨topic, payload, maxLen, heq⟩)
    rw [hsame.1]
    refine ⟨⟨?_, ?_⟩, Nat.le_succ _⟩
    . rw [hsame.1, hsame.2]
      exact h.numbered
    . intro topic
      unfold log
      rw [hsame.1, hsame.2]
      exact h.entries topic

theorem kept_run {bound : Nat} (hbound : bound < 10 ^ 20) (h : Whole s) {requests : List ConnectionRequest}
    (hlen : ∀ topic payload maxLen, .append topic payload maxLen ∈ requests → maxLen = 0 ∨ bound ≤ maxLen)
    (hrequests : s.events.seq + requests.length ≤ bound)
    : ∀ e ∈ Machine.transcript (step fromStr) s requests, Kept e.after := by
  induction requests generalizing s with
  | nil => simp [Machine.transcript]
  | cons request requests ih =>
    rw [List.length_cons] at hrequests
    have hstep := @whole_step F fromStr s h bound (by omega) request (by
      rintro topic payload maxLen rfl
      exact hlen topic payload maxLen (by simp))
    rw [Machine.transcript, List.forall_mem_cons]
    constructor
    . apply kept_of_whole hstep.1
      omega
    . apply ih hstep.1
      . intro topic payload maxLen hmem
        exact hlen topic payload maxLen (List.mem_cons_of_mem _ hmem)
      . omega

theorem whole_empty : Whole ({} : Connection F) where
  numbered := rfl
  entries := fun _ => rfl

end Untrimmed

section Examples

def unreadable : String → Option (Json Unit) :=
  fun _ => none

def appends (projectId : String) (n : Nat) : List ConnectionRequest :=
  List.replicate n (.append (Kind.sandbox.topic projectId) "" 1000)

def twoFlushes : List ConnectionRequest :=
  appends "a" 2 ++ [.subscribeSandbox "a" "t" 0, .startFlush 1 [] [(.sandbox, "a")] true, .visit true []] ++
    appends "a" 1 ++ [.visit true [], .startFlush 2 [] [(.sandbox, "a")] true, .visit true []]

theorem twoFlushes_replayed
    : (∀ e ∈ Machine.transcript (step unreadable) {} twoFlushes, Kept e.after) ∧
      ∀ e ∈ Machine.transcript (step unreadable) {} twoFlushes, Replayed unreadable e.after ∧ WithinBudget e.after := by
  have hkept : ∀ e ∈ Machine.transcript (step unreadable) {} twoFlushes, Kept e.after := by
    apply @kept_run _ unreadable _ 1000 (by decide) whole_empty twoFlushes
    . intro topic payload maxLen hmem
      simp only [twoFlushes, appends, List.mem_append, List.mem_replicate, List.mem_cons, reduceCtorEq, or_false,
        List.not_mem_nil] at hmem
      rcases hmem with ⟨_, heq⟩ | ⟨_, heq⟩ <;> cases heq <;> exact .inr le_rfl
    . decide
  exact ⟨hkept, replayed_run unreadable twoFlushes hkept⟩

def spending : List ConnectionRequest :=
  appends "a" 100 ++ appends "b" 100 ++ appends "c" 56 ++
    [.subscribeSandbox "d" "t" 0, .subscribeSandbox "a" "t" 1, .subscribeSandbox "b" "t" 1, .subscribeSandbox "c" "t" 1,
      .startFlush 30000 [(.sandbox, "d")] [(.sandbox, "a"), (.sandbox, "b"), (.sandbox, "c")] true,
      .visit true [], .visit true []]

theorem spending_kept
    : ∀ e ∈ Machine.transcript (step unreadable) {} (spending ++ [.visit true []]), Kept e.after := by
  apply @kept_run Unit unreadable {} 1000 (by decide) whole_empty (spending ++ [ConnectionRequest.visit true []])
  . intro topic payload maxLen hmem
    simp only [spending, appends, List.mem_append, List.mem_replicate, List.mem_cons, reduceCtorEq, or_false,
      List.not_mem_nil] at hmem
    rcases hmem with (⟨_, heq⟩ | ⟨_, heq⟩) | ⟨_, heq⟩ <;> cases heq <;> exact .inr le_rfl
  . simp only [spending, appends, List.length_append, List.length_replicate, List.length_cons, List.length_nil]
    decide

theorem spending_beyond
    : ¬ ∀ requests, (∀ e ∈ Machine.transcript (step unreadable) {} requests, Kept e.after) →
        ∀ e ∈ Machine.transcript (step unreadable) {} requests, Replayed unreadable e.after ∧
          ∀ flush, e.after.flush = some flush → flush.messages.length ≤ 256 := by
  intro hclaim
  have hentry := hclaim _ spending_kept
    (Machine.entry (step unreadable) (Machine.final (step unreadable) {} spending) (.visit true []))
    (by
      rw [Machine.transcript_concat]
      exact List.mem_concat_self)
  have hlength : ((Machine.entry (step unreadable) (Machine.final (step unreadable) {} spending)
      (.visit true [])).after.flush.map (·.messages.length)) = some 257 := by decide +kernel
  rcases Option.map_eq_some_iff.mp hlength with ⟨flush, hflush, hmany⟩
  have hfew := hentry.2 flush hflush
  omega

end Examples

end Connection

end Server
end MemStack
