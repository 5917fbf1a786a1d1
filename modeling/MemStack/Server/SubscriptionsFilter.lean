import MemStack.Server.SubscriptionsReplay

/-!
This module contains when the events of a run reach the client that sent the message of the run.
-/

namespace MemStack
namespace Server

open EventStream (fromStart)

variable {F : Type}

namespace Subscription

structure SameFilter (subscription subscription' : Subscription F) : Prop where
  start : subscription'.start = subscription.start
  messageId : subscription'.messageId = subscription.messageId
  fromTimeUs : subscription'.fromTimeUs = subscription.fromTimeUs
  fromCounter : subscription'.fromCounter = subscription.fromCounter

variable {subscription subscription' subscription'' : Subscription F}

theorem SameFilter.rfl : SameFilter subscription subscription :=
  ⟨Eq.refl _, Eq.refl _, Eq.refl _, Eq.refl _⟩

theorem SameFilter.trans (h : SameFilter subscription subscription') (h' : SameFilter subscription' subscription'')
    : SameFilter subscription subscription'' where
  start := h'.start.trans h.start
  messageId := h'.messageId.trans h.messageId
  fromTimeUs := h'.fromTimeUs.trans h.fromTimeUs
  fromCounter := h'.fromCounter.trans h.fromCounter

theorem SameFilter.allows (h : SameFilter subscription subscription') (message : Json F)
    : subscription'.allows message = subscription.allows message := by
  unfold Subscription.allows
  rw [h.messageId, h.fromTimeUs, h.fromCounter]

theorem sameFilter_refreshed (kind : Kind) (now : Int) (subscription : Subscription F)
    : SameFilter subscription (kind.refreshed now subscription) := by
  cases kind <;> exact ⟨Eq.refl _, Eq.refl _, Eq.refl _, Eq.refl _⟩

theorem sameFilter_flushEntries (fromStr : String → Option (Json F)) (kind : Kind) (key : String)
    (entries : List StreamEntry) (sends : List Bool) (d : Delivery F)
    : SameFilter d.subscription (flushEntries fromStr kind key entries sends d).1.subscription := by
  induction entries generalizing sends d with
  | nil => exact .rfl
  | cons entry entries ih =>
    unfold flushEntries
    dsimp only
    split
    . split
      . exact .rfl
      . split
        . exact ⟨Eq.refl _, Eq.refl _, Eq.refl _, Eq.refl _⟩
        . apply SameFilter.trans _ (ih _ _)
          exact ⟨Eq.refl _, Eq.refl _, Eq.refl _, Eq.refl _⟩
    . split
      . exact ⟨Eq.refl _, Eq.refl _, Eq.refl _, Eq.refl _⟩
      . apply SameFilter.trans _ (ih _ _)
        exact ⟨Eq.refl _, Eq.refl _, Eq.refl _, Eq.refl _⟩

def Early (subscription : Subscription F) (message : Json F) : Prop :=
  ∃ fromTimeUs, subscription.fromTimeUs = some fromTimeUs ∧
    ∀ eventTimeUs, Message.eventTimeUs message = some eventTimeUs →
      eventTimeUs < fromTimeUs ∨ (eventTimeUs = fromTimeUs ∧
        (Message.eventCounter message).getD 0 < subscription.fromCounter.getD 0)

theorem allows_iff {message : Json F} {messageId : String} (h : Message.messageId message = some messageId)
    : subscription.allows message = true ↔
        (∀ expected, subscription.messageId = some expected → expected = messageId) ∧ ¬ subscription.Early message := by
  unfold Subscription.allows Early
  rw [h, Bool.and_eq_true]
  apply and_congr
  . cases subscription.messageId with
    | none => simp
    | some expected => simp [eq_comm]
  . cases subscription.fromTimeUs with
    | none => simp
    | some fromTimeUs =>
      cases Message.eventTimeUs message with
      | none => simp
      | some eventTimeUs =>
        simp only [Option.some.injEq, exists_eq_left', forall_eq']
        split
        . simp [*]
        . split
          . simp [*]
          . simp [*]

end Subscription

namespace ConnectionSubscriptions

open Subscription (SameFilter)

def Follows (conversationId : String) (subscriptions subscriptions' : ConnectionSubscriptions F) : Prop :=
  ∀ subscription', (subscriptions'.ofKind .conversation).get conversationId = some subscription' →
    ∃ subscription, (subscriptions.ofKind .conversation).get conversationId = some subscription ∧
      SameFilter subscription subscription'

variable {conversationId : String} {subscriptions subscriptions' : ConnectionSubscriptions F}

theorem follows_rfl : Follows conversationId subscriptions subscriptions :=
  fun subscription' hget => ⟨subscription', hget, .rfl⟩

theorem follows_set (h : Follows conversationId subscriptions subscriptions') {kind : Kind} {key : String}
    {subscription' : Subscription F}
    (hsame : kind = .conversation → key = conversationId →
      ∃ subscription, (subscriptions.ofKind .conversation).get conversationId = some subscription ∧
        SameFilter subscription subscription')
    : Follows conversationId subscriptions
        (subscriptions'.setKind kind ((subscriptions'.ofKind kind).set key subscription')) := by
  intro other hget
  rw [ofKind_setKind] at hget
  split at hget
  . next hkind =>
    rw [Dict.get_set] at hget
    split at hget
    . next hkey =>
      cases hget
      exact hsame hkind.symm hkey.symm
    . rw [← hkind] at hget
      exact h other hget
  . exact h other hget

theorem follows_unsubscribe (h : Follows conversationId subscriptions subscriptions') (kind : Kind) (key : String)
    : Follows conversationId subscriptions (subscriptions'.unsubscribe kind key) := by
  intro other hget
  unfold unsubscribe at hget
  rw [ofKind_setKind] at hget
  split at hget
  . next hkind =>
    rw [Dict.get_erase] at hget
    split at hget
    . cases hget
    . rw [← hkind] at hget
      exact h other hget
  . exact h other hget

theorem follows_subscribe {kind : Kind} {key : String} {subscription' : Subscription F}
    (hsubscribe : subscriptions.subscribe kind key subscription' = some subscriptions')
    (hsame : kind = .conversation → key = conversationId →
      ∃ subscription, (subscriptions.ofKind .conversation).get conversationId = some subscription ∧
        SameFilter subscription subscription')
    : Follows conversationId subscriptions subscriptions' := by
  unfold subscribe at hsubscribe
  split at hsubscribe
  . cases hsubscribe
    exact follows_set follows_rfl hsame
  . cases hsubscribe

theorem follows_reauthorize (now : Int) (denied : List (Kind × String)) (kind : Kind)
    {state : ConnectionSubscriptions F × List (Outgoing F)} (h : Follows conversationId subscriptions state.1)
    : Follows conversationId subscriptions (Connection.reauthorize now denied kind state).1 := by
  unfold Connection.reauthorize
  dsimp only
  have hcandidates : ∀ entry ∈ (state.1.ofKind kind).entries.filter fun entry => kind.needsRefresh now entry.2,
      kind = .conversation → entry.1 = conversationId →
        ∃ subscription, (subscriptions.ofKind .conversation).get conversationId = some subscription ∧
          SameFilter subscription entry.2 := by
    rintro ⟨key, subscription'⟩ hentry rfl rfl
    apply h
    rw [Dict.get_eq_some]
    exact (List.mem_filter.mp hentry).1
  generalize (state.1.ofKind kind).entries.filter (fun entry => kind.needsRefresh now entry.2) =
    candidates at hcandidates
  induction candidates generalizing state with
  | nil => exact h
  | cons entry candidates ih =>
    rw [List.forall_mem_cons] at hcandidates
    rw [List.foldl_cons]
    split
    . exact @ih (state.1.unsubscribe kind entry.1, state.2 ++ [.accessDenied kind entry.1])
        (follows_unsubscribe h kind entry.1) hcandidates.2
    . apply @ih (state.1.setKind kind ((state.1.ofKind kind).set entry.1 (kind.refreshed now entry.2)), state.2) _
        hcandidates.2
      apply follows_set h
      intro hkind hkey
      rcases hcandidates.1 hkind hkey with ⟨subscription, hget, hsame⟩
      exact ⟨subscription, hget, hsame.trans (Subscription.sameFilter_refreshed kind now entry.2)⟩

end ConnectionSubscriptions

section Steps

variable {fromStr : String → Option (Json F)} {s : Connection F} {conversationId : String}

def subscribesTo (conversationId : String) : ConnectionRequest → Bool
  | .subscribeConversation conversationId' .. => conversationId' = conversationId
  | _ => false

theorem follows_subscribed {action : String} {subscriptions : Option (ConnectionSubscriptions F)}
    (h : ∀ subscriptions', subscriptions = some subscriptions' →
      ConnectionSubscriptions.Follows conversationId s.subscriptions subscriptions')
    : ConnectionSubscriptions.Follows conversationId s.subscriptions
        (s.subscribed action subscriptions).1.subscriptions := by
  unfold Connection.subscribed
  split
  . split
    . next subscriptions' => exact h subscriptions' rfl
    . exact ConnectionSubscriptions.follows_rfl
  . exact ConnectionSubscriptions.follows_rfl

theorem follows_visit (readOk : Bool) (sends : List Bool)
    : ConnectionSubscriptions.Follows conversationId s.subscriptions (s.visit fromStr readOk sends).subscriptions := by
  unfold Connection.visit
  split
  . exact ConnectionSubscriptions.follows_rfl
  . split
    . exact ConnectionSubscriptions.follows_rfl
    . next kind key order _ =>
      dsimp only
      split
      . next limit subscription _ hget =>
        split
        . apply ConnectionSubscriptions.follows_set ConnectionSubscriptions.follows_rfl
          rintro rfl rfl
          refine ⟨subscription, hget, ?_⟩
          exact @Subscription.sameFilter_flushEntries F fromStr .conversation key _ sends
            { subscription, wsMessages := s.wsMessages, sentThisFlush := _, messages := _ }
        . exact ConnectionSubscriptions.follows_rfl
      . exact ConnectionSubscriptions.follows_rfl

theorem follows_step {request : ConnectionRequest}
    (hnew : subscribesTo conversationId request = true → ∀ action, (s.step fromStr request).2 ≠ .ack action)
    (hget : ((s.subscriptions.ofKind .conversation).get conversationId).isSome = true)
    : ConnectionSubscriptions.Follows conversationId s.subscriptions (s.step fromStr request).1.subscriptions := by
  cases request with
  | append topic payload maxLen => exact ConnectionSubscriptions.follows_rfl
  | share conversationId' entry =>
    unfold Connection.step
    dsimp only
    split
    . exact ConnectionSubscriptions.follows_rfl
    . exact ConnectionSubscriptions.follows_rfl
  | subscribeConversation conversationId' lastId messageId fromTimeUs fromCounter now =>
    by_cases hsame : conversationId' = conversationId
    . have hnot := hnew (by simpa [subscribesTo] using hsame)
      unfold Connection.step Connection.subscribed at hnot ⊢
      dsimp only at hnot ⊢
      split at hnot
      . next hhandles =>
        rw [if_pos hhandles]
        split at hnot
        . exact absurd rfl (hnot "subscribe")
        . exact ConnectionSubscriptions.follows_rfl
      . next hhandles =>
        rw [if_neg hhandles]
        exact ConnectionSubscriptions.follows_rfl
    . apply follows_subscribed
      intro subscriptions' hsubscribe
      apply ConnectionSubscriptions.follows_subscribe hsubscribe
      intro _ hkey
      exact absurd hkey hsame
  | sendMessage conversationId' messageId now =>
    apply follows_subscribed
    intro subscriptions' hsubscribe
    unfold ConnectionSubscriptions.ensureConversation at hsubscribe
    split at hsubscribe
    . next subscription hsubscription =>
      apply ConnectionSubscriptions.follows_subscribe hsubscribe
      rintro _ rfl
      exact ⟨subscription, hsubscription, Subscription.sameFilter_refreshed .conversation now subscription⟩
    . next hnone =>
      apply ConnectionSubscriptions.follows_subscribe hsubscribe
      rintro _ rfl
      change (s.subscriptions.conversations.get conversationId').isSome = true at hget
      rw [hnone] at hget
      cases hget
  | subscribeSandbox projectId tenantId now =>
    apply follows_subscribed
    intro subscriptions' hsubscribe
    exact ConnectionSubscriptions.follows_subscribe hsubscribe (by nofun)
  | subscribeWorkspace workspaceId projectId tenantId lastId now =>
    apply follows_subscribed
    intro subscriptions' hsubscribe
    exact ConnectionSubscriptions.follows_subscribe hsubscribe (by nofun)
  | unsubscribe kind key =>
    apply follows_subscribed
    intro subscriptions' hsubscribe
    cases hsubscribe
    exact ConnectionSubscriptions.follows_unsubscribe ConnectionSubscriptions.follows_rfl kind key
  | startFlush now denied order ok =>
    unfold Connection.step
    dsimp only
    split
    . have hfirst := @ConnectionSubscriptions.follows_reauthorize F conversationId s.subscriptions now denied
        .conversation (s.subscriptions, []) ConnectionSubscriptions.follows_rfl
      have hsecond := ConnectionSubscriptions.follows_reauthorize now denied .sandbox hfirst
      exact ConnectionSubscriptions.follows_reauthorize now denied .workspace hsecond
    . exact ConnectionSubscriptions.follows_rfl
  | visit readOk sends =>
    unfold Connection.step
    dsimp only
    split
    . exact ConnectionSubscriptions.follows_rfl
    . exact follows_visit readOk sends

end Steps

def carries (fromStr : String → Option (Json F)) (payload messageId : String) : Prop :=
  ∃ event, fromStr payload = some event ∧ (Message.get event "type").isSome = true ∧
    (Message.pointer event ["data", "message_id"]).bind Json.asStr = some messageId

instance (fromStr : String → Option (Json F)) (payload messageId : String)
    : Decidable (carries fromStr payload messageId) :=
  decidable_of_iff ((fromStr payload).any fun event => (Message.get event "type").isSome ∧
      (Message.pointer event ["data", "message_id"]).bind Json.asStr = some messageId) (by
    simp [carries, Option.any_eq_true])

structure Acknowledged (F : Type) where
  conversationId : String
  messageId : String
  found : Option (Subscription F)

structure Client (F : Type) where
  connection : Connection F := {}
  -- Of each conversation since it was subscribed to.
  acknowledged : List (Acknowledged F) := []
  -- The events of their runs.
  due : List (String × StreamEntry) := []

namespace Client

variable (fromStr : String → Option (Json F))

def acknowledges (s : Client F) : ConnectionRequest → ConnectionReply → List (Acknowledged F)
  | .sendMessage conversationId (some messageId) _, .ack _ =>
    [{ conversationId, messageId, found := s.connection.get .conversation conversationId }]
  | _, _ => []

def appends (s : Client F) : ConnectionRequest → List (String × StreamEntry)
  | .append topic payload _ =>
    (s.acknowledged.filter fun message =>
      Kind.conversation.topic message.conversationId = topic ∧ carries fromStr payload message.messageId).map
        fun message => (message.conversationId, s.connection.events.nextEntry payload)
  | _ => []

def continues (connection : Connection F) (request : ConnectionRequest) (reply : ConnectionReply)
    (conversationId : String) : Bool :=
  (connection.get .conversation conversationId).isSome &&
    !(subscribesTo conversationId request && reply matches .ack _)

def step (s : Client F) (request : ConnectionRequest) : Client F × ConnectionReply :=
  let (connection, reply) := s.connection.step fromStr request
  ({ connection
     acknowledged :=
       s.acknowledged.filter (fun message => continues connection request reply message.conversationId) ++
         s.acknowledges request reply
     due := s.due.filter (fun event => continues connection request reply event.1) ++ s.appends fromStr request },
    reply)

-- An event comes for a message that has found a subscription to other events: to those of another message, from
-- a later point in time on, or after a later entry.
inductive Filtered (s : Client F) : ConnectionRequest → Prop where
  | append {message : Acknowledged F} {payload : String} {maxLen : Nat} {subscription : Subscription F}
      (hacknowledged : message ∈ s.acknowledged) (hcarries : carries fromStr payload message.messageId)
      (hfound : message.found = some subscription)
      (hfilter : (∃ expected, subscription.messageId = some expected ∧ expected ≠ message.messageId) ∨
        subscription.Early
          (Kind.conversation.entryMessage fromStr message.conversationId (s.connection.events.nextEntry payload)) ∨
        (s.connection.events.nextEntry payload).id ≤ fromStart subscription.start)
      : Filtered s (.append (Kind.conversation.topic message.conversationId) payload maxLen)

section Invariant

open Connection (Inv Kept)
open Subscription (SameFilter)

structure Waits (s : Client F) : Prop where
  acknowledged : ∀ message ∈ s.acknowledged,
    ∃ subscription, s.connection.get .conversation message.conversationId = some subscription ∧
      SameFilter (message.found.getD { messageId := some message.messageId }) subscription
  due : ∀ conversationId entry, (conversationId, entry) ∈ s.due →
    ∃ subscription, s.connection.get .conversation conversationId = some subscription ∧
      entry ∈ s.connection.log (Kind.conversation.topic conversationId) ∧ fromStart subscription.start < entry.id ∧
      subscription.allows (Kind.conversation.entryMessage fromStr conversationId entry) = true

variable {fromStr} {s : Client F} {request : ConnectionRequest}

theorem get_insert_ne {message value : Json F} {key key' : String} (h : key ≠ key')
    : Message.get (Message.insert message key value) key' = Message.get message key' := by
  cases message with
  | dict entries =>
    unfold Message.insert Message.get Json.get
    dsimp only
    rw [List.find?_cons_of_neg (by simpa using h), List.find?_filter]
    congr 2
    funext entry
    by_cases heq : entry.1 = key'
    . simp [heq, Ne.symm h]
    . simp [heq]
  | _ => rfl

theorem messageId_entryMessage {payload messageId : String} (h : carries fromStr payload messageId)
    (conversationId : String) (stream : EventStream)
    : Message.messageId (Kind.conversation.entryMessage fromStr conversationId (stream.nextEntry payload)) =
        some messageId := by
  rcases h with ⟨event, hevent, htype, hpointer⟩
  have hmessage : Kind.conversation.entryMessage fromStr conversationId (stream.nextEntry payload) =
      Message.insert event "conversation_id" (.str conversationId) := by
    unfold Kind.entryMessage Kind.message Message.ofConversationEntry EventStream.nextEntry
    dsimp only
    rw [hevent, Option.getD_some, if_pos htype]
  unfold Message.messageId
  rw [hmessage]
  have hsame : Message.pointer (Message.insert event "conversation_id" (.str conversationId)) ["data", "message_id"] =
      Message.pointer event ["data", "message_id"] := by
    unfold Message.pointer
    rw [List.foldlM_cons, List.foldlM_cons, get_insert_ne (by decide)]
  rw [hsame, hpointer]
  rfl

theorem connection_step (request : ConnectionRequest)
    : (step fromStr s request).1.connection = (s.connection.step fromStr request).1 :=
  rfl

theorem log_mono (connection : Connection F) {topic : String} {entry : StreamEntry} (h : entry ∈ connection.log topic)
    : entry ∈ (connection.step fromStr request).1.log topic := by
  by_cases happend : ∃ topic payload maxLen, request = .append topic payload maxLen
  . rcases happend with ⟨topic', payload, maxLen, rfl⟩
    rw [Connection.log_append]
    split
    . exact List.mem_append_left _ h
    . exact h
  . have hsame := @Connection.events_step F fromStr connection request
      (fun topic payload maxLen heq => happend ⟨topic, payload, maxLen, heq⟩)
    unfold Connection.log at h ⊢
    rw [hsame.2]
    exact h

theorem acknowledged_step (request : ConnectionRequest)
    : (step fromStr s request).1.acknowledged =
        s.acknowledged.filter (fun message => continues (s.connection.step fromStr request).1 request
          (s.connection.step fromStr request).2 message.conversationId) ++
            s.acknowledges request (s.connection.step fromStr request).2 :=
  rfl

theorem due_step (request : ConnectionRequest)
    : (step fromStr s request).1.due =
        s.due.filter (fun event => continues (s.connection.step fromStr request).1 request
          (s.connection.step fromStr request).2 event.1) ++ s.appends fromStr request :=
  rfl

theorem continues_iff {connection : Connection F} {reply : ConnectionReply} {conversationId : String}
    : continues connection request reply conversationId = true ↔
        (connection.get .conversation conversationId).isSome = true ∧
          (subscribesTo conversationId request = true → ∀ action, reply ≠ .ack action) := by
  unfold continues
  rw [Bool.and_eq_true]
  apply and_congr_right
  intro _
  cases subscribesTo conversationId request with
  | false => simp
  | true => cases reply <;> simp

theorem get_of_acknowledges {message : Acknowledged F}
    (h : message ∈ s.acknowledges request (s.connection.step fromStr request).2)
    : ∃ subscription, (s.connection.step fromStr request).1.get .conversation message.conversationId =
        some subscription ∧ SameFilter (message.found.getD { messageId := some message.messageId }) subscription := by
  unfold acknowledges at h
  split at h
  . next conversationId messageId now reply hreply =>
    rw [List.mem_singleton] at h
    rw [h]
    unfold Connection.step Connection.subscribed at hreply ⊢
    dsimp only at hreply ⊢
    split at hreply
    . next hhandles =>
      rw [if_pos hhandles]
      split at hreply
      . next subscriptions' hensure =>
        unfold ConnectionSubscriptions.ensureConversation ConnectionSubscriptions.subscribe at hensure
        unfold Connection.get
        dsimp only
        show ∃ subscription, _ ∧
          SameFilter ((s.connection.subscriptions.conversations.get conversationId).getD _) subscription
        split at hensure
        . next subscription hget =>
          rw [hget]
          split at hensure
          . cases hensure
            refine ⟨{ subscription with conversationAuthorizedAt := some now }, ?_,
              Subscription.sameFilter_refreshed .conversation now subscription⟩
            rw [ConnectionSubscriptions.ofKind_setKind, if_pos rfl, Dict.get_set, if_pos rfl]
          . cases hensure
        . next hget =>
          rw [hget]
          split at hensure
          . cases hensure
            refine ⟨{ messageId := some messageId, conversationAuthorizedAt := some now }, ?_,
              ⟨Eq.refl _, Eq.refl _, Eq.refl _, Eq.refl _⟩⟩
            rw [ConnectionSubscriptions.ofKind_setKind, if_pos rfl, Dict.get_set, if_pos rfl]
          . cases hensure
      . cases hreply
    . cases hreply
  . cases h

theorem get_of_continues {conversationId : String} {subscription : Subscription F}
    (hcontinues : continues (s.connection.step fromStr request).1 request (s.connection.step fromStr request).2
      conversationId = true)
    (hget : s.connection.get .conversation conversationId = some subscription)
    : ∃ subscription', (s.connection.step fromStr request).1.get .conversation conversationId = some subscription' ∧
        SameFilter subscription subscription' := by
  rcases continues_iff.mp hcontinues with ⟨hsome, hsame⟩
  rcases Option.isSome_iff_exists.mp hsome with ⟨subscription', hget'⟩
  rcases follows_step hsame (Option.isSome_of_eq_some hget) subscription' hget' with ⟨old, hold, hfilter⟩
  change s.connection.get .conversation conversationId = some old at hold
  rw [hget] at hold
  cases hold
  exact ⟨subscription', hget', hfilter⟩

theorem fromStart_lt_nextEntry (stream : EventStream) (payload : String)
    : fromStart "" < (stream.nextEntry payload).id := by
  have hlength := Digits.le_length_padded 20 (stream.seq + 1)
  change (stream.nextEntry payload).id.toList.length ≥ 20 at hlength
  rw [String.lt_iff_toList_lt]
  cases hid : (stream.nextEntry payload).id.toList with
  | nil =>
    rw [hid] at hlength
    cases hlength
  | cons c cs => exact List.nil_lt_cons c cs

theorem waits_step (hwaits : Waits fromStr s) (hnot : ¬ Filtered fromStr s request)
    : Waits fromStr (step fromStr s request).1 := by
  constructor
  . intro message hmem
    rw [acknowledged_step, List.mem_append] at hmem
    rcases hmem with hold | hnew
    . rcases List.mem_filter.mp hold with ⟨hacknowledged, hcontinues⟩
      rcases hwaits.acknowledged message hacknowledged with ⟨subscription, hget, hfilter⟩
      rcases get_of_continues hcontinues hget with ⟨subscription', hget', hfilter'⟩
      exact ⟨subscription', hget', hfilter.trans hfilter'⟩
    . exact get_of_acknowledges hnew
  . intro conversationId entry hmem
    rw [due_step, List.mem_append] at hmem
    rcases hmem with hold | hnew
    . rcases List.mem_filter.mp hold with ⟨hdue, hcontinues⟩
      rcases hwaits.due conversationId entry hdue with ⟨subscription, hget, hentry, hstart, hallows⟩
      rcases get_of_continues hcontinues hget with ⟨subscription', hget', hfilter⟩
      refine ⟨subscription', hget', log_mono s.connection hentry, ?_, ?_⟩
      . rw [hfilter.start]
        exact hstart
      . rw [hfilter.allows]
        exact hallows
    . cases request with
      | append topic payload maxLen =>
        rcases List.mem_map.mp hnew with ⟨message, hmessage, heq⟩
        cases heq
        rcases List.mem_filter.mp hmessage with ⟨hacknowledged, hcondition⟩
        rw [decide_eq_true_eq] at hcondition
        rcases hcondition with ⟨rfl, hcarries⟩
        rcases hwaits.acknowledged message hacknowledged with ⟨subscription, hget, hfilter⟩
        have hpasses : fromStart (message.found.getD { messageId := some message.messageId }).start <
              (s.connection.events.nextEntry payload).id ∧
            (message.found.getD { messageId := some message.messageId }).allows
              (Kind.conversation.entryMessage fromStr message.conversationId
                (s.connection.events.nextEntry payload)) := by
          rw [Subscription.allows_iff (messageId_entryMessage hcarries message.conversationId _)]
          cases hfound : message.found with
          | none =>
            refine ⟨fromStart_lt_nextEntry _ payload, ?_, ?_⟩
            . rintro expected ⟨rfl⟩
              rfl
            . rintro ⟨fromTimeUs, hnone, _⟩
              cases hnone
          | some found =>
            have hpasses : ¬ _ := fun hfilter => hnot (.append hacknowledged hcarries hfound hfilter)
            rw [not_or, not_or, not_le] at hpasses
            refine ⟨hpasses.2.2, ?_, hpasses.2.1⟩
            intro expected hexpected
            by_contra hne
            exact hpasses.1 ⟨expected, hexpected, hne⟩
        refine ⟨subscription, hget, ?_, ?_, ?_⟩
        . rw [connection_step, Connection.log_append, if_pos rfl]
          exact List.mem_concat_self
        . rw [hfilter.start]
          exact hpasses.1
        . rw [hfilter.allows]
          exact hpasses.2
      | _ => cases hnew

end Invariant

section Run

open Connection (Inv Kept inv_empty kept_empty inv_step)

def payload (messageId : String) : String :=
  "\x7b\"type\":\"act\",\"data\":\x7b\"message_id\":\"" ++ messageId ++ "\"\x7d\x7d"

def read (text : String) : Option (Json Unit) :=
  ["m1", "m2"].findSome? fun messageId =>
    if text = payload messageId then
      some (.dict [("type", .str "act"), ("data", .dict [("message_id", .str messageId)])])
    else none

end Run

end Client

end Server
end MemStack
