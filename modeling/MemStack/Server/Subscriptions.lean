import MemStack.Util.Text
import MemStack.Util.Json

/-!
This module contains the event stream in memory (`event_stream.rs`) and a websocket connection that is
subscribed to topics of it (`subscriptions.rs` and the messages of `agent_ws.rs` that change subscriptions).
Reading the JSON of a payload is a parameter.
-/

namespace MemStack
namespace Server

structure StreamEntry where
  id : String
  payload : String
  deriving DecidableEq, Repr

structure EventStream where
  topics : Dict String (List StreamEntry) := Dict.empty
  seq : Nat := 0

namespace EventStream

variable (stream : EventStream)

def entries (topic : String) : List StreamEntry :=
  (stream.topics.get topic).getD []

def nextEntry (payload : String) : StreamEntry where
  id := Digits.padded 20 (stream.seq + 1)
  payload := payload

def append (topic payload : String) (maxLen : Nat) : EventStream :=
  let entries := stream.entries topic ++ [stream.nextEntry payload]
  let entries := if maxLen > 0 ∧ entries.length > maxLen then entries.drop (entries.length - maxLen) else entries
  { topics := stream.topics.set topic entries, seq := stream.seq + 1 }

def fromStart (afterId : String) : String :=
  if afterId = "0" then "" else afterId

def readAfter (topic afterId : String) (limit : Nat) : List StreamEntry :=
  ((stream.entries topic).dropWhile (·.id ≤ fromStart afterId)).take limit

end EventStream

variable {F : Type}

namespace Message

-- `Value::get` and `Value::pointer`. None of the keys is the index of an array.
def get (message : Json F) (key : String) : Option (Json F) :=
  match message with
  | .dict entries => Json.get entries key
  | _ => none

def pointer (message : Json F) (path : List String) : Option (Json F) :=
  path.foldlM get message

def asI64 : Json F → Option Int
  | .int n => if -2 ^ 63 ≤ n ∧ n < 2 ^ 63 then some n else none
  | _ => none

def asU64 : Json F → Option Nat
  | .int n => if 0 ≤ n ∧ n < 2 ^ 64 then some n.toNat else none
  | _ => none

def insert (message : Json F) (key : String) (value : Json F) : Json F :=
  match message with
  | .dict entries => .dict ((key, value) :: entries.filter (·.1 ≠ key))
  | _ => message

def eventTimeUs (message : Json F) : Option Int :=
  ((get message "event_time_us").bind asI64).or ((get message "time_us").bind asI64)

def eventCounter (message : Json F) : Option Nat :=
  ((get message "event_counter").bind asU64).or ((get message "counter").bind asU64)

def messageId (message : Json F) : Option String :=
  ((pointer message ["data", "message_id"]).bind Json.asStr).or ((get message "message_id").bind Json.asStr)

-- The messages for the entries of each kind of topic. `parsed` is what the payload was read as.
def ofConversationEntry (conversationId : String) (parsed : Option (Json F)) : Json F :=
  let parsed := parsed.getD (.dict [])
  if (get parsed "type").isSome then insert parsed "conversation_id" (.str conversationId)
  else if (get parsed "event_type").isSome then
    .dict [
      ("type", .str (((get parsed "event_type").bind Json.asStr).getD "message")),
      ("conversation_id", .str conversationId),
      ("message_id", (get parsed "message_id").getD .null),
      ("counter", (get parsed "counter").getD .null),
      ("time_us", (get parsed "time_us").getD .null),
      ("data", (get parsed "payload").getD .null),
      ("envelope", parsed)]
  else
    .dict [
      ("type", .str "error"),
      ("conversation_id", .str conversationId),
      ("data", .dict [("message", .str "Malformed event payload")])]

def ofSandboxEntry (projectId entryId : String) (parsed : Option (Json F)) : Json F :=
  .dict [
    ("type", .str "sandbox_event"),
    ("routing_key", .str ("sandbox:" ++ projectId)),
    ("project_id", .str projectId),
    ("data", parsed.getD (.dict [])),
    ("event_id", .str entryId)]

def ofWorkspaceEntry (workspaceId entryId : String) (parsed : Option (Json F)) : Json F :=
  let parsed := parsed.getD (.dict [])
  if (get parsed "type").isSome then
    let message := insert parsed "workspace_id" (.str workspaceId)
    let message := insert message "routing_key" (.str ("workspace:" ++ workspaceId))
    insert message "event_id" (.str entryId)
  else
    .dict [
      ("type", .str "error"),
      ("workspace_id", .str workspaceId),
      ("routing_key", .str ("workspace:" ++ workspaceId)),
      ("event_id", .str entryId),
      ("data", .dict [("message", .str "Malformed workspace event payload")])]

end Message

structure SubscriptionScope where
  tenantId : String
  projectId : String
  -- In milliseconds.
  authorizedAt : Int
  deriving DecidableEq, Repr

structure Subscription (F : Type) where
  lastId : String := ""
  messageId : Option String := none
  fromTimeUs : Option Int := none
  fromCounter : Option Nat := none
  conversationAuthorizedAt : Option Int := none
  scope : Option SubscriptionScope := none
  -- The cursor it began with, and the messages sent for it since, each with the id of its entry.
  start : String := lastId
  sent : List (String × Json F) := []

namespace Subscription

variable (subscription : Subscription F)

-- `subscription_allows`.
def allows (message : Json F) : Bool :=
  let sameMessage :=
    match subscription.messageId, Message.messageId message with
    | some expected, some actual => actual = expected
    | _, _ => true
  let inTime :=
    match subscription.fromTimeUs with
    | none => true
    | some fromTimeUs =>
      match Message.eventTimeUs message with
      | none => false
      | some eventTimeUs =>
        if eventTimeUs < fromTimeUs then false
        else if eventTimeUs = fromTimeUs then
          (Message.eventCounter message).getD 0 ≥ subscription.fromCounter.getD 0
        else true
  sameMessage && inTime

def scopeFieldsMatch (message : Json F) (pointers : List (List String)) (expected : String) : Bool :=
  (pointers.filterMap (Message.pointer message)).all fun value => value.asStr = some expected

def matchesSandboxScope (message : Json F) : Bool :=
  match subscription.scope with
  | none => false
  | some scope =>
    scopeFieldsMatch message [["data", "project_id"], ["data", "data", "project_id"]] scope.projectId &&
      scopeFieldsMatch message [["data", "tenant_id"], ["data", "data", "tenant_id"]] scope.tenantId

def matchesWorkspaceScope (message : Json F) : Bool :=
  match subscription.scope with
  | none => false
  | some scope =>
    scopeFieldsMatch message [["project_id"], ["data", "project_id"]] scope.projectId &&
      scopeFieldsMatch message [["tenant_id"], ["data", "tenant_id"]] scope.tenantId

def lapsed (now : Int) (authorizedAt : Option Int) : Bool :=
  match authorizedAt with
  | none => true
  | some authorizedAt => now < authorizedAt || now - authorizedAt ≥ 30000

end Subscription

inductive Kind where
  | conversation
  | sandbox
  | workspace
  deriving DecidableEq, Repr

namespace Kind

def topic : Kind → String → String
  | .conversation, conversationId => "agent:events:" ++ conversationId
  | .sandbox, projectId => "sandbox:events:" ++ projectId
  | .workspace, workspaceId => "workspace:events:" ++ workspaceId

def accepts : Kind → Subscription F → Json F → Bool
  | .conversation => Subscription.allows
  | .sandbox => Subscription.matchesSandboxScope
  | .workspace => Subscription.matchesWorkspaceScope

def message (kind : Kind) (key entryId : String) (parsed : Option (Json F)) : Json F :=
  match kind with
  | .conversation => Message.ofConversationEntry key parsed
  | .sandbox => Message.ofSandboxEntry key entryId parsed
  | .workspace => Message.ofWorkspaceEntry key entryId parsed

def needsRefresh (kind : Kind) (now : Int) (subscription : Subscription F) : Bool :=
  match kind with
  | .conversation => Subscription.lapsed now subscription.conversationAuthorizedAt
  | _ => Subscription.lapsed now (subscription.scope.map (·.authorizedAt))

-- Whether a refresh fails. `denied` says where access is denied.
def refuses (kind : Kind) (key : String) (denied : List (Kind × String)) (subscription : Subscription F) : Bool :=
  match kind with
  | .conversation => (kind, key) ∈ denied
  | .sandbox => !subscription.scope.any (·.projectId = key) || (kind, key) ∈ denied
  | .workspace => subscription.scope.isNone || (kind, key) ∈ denied

def refreshed (kind : Kind) (now : Int) (subscription : Subscription F) : Subscription F :=
  match kind with
  | .conversation => { subscription with conversationAuthorizedAt := some now }
  | _ => { subscription with scope := subscription.scope.map ({ · with authorizedAt := now }) }

end Kind

structure ConnectionSubscriptions (F : Type) where
  conversations : Dict String (Subscription F) := Dict.empty
  sandboxes : Dict String (Subscription F) := Dict.empty
  workspaces : Dict String (Subscription F) := Dict.empty

def maxSubscriptionsPerConnection : Nat := 64

def maxEventsPerFlush : Nat := 256

def eventReplayBatch : Nat := 100

def wsMessageCacheCap : Nat := 4096

namespace ConnectionSubscriptions

variable (subscriptions : ConnectionSubscriptions F)

def ofKind : Kind → Dict String (Subscription F)
  | .conversation => subscriptions.conversations
  | .sandbox => subscriptions.sandboxes
  | .workspace => subscriptions.workspaces

def setKind (kind : Kind) (d : Dict String (Subscription F)) : ConnectionSubscriptions F :=
  match kind with
  | .conversation => { subscriptions with conversations := d }
  | .sandbox => { subscriptions with sandboxes := d }
  | .workspace => { subscriptions with workspaces := d }

def activeCount : Nat :=
  subscriptions.conversations.keys.length + subscriptions.sandboxes.keys.length + subscriptions.workspaces.keys.length

def canAdd (alreadySubscribed : Bool) : Bool :=
  alreadySubscribed || subscriptions.activeCount < maxSubscriptionsPerConnection

def subscribe (kind : Kind) (key : String) (subscription : Subscription F) : Option (ConnectionSubscriptions F) :=
  if subscriptions.canAdd ((subscriptions.ofKind kind).get key).isSome then
    some (subscriptions.setKind kind ((subscriptions.ofKind kind).set key subscription))
  else none

def subscribeConversation (conversationId : String) (lastId messageId : Option String) (fromTimeUs : Option Int)
    (fromCounter : Option Nat) (now : Int) : Option (ConnectionSubscriptions F) :=
  subscriptions.subscribe .conversation conversationId
    { lastId := lastId.getD "", messageId, fromTimeUs, fromCounter, conversationAuthorizedAt := some now }

def ensureConversation (conversationId : String) (messageId : Option String) (now : Int)
    : Option (ConnectionSubscriptions F) :=
  match subscriptions.conversations.get conversationId with
  | some subscription =>
    subscriptions.subscribe .conversation conversationId { subscription with conversationAuthorizedAt := some now }
  | none =>
    subscriptions.subscribe .conversation conversationId { messageId, conversationAuthorizedAt := some now }

def subscribeWorkspace (workspaceId projectId tenantId : String) (lastId : Option String) (now : Int)
    : Option (ConnectionSubscriptions F) :=
  subscriptions.subscribe .workspace workspaceId
    { lastId := lastId.getD "", scope := some { tenantId, projectId, authorizedAt := now } }

def subscribeSandbox (projectId tenantId : String) (now : Int) : Option (ConnectionSubscriptions F) :=
  subscriptions.subscribe .sandbox projectId { scope := some { tenantId, projectId, authorizedAt := now } }

def unsubscribe (kind : Kind) (key : String) : ConnectionSubscriptions F :=
  subscriptions.setKind kind ((subscriptions.ofKind kind).erase key)

end ConnectionSubscriptions

def replayLimit (sentThisFlush : Nat) : Option Nat :=
  if sentThisFlush > maxEventsPerFlush then none
  else
    let remaining := min (maxEventsPerFlush - sentThisFlush) eventReplayBatch
    if remaining > 0 then some remaining else none

inductive Outgoing (F : Type) where
  | accessDenied (kind : Kind) (key : String)
  | event (message : Json F)

def Outgoing.isEvent : Outgoing F → Bool
  | .accessDenied _ _ => false
  | .event _ => true

structure Flush (F : Type) where
  -- The subscriptions that are still to be visited. A hash map has no order of its own.
  order : List (Kind × String)
  sentThisFlush : Nat := 0
  messages : List (Outgoing F) := []

structure Connection (F : Type) where
  events : EventStream := {}
  -- All that was ever appended, with its topic.
  appended : List (String × StreamEntry) := []
  wsMessages : Dict (String × String) (Json F) := Dict.empty
  subscriptions : ConnectionSubscriptions F := {}
  flush : Option (Flush F) := none
  closed : Bool := false

inductive ConnectionRequest where
  | append (topic payload : String) (maxLen : Nat)
  -- A flush of another connection builds the message of an entry.
  | share (conversationId : String) (entry : StreamEntry)
  | subscribeConversation (conversationId : String) (lastId messageId : Option String) (fromTimeUs : Option Int)
      (fromCounter : Option Nat) (now : Int)
  | sendMessage (conversationId : String) (messageId : Option String) (now : Int)
  | subscribeSandbox (projectId tenantId : String) (now : Int)
  | subscribeWorkspace (workspaceId projectId tenantId : String) (lastId : Option String) (now : Int)
  -- On demand, or since access is denied.
  | unsubscribe (kind : Kind) (key : String)
  | startFlush (now : Int) (denied order : List (Kind × String)) (ok : Bool)
  | visit (readOk : Bool) (sends : List Bool)
  deriving Repr

inductive ConnectionReply where
  | goesOn
  | ack (action : String)
  | subscriptionLimit
  deriving DecidableEq, Repr

structure Delivery (F : Type) where
  subscription : Subscription F
  wsMessages : Dict (String × String) (Json F)
  sentThisFlush : Nat
  messages : List (Outgoing F)

def getOrParse (wsMessages : Dict (String × String) (Json F)) (topic entryId : String) (build : Json F)
    : Dict (String × String) (Json F) × Json F :=
  match wsMessages.get (topic, entryId) with
  | some message => (wsMessages, message)
  | none =>
    let wsMessages := if wsMessages.entries.length ≥ wsMessageCacheCap then Dict.empty else wsMessages
    (wsMessages.set (topic, entryId) build, build)

section Flushing

variable (fromStr : String → Option (Json F))

def Kind.entryMessage (kind : Kind) (key : String) (entry : StreamEntry) : Json F :=
  kind.message key entry.id (fromStr entry.payload)

def messageOf (kind : Kind) (key : String) (entry : StreamEntry) (wsMessages : Dict (String × String) (Json F))
    : Dict (String × String) (Json F) × Json F :=
  match kind with
  | .conversation => getOrParse wsMessages (kind.topic key) entry.id (kind.entryMessage fromStr key entry)
  | _ => (wsMessages, kind.entryMessage fromStr key entry)

-- The loop over the entries of one batch. `sends` says which messages the socket takes.
def flushEntries (kind : Kind) (key : String) : List StreamEntry → List Bool → Delivery F → Delivery F × Bool
  | [], _, d => (d, true)
  | entry :: entries, sends, d =>
    let (wsMessages, message) := messageOf fromStr kind key entry d.wsMessages
    let d := { d with wsMessages }
    if kind.accepts d.subscription message then
      if !sends.headD true then (d, false)
      else
        let d := { d with
          subscription :=
            { d.subscription with lastId := entry.id, sent := d.subscription.sent ++ [(entry.id, message)] }
          sentThisFlush := d.sentThisFlush + 1
          messages := d.messages ++ [.event message] }
        if replayLimit d.sentThisFlush = none then (d, true) else flushEntries kind key entries sends.tail d
    else
      let d := { d with subscription := { d.subscription with lastId := entry.id } }
      if kind = .conversation ∧ replayLimit d.sentThisFlush = none then (d, true)
      else flushEntries kind key entries sends d

end Flushing

namespace Connection

variable (s : Connection F)

def get (kind : Kind) (key : String) : Option (Subscription F) :=
  (s.subscriptions.ofKind kind).get key

def handles : Bool :=
  s.flush.isNone && !s.closed

def subscribed (action : String) (subscriptions : Option (ConnectionSubscriptions F))
    : Connection F × ConnectionReply :=
  if s.handles then
    match subscriptions with
    | some subscriptions => ({ s with subscriptions }, .ack action)
    | none => (s, .subscriptionLimit)
  else (s, .goesOn)

def reauthorize (now : Int) (denied : List (Kind × String)) (kind : Kind)
    (state : ConnectionSubscriptions F × List (Outgoing F)) : ConnectionSubscriptions F × List (Outgoing F) :=
  let (subscriptions, messages) := state
  let candidates := (subscriptions.ofKind kind).entries.filter fun entry => kind.needsRefresh now entry.2
  candidates.foldl (fun (subscriptions, messages) entry =>
    if kind.refuses entry.1 denied entry.2 then
      (subscriptions.unsubscribe kind entry.1, messages ++ [.accessDenied kind entry.1])
    else
      (subscriptions.setKind kind ((subscriptions.ofKind kind).set entry.1 (kind.refreshed now entry.2)), messages))
    (subscriptions, messages)

def startFlush (now : Int) (denied order : List (Kind × String)) (ok : Bool) : Connection F :=
  let (subscriptions, messages) :=
    reauthorize now denied .workspace
      (reauthorize now denied .sandbox (reauthorize now denied .conversation (s.subscriptions, [])))
  -- The connection is closed when the socket does not take a message.
  { s with subscriptions, flush := some { order, messages }, closed := !ok && !messages.isEmpty }

variable (fromStr : String → Option (Json F))

def visitSubscription (flush : Flush F) (kind : Kind) (key : String) (limit : Nat) (sends : List Bool)
    (subscription : Subscription F) : Connection F :=
  let entries := s.events.readAfter (kind.topic key) subscription.lastId limit
  let (d, ok) := flushEntries fromStr kind key entries sends
    { subscription, wsMessages := s.wsMessages, sentThisFlush := flush.sentThisFlush, messages := flush.messages }
  { s with
    wsMessages := d.wsMessages
    subscriptions := s.subscriptions.setKind kind ((s.subscriptions.ofKind kind).set key d.subscription)
    flush := some { flush with sentThisFlush := d.sentThisFlush, messages := d.messages }
    closed := !ok }

def visit (readOk : Bool) (sends : List Bool) : Connection F :=
  match s.flush with
  | none => s
  | some flush =>
    match flush.order with
    | [] => { s with flush := none }
    | (kind, key) :: order =>
      let flush := { flush with order }
      match replayLimit flush.sentThisFlush, s.get kind key with
      | some limit, some subscription =>
        if readOk then s.visitSubscription fromStr flush kind key limit sends subscription
        else { s with flush := some flush, closed := true }
      | _, _ => { s with flush := some flush }

def step (s : Connection F) : ConnectionRequest → Connection F × ConnectionReply
  | .append topic payload maxLen =>
    ({ s with
        events := s.events.append topic payload maxLen
        appended := s.appended ++ [(topic, s.events.nextEntry payload)] },
      .goesOn)
  | .share conversationId entry =>
    if entry ∈ s.events.entries (Kind.conversation.topic conversationId) then
      ({ s with wsMessages := (messageOf fromStr .conversation conversationId entry s.wsMessages).1 }, .goesOn)
    else (s, .goesOn)
  | .subscribeConversation conversationId lastId messageId fromTimeUs fromCounter now =>
    s.subscribed "subscribe"
      (s.subscriptions.subscribeConversation conversationId lastId messageId fromTimeUs fromCounter now)
  | .sendMessage conversationId messageId now =>
    s.subscribed "send_message" (s.subscriptions.ensureConversation conversationId messageId now)
  | .subscribeSandbox projectId tenantId now =>
    s.subscribed "subscribe_sandbox" (s.subscriptions.subscribeSandbox projectId tenantId now)
  | .subscribeWorkspace workspaceId projectId tenantId lastId now =>
    s.subscribed "subscribe_workspace" (s.subscriptions.subscribeWorkspace workspaceId projectId tenantId lastId now)
  | .unsubscribe kind key => s.subscribed "unsubscribe" (some (s.subscriptions.unsubscribe kind key))
  | .startFlush now denied order ok =>
    if s.handles then (s.startFlush now denied order ok, .goesOn) else (s, .goesOn)
  | .visit readOk sends => if s.closed then (s, .goesOn) else (s.visit fromStr readOk sends, .goesOn)

end Connection

end Server
end MemStack
