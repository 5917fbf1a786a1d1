import MemStack.Util.JsonLemmas
import MemStack.Util.Machine
import MemStack.Util.Text

/-!
This module contains the control channel of one run (`agent/subagent/control_channel.py`) over Redis. A
step is one command to Redis with what follows it up to the next one. Python's aware timestamps are a
parameter that comes with its text. What is read from the channel is what was written to it.
-/

namespace MemStack
namespace Agent
namespace Control

-- `fromisoformat` reads what `isoformat` writes.
class PyTime (Time : Type) extends LinearOrder Time where
  isoformat : Time → String
  fromisoformat : String → Option Time
  fromisoformat_isoformat : ∀ t, fromisoformat (isoformat t) = some t

inductive ControlMessageType where
  | steer
  | kill
  | pause
  | resume
  deriving DecidableEq, Repr

def ControlMessageType.value : ControlMessageType → String
  | .steer => "steer"
  | .kill => "kill"
  | .pause => "pause"
  | .resume => "resume"

def ControlMessageType.ofValue : String → Option ControlMessageType
  | "steer" => some .steer
  | "kill" => some .kill
  | "pause" => some .pause
  | "resume" => some .resume
  | _ => none

structure ControlMessage (Time : Type) where
  runId : String
  messageType : ControlMessageType
  payload : String := ""
  senderId : String := ""
  timestamp : Time
  cascade : Bool := false
  runInputId : String := ""
  deliveryMode : String := ""
  runRevision : Option Int := none
  messageId : String := ""
  idempotencyKey : String := ""
  targetAgentId : String := ""
  targetAgentName : String := ""
  deriving DecidableEq, Repr

section Codec

variable {Time : Type} [PyTime Time] {F : Type} [PyFloat F]

abbrev Fields := List (String × String)

def intStr (n : Int) : String :=
  String.ofList (Json.intText n)

def serializeMessage (msg : ControlMessage Time) : Fields :=
  [
    ("run_id", msg.runId),
    ("message_type", msg.messageType.value),
    ("payload", msg.payload),
    ("sender_id", msg.senderId),
    ("timestamp", PyTime.isoformat msg.timestamp),
    ("cascade", if msg.cascade then "True" else "False"),
    ("run_input_id", msg.runInputId),
    ("delivery_mode", msg.deliveryMode),
    ("run_revision", match msg.runRevision with
      | some n => intStr n
      | none => ""),
    ("message_id", msg.messageId),
    ("idempotency_key", msg.idempotencyKey),
    ("target_agent_id", msg.targetAgentId),
    ("target_agent_name", msg.targetAgentName)
  ]

-- `now` is the time for a message without a timestamp. Revisions are texts that `str` made from an integer.
def deserializeMessage (now : Time) (raw : Fields) : Option (ControlMessage Time) := do
  let text (key : String) : String := (raw.lookup key).getD ""
  let runId ← raw.lookup "run_id"
  let messageType ← (raw.lookup "message_type").bind ControlMessageType.ofValue
  let timestamp ← match raw.lookup "timestamp" with
    | some timestamp => PyTime.fromisoformat timestamp
    | none => some now
  let runRevision ←
    if text "run_revision" = "" then some none
    else (Json.intOf (text "run_revision").toList).map some
  return {
    runId
    messageType
    payload := text "payload"
    senderId := text "sender_id"
    timestamp
    cascade := Text.lower ((raw.lookup "cascade").getD "False") = "true"
    runInputId := text "run_input_id"
    deliveryMode := text "delivery_mode"
    runRevision
    messageId := text "message_id"
    idempotencyKey := text "idempotency_key"
    targetAgentId := text "target_agent_id"
    targetAgentName := text "target_agent_name"
  }

def killPayload (msg : ControlMessage Time) : Json F :=
  .dict [
    ("reason", .str msg.payload),
    ("sender_id", .str msg.senderId),
    ("cascade", .bool msg.cascade),
    ("timestamp", .str (PyTime.isoformat msg.timestamp)),
    ("run_revision", match msg.runRevision with
      | some n => .int n
      | none => .null),
    ("idempotency_key", .str msg.idempotencyKey),
    ("target_agent_id", .str msg.targetAgentId),
    ("target_agent_name", .str msg.targetAgentName)
  ]

variable (F)

def killText (msg : ControlMessage Time) : String :=
  Json.dumps true false (killPayload (F := F) msg)

def readKill (runId : String) (now : Time) (raw : String) : Option (ControlMessage Time) :=
  match (Json.loads raw : Option (Json F)) with
  | some (.dict payload) =>
    let text (key : String) : String := ((Json.get payload key).bind Json.asStr).getD ""
    some {
      runId
      messageType := .kill
      payload := text "reason"
      senderId := text "sender_id"
      timestamp := now
      cascade := match Json.get payload "cascade" with
        | some (.bool cascade) => cascade
        | _ => false
      runRevision := match Json.get payload "run_revision" with
        | some (.int n) => some n
        | _ => none
      idempotencyKey := text "idempotency_key"
      targetAgentId := text "target_agent_id"
      targetAgentName := text "target_agent_name"
    }
  | _ => none

end Codec

-- A call of `send_control`.
structure Sent (Time : Type) where
  number : Nat
  message : ControlMessage Time
  deriving DecidableEq, Repr

structure Received (Time : Type) where
  sent : Sent Time
  message : ControlMessage Time
  deriving DecidableEq, Repr

-- Where a call of `consume_control` is: the next command it will issue, or its result.
inductive Consume (Time : Type) where
  | getKill
  | deleteKill (kill : Received Time)
  | xrange (messages : List (Received Time))
  | xdel (messages : List (Received Time)) (entryIds : List Nat)
  | returned (messages : List (Received Time))
  deriving DecidableEq, Repr

structure Channel (Time : Type) where
  kill : Option (Sent Time × String) := none
  stream : List (Sent Time × Fields) := []
  sends : List (Sent Time) := []
  calls : List (Consume Time) := []

inductive Request (Time : Type) where
  | sendControl (message : ControlMessage Time)
  | consumeControl
  | advance (call : Nat) (now : Time)

section Step

variable {Time : Type} [PyTime Time] (F : Type) [PyFloat F] (runId : String)

def Channel.next (channel : Channel Time) (message : ControlMessage Time) : Sent Time :=
  { number := channel.sends.length, message }

def sendKill (message : ControlMessage Time) (channel : Channel Time) : Channel Time :=
  { channel with
    kill := some (channel.next message, killText F message)
    sends := channel.sends ++ [channel.next message]
  }

-- `xadd` with `maxlen=100`, which drops the oldest entries beyond.
def sendStream (message : ControlMessage Time) (channel : Channel Time) : Channel Time :=
  let stream := channel.stream ++ [(channel.next message, serializeMessage message)]
  { channel with
    stream := stream.drop (stream.length - 100)
    sends := channel.sends ++ [channel.next message]
  }

def sortMessages (messages : List (Received Time)) : List (Received Time) :=
  messages.mergeSort fun a b => a.message.timestamp ≤ b.message.timestamp

def readEntries (now : Time) : List (Sent Time × Fields) → List (Received Time) × Bool
  | [] => ([], true)
  | (sent, data) :: entries =>
    match deserializeMessage now data with
    | none => ([], false)
    | some message =>
      let (messages, readAll) := readEntries now entries
      ({ sent, message } :: messages, readAll)

def Consume.advance (now : Time) (channel : Channel Time)
    : Consume Time → Channel Time × Consume Time
  | .getKill =>
    match channel.kill with
    | none => (channel, .xrange [])
    | some (sent, raw) =>
      match readKill F runId now raw with
      | none => (channel, .xrange [])
      | some message => (channel, .deleteKill { sent, message })
  | .deleteKill kill => ({ channel with kill := none }, .xrange [kill])
  | .xrange messages =>
    if channel.stream = [] then
      (channel, .returned (sortMessages messages))
    else
      let (received, readAll) := readEntries now channel.stream
      let messages := messages ++ received
      if readAll then (channel, .xdel messages (channel.stream.map (·.1.number)))
      else (channel, .returned (sortMessages messages))
  | .xdel messages entryIds =>
    ({ channel with stream := channel.stream.filter (·.1.number ∉ entryIds) }, .returned (sortMessages messages))
  | .returned messages => (channel, .returned messages)

def Channel.step (channel : Channel Time) : Request Time → Channel Time × Option (List (Received Time))
  | .sendControl message =>
    if message.runId = runId then
      (if message.messageType = .kill then sendKill F message channel else sendStream message channel,
        none)
    else
      (channel, none)
  | .consumeControl => ({ channel with calls := channel.calls ++ [.getKill] }, none)
  | .advance call now =>
    match channel.calls[call]? with
    | some (.returned _) => (channel, none)
    | some consume =>
      let (channel, consume) := consume.advance F runId now channel
      ({ channel with calls := channel.calls.set call consume }, match consume with
        | .returned messages => some messages
        | _ => none)
    | none => (channel, none)

end Step

variable {Time : Type} [PyTime Time] {F : Type} [PyFloat F] {now : Time}

theorem ofValue_value (messageType : ControlMessageType)
    : ControlMessageType.ofValue messageType.value = some messageType := by
  cases messageType <;> rfl

theorem intStr_ne (n : Int) : intStr n ≠ "" := by
  intro h
  have hempty : Json.intText n = [] := by
    rw [← String.toList_ofList (l := Json.intText n)]
    exact congrArg String.toList h
  have hread := Json.intOf_intText n
  rw [hempty] at hread
  cases hread

theorem deserialize_serialize (msg : ControlMessage Time)
    : deserializeMessage now (serializeMessage msg) = some msg := by
  have htime := PyTime.fromisoformat_isoformat msg.timestamp
  have htype := ofValue_value msg.messageType
  have hcascade : decide (Text.lower (if msg.cascade then "True" else "False") = "true") = msg.cascade := by
    cases msg.cascade <;> decide +kernel
  unfold deserializeMessage serializeMessage
  cases hrevision : msg.runRevision with
  | none =>
    cases msg
    simp_all [List.lookup]
  | some n =>
    have hn := intStr_ne n
    have hread : Json.intOf (intStr n).toList = some n := by
      rw [intStr, String.toList_ofList]
      apply Json.intOf_intText
    cases msg
    simp_all [List.lookup]

omit [PyTime Time] in
theorem messageType_readKill {runId raw : String} {message : ControlMessage Time}
    (h : readKill F runId now raw = some message)
    : message.messageType = .kill := by
  unfold readKill at h
  split at h
  . cases h
    rfl
  . cases h

end Control
end Agent
end MemStack
