import MemStack.Agent.Context.Pruning
import MemStack.Util.JsonLemmas

/-!
This module contains what the pruning of a conversation changes, and when the conversation has no more tokens
after it than before.
-/

namespace MemStack
namespace Agent
namespace Context
namespace Pruning

variable {F : Type} [PyFloat F] (config : PruneConfig)

section Candidates

omit [PyFloat F] in
def turns (messages : List (RawMessage F)) : Nat :=
  messages.countP (hasRole · "user")

def tokens (message : RawMessage F) : Nat :=
  (estimateTokens config (field message "content")).getD 0

def toolTokens : List (RawMessage F) → Nat
  | [] => 0
  | message :: later =>
    toolTokens later +
      if 2 ≤ turns (message :: later) ∧ hasRole message "tool" then tokens config message else 0

def candidate (message : RawMessage F) (later : List (RawMessage F)) : Option PruneKind :=
  if turns (message :: later) < 2 then none
  else if hasRole message "tool" then
    if isProtected config (field message "name") = some true then none
    else if config.protectTokens < toolTokens config (message :: later) then some .tool
    else none
  else if hasRole message "assistant" then
    match field message "content" with
    | .str content =>
      if config.assistantTruncateChars < content.length ∧
          textTokens config (slice content config.assistantTruncateChars) < textTokens config content then
        some .assistant
      else
        none
    | _ => none
  else
    none

def prunedOne (message : RawMessage F) (later : List (RawMessage F)) : RawMessage F :=
  match candidate config message later with
  | none => message
  | some kind => pruned config message kind

def prunedAll : List (RawMessage F) → List (RawMessage F)
  | [] => []
  | message :: later => prunedOne config message later :: prunedAll later

def candidatesFrom : Nat → List (RawMessage F) → List (Nat × RawMessage F × PruneKind)
  | _, [] => []
  | i, message :: later =>
    candidatesFrom (i + 1) later ++ ((candidate config message later).map fun kind => (i, message, kind)).toList

def prunableTokens (message : RawMessage F) : PruneKind → Nat
  | .tool => tokens config message
  | .assistant =>
    tokens config message -
      textTokens config (slice (((field message "content").asStr).getD "") config.assistantTruncateChars)

def total (count : RawMessage F → PruneKind → Nat) : List (RawMessage F) → Nat
  | [] => 0
  | message :: later => total count later + ((candidate config message later).map (count message)).getD 0

def Readable (message : RawMessage F) : Prop :=
  (estimateTokens config (field message "content")).isSome ∧ (isProtected config (field message "name")).isSome

def AllReadable : List (RawMessage F) → Prop
  | [] => True
  | message :: later =>
    (2 ≤ turns (message :: later) → hasRole message "tool" → Readable config message) ∧ AllReadable later

end Candidates

section Scan

variable {config} {message : RawMessage F} {messages later : List (RawMessage F)}

omit [PyFloat F] in
theorem turns_cons : turns (message :: later) = turns later + if hasRole message "user" then 1 else 0 := by
  unfold turns
  rw [List.countP_cons]

def scanned (config : PruneConfig) (i : Nat) (messages : List (RawMessage F)) : Scan F where
  turns := turns messages
  totalToolTokens := toolTokens config messages
  prunableTokens := total config (prunableTokens config) messages
  candidates := candidatesFrom config i messages

theorem scanned_cons (i : Nat) {kind : Option PruneKind} {added : Nat}
    (hcandidate : candidate config message later = kind)
    (htool : toolTokens config (message :: later) = toolTokens config later + added)
    : scanned config i (message :: later) = {
        turns := turns (message :: later)
        totalToolTokens := toolTokens config later + added
        prunableTokens := total config (prunableTokens config) later +
          (kind.map (prunableTokens config message)).getD 0
        candidates := candidatesFrom config (i + 1) later ++ (kind.map fun kind => (i, message, kind)).toList
      } := by
  unfold scanned
  rw [htool, total, candidatesFrom, hcandidate]

theorem scanned_of_none (i : Nat) (hcandidate : candidate config message later = none)
    (htool : ¬(2 ≤ turns (message :: later) ∧ hasRole message "tool" = true))
    : scanned config i (message :: later)
        =
      { scanned config (i + 1) later with turns := turns (message :: later) } := by
  have hadded : toolTokens config (message :: later) = toolTokens config later + 0 := by
    rw [toolTokens, if_neg htool]
  rw [scanned_cons i hcandidate hadded]
  simp [scanned]

omit [PyFloat F] in
theorem scanStep_turned (scan : Scan F) (hturns : scan.turns = turns later)
    : (if hasRole message "user" then { scan with turns := scan.turns + 1 } else scan)
        =
      { scan with turns := turns (message :: later) } := by
  rw [turns_cons, ← hturns]
  split <;> rfl

theorem scanStep_scanned (i : Nat)
    (hreadable : 2 ≤ turns (message :: later) → hasRole message "tool" → Readable config message)
    : scanStep config (scanned config (i + 1) later) (message, i) = some (scanned config i (message :: later)) := by
  unfold scanStep
  dsimp only
  rw [scanStep_turned (scanned config (i + 1) later) rfl]
  by_cases hturns : turns (message :: later) < 2
  . rw [if_pos hturns, scanned_of_none i]
    . unfold candidate
      rw [if_pos hturns]
    . omega
  . rw [if_neg hturns]
    by_cases htool : hasRole message "tool" = true
    . obtain ⟨hcontent, hname⟩ := hreadable (by omega) htool
      obtain ⟨t, ht⟩ := Option.isSome_iff_exists.mp hcontent
      obtain ⟨guarded, hguarded⟩ := Option.isSome_iff_exists.mp hname
      have htokens : tokens config message = t := by
        unfold tokens
        rw [ht]
        rfl
      have hadded : toolTokens config (message :: later) = toolTokens config later + t := by
        rw [toolTokens, if_pos ⟨by omega, htool⟩, htokens]
      rw [if_pos htool, ht, hguarded]
      have hcandidate : candidate config message later =
          if guarded = true then none
          else if config.protectTokens < (toolTokens config later + t : Nat) then some .tool else none := by
        unfold candidate
        rw [if_neg hturns, if_pos htool, hguarded, hadded]
        simp only [Option.some_inj]
      cases guarded with
      | true =>
        rw [if_pos rfl] at hcandidate
        rw [scanned_cons i hcandidate hadded]
        simp [scanned]
      | false =>
        rw [if_neg Bool.false_ne_true] at hcandidate
        by_cases hwindow : config.protectTokens < (toolTokens config later + t : Nat)
        . rw [if_pos hwindow] at hcandidate
          rw [scanned_cons i hcandidate hadded]
          simp only [scanned, Option.bind_eq_bind, Option.bind_some, Bool.false_eq_true, if_false]
          apply (if_pos hwindow).trans
          rw [Option.map_some, Option.map_some, prunableTokens, htokens]
          rfl
        . rw [if_neg hwindow] at hcandidate
          rw [scanned_cons i hcandidate hadded]
          simp only [scanned, Option.bind_eq_bind, Option.bind_some, Bool.false_eq_true, if_false]
          apply (if_neg hwindow).trans
          simp
    . have hcount : ¬(2 ≤ turns (message :: later) ∧ hasRole message "tool" = true) := fun h => htool h.2
      rw [if_neg htool]
      by_cases hassistant : hasRole message "assistant" = true
      . rw [if_pos hassistant]
        have hcandidate : candidate config message later =
            match field message "content" with
            | .str content =>
              if config.assistantTruncateChars < content.length ∧
                  textTokens config (slice content config.assistantTruncateChars) < textTokens config content then
                some .assistant
              else
                none
            | _ => none := by
          unfold candidate
          rw [if_neg hturns, if_neg htool, if_pos hassistant]
        cases hfield : field message "content" with
        | str content =>
          rw [hfield] at hcandidate
          dsimp only at hcandidate ⊢
          by_cases hlong : config.assistantTruncateChars < content.length ∧
              textTokens config (slice content config.assistantTruncateChars) < textTokens config content
          . rw [if_pos hlong] at hcandidate ⊢
            have htokens : tokens config message = textTokens config content := by
              unfold tokens
              rw [hfield]
              rfl
            have hadded : toolTokens config (message :: later) = toolTokens config later + 0 := by
              rw [toolTokens, if_neg hcount]
            rw [scanned_cons i hcandidate hadded]
            rw [Option.map_some, Option.map_some, prunableTokens, htokens, hfield]
            rfl
          . rw [if_neg hlong] at hcandidate ⊢
            rw [scanned_of_none i hcandidate hcount]
        | _ =>
          rw [hfield] at hcandidate
          rw [scanned_of_none i hcandidate hcount]
      . rw [if_neg hassistant, scanned_of_none i _ hcount]
        unfold candidate
        rw [if_neg hturns, if_neg htool, if_neg hassistant]

theorem scanStep_eq_none (i : Nat) (hturns : 2 ≤ turns (message :: later)) (htool : hasRole message "tool" = true)
    (hunreadable : ¬Readable config message)
    : scanStep config (scanned config (i + 1) later) (message, i) = none := by
  unfold scanStep
  dsimp only
  rw [scanStep_turned (scanned config (i + 1) later) rfl, if_neg (Nat.not_lt.mpr hturns), if_pos htool]
  unfold Readable at hunreadable
  cases hcontent : estimateTokens config (field message "content") with
  | none => rfl
  | some t =>
    rw [hcontent] at hunreadable
    cases hname : isProtected config (field message "name") with
    | none => rfl
    | some guarded =>
      rw [hname] at hunreadable
      exact absurd ⟨rfl, rfl⟩ hunreadable

theorem foldlM_scan (i : Nat) (messages : List (RawMessage F))
    : (AllReadable config messages →
        (messages.zipIdx i).reverse.foldlM (scanStep config) {} = some (scanned config i messages)) ∧
      (¬AllReadable config messages → (messages.zipIdx i).reverse.foldlM (scanStep config) {} = none) := by
  induction messages generalizing i with
  | nil => exact ⟨fun _ => rfl, fun h => absurd trivial h⟩
  | cons message later ih =>
    obtain ⟨hread, hunread⟩ := ih (i + 1)
    rw [List.zipIdx_cons, List.reverse_cons, List.foldlM_append]
    by_cases hlater : AllReadable config later
    . rw [hread hlater]
      simp only [List.foldlM_cons, List.foldlM_nil, Option.bind_eq_bind, Option.bind_some]
      constructor
      . intro h
        rw [scanStep_scanned i h.1]
        rfl
      . intro h
        have hnot : ¬(2 ≤ turns (message :: later) → hasRole message "tool" → Readable config message) :=
          fun h' => h ⟨h', hlater⟩
        push Not at hnot
        rw [scanStep_eq_none i hnot.1 hnot.2.1 hnot.2.2]
        rfl
    . rw [hunread hlater]
      exact ⟨fun h => absurd h.2 hlater, fun _ => rfl⟩

end Scan

section Apply

variable {config} {message message' : RawMessage F} {messages : List (RawMessage F)}

theorem applyPruning_candidatesFrom (front messages : List (RawMessage F)) (n : Nat)
    : ∃ count, (candidatesFrom config front.length messages).foldl
        (fun result c => (result.1.set c.1 (pruned config c.2.1 c.2.2), result.2 + 1)) (front ++ messages, n) =
      (front ++ prunedAll config messages, count) := by
  induction messages generalizing front with
  | nil => exact ⟨n, rfl⟩
  | cons message later ih =>
    obtain ⟨count, hlater⟩ := ih (front ++ [message])
    rw [List.length_append, List.length_singleton, List.append_assoc, List.append_assoc] at hlater
    rw [candidatesFrom, prunedAll, prunedOne, List.foldl_append]
    have hlater' : (candidatesFrom config (front.length + 1) later).foldl
        (fun result c => (result.1.set c.1 (pruned config c.2.1 c.2.2), result.2 + 1)) (front ++ message :: later, n) =
      (front ++ message :: prunedAll config later, count) := hlater
    rw [hlater']
    cases candidate config message later with
    | none => exact ⟨count, rfl⟩
    | some kind =>
      refine ⟨count + 1, ?_⟩
      simp

theorem pruneToolOutputs_eq (hreadable : AllReadable config messages)
    : ∃ count, pruneToolOutputs config messages =
      some (if (total config (prunableTokens config) messages : Int) < config.minTokens then messages
        else prunedAll config messages, count) := by
  obtain ⟨count, hpruned⟩ := @applyPruning_candidatesFrom F _ config [] messages 0
  have hscan : scanPruneCandidates config messages = some (scanned config 0 messages) :=
    (foldlM_scan 0 messages).1 hreadable
  unfold pruneToolOutputs
  rw [hscan]
  show ∃ count, (if (total config (prunableTokens config) messages : Int) < config.minTokens then some (messages, 0)
    else some (applyPruning config messages (candidatesFrom config 0 messages))) = _
  split
  . exact ⟨0, rfl⟩
  . exact ⟨count, congrArg some hpruned⟩

theorem pruneToolOutputs_eq_none (hunreadable : ¬AllReadable config messages)
    : pruneToolOutputs config messages = none := by
  have hscan : scanPruneCandidates config messages = none := (foldlM_scan 0 messages).2 hunreadable
  unfold pruneToolOutputs
  rw [hscan]
  rfl

end Apply

structure KeepsMessages (config : PruneConfig) (messages result : List (RawMessage F)) : Prop where
  length : result.length = messages.length
  fields : ∀ (i : Nat) (message message' : RawMessage F), messages[i]? = some message → result[i]? = some message' →
    ∀ key ≠ "content", message'.get key = message.get key
  late : ∀ (before : List (RawMessage F)) (message : RawMessage F) (later : List (RawMessage F)),
    messages = before ++ message :: later → turns (message :: later) < 2 →
    result[before.length]? = some message
  guarded : ∀ (i : Nat) (message : RawMessage F), messages[i]? = some message → hasRole message "tool" →
    isProtected config (field message "name") = some true → result[i]? = some message

section Kept

variable {config} {message : RawMessage F} {messages later : List (RawMessage F)}

omit [PyFloat F] in
theorem keepsMessages_rfl : KeepsMessages config messages messages where
  length := rfl
  fields i message message' h h' key hkey := by
    rw [h, Option.some_inj] at h'
    rw [h']
  late before message later hsplit _ := by
    rw [hsplit, List.getElem?_append_right le_rfl, Nat.sub_self]
    rfl
  guarded i message h _ _ := h

theorem length_prunedAll (messages : List (RawMessage F)) : (prunedAll config messages).length = messages.length := by
  induction messages with
  | nil => rfl
  | cons message later ih => rw [prunedAll, List.length_cons, List.length_cons, ih]

theorem getElem?_prunedAll (before : List (RawMessage F))
    : (prunedAll config (before ++ message :: later))[before.length]? = some (prunedOne config message later) := by
  induction before with
  | nil => rfl
  | cons first before ih =>
    rw [List.cons_append, prunedAll, List.length_cons, List.getElem?_cons_succ]
    exact ih

theorem keepsMessages_prunedAll : KeepsMessages config messages (prunedAll config messages) := by
  have hone : ∀ (i : Nat) (message : RawMessage F), messages[i]? = some message → ∃ later,
      (prunedAll config messages)[i]? = some (prunedOne config message later) := by
    intro i message h
    obtain ⟨hi, hget⟩ := List.getElem?_eq_some_iff.mp h
    refine ⟨messages.drop (i + 1), ?_⟩
    have hsplit : messages = messages.take i ++ message :: messages.drop (i + 1) := by
      rw [← hget, List.getElem_cons_drop, List.take_append_drop]
    have hlength : (messages.take i).length = i := List.length_take_of_le hi.le
    have hpruned : (prunedAll config (messages.take i ++ message :: messages.drop (i + 1)))[(messages.take i).length]? =
        some (prunedOne config message (messages.drop (i + 1))) := getElem?_prunedAll (messages.take i)
    rw [← hsplit, hlength] at hpruned
    exact hpruned
  constructor
  . exact length_prunedAll messages
  . intro i message message' h h' key hkey
    obtain ⟨later, hone⟩ := hone i message h
    rw [h', Option.some_inj] at hone
    rw [hone, prunedOne]
    split
    . rfl
    . next kind _ => rw [pruned, Dict.get_set, if_neg hkey]
  . intro before message later hsplit hturns
    rw [hsplit, getElem?_prunedAll, prunedOne, candidate, if_pos hturns]
  . intro i message h htool hname
    obtain ⟨later, hone⟩ := hone i message h
    have hnone : candidate config message later = none := by
      unfold candidate
      rw [if_pos htool, if_pos hname, ite_self]
    rw [hone, prunedOne, hnone]

theorem messagesTokens_cons
    : messagesTokens config (message :: later) =
      (messageTokens config message).bind fun a => (messagesTokens config later).map (a + ·) := by
  unfold messagesTokens
  rw [List.mapM_cons]
  cases messageTokens config message with
  | none => rfl
  | some a => cases later.mapM (messageTokens config) <;> rfl

theorem contentTokens_eq {content : Json F} {t : Nat} (h : estimateTokens config content = some t)
    : contentTokens config content = some t := by
  cases content with
  | str text => exact h
  | list parts =>
    cases parts with
    | nil => exact h
    | cons part parts => cases h
  | _ =>
    dsimp only [estimateTokens] at h
    split at h
    . cases h
    . exact h

theorem exists_content (hreadable : 2 ≤ turns (message :: later) → hasRole message "tool" → Readable config message)
    {kind : PruneKind} (h : candidate config message later = some kind)
    : estimateTokens config (field message "content") = some (tokens config message) := by
  have hsome : (estimateTokens config (field message "content")).isSome := by
    unfold candidate at h
    split at h
    . cases h
    . next hturns =>
      split at h
      . next htool => exact (hreadable (by omega) htool).1
      . split at h
        . split at h
          . next content hcontent =>
            rw [hcontent]
            rfl
          . cases h
        . cases h
  obtain ⟨t, ht⟩ := Option.isSome_iff_exists.mp hsome
  unfold tokens
  rw [ht]
  rfl

theorem messageTokens_pruned (kind : PruneKind)
    (hcontent : estimateTokens config (field message "content") = some (tokens config message)) {a : Nat}
    (ha : messageTokens config message = some a)
    : ∃ b, messageTokens config (pruned config message kind) = some b ∧
      b + tokens config message = a + textTokens config (newContent config message kind) := by
  have hother : ∀ key ≠ "content", (pruned config message kind).get key = message.get key := by
    intro key hkey
    rw [pruned, Dict.get_set, if_neg hkey]
  have hnew : field (pruned config message kind) "content" = .str (newContent config message kind) := by
    unfold field pruned
    rw [Dict.get_set, if_pos rfl]
    rfl
  have hfield : ∀ key ≠ "content", field (pruned config message kind) key = field message key := by
    intro key hkey
    unfold field
    rw [hother key hkey]
  unfold messageTokens at ha ⊢
  rw [contentTokens_eq hcontent] at ha
  rw [hnew, hother "tool_calls" (by decide), hfield "role" (by decide), hfield "name" (by decide)]
  simp only [contentTokens, Option.bind_eq_bind, Option.bind_some, Option.bind_eq_some_iff, Option.pure_def,
    Option.some_inj] at ha ⊢
  obtain ⟨calls, hcalls, role, hrole, name, hname, rfl⟩ := ha
  exact ⟨_, ⟨calls, hcalls, role, hrole, name, hname, rfl⟩, by omega⟩

def oldTokens (config : PruneConfig) (messages : List (RawMessage F)) : Nat :=
  total config (fun message _ => tokens config message) messages

def newTokens (config : PruneConfig) (messages : List (RawMessage F)) : Nat :=
  total config (fun message kind => textTokens config (newContent config message kind)) messages

theorem messagesTokens_prunedAll (hreadable : AllReadable config messages) {a : Nat}
    (ha : messagesTokens config messages = some a)
    : ∃ b, messagesTokens config (prunedAll config messages) = some b ∧
      b + oldTokens config messages = a + newTokens config messages := by
  induction messages generalizing a with
  | nil => exact ⟨a, ha, rfl⟩
  | cons message later ih =>
    rw [messagesTokens_cons] at ha
    rw [prunedAll, messagesTokens_cons]
    simp only [Option.bind_eq_some_iff, Option.map_eq_some_iff] at ha ⊢
    obtain ⟨first, hfirst, rest, hrest, rfl⟩ := ha
    obtain ⟨rest', hrest', hsum⟩ := ih hreadable.2 hrest
    unfold oldTokens newTokens at hsum ⊢
    unfold total prunedOne
    cases hcandidate : candidate config message later with
    | none => exact ⟨_, ⟨first, hfirst, rest', hrest', rfl⟩, by simp; omega⟩
    | some kind =>
      obtain ⟨first', hfirst', hsum'⟩ := messageTokens_pruned kind (exists_content hreadable.1 hcandidate) hfirst
      exact ⟨_, ⟨first', hfirst', rest', hrest', rfl⟩, by simp; omega⟩

end Kept

/--
The pruning keeps all but old contents and has no more tokens than before just when what is measured are texts
and the contents that it replaces have as many tokens as what replaces them, unless it leaves all as it is.
-/
theorem prune_iff (config : PruneConfig) (messages : List (RawMessage F))
    : (∃ result count, pruneToolOutputs config messages = some (result, count) ∧ KeepsMessages config messages result ∧
        ∀ before after, messagesTokens config messages = some before → messagesTokens config result = some after →
          after ≤ before)
        ↔
      AllReadable config messages ∧
      ((total config (prunableTokens config) messages : Int) < config.minTokens ∨
        newTokens config messages ≤ oldTokens config messages ∨ messagesTokens config messages = none) := by
  by_cases hreadable : AllReadable config messages
  . obtain ⟨count, hrun⟩ := pruneToolOutputs_eq hreadable
    rw [and_iff_right hreadable, hrun]
    by_cases hmin : (total config (prunableTokens config) messages : Int) < config.minTokens
    . rw [if_pos hmin]
      apply iff_of_true
      . refine ⟨messages, count, rfl, keepsMessages_rfl, ?_⟩
        intro before after hbefore hafter
        rw [hbefore, Option.some_inj] at hafter
        exact hafter.ge
      . exact .inl hmin
    . rw [if_neg hmin, or_iff_right hmin]
      constructor
      . rintro ⟨result, _, heq, -, hle⟩
        cases heq
        cases hbefore : messagesTokens config messages with
        | none => exact .inr rfl
        | some before =>
          obtain ⟨after, hafter, hsum⟩ := messagesTokens_prunedAll hreadable hbefore
          have := hle before after hbefore hafter
          left
          omega
      . intro hcondition
        refine ⟨_, count, rfl, keepsMessages_prunedAll, ?_⟩
        intro before after hbefore hafter
        obtain ⟨after', hafter', hsum⟩ := messagesTokens_prunedAll hreadable hbefore
        rw [hafter, Option.some_inj] at hafter'
        rcases hcondition with hle | hnone
        . omega
        . rw [hbefore] at hnone
          cases hnone
  . apply iff_of_false
    . rintro ⟨result, count, hrun, -⟩
      rw [pruneToolOutputs_eq_none hreadable] at hrun
      cases hrun
    . exact fun h => hreadable h.1

def shortOutput : List (RawMessage Nat) := [
  (Dict.empty.set "role" (.str "tool")).set "content" (.str "done"),
  (Dict.empty.set "role" (.str "user")).set "content" (.str "go on"),
  (Dict.empty.set "role" (.str "user")).set "content" (.str "and on")
]

theorem short_output_grows
    : ¬∀ (config : PruneConfig) (messages : List (RawMessage Nat)),
        ∃ result count, pruneToolOutputs config messages = some (result, count) ∧
          KeepsMessages config messages result ∧
          ∀ before after, messagesTokens config messages = some before →
            messagesTokens config result = some after → after ≤ before := by
  intro h
  obtain ⟨result, count, hrun, -, hle⟩ := h { pruneMinTokens := some 1, pruneProtectTokens := some 0 } shortOutput
  have hbefore : messagesTokens { pruneMinTokens := some 1, pruneProtectTokens := some 0 } shortOutput = some 18 := by
    decide +kernel
  have hafter : ((pruneToolOutputs { pruneMinTokens := some 1, pruneProtectTokens := some 0 } shortOutput).bind
      fun r => messagesTokens { pruneMinTokens := some 1, pruneProtectTokens := some 0 } r.1) = some 25 := by
    decide +kernel
  rw [hrun] at hafter
  exact absurd (hle 18 25 hbefore hafter) (by decide)

end Pruning
end Context
end Agent
end MemStack
