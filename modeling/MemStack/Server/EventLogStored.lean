import MemStack.Server.EventLog
import MemStack.Util.Lists

/-!
This module contains just when every event that a server appends is kept in the table.
-/

namespace MemStack
namespace Server

variable {D : Type}

namespace AppendCall

theorem colon_not_mem_toString (n : Nat) : ':' ∉ (toString n).toList := by
  rw [Nat.toString_eq_ofList_toDigits, String.toList_ofList]
  intro h
  have := Nat.isDigit_of_mem_toDigits (by decide) (by decide) h
  revert this
  decide

theorem toList_seed (c : AppendCall D)
    : c.seed.toList
        =
      (c.conversationId.toList ++ ':' :: c.eventType.asStr.toList) ++ ':' :: (toString c.counter.toNat).toList := by
  simp [seed]

theorem seed_inj {c c' : AppendCall D} (h : c.seed = c'.seed)
    : c.conversationId = c'.conversationId ∧ c.eventType = c'.eventType ∧ c.counter = c'.counter := by
  have hlist := congrArg String.toList h
  rw [toList_seed, toList_seed] at hlist
  rcases Text.append_cons_inj (colon_not_mem_toString _) (colon_not_mem_toString _) hlist with ⟨hfront, hcounter⟩
  rcases Text.append_cons_inj c.eventType.colonFree c'.eventType.colonFree hfront with ⟨hconversation, htype⟩
  refine ⟨String.toList_inj.mp hconversation, ?_, ?_⟩
  . cases hc : c.eventType
    cases hc' : c'.eventType
    rw [hc, hc'] at htype
    dsimp only at htype
    congr
    exact String.toList_inj.mp htype
  . have hnat : c.counter.toNat = c'.counter.toNat := by
      have hstring := String.toList_inj.mp hcounter
      have happend := congrArg (fun t => "" ++ t ++ String.singleton ':' ++ "") hstring
      exact Text.toString_inj_of_append (by decide) happend
    exact UInt64.toNat_inj.mp hnat

theorem seed_congr {c c' : AppendCall D} (hconversation : c.conversationId = c'.conversationId)
    (htype : c.eventType = c'.eventType) (hcounter : c.counter = c'.counter)
    : c.seed = c'.seed := by
  unfold seed
  rw [hconversation, htype, hcounter]

end AppendCall

namespace Servers

section Statements

def Stored (e : Machine.Entry (Servers D) (ServersRequest D) ServersReply) : Prop :=
  ∀ call, e.reply = .returned call true →
    ∃ c, e.before.calls[call]? = some c ∧ e.after.rows = e.before.rows ++ [c.streamEvent.record]

def inFlight (s : Servers D) : List (AgentExecutionEvent D) :=
  (s.calls.filter (·.place = .published)).map (·.streamEvent.record)

def CollisionFree (s : Servers D) (request : ServersRequest D) : Prop :=
  ∀ c, s.started request = some c → ∀ other ∈ s.calls, c.eventId = other.eventId → c.seed = other.seed

inductive Loses (s : Servers D) : ServersRequest D → Prop where
  | unwritten {call : Nat} {c : AppendCall D} (hget : s.calls[call]? = some c) (hplace : c.place = .counted)
      (hwriter : s.hasWriter c.process = false)
      : Loses s (.publish call true)
  -- The stream has taken the event, and the table does not.
  | failed {call : Nat} {c : AppendCall D} (hget : s.calls[call]? = some c) (hplace : c.place = .published)
      : Loses s (.insert call false)
  -- Another call, of the same or of another process, had the same number.
  | repeated {call : Nat} {c other : AppendCall D} (hget : s.calls[call]? = some c) (hplace : c.place = .published)
      (hother : other ∈ s.calls) (hstored : other.place = .stored)
      (hconversation : c.conversationId = other.conversationId) (htype : c.eventType = other.eventType)
      (hcounter : c.counter = other.counter)
      : Loses s (.insert call true)

end Statements

section Invariant

def streamed (c : AppendCall D) : List (StreamEvent D) :=
  match c.place with
  | .counted | .rejected => []
  | _ => [c.streamEvent]

def recorded (c : AppendCall D) : List (AgentExecutionEvent D) :=
  if c.place = .stored then [c.streamEvent.record] else []

structure Inv (s : Servers D) : Prop where
  stream : s.stream.Perm (s.calls.flatMap streamed)
  rows : s.rows.Perm (s.calls.flatMap recorded)
  written : ∀ c ∈ s.calls, c.place ≠ .unwritten ∧ c.place ≠ .lost
  collisionFree : ∀ c ∈ s.calls, ∀ c' ∈ s.calls, c.eventId = c'.eventId → c.seed = c'.seed

variable {s : Servers D} {call : Nat} {c : AppendCall D}

theorem inFlight_eq (s : Servers D)
    : s.inFlight = s.calls.flatMap fun c => if c.place = .published then [c.streamEvent.record] else [] := by
  unfold inFlight
  induction s.calls with
  | nil => rfl
  | cons c calls ih =>
    rw [List.flatMap_cons, ← ih, List.filter_cons]
    by_cases hplace : c.place = .published <;> simp [hplace]

theorem Inv.perm (h : Inv s) : (s.rows ++ s.inFlight).Perm (s.stream.map StreamEvent.record) := by
  have hplaces : s.calls.flatMap (fun c => recorded c ++ if c.place = .published then [c.streamEvent.record] else [])
      = (s.calls.flatMap streamed).map StreamEvent.record := by
    rw [List.map_flatMap]
    apply List.flatMap_congr
    intro c hc
    have hwritten := h.written c hc
    unfold recorded streamed
    cases hplace : c.place with
    | unwritten => exact absurd hplace hwritten.1
    | lost => exact absurd hplace hwritten.2
    | _ => rfl
  rw [inFlight_eq]
  apply (h.rows.append_right _).trans
  apply (List.flatMap_append_perm _ _ _).trans
  rw [hplaces]
  exact (h.stream.map _).symm

theorem mem_rows_iff (h : Inv s) {row : AgentExecutionEvent D}
    : row ∈ s.rows ↔ ∃ c ∈ s.calls, c.place = .stored ∧ c.streamEvent.record = row := by
  rw [h.rows.mem_iff, List.mem_flatMap]
  apply exists_congr
  intro c
  apply and_congr_right
  intro _
  unfold recorded
  split
  . next hstored => simp [hstored, eq_comm]
  . next hstored => simp [hstored]

theorem any_id_iff (h : Inv s) (hget : s.calls[call]? = some c)
    : s.rows.any (·.id = c.streamEvent.record.id) ↔
        ∃ other ∈ s.calls, other.place = .stored ∧ c.conversationId = other.conversationId ∧
          c.eventType = other.eventType ∧ c.counter = other.counter := by
  have hmem : c ∈ s.calls := List.mem_of_getElem? hget
  rw [List.any_eq_true]
  constructor
  . rintro ⟨row, hrow, hid⟩
    rcases (mem_rows_iff h).mp hrow with ⟨other, hother, hstored, rfl⟩
    refine ⟨other, hother, hstored, ?_⟩
    apply AppendCall.seed_inj
    apply h.collisionFree c hmem other hother
    rw [decide_eq_true_eq] at hid
    exact hid.symm
  . rintro ⟨other, hother, hstored, hconversation, htype, hcounter⟩
    refine ⟨other.streamEvent.record, (mem_rows_iff h).mpr ⟨other, hother, hstored, rfl⟩, ?_⟩
    rw [decide_eq_true_eq]
    exact congrArg deriveEventId (AppendCall.seed_congr hconversation htype hcounter).symm

theorem loses_publish_iff (hget : s.calls[call]? = some c) (hplace : c.place = .counted) {ok : Bool}
    : Loses s (.publish call ok) ↔ ok = true ∧ s.hasWriter c.process = false := by
  constructor
  . intro h
    cases h with
    | unwritten hget' _ hwriter =>
      rw [hget] at hget'
      cases hget'
      exact ⟨rfl, hwriter⟩
  . rintro ⟨rfl, hwriter⟩
    exact .unwritten hget hplace hwriter

theorem loses_insert_iff (h : Inv s) (hget : s.calls[call]? = some c) (hplace : c.place = .published) {ok : Bool}
    : Loses s (.insert call ok) ↔ ok = false ∨ s.rows.any (·.id = c.streamEvent.record.id) := by
  rw [any_id_iff h hget]
  constructor
  . intro hloses
    cases hloses with
    | failed => exact .inl rfl
    | repeated hget' _ hother hstored hconversation htype hcounter =>
      rw [hget] at hget'
      cases hget'
      exact .inr ⟨_, hother, hstored, hconversation, htype, hcounter⟩
  . cases ok with
    | false => exact fun _ => .failed hget hplace
    | true =>
      rintro (hok | ⟨other, hother, hstored, hconversation, htype, hcounter⟩)
      . cases hok
      . exact .repeated hget hplace hother hstored hconversation htype hcounter

theorem inv_empty : Inv ({} : Servers D) where
  stream := List.Perm.refl _
  rows := List.Perm.refl _
  written := by
    intro c hc
    cases hc
  collisionFree := by
    intro c hc
    cases hc

theorem inv_count {request : ServersRequest D} (h : Inv s) (hfree : CollisionFree s request)
    : Inv (s.count request) := by
  unfold count
  split
  . exact h
  . next c hstarted =>
    have hplace : c.place = .counted := by
      cases request with
      | count process conversationId eventType data eventTimeUs timestamp =>
        rcases Option.map_eq_some_iff.mp hstarted with ⟨p, _, rfl⟩
        rfl
      | _ => cases hstarted
    constructor
    . dsimp only
      rw [List.flatMap_append]
      simpa [streamed, hplace] using h.stream
    . dsimp only
      rw [List.flatMap_append]
      simpa [recorded, hplace] using h.rows
    . intro c' hc'
      rcases List.mem_append.mp hc' with hold | hnew
      . exact h.written c' hold
      . rw [List.mem_singleton] at hnew
        rw [hnew, hplace]
        exact ⟨nofun, nofun⟩
    . intro a ha b hb hid
      rcases List.mem_append.mp ha with ha | ha
      . rcases List.mem_append.mp hb with hb | hb
        . exact h.collisionFree a ha b hb hid
        . rw [List.mem_singleton] at hb
          rw [hb] at hid ⊢
          exact (hfree c hstarted a ha hid.symm).symm
      . rw [List.mem_singleton] at ha
        rw [ha] at hid ⊢
        rcases List.mem_append.mp hb with hb | hb
        . exact hfree c hstarted b hb hid
        . rw [List.mem_singleton] at hb
          rw [hb]

theorem inv_setPlace (s' : Servers D) (place : Place) (published : List (StreamEvent D))
    (written : List (AgentExecutionEvent D)) (h : Inv s) (hget : s.calls[call]? = some c) (hcalls : s'.calls = s.calls)
    (hstream : s'.stream = s.stream ++ published) (hrows : s'.rows = s.rows ++ written)
    (hpublished : streamed { c with place } = published ++ streamed c)
    (hwritten : recorded { c with place } = written ++ recorded c) (hplace : place ≠ .unwritten ∧ place ≠ .lost)
    : Inv (s'.setPlace call c place) := by
  have hmem : ∀ a ∈ s.calls.set call { c with place }, a = { c with place } ∨ a ∈ s.calls := by
    intro a ha
    exact (List.mem_or_eq_of_mem_set ha).symm
  have hseed : ∀ a ∈ s.calls.set call { c with place }, ∃ b ∈ s.calls, a.seed = b.seed ∧ a.eventId = b.eventId := by
    intro a ha
    cases hmem a ha with
    | inl hnew =>
      rw [hnew]
      exact ⟨c, List.mem_of_getElem? hget, rfl, rfl⟩
    | inr hold => exact ⟨a, hold, rfl, rfl⟩
  constructor
  . unfold setPlace
    dsimp only
    rw [hcalls, hstream]
    apply List.Perm.trans _ (Lists.flatMap_set_perm hget (List.Perm.of_eq hpublished)).symm
    exact List.perm_append_comm.trans (h.stream.append_left _)
  . unfold setPlace
    dsimp only
    rw [hcalls, hrows]
    apply List.Perm.trans _ (Lists.flatMap_set_perm hget (List.Perm.of_eq hwritten)).symm
    exact List.perm_append_comm.trans (h.rows.append_left _)
  . intro a ha
    unfold setPlace at ha
    rw [hcalls] at ha
    cases hmem a ha with
    | inl hnew =>
      rw [hnew]
      exact hplace
    | inr hold => exact h.written a hold
  . intro a ha b hb hid
    unfold setPlace at ha hb
    rw [hcalls] at ha hb
    rcases hseed a ha with ⟨a', ha', haSeed, haId⟩
    rcases hseed b hb with ⟨b', hb', hbSeed, hbId⟩
    rw [haSeed, hbSeed]
    apply h.collisionFree a' ha' b' hb'
    rw [← haId, ← hbId, hid]

end Invariant

section Step

variable {s : Servers D} {request : ServersRequest D} {call : Nat} {c : AppendCall D} {ok : Bool}

theorem inv_publish (h : Inv s) (hget : s.calls[call]? = some c) (hplace : c.place = .counted)
    (hwriter : ok = true → s.hasWriter c.process = true)
    : Inv (s.publish call c ok).1 := by
  unfold publish
  split
  . apply inv_setPlace s .rejected [] [] h hget rfl
    . simp
    . simp
    . simp [streamed, hplace]
    . simp [recorded, hplace]
    . exact ⟨nofun, nofun⟩
  . next hok =>
    have hwriter' := hwriter (by simpa using hok)
    dsimp only
    split
    . apply inv_setPlace { s with stream := s.stream ++ [c.streamEvent] } .published [c.streamEvent] [] h hget rfl
      . rfl
      . simp
      . simp [streamed, hplace, AppendCall.streamEvent, AppendCall.eventId, AppendCall.seed]
      . simp [recorded, hplace]
      . exact ⟨nofun, nofun⟩
    . next hnot => exact absurd hwriter' hnot

theorem inv_insert (h : Inv s) (hget : s.calls[call]? = some c) (hplace : c.place = .published)
    (hfresh : ¬ s.rows.any (·.id = c.streamEvent.record.id))
    : Inv (s.insert call c true).1 := by
  unfold insert insertEvent
  rw [if_neg (by decide), if_neg hfresh]
  apply inv_setPlace { s with rows := s.rows ++ [c.streamEvent.record] } .stored [] [c.streamEvent.record] h hget rfl
  . simp
  . rfl
  . simp [streamed, hplace, AppendCall.streamEvent, AppendCall.eventId, AppendCall.seed]
  . simp [recorded, hplace, AppendCall.streamEvent, AppendCall.eventId, AppendCall.seed]
  . exact ⟨nofun, nofun⟩

theorem inv_step (h : Inv s) (hfree : CollisionFree s request) (hnot : ¬ Loses s request)
    : Inv (step s request).1 := by
  cases request with
  | start writer => exact ⟨h.stream, h.rows, h.written, h.collisionFree⟩
  | count process conversationId eventType data eventTimeUs timestamp => exact inv_count h hfree
  | publish call ok =>
    unfold step
    dsimp only
    split
    . next c hget =>
      split
      . next hplace =>
        apply inv_publish h hget hplace
        intro hok
        rw [loses_publish_iff hget hplace] at hnot
        simpa [hok] using hnot
      . exact h
    . exact h
  | insert call ok =>
    unfold step
    dsimp only
    split
    . next c hget =>
      split
      . next hplace =>
        rw [loses_insert_iff h hget hplace, not_or, Bool.not_eq_false] at hnot
        rw [hnot.1]
        exact inv_insert h hget hplace hnot.2
      . exact h
    . exact h

end Step

section Runs

end Runs

end Servers

end Server
end MemStack
