import MemStack.Agent.Spawn.CascadeOrder
import MemStack.Agent.Spawn.Mirror
import MemStack.Util.Machine

/-!
This module contains the cascades that stop sessions, interleaved with each other and with updates of statuses.
A step of a cascade is what it does up to its next await: it stops one session. Its list of sessions is the one
from its beginning, and only the root is looked up when its turn has come.
-/

namespace MemStack
namespace Agent
namespace Spawn

open SubagentRuns

variable {F : Type}

inductive CascadeTask where
  | stopping (session : String) (toStop : List String)
  | finished
  deriving DecidableEq, Repr

def CascadeTask.next (manager : SpawnManager) : CascadeTask → Option String × CascadeTask
  | .stopping session (child :: toStop) => (some child, .stopping session toStop)
  | .stopping session [] =>
    if (manager.recordsByChildSession.get session).any (·.status = "running") then (some session, .finished)
    else (none, .finished)
  | .finished => (none, .finished)

structure Mirrored (F : Type) where
  manager : SpawnManager
  stored : Stored F
  tasks : List CascadeTask

inductive Request where
  | updateStatus (child : String) (status : TerminalStatus) (clock : Nat → Clock)
  | cascadeStop (session : String) (clock : Nat → Clock)
  | resume (task : Nat) (clock : Nat → Clock)

def Request.clock : Request → Nat → Clock
  | .updateStatus _ _ clock => clock
  | .cascadeStop _ clock => clock
  | .resume _ clock => clock

namespace Mirrored

def effect (m : Mirrored F) : Request → Option (String × TerminalStatus)
  | .updateStatus child status _ => some (child, status)
  | .cascadeStop session _ =>
    ((CascadeTask.stopping session (m.manager.toStop session)).next m.manager).1.map (·, .stopped)
  | .resume i _ => (m.tasks[i]?).bind fun task => (task.next m.manager).1.map (·, .stopped)

def tasksAfter (m : Mirrored F) : Request → List CascadeTask
  | .updateStatus _ _ _ => m.tasks
  | .cascadeStop session _ =>
    m.tasks ++ [((CascadeTask.stopping session (m.manager.toStop session)).next m.manager).2]
  | .resume i _ =>
    match m.tasks[i]? with
    | some task => m.tasks.set i (task.next m.manager).2
    | none => m.tasks

variable [PyFloat F] (config : RegistryConfig) (storage : Storage) (conversationId : String)

def update (m : Mirrored F) (child status : String) (clock : Nat → Clock) : Mirrored F :=
  match m.manager.updateStatus child status with
  | (_, none) => m
  | (manager, some record) =>
    { m with manager, stored := mirrorStatus config storage m.stored conversationId record.id status clock }

def step (m : Mirrored F) (request : Request) : Mirrored F × Unit :=
  let updated :=
    match m.effect request with
    | none => m
    | some (child, status) => m.update config storage conversationId child status.text request.clock
  ({ updated with tasks := m.tasksAfter request }, ())

abbrev Entry (F : Type) :=
  Machine.Entry (Mirrored F) Request Unit

end Mirrored

section Statements

inductive Aligned : String → SubAgentRunStatus → Prop where
  | running {status : SubAgentRunStatus} (hactive : status.isActive = true) : Aligned "running" status
  | ended (status : TerminalStatus) : Aligned status.text status.runStatus

namespace Mirrored

structure Mirrors (storage : Storage) (conversationId : String) (m : Mirrored F) : Prop where
  sound : m.stored.Sound storage
  ids : ∀ child child' record record', m.manager.recordsByChildSession.get child = some record →
    m.manager.recordsByChildSession.get child' = some record' → record.id = record'.id → child = child'
  aligned : ∀ child record, m.manager.recordsByChildSession.get child = some record →
    ∀ status, statusOf m.stored conversationId record.id = some status → Aligned record.status status

def Settled (e : Entry F) : Prop :=
  ∀ child record, e.before.manager.recordsByChildSession.get child = some record → record.status ≠ "running" →
    ∃ record', e.after.manager.recordsByChildSession.get child = some record' ∧ record'.status = record.status

def Agrees (conversationId : String) (e : Entry F) : Prop :=
  ∀ child record, e.after.manager.recordsByChildSession.get child = some record →
    ∀ status, statusOf e.after.stored conversationId record.id = some status →
      ∀ terminal : TerminalStatus, record.status = terminal.text ↔ status = terminal.runStatus

def Allowed (m : Mirrored F) (request : Request) : Prop :=
  ∀ child status, m.effect request = some (child, status) →
    ∀ record, m.manager.recordsByChildSession.get child = some record →
      record.status = "running" ∨ record.status = status.text

def Timely (m : Mirrored F) : Request → Prop
  | .updateStatus child status _ =>
    ∀ record, m.manager.recordsByChildSession.get child = some record →
      (record.status = "running" ∨ record.status = status.text) ∧
        (status = .stopped ∨ ∀ session toStop, .stopping session toStop ∈ m.tasks → child ∉ toStop)
  | _ => True

def Waits (m : Mirrored F) : Prop :=
  ∀ session toStop, .stopping session toStop ∈ m.tasks → ∀ child ∈ toStop,
    ∀ record, m.manager.recordsByChildSession.get child = some record →
      record.status = "running" ∨ record.status = "stopped"

end Mirrored

def Request.Resumes (request : Request) : Prop :=
  ∃ task clock, request = .resume task clock

end Statements

theorem Aligned.active {text : String} {status : SubAgentRunStatus} (h : Aligned text status) (htext : text = "running")
    : status.isActive = true := by
  cases h with
  | running hactive => exact hactive
  | ended terminal => cases terminal <;> exact absurd htext (by decide)

theorem Aligned.iff {text : String} {status : SubAgentRunStatus} (h : Aligned text status) (terminal : TerminalStatus)
    : text = terminal.text ↔ status = terminal.runStatus := by
  cases h with
  | running hactive =>
    apply iff_of_false
    . cases terminal <;> decide
    . rintro rfl
      cases terminal <;> cases hactive
  | ended terminal' => cases terminal <;> cases terminal' <;> decide

section Listed

omit F

theorem Links.mem_traverse {links : Links} {fuel : Nat} {t : Links.Traversal}
    (h : ∀ record ∈ t.result, ∃ session, links.record session = some record)
    : ∀ record ∈ links.traverse fuel t, ∃ session, links.record session = some record := by
  induction fuel generalizing t with
  | zero => exact h
  | succ fuel ih =>
    unfold Links.traverse
    split
    . exact h
    . next current queue _ =>
      apply ih
      have hfold (children : List String) (t : Links.Traversal)
          (h : ∀ record ∈ t.result, ∃ session, links.record session = some record)
          : ∀ record ∈ (children.foldl links.visit t).result, ∃ session, links.record session = some record := by
        induction children generalizing t with
        | nil => exact h
        | cons child children ih =>
          apply ih
          unfold Links.visit
          split
          . exact h
          . split
            . exact h
            . next record hrecord =>
              intro record' hmem
              rcases List.mem_append.mp hmem with hmem | hmem
              . exact h record' hmem
              . exact ⟨child, by rw [List.mem_singleton.mp hmem, hrecord]⟩
      exact hfold _ _ h

theorem SpawnManager.running_of_mem_toStop {s : SpawnManager} (hkeyed : s.Keyed) {session child : String}
    (h : child ∈ s.toStop session)
    : ∃ record, s.recordsByChildSession.get child = some record ∧ record.status = "running" := by
  unfold SpawnManager.toStop at h
  obtain ⟨record, hmem, rfl⟩ := List.mem_map.mp h
  rw [List.mem_filter, List.mem_reverse, decide_eq_true_eq] at hmem
  obtain ⟨key, hkey⟩ := @Links.mem_traverse s.links _ _ (by simp) record hmem.1
  have hrecord : s.recordsByChildSession.get key = some record := hkey
  rw [hkeyed key record hrecord]
  exact ⟨record, hrecord, hmem.2⟩

end Listed

section Synced

variable [PyFloat F] {config : RegistryConfig} {storage : Storage} {s : Stored F}

omit [PyFloat F] in
theorem statusOf_empty (hs : s.Sound storage) (runId : String) : statusOf s "" runId = none := by
  rw [statusOf, Option.map_eq_none_iff]
  cases hfind : s.runs.find "" runId with
  | none => rfl
  | some run =>
    have hblank := run.named.2.1
    rw [(hs.filed "" runId run hfind).1] at hblank
    exact absurd hblank (by decide)

variable (config) in
theorem synced_mirrorStatus (hs : s.Sound storage) (conversationId runId : String) (status : TerminalStatus)
    (clock : Nat → Clock)
    : Synced status.runStatus conversationId runId s
        (mirrorStatus config storage s conversationId runId status.text clock) := by
  unfold mirrorStatus
  split
  . next hempty =>
    apply Synced.unchanged _ rfl
    intro status hstatus
    rw [hempty, statusOf_empty hs] at hstatus
    cases hstatus
  . exact synced_syncRunRegistryStatus hs conversationId runId status clock

theorem sound_mirrorStatus (hs : s.Sound storage) (conversationId runId status : String) (clock : Nat → Clock)
    : (mirrorStatus config storage s conversationId runId status clock).Sound storage := by
  unfold mirrorStatus
  split
  . exact hs
  . exact sound_syncRunRegistryStatus hs conversationId runId status clock

end Synced

namespace Mirrored

variable [PyFloat F] {config : RegistryConfig} {storage : Storage} {conversationId : String} {m : Mirrored F}
  {child : String} {old : SpawnRecord}

theorem update_of_none (h : m.manager.recordsByChildSession.get child = none) (status : String) (clock : Nat → Clock)
    : m.update config storage conversationId child status clock = m := by
  unfold update SpawnManager.updateStatus
  rw [h]

theorem update_of_some (h : m.manager.recordsByChildSession.get child = some old) (status : String)
    (clock : Nat → Clock)
    : m.update config storage conversationId child status clock
        = { m with
            manager := { m.manager with
              recordsByChildSession := m.manager.recordsByChildSession.set child (old.withStatus status) }
            stored := mirrorStatus config storage m.stored conversationId old.id status clock } := by
  unfold update SpawnManager.updateStatus
  rw [h]
  rfl

variable (config storage conversationId) in
theorem get_update (h : m.manager.recordsByChildSession.get child = some old) (status : String)
    (clock : Nat → Clock) (child' : String)
    : (m.update config storage conversationId child status clock).manager.recordsByChildSession.get child'
        = if child' = child then some (old.withStatus status)
          else m.manager.recordsByChildSession.get child' := by
  rw [update_of_some h]
  dsimp only
  rw [Dict.get_set]

variable (config) in
theorem mirrors_update (hm : m.Mirrors storage conversationId) (status : TerminalStatus) (clock : Nat → Clock)
    (hallowed : ∀ record, m.manager.recordsByChildSession.get child = some record →
      record.status = "running" ∨ record.status = status.text)
    : (m.update config storage conversationId child status.text clock).Mirrors storage conversationId := by
  cases hold : m.manager.recordsByChildSession.get child with
  | none =>
    rw [update_of_none hold]
    exact hm
  | some old =>
    have hget := get_update config storage conversationId hold status.text clock
    have hid : ∀ child' record, (m.update config storage conversationId child status.text
        clock).manager.recordsByChildSession.get child' = some record →
        ∃ before, m.manager.recordsByChildSession.get child' = some before ∧ before.id = record.id := by
      intro child' record hrecord
      rw [hget] at hrecord
      split at hrecord
      . next heq =>
        cases hrecord
        rw [heq]
        exact ⟨old, hold, rfl⟩
      . exact ⟨record, hrecord, rfl⟩
    have hstored : (m.update config storage conversationId child status.text clock).stored
        = mirrorStatus config storage m.stored conversationId old.id status.text clock := by
      rw [update_of_some hold]
    constructor
    . rw [hstored]
      exact sound_mirrorStatus hm.sound conversationId old.id status.text clock
    . intro first second record record' hfirst hsecond heq
      obtain ⟨before, hbefore, hsame⟩ := hid first record hfirst
      obtain ⟨before', hbefore', hsame'⟩ := hid second record' hsecond
      exact hm.ids first second before before' hbefore hbefore' (by rw [hsame, hsame', heq])
    . intro child' record hrecord runStatus hstatus
      rw [hstored] at hstatus
      rw [hget] at hrecord
      cases synced_mirrorStatus config hm.sound conversationId old.id status clock with
      | unchanged hended hsame =>
        rw [hsame] at hstatus
        split at hrecord
        . cases hrecord
          have haligned := hm.aligned child old hold runStatus hstatus
          cases hallowed old hold with
          | inl hrunning =>
            have hactive := haligned.active hrunning
            rw [hended runStatus hstatus] at hactive
            cases hactive
          | inr hequal => rwa [hequal] at haligned
        . exact hm.aligned child' record hrecord runStatus hstatus
      | changed before hbefore hactive hholds =>
        have hview := hholds.kept conversationId record.id runStatus hstatus
        split at hrecord
        . cases hrecord
          rw [withStatus, if_pos ⟨rfl, rfl⟩] at hview
          cases hview
          exact .ended status
        . next hne =>
          rw [withStatus, if_neg] at hview
          . exact hm.aligned child' record hrecord runStatus hview
          . rintro ⟨-, heq⟩
            exact hne (hm.ids child' child record old hrecord hold heq)

theorem mirrors_step (hm : m.Mirrors storage conversationId) {request : Request} (hallowed : m.Allowed request)
    : (m.step config storage conversationId request).1.Mirrors storage conversationId := by
  unfold step
  dsimp only
  cases heffect : m.effect request with
  | none => exact ⟨hm.sound, hm.ids, hm.aligned⟩
  | some effect =>
    obtain ⟨child, status⟩ := effect
    have hupdate := mirrors_update config hm status request.clock (hallowed child status heffect)
    exact ⟨hupdate.sound, hupdate.ids, hupdate.aligned⟩

omit [PyFloat F] in
theorem agrees_of_mirrors {e : Entry F} (h : e.after.Mirrors storage conversationId) : Agrees conversationId e := by
  intro child record hrecord status hstatus terminal
  exact (h.aligned child record hrecord status hstatus).iff terminal

theorem settled_iff (request : Request)
    : Settled (Machine.entry (step config storage conversationId) m request) ↔ m.Allowed request := by
  unfold Settled Machine.entry step
  dsimp only
  cases heffect : m.effect request with
  | none =>
    apply iff_of_true
    . intro child record hrecord _
      exact ⟨record, hrecord, rfl⟩
    . intro child status h
      rw [heffect] at h
      cases h
  | some effect =>
    obtain ⟨child, status⟩ := effect
    dsimp only
    constructor
    . intro hsettled child' status' h record hrecord
      rw [heffect] at h
      cases h
      by_cases hrunning : record.status = "running"
      . exact .inl hrunning
      . obtain ⟨record', hrecord', hsame⟩ := hsettled child record hrecord hrunning
        rw [get_update config storage conversationId hrecord, if_pos rfl] at hrecord'
        cases hrecord'
        exact .inr hsame.symm
    . intro hallowed child' record hrecord hne
      cases hold : m.manager.recordsByChildSession.get child with
      | none =>
        rw [update_of_none hold]
        exact ⟨record, hrecord, rfl⟩
      | some old =>
        rw [get_update config storage conversationId hold]
        split
        . next heq =>
          rw [heq, hold] at hrecord
          cases hrecord
          refine ⟨_, rfl, ?_⟩
          exact ((hallowed child status heffect record hold).resolve_left hne).symm
        . exact ⟨record, hrecord, rfl⟩

variable {request : Request}

omit [PyFloat F] in
theorem allowed_of_timely (hkeyed : m.manager.Keyed) (hwaits : m.Waits) (h : m.Timely request)
    : m.Allowed request := by
  intro child status heffect record hrecord
  have hroot {session : String} (hnext : ((CascadeTask.stopping session []).next m.manager).1 = some child)
      : record.status = "running" := by
    unfold CascadeTask.next at hnext
    dsimp only at hnext
    split at hnext
    . next hrunning =>
      cases hnext
      rw [hrecord] at hrunning
      simpa using hrunning
    . cases hnext
  cases request with
  | updateStatus child' status' clock =>
    cases heffect
    exact (h record hrecord).1
  | cascadeStop session clock =>
    unfold effect at heffect
    obtain ⟨child', hnext, heq⟩ := Option.map_eq_some_iff.mp heffect
    cases heq
    cases hlist : m.manager.toStop session with
    | nil =>
      rw [hlist] at hnext
      exact .inl (hroot hnext)
    | cons first toStop =>
      rw [hlist] at hnext
      cases hnext
      obtain ⟨record', hrecord', hrunning⟩ := SpawnManager.running_of_mem_toStop hkeyed
        (hlist ▸ List.mem_cons_self : child ∈ m.manager.toStop session)
      rw [hrecord] at hrecord'
      cases hrecord'
      exact .inl hrunning
  | resume i clock =>
    unfold effect at heffect
    obtain ⟨task, htask, hmap⟩ := Option.bind_eq_some_iff.mp heffect
    obtain ⟨child', hnext, heq⟩ := Option.map_eq_some_iff.mp hmap
    cases heq
    cases task with
    | finished => cases hnext
    | stopping session toStop =>
      cases toStop with
      | nil => exact .inl (hroot hnext)
      | cons first toStop =>
        cases hnext
        exact hwaits session _ (List.mem_of_getElem? htask) child List.mem_cons_self record hrecord

theorem manager_update (m : Mirrored F) (child status : String) (clock : Nat → Clock)
    : (m.update config storage conversationId child status clock).manager
        = (m.manager.updateStatus child status).1 := by
  unfold update SpawnManager.updateStatus
  cases m.manager.recordsByChildSession.get child with
  | none => rfl
  | some old => rfl

theorem manager_step (m : Mirrored F) (request : Request)
    : (m.step config storage conversationId request).1.manager
        = ((m.effect request).map fun effect => (m.manager.updateStatus effect.1 effect.2.text).1).getD m.manager := by
  unfold step
  dsimp only
  cases m.effect request with
  | none => rfl
  | some effect => exact manager_update m effect.1 effect.2.text request.clock

theorem keyed_step (hkeyed : m.manager.Keyed) (request : Request)
    : (m.step config storage conversationId request).1.manager.Keyed := by
  rw [manager_step]
  cases m.effect request with
  | none => exact hkeyed
  | some effect => exact hkeyed.updateStatus effect.1 effect.2.text

omit [PyFloat F] in
theorem listed_before {session child : String} {toStop : List String}
    (h : .stopping session toStop ∈ m.tasksAfter request) (hchild : child ∈ toStop)
    : (∃ toStop', .stopping session toStop' ∈ m.tasks ∧ child ∈ toStop') ∨
        ((∃ clock, request = .cascadeStop session clock) ∧ child ∈ m.manager.toStop session) := by
  have hnext {task : CascadeTask} (heq : (task.next m.manager).2 = .stopping session toStop)
      : ∃ first, task = .stopping session (first :: toStop) := by
    cases task with
    | finished => cases heq
    | stopping session' list =>
      cases list with
      | nil =>
        unfold CascadeTask.next at heq
        dsimp only at heq
        split at heq <;> cases heq
      | cons first list =>
        cases heq
        exact ⟨first, rfl⟩
  cases request with
  | updateStatus => exact .inl ⟨toStop, h, hchild⟩
  | cascadeStop session' clock =>
    rcases List.mem_append.mp h with h | h
    . exact .inl ⟨toStop, h, hchild⟩
    . obtain ⟨first, heq⟩ := hnext (List.mem_singleton.mp h).symm
      obtain ⟨rfl, hlist⟩ := CascadeTask.stopping.inj heq
      rw [hlist]
      exact .inr ⟨⟨clock, rfl⟩, List.mem_cons_of_mem _ hchild⟩
  | resume i clock =>
    unfold tasksAfter at h
    dsimp only at h
    split at h
    . next task htask =>
      rcases List.mem_or_eq_of_mem_set h with h | h
      . exact .inl ⟨toStop, h, hchild⟩
      . obtain ⟨first, rfl⟩ := hnext h.symm
        exact .inl ⟨_, List.mem_of_getElem? htask, List.mem_cons_of_mem _ hchild⟩
    . exact .inl ⟨toStop, h, hchild⟩

theorem waits_step (hkeyed : m.manager.Keyed) (hwaits : m.Waits) (h : m.Timely request)
    : (m.step config storage conversationId request).1.Waits := by
  intro session toStop htask child hchild record hrecord
  have hlisted := listed_before htask hchild
  have hbefore : ∀ record, m.manager.recordsByChildSession.get child = some record →
      record.status = "running" ∨ record.status = "stopped" := by
    intro record hrecord
    rcases hlisted with ⟨toStop', htask', hchild'⟩ | ⟨-, hchild'⟩
    . exact hwaits session toStop' htask' child hchild' record hrecord
    . obtain ⟨record', hrecord', hrunning⟩ := SpawnManager.running_of_mem_toStop hkeyed hchild'
      rw [hrecord] at hrecord'
      cases hrecord'
      exact .inl hrunning
  rw [manager_step] at hrecord
  cases heffect : m.effect request with
  | none =>
    rw [heffect] at hrecord
    exact hbefore record hrecord
  | some effect =>
    obtain ⟨child', status⟩ := effect
    rw [heffect, Option.map_some, Option.getD_some, SpawnManager.get_updateStatus] at hrecord
    split at hrecord
    . next heq =>
      have heq : child = child' := heq
      obtain ⟨old, hold, rfl⟩ := Option.map_eq_some_iff.mp hrecord
      suffices hstopped : status = .stopped by
        right
        rw [hstopped]
        rfl
      cases request with
      | updateStatus =>
        cases heffect
        rcases (h old hold).2 with hstopped | hnot
        . exact hstopped
        . rcases hlisted with ⟨toStop', htask', hchild'⟩ | ⟨⟨_, hcascade⟩, -⟩
          . exact absurd (heq ▸ hchild') (hnot session toStop' htask')
          . cases hcascade
      | cascadeStop =>
        obtain ⟨_, -, heq⟩ := Option.map_eq_some_iff.mp heffect
        cases heq
        rfl
      | resume =>
        obtain ⟨_, -, hmap⟩ := Option.bind_eq_some_iff.mp heffect
        obtain ⟨_, -, heq⟩ := Option.map_eq_some_iff.mp hmap
        cases heq
        rfl
    . exact hbefore record hrecord

structure Orderly (storage : Storage) (conversationId : String) (m : Mirrored F) : Prop where
  mirrors : m.Mirrors storage conversationId
  keyed : m.manager.Keyed
  waits : m.Waits

theorem Orderly.step (hm : m.Orderly storage conversationId) (h : m.Timely request)
    : (Settled (Machine.entry (step config storage conversationId) m request) ∧
        Agrees conversationId (Machine.entry (Mirrored.step config storage conversationId) m request)) ∧
      (m.step config storage conversationId request).1.Orderly storage conversationId := by
  have hallowed := allowed_of_timely hm.keyed hm.waits h
  have hmirrors := @mirrors_step _ _ config _ _ _ hm.mirrors _ hallowed
  exact ⟨⟨(settled_iff request).mpr hallowed, agrees_of_mirrors hmirrors⟩, hmirrors, keyed_step hm.keyed request,
    waits_step hm.keyed hm.waits h⟩

section Overtaken

variable {i : Nat} {session first child : String} {toStop : List String} {record : SpawnRecord} {clock : Nat → Clock}

omit [PyFloat F] in
theorem effect_resume (htask : m.tasks[i]? = some (.stopping session (first :: toStop)))
    : m.effect (.resume i clock) = some (first, .stopped) := by
  show (m.tasks[i]?).bind _ = _
  rw [htask]
  rfl

theorem tasks_resume (htask : m.tasks[i]? = some (.stopping session (first :: toStop)))
    : (m.step config storage conversationId (.resume i clock)).1.tasks = m.tasks.set i (.stopping session toStop) := by
  show m.tasksAfter (.resume i clock) = _
  simp only [tasksAfter, htask]
  rfl

theorem ne_of_settled (htask : m.tasks[i]? = some (.stopping session (first :: toStop)))
    (hrecord : m.manager.recordsByChildSession.get child = some record) (hrunning : record.status ≠ "running")
    (hstopped : record.status ≠ "stopped")
    (hsettled : Settled (Machine.entry (step config storage conversationId) m (.resume i clock)))
    : child ≠ first := by
  rintro rfl
  rcases (settled_iff _).mp hsettled child .stopped (effect_resume htask) record hrecord with h | h
  . exact hrunning h
  . exact hstopped h

theorem not_settled_of_listed (clock : Nat → Clock) (htask : m.tasks[i]? = some (.stopping session toStop))
    (hchild : child ∈ toStop) (hrecord : m.manager.recordsByChildSession.get child = some record)
    (hrunning : record.status ≠ "running") (hstopped : record.status ≠ "stopped")
    : ¬∀ e ∈ Machine.transcript (step config storage conversationId) m (List.replicate toStop.length (.resume i clock)),
        Settled e := by
  induction toStop generalizing m record with
  | nil => cases hchild
  | cons first toStop ih =>
    intro hsettled
    rw [List.length_cons, List.replicate_succ, Machine.transcript, List.forall_mem_cons] at hsettled
    obtain ⟨hfirst, hrest⟩ := hsettled
    have hne := ne_of_settled htask hrecord hrunning hstopped hfirst
    obtain ⟨record', hrecord', hsame⟩ := hfirst child record hrecord hrunning
    rw [← hsame] at hrunning hstopped
    refine ih ?_ ((List.mem_cons.mp hchild).resolve_left hne) hrecord' hrunning hstopped hrest
    show (m.step config storage conversationId (.resume i clock)).1.tasks[i]? = _
    rw [tasks_resume htask, List.getElem?_set_self (List.getElem?_eq_some_iff.mp htask).1]

theorem listed_after (htask : m.tasks[i]? = some (.stopping session toStop)) (hchild : child ∈ toStop)
    (hrecord : m.manager.recordsByChildSession.get child = some record) (hrunning : record.status ≠ "running")
    (hstopped : record.status ≠ "stopped")
    (hsettled : Settled (Machine.entry (step config storage conversationId) m request))
    : ∃ toStop', (m.step config storage conversationId request).1.tasks[i]? = some (.stopping session toStop') ∧
        child ∈ toStop' := by
  cases request with
  | updateStatus => exact ⟨toStop, htask, hchild⟩
  | cascadeStop =>
    refine ⟨toStop, ?_, hchild⟩
    exact (List.getElem?_append_left (List.getElem?_eq_some_iff.mp htask).1).trans htask
  | resume j clock =>
    by_cases hsame : j = i
    . subst hsame
      obtain ⟨first, rest, rfl⟩ := List.exists_cons_of_ne_nil (List.ne_nil_of_mem hchild)
      have hne := ne_of_settled htask hrecord hrunning hstopped hsettled
      refine ⟨rest, ?_, (List.mem_cons.mp hchild).resolve_left hne⟩
      rw [tasks_resume htask, List.getElem?_set_self (List.getElem?_eq_some_iff.mp htask).1]
    . refine ⟨toStop, ?_, hchild⟩
      show (m.tasksAfter (.resume j clock))[i]? = _
      unfold tasksAfter
      dsimp only
      split
      . rw [List.getElem?_set_ne hsame, htask]
      . exact htask

omit [PyFloat F] in
theorem not_waits
    : ¬m.Waits ↔ ∃ (i : Nat) (session : String) (toStop : List String) (child : String) (record : SpawnRecord),
        m.tasks[i]? = some (.stopping session toStop) ∧ child ∈ toStop ∧
        m.manager.recordsByChildSession.get child = some record ∧ record.status ≠ "running" ∧
        record.status ≠ "stopped" := by
  unfold Waits
  push Not
  constructor
  . rintro ⟨session, toStop, htask, child, hchild, record, hrecord, hrunning, hstopped⟩
    obtain ⟨i, htask⟩ := List.mem_iff_getElem?.mp htask
    exact ⟨i, session, toStop, child, record, htask, hchild, hrecord, hrunning, hstopped⟩
  . rintro ⟨i, session, toStop, child, record, htask, hchild, hrecord, hrunning, hstopped⟩
    exact ⟨session, toStop, List.mem_of_getElem? htask, child, hchild, record, hrecord, hrunning, hstopped⟩

theorem not_waits_step (hwaits : ¬m.Waits)
    (hsettled : Settled (Machine.entry (step config storage conversationId) m request))
    : ¬(m.step config storage conversationId request).1.Waits := by
  obtain ⟨i, session, toStop, child, record, htask, hchild, hrecord, hrunning, hstopped⟩ := not_waits.mp hwaits
  obtain ⟨toStop', htask', hchild'⟩ := listed_after htask hchild hrecord hrunning hstopped hsettled
  obtain ⟨record', hrecord', hsame⟩ := hsettled child record hrecord hrunning
  rw [← hsame] at hrunning hstopped
  exact not_waits.mpr ⟨i, session, toStop', child, record', htask', hchild', hrecord', hrunning, hstopped⟩

theorem not_settled_of_not_waits (hwaits : ¬m.Waits) (requests : List Request)
    : ∃ resumes : List Request, (∀ request ∈ resumes, request.Resumes) ∧
        ¬∀ e ∈ Machine.transcript (step config storage conversationId) m (requests ++ resumes), Settled e := by
  induction requests generalizing m with
  | nil =>
    obtain ⟨i, session, toStop, child, record, htask, hchild, hrecord, hrunning, hstopped⟩ := not_waits.mp hwaits
    refine ⟨_, ?_, not_settled_of_listed (fun _ => ⟨0, 0⟩) htask hchild hrecord hrunning hstopped⟩
    intro request hmem
    exact ⟨i, _, List.eq_of_mem_replicate hmem⟩
  | cons request requests ih =>
    by_cases hsettled : Settled (Machine.entry (step config storage conversationId) m request)
    . obtain ⟨resumes, hresumes, hnot⟩ := ih (not_waits_step hwaits hsettled)
      refine ⟨resumes, hresumes, ?_⟩
      intro h
      rw [List.cons_append, Machine.transcript, List.forall_mem_cons] at h
      exact hnot h.2
    . refine ⟨[], by simp, ?_⟩
      intro h
      rw [List.cons_append, Machine.transcript, List.forall_mem_cons] at h
      exact hsettled h.1

theorem timely_of_settled
    (hsettled : Settled (Machine.entry (step config storage conversationId) m request))
    (hwaits : (m.step config storage conversationId request).1.Waits)
    : m.Timely request := by
  cases request with
  | updateStatus child status clock =>
    intro record hrecord
    have hallowed := (settled_iff _).mp hsettled child status rfl record hrecord
    refine ⟨hallowed, ?_⟩
    by_contra hnot
    push Not at hnot
    obtain ⟨hstatus, session, toStop, htask, hchild⟩ := hnot
    have hget :
        (m.step config storage conversationId (.updateStatus child status clock)).1.manager.recordsByChildSession.get
        child = some (record.withStatus status.text) := by
      rw [manager_step]
      show (m.manager.updateStatus child status.text).1.recordsByChildSession.get child = _
      rw [SpawnManager.get_updateStatus, if_pos rfl, hrecord, Option.map_some]
    have hended := hwaits session toStop htask child hchild _ hget
    revert hended hstatus
    show status ≠ .stopped → status.text = "running" ∨ status.text = "stopped" → False
    cases status <;> decide
  | _ => trivial

end Overtaken

/--
A run, with all that its cascades may still do, keeps the status of every record that has ended, and its agreement
with the run of the registry, if and only if every call of the run is timely.
-/
theorem statuses_kept_iff (config : RegistryConfig) (storage : Storage) (conversationId : String) (m : Mirrored F)
    (hm : m.Orderly storage conversationId) (requests : List Request)
    : (∀ resumes : List Request, (∀ request ∈ resumes, request.Resumes) →
        ∀ e ∈ Machine.transcript (step config storage conversationId) m (requests ++ resumes),
          Settled e ∧ Agrees conversationId e)
        ↔
      ∀ e ∈ Machine.transcript (step config storage conversationId) m requests, e.before.Timely e.request := by
  induction requests generalizing m with
  | nil =>
    apply iff_of_true
    . intro resumes hresumes
      apply Machine.forall_transcript (C := Timely) (I := fun m => m.Orderly storage conversationId)
        (P := fun e => Settled e ∧ Agrees conversationId e) (fun m request hm h => hm.step h) hm
      intro e he
      obtain ⟨i, clock, hrequest⟩ := hresumes e.request (Machine.request_mem_of_mem he)
      rw [hrequest]
      trivial
    . simp [Machine.transcript]
  | cons request requests ih =>
    rw [Machine.transcript, List.forall_mem_cons]
    constructor
    . intro h
      have hfirst (resumes : List Request) (hresumes : ∀ request ∈ resumes, request.Resumes) := h resumes hresumes
      simp only [List.cons_append, Machine.transcript, List.forall_mem_cons] at hfirst
      have hsettled := (hfirst [] (by simp)).1.1
      have hwaits : (m.step config storage conversationId request).1.Waits := by
        by_contra hnot
        obtain ⟨resumes, hresumes, hbroken⟩ :=
          @not_settled_of_not_waits _ _ config storage conversationId _ hnot requests
        exact hbroken fun e he => ((hfirst resumes hresumes).2 e he).1
      have htimely := timely_of_settled hsettled hwaits
      refine ⟨htimely, (ih _ (hm.step htimely).2).mp ?_⟩
      intro resumes hresumes
      exact (hfirst resumes hresumes).2
    . rintro ⟨htimely, hrest⟩ resumes hresumes
      rw [List.cons_append, Machine.transcript, List.forall_mem_cons]
      exact ⟨(hm.step htimely).1, (ih _ (hm.step htimely).2).mpr hrest resumes hresumes⟩

def twoSpawns : SpawnManager :=
  ((SpawnManager.empty 5).run (Tracked.spawn "a" "root")).1.run (Tracked.spawn "b" "root") |>.1

def twoRuns : List (SubagentRuns.Request Nat) := [
  ⟨.createRun "talk" "agent" "task" .empty "a" none none none, ⟨0, 0⟩⟩,
  ⟨.createRun "talk" "agent" "task" .empty "b" none none none, ⟨0, 0⟩⟩
]

def twoSessions : Mirrored Nat :=
  ⟨twoSpawns, Machine.final (Stored.step ⟨10, 60⟩ .memory) .empty twoRuns, []⟩

def runningRecord (child : String) : SpawnRecord :=
  SpawnRequest.record ⟨"agent", "agent", child, "project", .run, "", some "root", "", ""⟩ child 0

theorem records_twoSessions
    : twoSessions.manager.recordsByChildSession
        = (Dict.empty.set "a" (runningRecord "a")).set "b" (runningRecord "b") :=
  rfl

theorem get_twoSessions {child : String} {record : SpawnRecord}
    (h : twoSessions.manager.recordsByChildSession.get child = some record)
    : record.id = child ∧ record.status = "running" ∧ (child = "a" ∨ child = "b") := by
  rw [records_twoSessions, Dict.get_set, Dict.get_set, Dict.get_empty] at h
  split_ifs at h with hb ha
  . cases h
    exact ⟨hb.symm, rfl, .inr hb⟩
  . cases h
    exact ⟨ha.symm, rfl, .inl ha⟩

theorem mirrors_twoSessions : twoSessions.Mirrors .memory "talk" := by
  constructor
  . apply Machine.inv_final _ (Stored.sound_empty .memory)
    intro s request hs
    exact Stored.sound_step ⟨10, 60⟩ hs request
  . intro child child' record record' h h' heq
    rw [← (get_twoSessions h).1, ← (get_twoSessions h').1, heq]
  . intro child record h status hstatus
    obtain ⟨hid, hrunning, hchild⟩ := get_twoSessions h
    have hpending : statusOf twoSessions.stored "talk" record.id = some .pending := by
      rw [hid]
      rcases hchild with rfl | rfl
      . decide +kernel
      . decide +kernel
    rw [hpending] at hstatus
    cases hstatus
    rw [hrunning]
    exact .running rfl

def atZero : Nat → Clock :=
  fun _ => ⟨0, 0⟩

theorem orderly_twoSessions : twoSessions.Orderly .memory "talk" := by
  refine ⟨mirrors_twoSessions, ?_, ?_⟩
  . intro child record h
    have h : twoSessions.manager.recordsByChildSession.get child = some record := h
    rw [records_twoSessions, Dict.get_set, Dict.get_set, Dict.get_empty] at h
    split_ifs at h with hb ha
    . cases h
      exact hb.symm
    . cases h
      exact ha.symm
  . intro session toStop htask
    cases htask

theorem statuses_kept_earlyStop
    : (∀ resumes : List Request, (∀ request ∈ resumes, request.Resumes) →
        ∀ e ∈ Machine.transcript (step ⟨10, 60⟩ .memory "talk") twoSessions
          ([.cascadeStop "root" atZero, .updateStatus "a" .stopped atZero] ++ resumes),
          Settled e ∧ Agrees "talk" e) ∧
      ((Machine.final (step ⟨10, 60⟩ .memory "talk") twoSessions [.cascadeStop "root" atZero,
        .updateStatus "a" .stopped atZero, .resume 0 atZero]).manager.recordsByChildSession.get "a").map (·.status)
          = some "stopped" := by
  refine ⟨(statuses_kept_iff ⟨10, 60⟩ .memory "talk" twoSessions orderly_twoSessions
    [.cascadeStop "root" atZero, .updateStatus "a" .stopped atZero]).mpr ?_, rfl⟩
  simp only [Machine.transcript, List.forall_mem_cons]
  refine ⟨trivial, ?_, by simp⟩
  intro record hrecord
  have ha : (step ⟨10, 60⟩ .memory "talk" twoSessions (.cascadeStop "root" atZero)).1.manager.recordsByChildSession.get
      "a" = some (runningRecord "a") := by
    rfl
  have hsame : some record = some (runningRecord "a") := hrecord.symm.trans ha
  cases hsame
  exact ⟨.inl rfl, .inl rfl⟩

-- Here `a` completes before its turn comes.
def lateStop : List Request :=
  [.cascadeStop "root" atZero, .updateStatus "a" .completed atZero, .resume 0 atZero]

theorem completed_session_stopped
    : ¬∀ (config : RegistryConfig) (storage : Storage) (conversationId : String) (m : Mirrored Nat),
        m.Mirrors storage conversationId → ∀ (requests : List Request),
        ∀ e ∈ Machine.transcript (step config storage conversationId) m requests,
          Settled e ∧ Agrees conversationId e := by
  intro h
  have hlast := h ⟨10, 60⟩ .memory "talk" twoSessions mirrors_twoSessions lateStop
    (Machine.entry (step ⟨10, 60⟩ .memory "talk")
      (Machine.final (step ⟨10, 60⟩ .memory "talk") twoSessions (lateStop.take 2)) (.resume 0 atZero))
    (List.mem_of_getElem? (i := 2) rfl)
  have hbefore : (Machine.final (step ⟨10, 60⟩ .memory "talk") twoSessions
      (lateStop.take 2)).manager.recordsByChildSession.get "a" = some ((runningRecord "a").withStatus "completed") := by
    rfl
  obtain ⟨record, hrecord, hstatus⟩ := hlast.1 "a" _ hbefore (by decide)
  have hafter : (Machine.final (step ⟨10, 60⟩ .memory "talk") twoSessions
      lateStop).manager.recordsByChildSession.get "a" = some ((runningRecord "a").withStatus "stopped") := by
    rfl
  have hsame : some record = some ((runningRecord "a").withStatus "stopped") := hrecord.symm.trans hafter
  cases hsame
  exact absurd hstatus (by decide)

end Mirrored

end Spawn
end Agent
end MemStack
