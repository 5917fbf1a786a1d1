import MemStack.Agent.Spawn.Manager
import MemStack.Util.Machine

/-!
This module contains how deep below a root a session can be spawned.
-/

namespace MemStack
namespace Agent
namespace Spawn

structure Tracked where
  manager : SpawnManager
  parents : Dict String (Option String)

inductive Lineage (parents : Dict String (Option String)) : Option String → Nat → Prop where
  | top : Lineage parents none 0
  | root {session : String} (h : parents.get session = none) : Lineage parents (some session) 0
  | spawned {session : String} {parent : Option String} {n : Nat} (h : parents.get session = some parent)
    (hparent : Lineage parents parent n) : Lineage parents (some session) (n + 1)

namespace Tracked

def empty (maxSpawnDepth : Int) : Tracked :=
  ⟨.empty maxSpawnDepth, .empty⟩

def step (t : Tracked) (operation : Operation) : Tracked × Reply :=
  let (manager, reply) := t.manager.run operation
  match operation, reply with
  | .registerSpawn request _ _, .registered (.ok _) =>
    (⟨manager, t.parents.set request.childSessionId request.parent⟩, reply)
  | _, _ => (⟨manager, t.parents⟩, reply)

abbrev Entry :=
  Machine.Entry Tracked Operation Reply

end Tracked

section Lineage

variable {parents : Dict String (Option String)} {session : String} {n : Nat}

theorem lineage_of_get {parent : Option String} (h : parents.get session = some parent)
    : Lineage parents (some session) n ↔ ∃ m, Lineage parents parent m ∧ n = m + 1 := by
  constructor
  . intro hlineage
    cases hlineage with
    | root hnone =>
      rw [h] at hnone
      cases hnone
    | spawned hget hparent =>
      rw [h] at hget
      cases hget
      exact ⟨_, hparent, rfl⟩
  . rintro ⟨m, hparent, rfl⟩
    exact .spawned h hparent

end Lineage

namespace Links

variable {links : Links} {parents : Dict String (Option String)}

theorem lineage_stay (parents : Dict String (Option String)) (current : Option String) (depth n : Nat)
    : Lineage parents current n ↔ ∃ m, Lineage parents current m ∧ depth + n = depth + m := by
  constructor
  . intro h
    exact ⟨n, h, rfl⟩
  . rintro ⟨m, h, heq⟩
    rwa [Nat.add_left_cancel heq]

theorem lineage_climb
    (hlinks : ∀ session, (links.record session).isSome → parents.get session = some (links.parent session))
    (fuel : Nat) (visited : List String) (depth : Nat) (current : Option String)
    : depth ≤ (links.climb fuel visited depth current).1 ∧
        ∀ n, Lineage parents current n
          ↔
        ∃ m, Lineage parents (links.climb fuel visited depth current).2 m ∧
          depth + n = (links.climb fuel visited depth current).1 + m := by
  induction fuel generalizing visited depth current with
  | zero => exact ⟨Nat.le_refl _, lineage_stay parents current depth⟩
  | succ fuel ih =>
    cases current with
    | none => exact ⟨Nat.le_refl _, lineage_stay parents none depth⟩
    | some session =>
      rw [climb]
      split
      . exact ⟨Nat.le_refl _, lineage_stay parents (some session) depth⟩
      . split
        . exact ⟨Nat.le_refl _, lineage_stay parents (some session) depth⟩
        . next hrecord =>
          have hparent := hlinks session (by simpa [Option.isSome_iff_ne_none] using hrecord)
          obtain ⟨hle, hiff⟩ := ih (session :: visited) (depth + 1) (links.parent session)
          refine ⟨by omega, ?_⟩
          intro n
          rw [lineage_of_get hparent]
          constructor
          . rintro ⟨m, hm, rfl⟩
            obtain ⟨m', hm', heq⟩ := (hiff m).mp hm
            exact ⟨m', hm', by omega⟩
          . rintro ⟨m, hm, heq⟩
            exact ⟨n - 1, (hiff (n - 1)).mpr ⟨m, hm, by omega⟩, by omega⟩

theorem climb_fuel (keys : List String) (hkeys : ∀ session, (links.record session).isSome → session ∈ keys)
    {fuel : Nat} {visited : List String} (hnodup : visited.Nodup) (hsub : visited ⊆ keys)
    (hfuel : keys.length < visited.length + fuel) (depth : Nat) (current : Option String)
    : links.climb (fuel + 1) visited depth current = links.climb fuel visited depth current := by
  induction fuel generalizing visited depth current with
  | zero =>
    have hle := (hnodup.subperm hsub).length_le
    omega
  | succ fuel ih =>
    cases current with
    | none => rfl
    | some session =>
      rw [climb, climb]
      split
      . rfl
      . next hstop =>
        split
        . rfl
        . next hrecord =>
          rw [not_or] at hstop
          apply ih
          . exact hnodup.cons hstop.2
          . intro x hx
            rw [List.mem_cons] at hx
            rcases hx with rfl | hx
            . exact hkeys x (by simpa [Option.isSome_iff_ne_none] using hrecord)
            . exact hsub hx
          . rw [List.length_cons]
            omega

end Links

namespace SpawnManager

variable {s : SpawnManager} {index : Dict String (List String)} {parent child session : String}

def live (s : SpawnManager) (session : String) : Prop :=
  (s.recordsByChildSession.get session).isSome

theorem isSome_eraseAll {records : Dict String SpawnRecord} {sessions : List String}
    : ((records.eraseAll sessions).get session).isSome ↔ session ∉ sessions ∧ (records.get session).isSome := by
  rw [Dict.get_eraseAll]
  split
  . next h => simp [h]
  . next h => simp [h]

theorem get_pruned (index : Dict String (List String)) (parent : String)
    : ((pruned index).get parent).getD [] = (index.get parent).getD [] := by
  rw [pruned, Dict.get_eraseAll]
  split
  . next hmem =>
    simp only [List.mem_map, List.mem_filter, List.isEmpty_iff] at hmem
    rcases hmem with ⟨⟨key, children⟩, ⟨hentry, hempty⟩, rfl⟩
    rw [Dict.get_eq_some.mpr hentry]
    exact hempty.symm
  . rfl

theorem mem_get_filtered (p : String → Bool)
    : child ∈ ((pruned (index.mapValues (·.filter p))).get parent).getD []
        ↔
      child ∈ (index.get parent).getD [] ∧ p child := by
  rw [get_pruned, Dict.get_mapValues]
  cases index.get parent <;> simp

theorem mem_children
    : child ∈ s.children parent
        ↔
      ∃ children, (parent, children) ∈ s.childrenByParent.entries ∧ child ∈ children := by
  unfold children
  cases h : s.childrenByParent.get parent with
  | none =>
    simp only [Option.getD_none, List.not_mem_nil, false_iff, not_exists, not_and]
    intro children hentry
    rw [← Dict.get_eq_some, h] at hentry
    cases hentry
  | some children =>
    constructor
    . intro hchild
      exact ⟨children, Dict.get_eq_some.mp h, hchild⟩
    . rintro ⟨children', hentry, hchild⟩
      rw [← Dict.get_eq_some, h] at hentry
      cases hentry
      exact hchild

theorem findParentSessionLocked_eq_some {s : SpawnManager} (h : s.findParentSessionLocked child = some parent)
    : child ∈ s.children parent := by
  rw [findParentSessionLocked, Option.map_eq_some_iff] at h
  obtain ⟨⟨key, children⟩, hfind, rfl⟩ := h
  exact mem_children.mpr ⟨children, List.mem_of_find?_eq_some hfind, by simpa using List.find?_some hfind⟩

theorem findParentSessionLocked_isSome (h : child ∈ s.children parent) : (s.findParentSessionLocked child).isSome := by
  obtain ⟨children, hentry, hchild⟩ := mem_children.mp h
  rw [findParentSessionLocked, Option.isSome_map, List.find?_isSome]
  exact ⟨(parent, children), hentry, by simpa using hchild⟩

theorem children_addChild (s : SpawnManager) (parent child parent' : String)
    : ∀ x, x ∈ (s.addChild parent child).children parent' ↔ x ∈ s.children parent' ∨ parent' = parent ∧ x = child := by
  intro x
  unfold addChild
  split
  . next hmem =>
    constructor
    . exact fun h => .inl h
    . rintro (h | ⟨rfl, rfl⟩)
      . exact h
      . exact hmem
  . by_cases heq : parent' = parent
    . subst heq
      simp [children, Dict.get_set]
    . simp [children, Dict.get_set, heq]

theorem live_updateStatus (s : SpawnManager) (child newStatus session : String)
    : (s.updateStatus child newStatus).1.live session ↔ s.live session := by
  unfold updateStatus live
  cases h : s.recordsByChildSession.get child with
  | none => rfl
  | some old =>
    dsimp only
    rw [Dict.get_set]
    split
    . next heq =>
      rw [heq, h]
      simp
    . rfl

theorem childrenByParent_updateStatus (s : SpawnManager) (child newStatus : String)
    : (s.updateStatus child newStatus).1.childrenByParent = s.childrenByParent := by
  unfold updateStatus
  split <;> rfl

structure SameLinks (s s' : SpawnManager) : Prop where
  live : ∀ session, s'.live session ↔ s.live session
  children : s'.childrenByParent = s.childrenByParent

theorem SameLinks.rfl : SameLinks s s :=
  ⟨fun _ => Iff.rfl, Eq.refl _⟩

theorem SameLinks.trans {s' s'' : SpawnManager} (h : SameLinks s s') (h' : SameLinks s' s'') : SameLinks s s'' :=
  ⟨fun session => (h'.live session).trans (h.live session), h'.children.trans h.children⟩

theorem sameLinks_updateStatus (s : SpawnManager) (child newStatus : String)
    : SameLinks s (s.updateStatus child newStatus).1 :=
  ⟨live_updateStatus s child newStatus, childrenByParent_updateStatus s child newStatus⟩

theorem sameLinks_stopAll (s : SpawnManager) (children : List String) : SameLinks s (s.stopAll children) := by
  induction children generalizing s with
  | nil => exact .rfl
  | cons child children ih => exact (sameLinks_updateStatus s child "stopped").trans (ih _)

theorem sameLinks_cascadeStop (s : SpawnManager) (session : String) : SameLinks s (s.cascadeStop session).1 := by
  have hstopped := sameLinks_stopAll s (s.toStop session)
  unfold cascadeStop
  dsimp only
  split
  . exact hstopped
  . split
    . exact hstopped.trans (sameLinks_updateStatus _ session "stopped")
    . exact hstopped

structure Registered (s : SpawnManager) (request : SpawnRequest) (s' : SpawnManager) : Prop where
  depth : s.computeDepthLocked request.parentSessionId < s.limit
  live : ∀ session, s'.live session ↔ session = request.childSessionId ∨ s.live session
  children : ∀ parent session, session ∈ s'.children parent ↔
    session ∈ s.children parent ∨ request.parent = some parent ∧ session = request.childSessionId

theorem registered_of_ok {request : SpawnRequest} {id : String} {now : Int} {s' : SpawnManager} {record : SpawnRecord}
    (h : s.registerSpawn request id now = (s', .ok record))
    : Registered s request s' := by
  unfold registerSpawn at h
  dsimp only at h
  split at h
  . cases h
  . next hdepth =>
    have hstored : ∀ session, ((s.recordsByChildSession.set request.childSessionId (request.record id now)).get
        session).isSome ↔ session = request.childSessionId ∨ s.live session := by
      intro session
      rw [Dict.get_set, live]
      split
      . next heq => simp [heq]
      . next hne => simp [hne]
    cases hparent : request.parent with
    | none =>
      rw [hparent] at h
      cases h
      refine ⟨by omega, hstored, ?_⟩
      intro parent session
      simp [children, hparent]
    | some parent =>
      rw [hparent] at h
      cases h
      refine ⟨by omega, ?_, ?_⟩
      . intro session
        rw [← hstored, live, addChild]
        split <;> rfl
      . intro parent' session
        rw [children_addChild, hparent, Option.some_inj]
        show session ∈ s.children parent' ∨ _ ↔ _
        rw [@eq_comm _ parent parent']

end SpawnManager

namespace Tracked

open SpawnManager

variable {t : Tracked}

structure Linked (t : Tracked) : Prop where
  spawned : ∀ session, t.manager.live session → (t.parents.get session).isSome
  edge : ∀ parent child, child ∈ t.manager.children parent ↔
    t.manager.live child ∧ t.parents.get child = some (some parent)

theorem linked_empty (maxSpawnDepth : Int) : (empty maxSpawnDepth).Linked := by
  constructor
  . intro session h
    cases h
  . intro parent child
    constructor
    . intro h
      cases h
    . rintro ⟨h, -⟩
      cases h

theorem Linked.parent {session : String} (hlinked : t.Linked) (h : t.manager.live session)
    : t.parents.get session = some (t.manager.findParentSessionLocked session) := by
  obtain ⟨parent, hparent⟩ := Option.isSome_iff_exists.mp (hlinked.spawned session h)
  rw [hparent, Option.some_inj]
  cases parent with
  | some parent =>
    have hsome := findParentSessionLocked_isSome ((hlinked.edge parent session).mpr ⟨h, hparent⟩)
    obtain ⟨parent', hfind⟩ := Option.isSome_iff_exists.mp hsome
    have hedge := ((hlinked.edge parent' session).mp (findParentSessionLocked_eq_some hfind)).2
    rw [hparent] at hedge
    rw [hfind]
    exact Option.some_inj.mp hedge
  | none =>
    cases hfind : t.manager.findParentSessionLocked session with
    | none => rfl
    | some parent' =>
      have hedge := ((hlinked.edge parent' session).mp (findParentSessionLocked_eq_some hfind)).2
      rw [hparent] at hedge
      cases hedge

theorem Linked.shrunk {manager : SpawnManager} (hlinked : t.Linked)
    (hlive : ∀ session, manager.live session → t.manager.live session)
    (hchildren : ∀ parent child, child ∈ manager.children parent ↔
      child ∈ t.manager.children parent ∧ manager.live child)
    : Linked ⟨manager, t.parents⟩ := by
  constructor
  . intro session h
    exact hlinked.spawned session (hlive session h)
  . intro parent child
    rw [hchildren, hlinked.edge]
    constructor
    . rintro ⟨⟨-, hparent⟩, h⟩
      exact ⟨h, hparent⟩
    . rintro ⟨h, hparent⟩
      exact ⟨⟨hlive child h, hparent⟩, h⟩

theorem Linked.same {manager : SpawnManager} (hlinked : t.Linked) (h : SameLinks t.manager manager)
    : Linked ⟨manager, t.parents⟩ := by
  apply hlinked.shrunk
  . intro session
    exact (h.live session).mp
  . intro parent child
    rw [h.live, SpawnManager.children, SpawnManager.children, h.children]
    constructor
    . intro hchild
      exact ⟨hchild, ((hlinked.edge parent child).mp hchild).1⟩
    . exact fun h => h.1

theorem live_cleanupSession {s : SpawnManager} {child : String} (h : s.live child) (session : String)
    : (s.cleanupSession child).live session ↔ s.live session ∧ session ≠ child ∧ session ∉ s.children child := by
  obtain ⟨record, hrecord⟩ := Option.isSome_iff_exists.mp h
  rw [SpawnManager.live, SpawnManager.cleanupSession, hrecord]
  dsimp only
  rw [isSome_eraseAll, Dict.get_erase, mem_get_filtered, decide_eq_true_eq, SpawnManager.live, SpawnManager.children]
  split
  . next heq => simp [heq]
  . next hne => tauto

theorem mem_children_cleanupSession {s : SpawnManager} {child : String} (h : s.live child) (parent session : String)
    : session ∈ (s.cleanupSession child).children parent
        ↔
      session ∈ s.children parent ∧ parent ≠ child ∧ session ≠ child := by
  obtain ⟨record, hrecord⟩ := Option.isSome_iff_exists.mp h
  rw [SpawnManager.children, SpawnManager.cleanupSession, hrecord]
  dsimp only
  rw [Dict.get_erase]
  split
  . next heq => simp [heq]
  . next hne =>
    rw [mem_get_filtered, decide_eq_true_eq, SpawnManager.children]
    tauto

theorem Linked.cleanupSession (hlinked : t.Linked) (child : String)
    : Linked ⟨t.manager.cleanupSession child, t.parents⟩ := by
  by_cases h : t.manager.live child
  . apply hlinked.shrunk
    . intro session hsession
      exact ((live_cleanupSession h session).mp hsession).1
    . intro parent session
      rw [live_cleanupSession h, mem_children_cleanupSession h]
      constructor
      . rintro ⟨hmem, hparent, hne⟩
        have hedge := (hlinked.edge parent session).mp hmem
        refine ⟨hmem, hedge.1, hne, ?_⟩
        intro horphan
        have hother := ((hlinked.edge child session).mp horphan).2
        rw [hedge.2, Option.some_inj, Option.some_inj] at hother
        exact hparent hother
      . rintro ⟨hmem, -, hne, horphan⟩
        refine ⟨hmem, ?_, hne⟩
        rintro rfl
        exact horphan hmem
  . have hsame : t.manager.cleanupSession child = t.manager := by
      rw [SpawnManager.live, Bool.not_eq_true, Option.isSome_eq_false_iff, Option.isNone_iff_eq_none] at h
      rw [SpawnManager.cleanupSession, h]
    rw [hsame]
    exact hlinked

theorem Linked.cleanupProject (hlinked : t.Linked) (project : String)
    : Linked ⟨(t.manager.cleanupProject project).1, t.parents⟩ := by
  apply hlinked.shrunk
  . intro session h
    exact (isSome_eraseAll.mp h).2
  . intro parent child
    unfold SpawnManager.cleanupProject
    rw [SpawnManager.children]
    dsimp only
    rw [mem_get_filtered, decide_eq_true_eq, Dict.mem_keys, SpawnManager.live, Option.isSome_iff_exists]
    rfl

theorem Linked.register {request : SpawnRequest} {manager : SpawnManager} (hlinked : t.Linked)
    (hfresh : t.parents.get request.childSessionId = none) (h : Registered t.manager request manager)
    : Linked ⟨manager, t.parents.set request.childSessionId request.parent⟩ := by
  have hnew : ∀ session, t.manager.live session → session ≠ request.childSessionId := by
    rintro session hlive rfl
    have hspawned := hlinked.spawned _ hlive
    rw [hfresh] at hspawned
    cases hspawned
  constructor
  . intro session hlive
    rw [Dict.get_set]
    split
    . rfl
    . next hne => exact hlinked.spawned session (((h.live session).mp hlive).resolve_left hne)
  . intro parent session
    rw [h.children, h.live, hlinked.edge, Dict.get_set]
    split
    . next heq =>
      have hold : ¬t.manager.live session := fun hlive => hnew session hlive heq
      rw [Option.some_inj]
      tauto
    . next hne => simp [hne]

def parentsWith (t : Tracked) (request : SpawnRequest) : Dict String (Option String) :=
  t.parents.set request.childSessionId request.parent

def Fresh (t : Tracked) : Operation → Prop
  | .registerSpawn request _ _ => t.parents.get request.childSessionId = none
  | _ => True

def DepthKept (e : Entry) : Prop :=
  ∀ request id now record, e.request = .registerSpawn request id now → e.reply = .registered (.ok record) →
    ∃ n ≤ e.before.manager.limit, Lineage e.after.parents (some request.childSessionId) n

theorem step_of_error {request : SpawnRequest} {id : String} {now : Int} {manager : SpawnManager}
    {e : SpawnDepthExceededError} (h : t.manager.registerSpawn request id now = (manager, .error e))
    : t.step (.registerSpawn request id now) = (⟨manager, t.parents⟩, .registered (.error e)) := by
  unfold step SpawnManager.run
  dsimp only
  rw [h]

theorem step_of_ok {request : SpawnRequest} {id : String} {now : Int} {manager : SpawnManager}
    {record : SpawnRecord} (h : t.manager.registerSpawn request id now = (manager, .ok record))
    : t.step (.registerSpawn request id now) = (⟨manager, t.parentsWith request⟩, .registered (.ok record)) := by
  unfold step SpawnManager.run
  dsimp only
  rw [h]
  rfl

theorem eq_of_error {request : SpawnRequest} {id : String} {now : Int} {manager : SpawnManager}
    {e : SpawnDepthExceededError} (h : t.manager.registerSpawn request id now = (manager, .error e))
    : manager = t.manager ∧ t.manager.limit ≤ t.manager.computeDepthLocked request.parentSessionId := by
  unfold SpawnManager.registerSpawn at h
  dsimp only at h
  split at h
  . next hdepth =>
    cases h
    exact ⟨rfl, hdepth⟩
  . split at h <;> cases h

theorem linked_step (hlinked : t.Linked) (operation : Operation) (hfresh : t.Fresh operation)
    : (t.step operation).1.Linked := by
  cases operation with
  | registerSpawn request id now =>
    rcases h : t.manager.registerSpawn request id now with ⟨manager, result⟩
    cases result with
    | error e =>
      rw [step_of_error h, (eq_of_error h).1]
      exact hlinked
    | ok record =>
      rw [step_of_ok h]
      exact hlinked.register hfresh (registered_of_ok h)
  | updateStatus child newStatus => exact hlinked.same (sameLinks_updateStatus t.manager child newStatus)
  | cascadeStop session => exact hlinked.same (sameLinks_cascadeStop t.manager session)
  | cleanupSession child => exact hlinked.cleanupSession child
  | cleanupProject project => exact hlinked.cleanupProject project

theorem computeDepthLocked_parent (s : SpawnManager) (request : SpawnRequest)
    : s.computeDepthLocked request.parentSessionId = (s.climb request.parent).1 := by
  unfold computeDepthLocked SpawnRequest.parent
  cases request.parentSessionId with
  | none => rfl
  | some session =>
    by_cases h : session = ""
    . subst h
      rfl
    . rw [Option.filter_some]
      simp [h]

def spawn (child parent : String) : Operation :=
  .registerSpawn ⟨"agent", "agent", child, "project", .run, "", some parent, "", ""⟩ child 0

end Tracked

end Spawn
end Agent
end MemStack
