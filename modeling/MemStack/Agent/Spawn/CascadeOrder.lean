import MemStack.Agent.Spawn.Depth
import MemStack.Util.Bfs

/-!
This module contains what a cascade stops and in which order, when nothing was cleaned up and nothing else runs
in between.
-/

namespace MemStack
namespace Agent
namespace Spawn

open Relation

namespace Links

variable {links : Links} {session : String} {fuel : Nat}

def sortedChildren (links : Links) (session : String) : List String :=
  (links.children session).insertionSort (· ≤ ·)

variable (hrecord : ∀ u, ∀ v ∈ links.sortedChildren u, (links.record v).isSome)

theorem foldl_visit {children : List String} (hchildren : ∀ v ∈ children, (links.record v).isSome) (t : Traversal)
    : children.foldl links.visit t =
        ⟨t.queue ++ Bfs.firsts t.visited children, (Bfs.firsts t.visited children).reverse ++ t.visited,
          t.result ++ (Bfs.firsts t.visited children).filterMap links.record⟩ := by
  induction children generalizing t with
  | nil => simp [Bfs.firsts]
  | cons child children ih =>
    rw [List.forall_mem_cons] at hchildren
    rw [List.foldl_cons, ih hchildren.2]
    unfold visit
    by_cases hvisited : child ∈ t.visited
    . rw [if_pos hvisited, Bfs.firsts_of_mem hvisited]
    . obtain ⟨record, hget⟩ := Option.isSome_iff_exists.mp hchildren.1
      rw [if_neg hvisited, Bfs.firsts_of_notMem hvisited, hget]
      simp [hget]

include hrecord

theorem traverse_eq {keys : List String} (hkeys : ∀ v, (links.record v).isSome → v ∈ keys) {t : Traversal}
    {expanded found : List String}
    (hinv : Bfs.Inv links.sortedChildren [session] session expanded t.queue found)
    (hvisited : ∀ v, v ∈ t.visited ↔ v ∈ [session] ∨ v ∈ found)
    (hresult : t.result = found.filterMap links.record) (hfuel : keys.length + 1 ≤ expanded.length + fuel)
    : ∃ expanded found, Bfs.Inv links.sortedChildren [session] session expanded [] found ∧
      links.traverse fuel t = found.filterMap links.record := by
  induction fuel generalizing t expanded found with
  | zero =>
    have hlength := hinv.length
    have hle : found.length ≤ keys.length := by
      apply (hinv.nodup.subperm _).length_le
      intro v hv
      obtain ⟨u, -, hedge⟩ := hinv.source v hv
      exact hkeys v (hrecord u v hedge)
    have hempty : t.queue = [] := by
      rw [← List.length_eq_zero_iff]
      omega
    rw [hempty] at hinv
    exact ⟨expanded, found, hinv, hresult⟩
  | succ fuel ih =>
    unfold traverse
    split
    . next hempty =>
      rw [hempty] at hinv
      exact ⟨expanded, found, hinv, hresult⟩
    . next current queue hqueue =>
      rw [hqueue] at hinv
      have hstep := hinv.step (Bfs.fresh_firsts hvisited (links.sortedChildren current))
      have hfold := foldl_visit (hrecord current) { t with queue }
      rw [sortedChildren] at hfold
      rw [hfold]
      apply ih hstep
      . intro v
        dsimp only
        rw [List.mem_append, List.mem_reverse, hvisited, List.mem_append, sortedChildren]
        tauto
      . dsimp only
        rw [List.filterMap_append, hresult, sortedChildren]
      . rw [List.length_append, List.length_singleton]
        omega

end Links

namespace SpawnManager

variable {s : SpawnManager} {session child : String}

def running (s : SpawnManager) (session : String) : Bool :=
  (s.recordsByChildSession.get session).any (·.status = "running")

def Keyed (s : SpawnManager) : Prop :=
  ∀ session record, s.recordsByChildSession.get session = some record → record.childSessionId = session

theorem get_updateStatus (s : SpawnManager) (child newStatus session : String)
    : (s.updateStatus child newStatus).1.recordsByChildSession.get session
        =
      if session = child then (s.recordsByChildSession.get child).map (·.withStatus newStatus)
      else s.recordsByChildSession.get session := by
  unfold updateStatus
  cases h : s.recordsByChildSession.get child with
  | none =>
    by_cases heq : session = child
    . rw [if_pos heq, heq]
      exact h
    . rw [if_neg heq]
  | some old =>
    dsimp only
    rw [Dict.get_set]
    rfl

theorem get_stopAll (s : SpawnManager) (children : List String) (session : String)
    : (s.stopAll children).recordsByChildSession.get session
        =
      if session ∈ children then (s.recordsByChildSession.get session).map (·.withStatus "stopped")
      else s.recordsByChildSession.get session := by
  induction children generalizing s with
  | nil => rfl
  | cons child children ih =>
    have hcons : s.stopAll (child :: children) = (s.updateStatus child "stopped").1.stopAll children := rfl
    rw [hcons, ih, get_updateStatus]
    by_cases heq : session = child
    . subst heq
      cases s.recordsByChildSession.get session <;> simp [SpawnRecord.withStatus]
    . simp [heq]

theorem Keyed.updateStatus (hkeyed : s.Keyed) (child newStatus : String)
    : (s.updateStatus child newStatus).1.Keyed := by
  intro session record h
  rw [get_updateStatus] at h
  split at h
  . next heq =>
    rw [Option.map_eq_some_iff] at h
    obtain ⟨old, hget, rfl⟩ := h
    rw [heq]
    exact hkeyed child old hget
  . exact hkeyed session record h

theorem get_registerSpawn {request : SpawnRequest} {id : String} {now : Int} {s' : SpawnManager}
    {record : SpawnRecord} (h : s.registerSpawn request id now = (s', .ok record)) (session : String)
    : s'.recordsByChildSession.get session
        =
      if session = request.childSessionId then some (request.record id now)
      else s.recordsByChildSession.get session := by
  unfold registerSpawn at h
  dsimp only at h
  split at h
  . cases h
  . split at h
    . cases h
      exact Dict.get_set _ _ _ _
    . cases h
      unfold addChild
      split <;> exact Dict.get_set _ _ _ _

theorem Keyed.registerSpawn {request : SpawnRequest} {id : String} {now : Int} {s' : SpawnManager}
    {record : SpawnRecord} (hkeyed : s.Keyed) (h : s.registerSpawn request id now = (s', .ok record))
    : s'.Keyed := by
  intro session record' hget
  rw [get_registerSpawn h] at hget
  split at hget
  . next heq =>
    cases hget
    exact heq.symm
  . exact hkeyed session record' hget

theorem toStop_eq (hkeyed : s.Keyed) {found : List String}
    (h : s.findDescendants session false = found.filterMap s.recordsByChildSession.get)
    : s.toStop session = found.reverse.filter s.running := by
  unfold toStop
  rw [h, ← List.filterMap_reverse]
  generalize found.reverse = sessions
  induction sessions with
  | nil => rfl
  | cons child sessions ih =>
    rw [List.filter_cons, running]
    cases hget : s.recordsByChildSession.get child with
    | none =>
      rw [List.filterMap_cons_none hget, ih]
      rfl
    | some record =>
      rw [List.filterMap_cons_some hget, List.filter_cons, Option.any_some]
      split
      . rw [List.map_cons, ih, hkeyed child record hget]
      . exact ih

theorem cascadeStop_eq (hnot : session ∉ s.toStop session)
    : s.cascadeStop session
        =
      (s.stopAll (s.toStop session ++ if s.running session then [session] else []),
        s.toStop session ++ if s.running session then [session] else []) := by
  have hroot : (s.stopAll (s.toStop session)).recordsByChildSession.get session
      = s.recordsByChildSession.get session := by
    rw [get_stopAll, if_neg hnot]
  unfold cascadeStop
  dsimp only
  rw [hroot, running]
  cases s.recordsByChildSession.get session with
  | none => simp
  | some root =>
    dsimp only
    rw [Option.any_some]
    by_cases hrunning : root.status = "running"
    . rw [if_pos hrunning, if_pos (decide_eq_true hrunning)]
      unfold stopAll
      rw [List.foldl_append]
      rfl
    . rw [if_neg hrunning, if_neg (by simpa using hrunning), List.append_nil]

end SpawnManager

namespace Tracked

variable {t : Tracked} {session : String}

def Spawned (t : Tracked) (parent child : String) : Prop :=
  t.parents.get child = some (some parent)

def Builds : Operation → Prop
  | .registerSpawn _ _ _ => True
  | .updateStatus _ _ => True
  | _ => False

structure Kept (t : Tracked) : Prop where
  linked : t.Linked
  keyed : t.manager.Keyed
  live : ∀ session, (t.parents.get session).isSome → t.manager.live session

theorem kept_empty (maxSpawnDepth : Int) : (empty maxSpawnDepth).Kept where
  linked := linked_empty maxSpawnDepth
  keyed := by
    intro session record h
    cases h
  live session h := by cases h

theorem Kept.step (hkept : t.Kept) {operation : Operation} (hbuilds : Builds operation)
    (hfresh : t.Fresh operation)
    : (t.step operation).1.Kept := by
  have hlinked := linked_step hkept.linked operation hfresh
  cases operation with
  | registerSpawn request id now =>
    rcases h : t.manager.registerSpawn request id now with ⟨manager, result⟩
    cases result with
    | error e =>
      rw [step_of_error h, (eq_of_error h).1]
      exact hkept
    | ok record =>
      rw [step_of_ok h] at hlinked ⊢
      refine ⟨hlinked, hkept.keyed.registerSpawn h, ?_⟩
      intro session hsome
      rw [parentsWith, Dict.get_set] at hsome
      rw [(SpawnManager.registered_of_ok h).live]
      split at hsome
      . next heq => exact .inl heq
      . exact .inr (hkept.live session hsome)
  | updateStatus child newStatus =>
    refine ⟨hlinked, hkept.keyed.updateStatus child newStatus, ?_⟩
    intro session hsome
    exact (SpawnManager.live_updateStatus t.manager child newStatus session).mpr (hkept.live session hsome)
  | cascadeStop session => exact hbuilds.elim
  | cleanupSession child => exact hbuilds.elim
  | cleanupProject project => exact hbuilds.elim

theorem kept_final (maxSpawnDepth : Int) {operations : List Operation}
    (hbuilds : ∀ operation ∈ operations, Builds operation)
    (hfresh : ∀ e ∈ Machine.transcript step (empty maxSpawnDepth) operations, e.before.Fresh e.request)
    : (Machine.final step (empty maxSpawnDepth) operations).Kept := by
  apply Machine.inv_transcript (C := fun (t : Tracked) (operation : Operation) => t.Fresh operation ∧ Builds operation)
    (I := fun _ (t : Tracked) => t.Kept) _ (kept_empty maxSpawnDepth)
  . intro e he
    exact ⟨hfresh e he, hbuilds _ (Machine.request_mem_of_mem he)⟩
  . intro _ t operation hkept h
    exact hkept.step h.2 h.1

theorem Kept.mem_sortedChildren (hkept : t.Kept) {u v : String}
    : v ∈ t.manager.links.sortedChildren u ↔ t.Spawned u v := by
  unfold Links.sortedChildren Spawned
  rw [List.mem_insertionSort]
  show v ∈ t.manager.children u ↔ _
  rw [hkept.linked.edge, and_iff_right_iff_imp]
  intro h
  apply hkept.live
  rw [h]
  rfl

theorem idxOf_lt_of_pairwise {R : String → String → Prop} {l : List String} (h : l.Pairwise fun a b => ¬R a b)
    (hself : ∀ a ∈ l, ¬R a a) {x y : String} (hx : x ∈ l) (hy : y ∈ l) (hR : R y x)
    : l.idxOf x < l.idxOf y := by
  have hltx := List.idxOf_lt_length_iff.mpr hx
  have hlty := List.idxOf_lt_length_iff.mpr hy
  by_contra hle
  rcases Nat.lt_or_eq_of_le (Nat.not_lt.mp hle) with hlt | heq
  . have hpair := List.pairwise_iff_getElem.mp h _ _ hlty hltx hlt
    rw [List.getElem_idxOf, List.getElem_idxOf] at hpair
    exact hpair hR
  . have hsame : y = x := List.idxOf_inj hy |>.mp heq
    rw [hsame] at hR
    exact hself x hx hR

theorem avoiding_of_path {R : String → String → Prop} {u v : String} (hpath : TransGen R u v)
    (hnot : ∀ w, TransGen R u w → w ≠ session)
    : TransGen (fun u v => R u v ∧ v ≠ session) u v := by
  induction hpath with
  | single h => exact .single ⟨h, hnot _ (.single h)⟩
  | tail hpath h ih => exact ih.tail ⟨h, hnot _ (hpath.tail h)⟩

def Below (t : Tracked) (root parent child : String) : Prop :=
  t.Spawned parent child ∧ child ≠ root

theorem not_below_root {root v : String} : ¬TransGen (t.Below root) v root := by
  intro hpath
  cases hpath with
  | single hlast => exact hlast.2 rfl
  | tail _ hlast => exact hlast.2 rfl

structure Found (t : Tracked) (root : String) (found : List String) : Prop where
  toStop : t.manager.toStop root = found.reverse.filter t.manager.running
  nodup : found.Nodup
  mem : ∀ v, v ∈ found ↔ v ≠ root ∧ TransGen t.Spawned root v
  ordered : found.Pairwise fun v u => ¬TransGen (t.Below root) u v
  not_self : ∀ v ∈ found, ¬TransGen (t.Below root) v v

theorem Kept.exists_found (hkept : t.Kept) (root : String) : ∃ found, t.Found root found := by
  have hspawned : (fun u v => v ∈ t.manager.links.sortedChildren u) = t.Spawned := by
    funext u v
    exact propext hkept.mem_sortedChildren
  have hbelow : (fun u v => v ∈ t.manager.links.sortedChildren u ∧ v ≠ root) = t.Below root := by
    funext u v
    rw [hkept.mem_sortedChildren]
    rfl
  have hunique : ∀ {u u' v}, v ∈ t.manager.links.sortedChildren u → v ∈ t.manager.links.sortedChildren u' → u = u' := by
    intro u u' v hu hu'
    rw [hkept.mem_sortedChildren] at hu hu'
    unfold Spawned at hu hu'
    rw [hu, Option.some_inj, Option.some_inj] at hu'
    exact hu'
  have hrecord : ∀ u, ∀ v ∈ t.manager.links.sortedChildren u, (t.manager.links.record v).isSome := by
    intro u v hv
    apply hkept.live
    rw [hkept.mem_sortedChildren, Spawned] at hv
    rw [hv]
    rfl
  have hkeys : ∀ v, (t.manager.links.record v).isSome → v ∈ t.manager.recordsByChildSession.keys := by
    intro v hv
    exact Dict.mem_keys.mpr (Option.isSome_iff_exists.mp hv)
  have hfuel : t.manager.recordsByChildSession.keys.length + 1 ≤ ([] : List String).length + t.manager.fuel := by
    simp [SpawnManager.fuel, Dict.keys]
  obtain ⟨expanded, found, hinv, hfound⟩ := Links.traverse_eq (t := ⟨[root], [root], []⟩) hrecord hkeys
    (Bfs.Inv.start _ [root] root) (by simp) rfl hfuel
  have hordered := hinv.pairwise_path hunique List.mem_cons_self
  have hself := fun v (hv : v ∈ found) => hinv.not_path_self hunique List.mem_cons_self hv
  rw [hbelow] at hordered hself
  refine ⟨found, SpawnManager.toStop_eq hkept.keyed hfound, hinv.nodup, ?_, hordered, hself⟩
  intro v
  rw [hinv.mem_iff (by simp), hspawned, List.mem_singleton]

structure Cascaded (t : Tracked) (session : String) (after : SpawnManager) (stopped : List String) : Prop where
  nodup : stopped.Nodup
  mem : ∀ child, child ∈ stopped ↔ t.manager.running child ∧ (child = session ∨ TransGen t.Spawned session child)
  ordered : ∀ child ∈ stopped, ∀ ancestor ∈ stopped, TransGen (t.Below session) ancestor child →
    stopped.idxOf child < stopped.idxOf ancestor
  ordered_all : ¬TransGen t.Spawned session session → ∀ child ∈ stopped, ∀ ancestor ∈ stopped,
    TransGen t.Spawned ancestor child → stopped.idxOf child < stopped.idxOf ancestor
  quiet : ∀ child ∈ stopped, after.running child = false
  unchanged : ∀ child, child ∉ stopped →
    after.recordsByChildSession.get child = t.manager.recordsByChildSession.get child

theorem Found.pairwise {root : String} {found last : List String} (hfound : t.Found root found)
    (hlast : last = [] ∨ last = [root])
    : (found.reverse.filter t.manager.running ++ last).Pairwise fun a b => ¬TransGen (t.Below root) a b := by
  rw [List.pairwise_append]
  refine ⟨(List.pairwise_reverse.mpr hfound.ordered).filter _, ?_, ?_⟩
  . rcases hlast with rfl | rfl <;> simp
  . intro a _ b hb
    rcases hlast with rfl | rfl
    . exact absurd hb List.not_mem_nil
    . rw [List.mem_singleton.mp hb]
      exact not_below_root

theorem Kept.cascaded (hkept : t.Kept) (session : String)
    : t.Cascaded session (t.manager.cascadeStop session).1 (t.manager.cascadeStop session).2 := by
  obtain ⟨found, hfound⟩ := hkept.exists_found session
  have hmem := hfound.mem
  have hnot : session ∉ t.manager.toStop session := by
    rw [hfound.toStop, List.mem_filter, List.mem_reverse, hmem]
    simp
  rw [SpawnManager.cascadeStop_eq hnot, hfound.toStop]
  have hlast : (if t.manager.running session then [session] else []) = [] ∨
      (if t.manager.running session then [session] else []) = [session] := by
    split
    . exact .inr rfl
    . exact .inl rfl
  have hpairs := hfound.pairwise hlast
  have hnodup : (found.reverse.filter t.manager.running ++
      if t.manager.running session then [session] else []).Nodup := by
    apply List.Nodup.append ((List.nodup_reverse.mpr hfound.nodup).filter _)
    . split <;> simp
    . intro a ha hroot
      rw [List.mem_filter, List.mem_reverse, hmem] at ha
      split at hroot
      . exact ha.1.1 (List.mem_singleton.mp hroot)
      . exact List.not_mem_nil hroot
  have hstopped : ∀ child, (child ∈ found.reverse.filter t.manager.running ++
      if t.manager.running session then [session] else []) ↔
        t.manager.running child ∧ (child = session ∨ TransGen t.Spawned session child) := by
    intro child
    rw [List.mem_append, List.mem_filter, List.mem_reverse, hmem]
    by_cases heq : child = session
    . subst heq
      by_cases hrunning : t.manager.running child <;> simp [hrunning]
    . by_cases hrunning : t.manager.running session <;> simp [hrunning, heq, and_comm]
  generalize (found.reverse.filter t.manager.running ++ if t.manager.running session then [session] else [])
    = stopped at hpairs hnodup hstopped ⊢
  have hself : ∀ a ∈ stopped, ¬TransGen (t.Below session) a a := by
    intro a ha
    by_cases heq : a = session
    . rw [heq]
      exact not_below_root
    . exact hfound.not_self a ((hmem a).mpr ⟨heq, ((hstopped a).mp ha).2.resolve_left heq⟩)
  refine ⟨hnodup, hstopped, ?_, ?_, ?_, ?_⟩
  . intro child hchild ancestor hancestor hpath
    exact idxOf_lt_of_pairwise hpairs hself hchild hancestor hpath
  . intro hacyclic child hchild ancestor hancestor hpath
    apply idxOf_lt_of_pairwise hpairs hself hchild hancestor
    apply avoiding_of_path hpath
    rintro w hw rfl
    rcases ((hstopped ancestor).mp hancestor).2 with rfl | hreach
    . exact hacyclic hw
    . exact hacyclic (hreach.trans hw)
  . intro child hchild
    unfold SpawnManager.running
    rw [SpawnManager.get_stopAll, if_pos hchild]
    cases t.manager.recordsByChildSession.get child with
    | none => rfl
    | some record => rfl
  . intro child hchild
    rw [SpawnManager.get_stopAll, if_neg hchild]

theorem cascade_stop_cascaded (maxSpawnDepth : Int) (operations : List Operation)
    (hbuilds : ∀ operation ∈ operations, Builds operation)
    (hfresh : ∀ e ∈ Machine.transcript step (empty maxSpawnDepth) operations, e.before.Fresh e.request)
    (session : String)
    : (Machine.final step (empty maxSpawnDepth) operations).Cascaded session
      ((Machine.final step (empty maxSpawnDepth) operations).manager.cascadeStop session).1
      ((Machine.final step (empty maxSpawnDepth) operations).manager.cascadeStop session).2 :=
  (kept_final maxSpawnDepth hbuilds hfresh).cascaded session

def finishedMiddle : List Operation :=
  [spawn "a" "root", spawn "b" "a", spawn "c" "b", .updateStatus "b" "completed"]

theorem cascade_stop_finished_middle
    : ((Machine.final step (empty 5) finishedMiddle).manager.cascadeStop "a").2 = ["c", "a"] ∧
      (Machine.final step (empty 5) finishedMiddle).Cascaded "a"
        ((Machine.final step (empty 5) finishedMiddle).manager.cascadeStop "a").1
        ((Machine.final step (empty 5) finishedMiddle).manager.cascadeStop "a").2 := by
  refine ⟨rfl, cascade_stop_cascaded 5 finishedMiddle ?_ ?_ "a"⟩
  . simp [finishedMiddle, spawn, Builds]
  . simp only [finishedMiddle, Machine.transcript, List.forall_mem_cons]
    exact ⟨rfl, rfl, rfl, trivial, by simp⟩

/--
Two sessions that name each other as their parents.
-/
theorem cascade_stop_cycle_unordered
    : ¬∀ (maxSpawnDepth : Int) (operations : List Operation), (∀ operation ∈ operations, Builds operation) →
        (∀ e ∈ Machine.transcript step (empty maxSpawnDepth) operations, e.before.Fresh e.request) →
        ∀ session stopped, stopped =
            ((Machine.final step (empty maxSpawnDepth) operations).manager.cascadeStop session).2 →
          ∀ child ∈ stopped, ∀ ancestor ∈ stopped,
            TransGen (Machine.final step (empty maxSpawnDepth) operations).Spawned ancestor child →
            stopped.idxOf child < stopped.idxOf ancestor := by
  intro h
  have hlt := h 5 [spawn "a" "b", spawn "b" "a"] (by simp [spawn, Builds])
    (by
      simp only [Machine.transcript, List.forall_mem_cons]
      exact ⟨rfl, rfl, by simp⟩)
    "a" ["b", "a"] rfl "a" (by simp) "b" (by simp) (.single rfl)
  exact absurd hlt (by decide)

end Tracked

end Spawn
end Agent
end MemStack
