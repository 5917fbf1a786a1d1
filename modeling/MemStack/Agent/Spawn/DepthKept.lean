import MemStack.Agent.Spawn.Depth

/-!
This module contains when no session is spawned deeper than the limit: as long as nothing is spawned below a session
whose chain of records was cut by a cleanup.
-/

namespace MemStack
namespace Agent
namespace Spawn

inductive Above (parents : Dict String (Option String)) : Option String → String → Prop where
  | self (session : String) : Above parents (some session) session
  | step {session ancestor : String} {parent : Option String} (h : parents.get session = some parent)
    (habove : Above parents parent ancestor) : Above parents (some session) ancestor

section Lineage

variable {parents : Dict String (Option String)} {current parent : Option String} {child ancestor : String} {n m : Nat}

theorem Lineage.unique (h : Lineage parents current n) (h' : Lineage parents current m) : n = m := by
  induction h generalizing m with
  | top =>
    cases h'
    rfl
  | root hnone =>
    cases h' with
    | root => rfl
    | spawned hget =>
      rw [hnone] at hget
      cases hget
  | spawned hget _ ih =>
    obtain ⟨k, hk, rfl⟩ := (lineage_of_get hget).mp h'
    rw [ih hk]

theorem Lineage.above (h : Lineage parents current n) (habove : Above parents current ancestor)
    : ∃ m ≤ n, Lineage parents (some ancestor) m := by
  induction habove generalizing n with
  | self => exact ⟨n, Nat.le_refl n, h⟩
  | step hget _ ih =>
    obtain ⟨k, hk, rfl⟩ := (lineage_of_get hget).mp h
    obtain ⟨m, hm, hancestor⟩ := ih hk
    exact ⟨m, by omega, hancestor⟩

theorem get_set_of_get {session : String} (hfresh : parents.get child = none) (h : parents.get session = some parent)
    (parent' : Option String)
    : (parents.set child parent').get session = some parent := by
  rw [Dict.get_set, if_neg, h]
  rintro rfl
  rw [hfresh] at h
  cases h

theorem Above.set (h : Above parents current ancestor) (hfresh : parents.get child = none) (parent : Option String)
    : Above (parents.set child parent) current ancestor := by
  induction h with
  | self session => exact .self session
  | step hget _ ih => exact .step (get_set_of_get hfresh hget parent) ih

theorem Lineage.set (h : Lineage parents current n) (hfresh : parents.get child = none)
    (hnot : ∀ ancestor, Above parents current ancestor → ancestor ≠ child) (parent : Option String)
    : Lineage (parents.set child parent) current n := by
  induction h with
  | top => exact .top
  | root hnone =>
    apply Lineage.root
    rw [Dict.get_set, if_neg (hnot _ (.self _)), hnone]
  | spawned hget _ ih =>
    exact .spawned (get_set_of_get hfresh hget parent) (ih fun ancestor h => hnot ancestor (.step hget h))

theorem Lineage.register (h : Lineage parents current n) (hfresh : parents.get child = none)
    (hnot : ∀ ancestor, Above parents parent ancestor → ancestor ≠ child) (hparent : Lineage parents parent m)
    : ∃ n, Lineage (parents.set child parent) current n := by
  have hchild : Lineage (parents.set child parent) (some child) (m + 1) :=
    .spawned (by rw [Dict.get_set, if_pos rfl]) (hparent.set hfresh hnot parent)
  induction h with
  | top => exact ⟨0, .top⟩
  | @root session hnone =>
    by_cases heq : session = child
    . rw [heq]
      exact ⟨m + 1, hchild⟩
    . exact ⟨0, .root (by rw [Dict.get_set, if_neg heq, hnone])⟩
  | spawned hget _ ih =>
    obtain ⟨k, hk⟩ := ih
    exact ⟨k + 1, .spawned (get_set_of_get hfresh hget parent) hk⟩

theorem not_above_of_lineage (hfresh : parents.get child = none)
    (h : Lineage (parents.set child parent) (some child) n) (habove : Above parents parent ancestor)
    : ancestor ≠ child := by
  rintro rfl
  have hself : (parents.set ancestor parent).get ancestor = some parent := by rw [Dict.get_set, if_pos rfl]
  obtain ⟨k, hparent, rfl⟩ := (lineage_of_get hself).mp h
  obtain ⟨m, hm, hancestor⟩ := hparent.above (habove.set hfresh parent)
  have hsame := h.unique hancestor
  omega

theorem Above.ne_empty (h : Above parents current ancestor)
    (hnamed : ∀ session parent, parents.get session = some (some parent) → parent ≠ "") (hcurrent : current ≠ some "")
    : ancestor ≠ "" := by
  induction h with
  | self session =>
    rintro rfl
    exact hcurrent rfl
  | @step session ancestor parent hget _ ih =>
    apply ih
    rintro rfl
    exact hnamed session "" hget rfl

end Lineage

namespace Links

variable {links : Links} {parents : Dict String (Option String)} {current : Option String} {n : Nat}
  (hlinks : ∀ session, (links.record session).isSome → parents.get session = some (links.parent session))
include hlinks

theorem climb_whole (h : Lineage parents current n)
    (hwhole : ∀ session, Above parents current session →
      session ≠ "" ∧ ((parents.get session).isSome → (links.record session).isSome))
    {visited : List String} (hvisited : ∀ v ∈ visited, ∃ k, n < k ∧ Lineage parents (some v) k) {fuel : Nat}
    (hfuel : n ≤ fuel) (depth : Nat)
    : (links.climb fuel visited depth current).1 = depth + n := by
  induction h generalizing fuel visited depth with
  | top => cases fuel <;> rfl
  | @root session hnone =>
    cases fuel with
    | zero => rfl
    | succ fuel =>
      rw [climb]
      split
      . rfl
      . split
        . rfl
        . next hrecord =>
          have hget := hlinks session (by simpa [Option.isSome_iff_ne_none] using hrecord)
          rw [hnone] at hget
          cases hget
  | @spawned session parent n hget hparent ih =>
    obtain ⟨fuel, rfl⟩ := Nat.exists_eq_add_of_le' (Nat.le_trans (Nat.le_add_left 1 n) hfuel)
    have hlineage := Lineage.spawned hget hparent
    obtain ⟨hname, hrecord⟩ := hwhole session (.self session)
    have hrecord := hrecord (by rw [hget]; rfl)
    have hnew : session ∉ visited := by
      intro hmem
      obtain ⟨k, hlt, hk⟩ := hvisited session hmem
      have hsame := hlineage.unique hk
      omega
    have hsame := hlinks session hrecord
    rw [hget, Option.some_inj] at hsame
    rw [climb, if_neg (by simp [hname, hnew]), if_neg (by simpa [Option.isSome_iff_ne_none] using hrecord), ← hsame,
      ih (fun ancestor habove => hwhole ancestor (.step hget habove)) _ (by omega)]
    . omega
    . intro v hv
      rcases List.mem_cons.mp hv with rfl | hv
      . exact ⟨n + 1, Nat.lt_succ_self n, hlineage⟩
      . obtain ⟨k, hlt, hk⟩ := hvisited v hv
        exact ⟨k, by omega, hk⟩

theorem record_of_climb {fuel : Nat} {visited : List String} {depth : Nat} {session : String}
    (hend : Lineage parents (links.climb fuel visited depth current).2 0) (habove : Above parents current session)
    (hspawned : (parents.get session).isSome)
    : (links.record session).isSome := by
  have hstop {current : Option String} (h : Lineage parents current 0) (habove : Above parents current session)
      : (links.record session).isSome := by
    cases h with
    | top => cases habove
    | root hnone =>
      cases habove with
      | self =>
        rw [hnone] at hspawned
        cases hspawned
      | step hget =>
        rw [hnone] at hget
        cases hget
  induction fuel generalizing visited depth current with
  | zero => exact hstop hend habove
  | succ fuel ih =>
    cases current with
    | none => exact hstop hend habove
    | some first =>
      rw [climb] at hend
      split at hend
      . exact hstop hend habove
      . split at hend
        . exact hstop hend habove
        . next hrecord =>
          have hrecord : (links.record first).isSome := by simpa [Option.isSome_iff_ne_none] using hrecord
          cases habove with
          | self => exact hrecord
          | step hget habove =>
            rw [hlinks first hrecord, Option.some_inj] at hget
            rw [← hget] at habove
            exact ih hend habove

end Links

namespace Tracked

open SpawnManager

variable {t : Tracked} {current : Option String} {parent child : String} {request : SpawnRequest} {n : Nat}

def Whole (t : Tracked) (request : SpawnRequest) : Prop :=
  ∀ session, Above t.parents request.parent session →
    session ≠ request.childSessionId ∧ ((t.parents.get session).isSome → t.manager.live session)

def Allowed (t : Tracked) : Operation → Prop
  | .registerSpawn request _ _ =>
    t.manager.limit ≤ t.manager.computeDepthLocked request.parentSessionId ∨ t.Whole request
  | _ => True

structure Rooted (t : Tracked) : Prop where
  linked : t.Linked
  named : ∀ session parent, t.parents.get session = some (some parent) → parent ≠ ""
  lineage : ∀ current, ∃ n, Lineage t.parents current n

theorem parent_ne_empty (request : SpawnRequest) : request.parent ≠ some "" := by
  unfold SpawnRequest.parent
  intro h
  rw [Option.filter_eq_some_iff] at h
  exact absurd h.2 (by decide)

theorem Linked.parent_of_record (hlinked : t.Linked) (session : String)
    (h : (t.manager.links.record session).isSome)
    : t.parents.get session = some (t.manager.links.parent session) :=
  hlinked.parent h

theorem Linked.climb_of_whole (hlinked : t.Linked) (h : Lineage t.parents current n)
    (hwhole : ∀ session, Above t.parents current session →
      session ≠ "" ∧ ((t.parents.get session).isSome → t.manager.live session))
    : (t.manager.climb current).1 = n := by
  have hkeys : ∀ session, (t.manager.links.record session).isSome → session ∈ t.manager.recordsByChildSession.keys := by
    intro session hrecord
    obtain ⟨record, hget⟩ := Option.isSome_iff_exists.mp hrecord
    exact Dict.mem_keys.mpr ⟨record, hget⟩
  have hlength : t.manager.recordsByChildSession.keys.length = t.manager.recordsByChildSession.entries.length :=
    List.length_map _
  -- More steps than the walk has for its records change nothing.
  have hmore (k : Nat) : t.manager.links.climb (t.manager.fuel + k) [] 0 current = t.manager.climb current := by
    induction k with
    | zero => rfl
    | succ k ih =>
      rw [← ih, ← Nat.add_assoc]
      apply Links.climb_fuel _ hkeys List.nodup_nil (List.nil_subset _)
      unfold SpawnManager.fuel
      rw [hlength, List.length_nil]
      omega
  rw [← hmore n, Links.climb_whole hlinked.parent_of_record h hwhole (by simp) (Nat.le_add_left n _), Nat.zero_add]

theorem limit_registerSpawn (s : SpawnManager) (request : SpawnRequest) (id : String) (now : Int)
    : (s.registerSpawn request id now).1.limit = s.limit := by
  unfold SpawnManager.registerSpawn SpawnManager.limit
  dsimp only
  split
  . rfl
  . split
    . rfl
    . unfold addChild
      split <;> rfl

theorem rooted_empty (maxSpawnDepth : Int) : (empty maxSpawnDepth).Rooted := by
  refine ⟨linked_empty maxSpawnDepth, ?_, ?_⟩
  . intro session parent h
    cases h
  . intro current
    cases current with
    | none => exact ⟨0, .top⟩
    | some session => exact ⟨0, .root rfl⟩

theorem named_set (hnamed : ∀ session parent, t.parents.get session = some (some parent) → parent ≠ "")
    (request : SpawnRequest)
    : ∀ session parent, (t.parentsWith request).get session = some (some parent) → parent ≠ "" := by
  intro session parent hget
  rw [parentsWith, Dict.get_set] at hget
  split at hget
  . rintro rfl
    exact parent_ne_empty request (Option.some_inj.mp hget)
  . exact hnamed session parent hget

theorem Rooted.step (hrooted : t.Rooted) (operation : Operation) (hfresh : t.Fresh operation)
    (hallowed : t.Allowed operation)
    : DepthKept (Machine.entry step t operation) ∧ (t.step operation).1.Rooted := by
  have hlinked := linked_step hrooted.linked operation hfresh
  cases operation with
  | registerSpawn request id now =>
    rcases h : t.manager.registerSpawn request id now with ⟨manager, result⟩
    cases result with
    | error e =>
      rw [step_of_error h] at hlinked
      unfold DepthKept Machine.entry
      rw [step_of_error h]
      refine ⟨?_, hlinked, hrooted.named, hrooted.lineage⟩
      intro request' id' now' record _ hreply
      cases hreply
    | ok record =>
      have hdepth := (registered_of_ok h).depth
      have hwhole := hallowed.resolve_left (Nat.not_le.mpr hdepth)
      obtain ⟨m, hparent⟩ := hrooted.lineage request.parent
      have hnot : ∀ session, Above t.parents request.parent session → session ≠ request.childSessionId :=
        fun session habove => (hwhole session habove).1
      have hclimb := hrooted.linked.climb_of_whole hparent fun session habove =>
        ⟨habove.ne_empty hrooted.named (parent_ne_empty request), (hwhole session habove).2⟩
      rw [computeDepthLocked_parent, hclimb] at hdepth
      rw [step_of_ok h] at hlinked
      unfold DepthKept Machine.entry
      rw [step_of_ok h]
      refine ⟨?_, hlinked, named_set hrooted.named request, ?_⟩
      . intro request' id' now' record' hrequest _
        cases hrequest
        refine ⟨m + 1, hdepth, .spawned ?_ (hparent.set hfresh hnot request.parent)⟩
        rw [parentsWith, Dict.get_set, if_pos rfl]
      . intro current
        obtain ⟨k, hk⟩ := hrooted.lineage current
        exact hk.register hfresh hnot hparent
  | _ =>
    refine ⟨?_, hlinked, ?_, ?_⟩
    . intro request id now record hrequest
      cases hrequest
    . exact hrooted.named
    . exact hrooted.lineage

section Cut

def Cut (t : Tracked) (current : Option String) : Prop :=
  ∃ session, Above t.parents current session ∧ (t.parents.get session).isSome ∧ ¬t.manager.live session

theorem Cut.climb_lt (hcut : t.Cut current) (hlinked : t.Linked) (h : Lineage t.parents current n)
    : (t.manager.climb current).1 < n := by
  obtain ⟨session, habove, hspawned, hgone⟩ := hcut
  obtain ⟨m, hm, heq⟩ := ((Links.lineage_climb hlinked.parent_of_record t.manager.fuel [] 0 current).2 n).mp h
  have hpos : m ≠ 0 := by
    rintro rfl
    exact hgone (Links.record_of_climb hlinked.parent_of_record hm habove hspawned)
  unfold SpawnManager.climb
  omega

theorem cut_registered {manager : SpawnManager} (hcut : t.Cut request.parent)
    (hfresh : t.parents.get request.childSessionId = none) (h : Registered t.manager request manager)
    : Cut ⟨manager, t.parentsWith request⟩ (some request.childSessionId) := by
  obtain ⟨session, habove, hspawned, hgone⟩ := hcut
  have hne : session ≠ request.childSessionId := by
    rintro rfl
    rw [hfresh] at hspawned
    cases hspawned
  refine ⟨session, .step ?_ (habove.set hfresh request.parent), ?_, ?_⟩
  . show (t.parents.set request.childSessionId request.parent).get request.childSessionId = some request.parent
    rw [Dict.get_set, if_pos rfl]
  . show ((t.parents.set request.childSessionId request.parent).get session).isSome
    rwa [Dict.get_set, if_neg hne]
  . rw [h.live]
    tauto

def descend (parent : String) : List String → List Operation
  | [] => []
  | child :: names => spawn child parent :: descend child names

theorem exists_fresh (t : Tracked) : ∃ child, child ≠ "" ∧ t.parents.get child = none := by
  obtain ⟨child, hchild⟩ := Infinite.exists_notMem_finset (insert "" t.parents.keys.toFinset)
  rw [Finset.mem_insert, not_or, List.mem_toFinset, Dict.mem_keys] at hchild
  refine ⟨child, hchild.1, ?_⟩
  rw [← Option.not_isSome_iff_eq_none, Option.isSome_iff_exists]
  exact hchild.2

theorem parent_spawn (h : parent ≠ "")
    : SpawnRequest.parent ⟨"agent", "agent", child, "project", .run, "", some parent, "", ""⟩ = some parent := by
  unfold SpawnRequest.parent
  rw [Option.filter_some, if_pos (by simpa using h)]

theorem registered_of_kept {id : String} {now : Int}
    (hdepth : t.manager.computeDepthLocked request.parentSessionId < t.manager.limit)
    (hkept : DepthKept (Machine.entry step t (.registerSpawn request id now)))
    : ∃ manager record n, t.manager.registerSpawn request id now = (manager, .ok record) ∧ n ≤ t.manager.limit ∧
        Lineage (t.parentsWith request) (some request.childSessionId) n := by
  rcases h : t.manager.registerSpawn request id now with ⟨manager, result⟩
  cases result with
  | error e => exact absurd (eq_of_error h).2 (Nat.not_le.mpr hdepth)
  | ok record =>
    obtain ⟨n, hn, hlineage⟩ := hkept request id now record rfl (by dsimp only [Machine.entry]; rw [step_of_ok h])
    dsimp only [Machine.entry] at hlineage
    rw [step_of_ok h] at hlineage
    exact ⟨manager, record, n, rfl, hn, hlineage⟩

theorem registered_below_cut {id : String} {now : Int} (hlinked : t.Linked) (hcut : t.Cut request.parent)
    (hfresh : t.parents.get request.childSessionId = none)
    (hdepth : t.manager.computeDepthLocked request.parentSessionId < t.manager.limit)
    (hkept : DepthKept (Machine.entry step t (.registerSpawn request id now)))
    : (t.step (.registerSpawn request id now)).1.Linked ∧
      (t.step (.registerSpawn request id now)).1.manager.limit = t.manager.limit ∧
      (t.step (.registerSpawn request id now)).1.Cut (some request.childSessionId) ∧
      ∃ n ≤ t.manager.limit,
        Lineage (t.step (.registerSpawn request id now)).1.parents (some request.childSessionId) n ∧
        ∀ m, Lineage t.parents request.parent m → n = m + 1 := by
  have hnext := linked_step hlinked (.registerSpawn request id now) hfresh
  have hlimit := limit_registerSpawn t.manager request id now
  obtain ⟨manager, record, n, h, hn, hlineage⟩ := registered_of_kept hdepth hkept
  rw [h] at hlimit
  rw [step_of_ok h] at hnext ⊢
  refine ⟨hnext, hlimit, cut_registered hcut hfresh (registered_of_ok h), n, hn, hlineage, ?_⟩
  intro m hm
  have hself : (t.parentsWith request).get request.childSessionId = some request.parent := by
    rw [parentsWith, Dict.get_set, if_pos rfl]
  exact hlineage.unique (.spawned hself (hm.set hfresh (fun _ => not_above_of_lineage hfresh hlineage) request.parent))

theorem exists_too_deep (hlinked : t.Linked) (hparent : parent ≠ "") (hcut : t.Cut (some parent))
    (hlineage : Lineage t.parents (some parent) n) (hn : n ≤ t.manager.limit)
    : ∃ names, (∀ e ∈ Machine.transcript step t (descend parent names), e.before.Fresh e.request) ∧
        ¬∀ e ∈ Machine.transcript step t (descend parent names), DepthKept e := by
  obtain ⟨d, hd⟩ := Nat.exists_eq_add_of_le hn
  induction d generalizing t parent n with
  | zero =>
    obtain ⟨child, -, hfresh⟩ := t.exists_fresh
    refine ⟨[child], ?_, ?_⟩
    . rw [descend, Machine.transcript, List.forall_mem_cons]
      exact ⟨hfresh, by simp [descend, Machine.transcript]⟩
    . intro h
      have hkept := h _ List.mem_cons_self
      have hdepth := hcut.climb_lt hlinked hlineage
      obtain ⟨-, -, -, n', hn', -, hsame⟩ := registered_below_cut hlinked (by rwa [parent_spawn hparent]) hfresh
        (Nat.lt_of_lt_of_le hdepth hn) hkept
      rw [parent_spawn hparent] at hsame
      have hlong := hsame n hlineage
      omega
  | succ d ih =>
    obtain ⟨child, hchild, hfresh⟩ := t.exists_fresh
    by_cases hkept : DepthKept (Machine.entry step t (spawn child parent))
    . have hdepth := hcut.climb_lt hlinked hlineage
      obtain ⟨hlinked', hlimit, hcut', n', hn', hlineage', hsame⟩ := registered_below_cut hlinked
        (by rwa [parent_spawn hparent]) hfresh (Nat.lt_of_lt_of_le hdepth hn) hkept
      rw [parent_spawn hparent] at hsame
      have hlong := hsame n hlineage
      obtain ⟨names, hnames, hdeep⟩ := ih hlinked' hchild hcut' hlineage' (by omega) (by omega)
      refine ⟨child :: names, ?_, ?_⟩
      . rw [descend, Machine.transcript, List.forall_mem_cons]
        exact ⟨hfresh, hnames⟩
      . rw [descend, Machine.transcript, List.forall_mem_cons]
        exact fun h => hdeep h.2
    . refine ⟨[child], ?_, ?_⟩
      . rw [descend, Machine.transcript, List.forall_mem_cons]
        exact ⟨hfresh, by simp [descend, Machine.transcript]⟩
      . exact fun h => hkept (h _ List.mem_cons_self)

end Cut

-- An operation after which sessions with fresh ids can be spawned below a session until one is too deep, if the
-- operation itself has not spawned such a one.
def Exceeds (t : Tracked) (operation : Operation) (child : String) : Prop :=
  ∃ names, (∀ e ∈ Machine.transcript step t (operation :: descend child names), e.before.Fresh e.request) ∧
    ¬∀ e ∈ Machine.transcript step t (operation :: descend child names), DepthKept e

theorem exceeds_of_not_allowed {id : String} {now : Int} (hlinked : t.Linked)
    (hfresh : t.parents.get request.childSessionId = none) (hchild : request.childSessionId ≠ "")
    (hnot : ¬t.Allowed (.registerSpawn request id now))
    : t.Exceeds (.registerSpawn request id now) request.childSessionId := by
  unfold Exceeds
  simp only [Machine.transcript, List.forall_mem_cons]
  by_cases hkept : DepthKept (Machine.entry step t (.registerSpawn request id now))
  . obtain ⟨hlt, hwhole⟩ := not_or.mp hnot
    have hdepth := Nat.not_le.mp hlt
    obtain ⟨manager, record, n, h, hn, hlineage⟩ := registered_of_kept hdepth hkept
    have hcut : t.Cut request.parent := by
      unfold Whole at hwhole
      push Not at hwhole
      obtain ⟨session, habove, hgone⟩ := hwhole
      exact ⟨session, habove, hgone (not_above_of_lineage hfresh hlineage habove)⟩
    obtain ⟨hlinked', hlimit, hcut', n', hn', hlineage', -⟩ := registered_below_cut hlinked hcut hfresh hdepth hkept
    obtain ⟨names, hnames, hdeep⟩ := exists_too_deep hlinked' hchild hcut' hlineage' (by omega)
    exact ⟨names, ⟨hfresh, hnames⟩, fun h => hdeep h.2⟩
  . exact ⟨[], ⟨hfresh, by simp [descend, Machine.transcript]⟩, fun h => hkept h.1⟩

/--
In every run whose registrations are refused or below chains that no cleanup has cut, no session is deeper than the
limit. Any other registration is too deep itself, or sessions can be spawned below its own until one is.
-/
theorem depth_kept_of_whole (maxSpawnDepth : Int) (operations : List Operation)
    (hfresh : ∀ e ∈ Machine.transcript step (empty maxSpawnDepth) operations, e.before.Fresh e.request)
    : ((∀ e ∈ Machine.transcript step (empty maxSpawnDepth) operations, e.before.Allowed e.request) →
        ∀ e ∈ Machine.transcript step (empty maxSpawnDepth) operations, DepthKept e) ∧
      ∀ e ∈ Machine.transcript step (empty maxSpawnDepth) operations,
        ∀ request id now, e.request = .registerSpawn request id now → request.childSessionId ≠ "" →
          ¬e.before.Allowed e.request → e.before.Exceeds e.request request.childSessionId := by
  constructor
  . intro hallowed
    apply Machine.forall_transcript (C := fun t operation => t.Fresh operation ∧ t.Allowed operation) (I := Rooted)
      (P := DepthKept) _ (rooted_empty maxSpawnDepth)
    . intro e he
      exact ⟨hfresh e he, hallowed e he⟩
    . intro t operation hrooted h
      exact hrooted.step operation h.1 h.2
  . apply Machine.forall_transcript (C := Fresh) (I := Linked)
      (P := fun e => ∀ request id now, e.request = .registerSpawn request id now → request.childSessionId ≠ "" →
        ¬e.before.Allowed e.request → e.before.Exceeds e.request request.childSessionId)
      _ (linked_empty maxSpawnDepth) operations hfresh
    intro t operation hlinked hfresh
    refine ⟨?_, linked_step hlinked operation hfresh⟩
    intro request id now hrequest hchild hnot
    have hrequest : operation = .registerSpawn request id now := hrequest
    subst hrequest
    exact exceeds_of_not_allowed hlinked hfresh hchild hnot

def cleanedLeaf : List Operation :=
  [spawn "a" "root", spawn "b" "a", .cleanupSession "b", spawn "c" "a"]

theorem depth_kept_cleanedLeaf
    : (∀ e ∈ Machine.transcript step (empty 2) cleanedLeaf, DepthKept e) ∧
        (Machine.final step (empty 2) cleanedLeaf).parents.get "c" = some (some "a") := by
  have hroot {parents : Dict String (Option String)} (h : parents.get "root" = none) {session : String}
      (habove : Above parents (some "root") session) : session = "root" := by
    cases habove with
    | self => rfl
    | step hget =>
      rw [h] at hget
      cases hget
  have ha {parents : Dict String (Option String)} (h : parents.get "root" = none)
      (ha : parents.get "a" = some (some "root")) {session : String} (habove : Above parents (some "a") session)
      : session = "a" ∨ session = "root" := by
    cases habove with
    | self => exact .inl rfl
    | step hget habove =>
      rw [ha, Option.some_inj] at hget
      rw [← hget] at habove
      exact .inr (hroot h habove)
  refine ⟨(depth_kept_of_whole 2 cleanedLeaf ?_).1 ?_, rfl⟩
  . simp only [cleanedLeaf, Machine.transcript, List.forall_mem_cons]
    exact ⟨rfl, rfl, trivial, rfl, by simp⟩
  . simp only [cleanedLeaf, Machine.transcript, List.forall_mem_cons]
    refine ⟨.inr ?_, .inr ?_, trivial, .inr ?_, by simp⟩
    . intro session habove
      rw [hroot rfl habove]
      exact ⟨by decide, fun h => by cases h⟩
    . intro session habove
      rcases ha rfl rfl habove with rfl | rfl
      . exact ⟨by decide, fun _ => rfl⟩
      . exact ⟨by decide, fun h => by cases h⟩
    . intro session habove
      rcases ha rfl rfl habove with rfl | rfl
      . exact ⟨by decide, fun _ => rfl⟩
      . exact ⟨by decide, fun h => by cases h⟩

def cutChain : List Operation :=
  [spawn "a" "root", spawn "b" "a", spawn "c" "b", .cleanupSession "a", spawn "d" "c"]

theorem four_le_of_lineage {parents : Dict String (Option String)} {n : Nat}
    (hd : parents.get "d" = some (some "c")) (hc : parents.get "c" = some (some "b"))
    (hb : parents.get "b" = some (some "a")) (ha : parents.get "a" = some (some "root"))
    (h : Lineage parents (some "d") n)
    : 4 ≤ n := by
  obtain ⟨nc, hc', rfl⟩ := (lineage_of_get hd).mp h
  obtain ⟨nb, hb', rfl⟩ := (lineage_of_get hc).mp hc'
  obtain ⟨na, ha', rfl⟩ := (lineage_of_get hb).mp hb'
  obtain ⟨nroot, -, rfl⟩ := (lineage_of_get ha).mp ha'
  omega

theorem cutChain_too_deep
    : ¬∀ (maxSpawnDepth : Int) (operations : List Operation),
        (∀ e ∈ Machine.transcript step (empty maxSpawnDepth) operations, e.before.Fresh e.request) →
        ∀ e ∈ Machine.transcript step (empty maxSpawnDepth) operations, DepthKept e := by
  intro h
  have hkept := h 3 cutChain (by
    simp only [cutChain, Machine.transcript, List.forall_mem_cons]
    exact ⟨rfl, rfl, rfl, trivial, rfl, by simp⟩)
  have hlast := hkept (Machine.entry step (Machine.final step (empty 3) (cutChain.take 4)) (spawn "d" "c"))
    (List.mem_of_getElem? (i := 4) rfl)
  obtain ⟨n, hn, hlineage⟩ := hlast _ _ _ _ rfl rfl
  have hlong := four_le_of_lineage rfl rfl rfl rfl hlineage
  have hlimit : n ≤ 3 := hn
  omega

end Tracked

end Spawn
end Agent
end MemStack
