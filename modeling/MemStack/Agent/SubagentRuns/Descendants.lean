import MemStack.Agent.SubagentRuns.SnapshotRoundTrip
import MemStack.Util.Bfs
import MemStack.Util.Heap

/-!
This module contains the listing of the runs that descend from a run (`SubAgentRunRegistry.list_descendant_runs`)
by the parents that their metadata names, with a limit and without.
-/

namespace MemStack
namespace Agent
namespace SubagentRuns

open Relation

variable {F : Type}

-- The order of the items of the heap, `(-run.created_at.timestamp(), run.run_id, run)`.
def SubAgentRun.heapKey (run : SubAgentRun F) : Int ×ₗ String :=
  toLex (-run.createdAt, run.runId)

namespace Bucket

structure Search (F : Type) where
  queue : List String
  visited : List String
  descendants : List (SubAgentRun F)
  limitedDescendants : Array (SubAgentRun F)

section Visit

variable (includeTerminal : Bool) (cappedLimit : Option Nat)

def listed (run : SubAgentRun F) : Bool :=
  includeTerminal || run.status.isActive

def visit (s : Search F) (child : SubAgentRun F) : Search F :=
  if child.runId ∈ s.visited then s
  else
    let s := { s with visited := child.runId :: s.visited, queue := s.queue ++ [child.runId] }
    if listed includeTerminal child then
      match cappedLimit with
      | none => { s with descendants := s.descendants ++ [child] }
      | some capped =>
        { s with limitedDescendants := Heap.keep SubAgentRun.heapKey capped s.limitedDescendants child }
    else s

end Visit

def Filed (bucket : Bucket F) : Prop :=
  ∀ id run, bucket.get id = some run → run.runId = id

section Gathered

variable {bucket : Bucket F} {includeTerminal : Bool} {cappedLimit : Option Nat}

theorem mem_values_of_filed (hfiled : bucket.Filed) {run : SubAgentRun F}
    : run ∈ bucket.values ↔ bucket.get run.runId = some run := by
  rw [Dict.mem_values]
  constructor
  . rintro ⟨id, h⟩
    rw [hfiled id run h]
    exact h
  . intro h
    exact ⟨run.runId, h⟩

theorem heapKey_lt {a b : SubAgentRun F} (h : a.createdAt < b.createdAt) : b.heapKey < a.heapKey := by
  unfold SubAgentRun.heapKey
  rw [Prod.Lex.toLex_lt_toLex]
  left
  dsimp only
  omega

theorem filed_of_entries (h : ∀ e ∈ bucket.entries, e.2.runId = e.1) : bucket.Filed := by
  intro id run hget
  exact h (id, run) (Dict.get_eq_some.mp hget)

structure Gathered (includeTerminal : Bool) (cappedLimit : Option Nat) (found : List (SubAgentRun F))
    (s : Search F) : Prop where
  visited : ∀ id, id ∈ s.visited ↔ id ∈ found.map (·.runId)
  descendants : cappedLimit = none → s.descendants = found.filter (listed includeTerminal)
  limited : ∀ capped, cappedLimit = some capped → s.limitedDescendants =
    (found.filter (listed includeTerminal)).foldl (Heap.keep SubAgentRun.heapKey capped) #[]

def newRuns (seen : List String) : List (SubAgentRun F) → List (SubAgentRun F)
  | [] => []
  | run :: runs => if run.runId ∈ seen then newRuns seen runs else run :: newRuns (run.runId :: seen) runs

theorem map_newRuns (seen : List String) (runs : List (SubAgentRun F))
    : (newRuns seen runs).map (·.runId) = Bfs.firsts seen (runs.map (·.runId)) := by
  induction runs generalizing seen with
  | nil => rfl
  | cons run runs ih =>
    unfold newRuns
    rw [List.map_cons]
    by_cases hseen : run.runId ∈ seen
    . rw [if_pos hseen, Bfs.firsts_of_mem hseen, ih]
    . rw [if_neg hseen, Bfs.firsts_of_notMem hseen, List.map_cons, ih]

theorem newRuns_congr {seen seen' : List String} (h : ∀ id, id ∈ seen ↔ id ∈ seen') (runs : List (SubAgentRun F))
    : newRuns seen runs = newRuns seen' runs := by
  induction runs generalizing seen seen' with
  | nil => rfl
  | cons run runs ih =>
    have hcons : ∀ id, id ∈ run.runId :: seen ↔ id ∈ run.runId :: seen' := by
      intro id
      rw [List.mem_cons, List.mem_cons, h]
    unfold newRuns
    rw [ih h, ih hcons]
    exact if_congr (h run.runId) rfl rfl

theorem mem_of_mem_newRuns {seen : List String} {runs : List (SubAgentRun F)} {run : SubAgentRun F}
    (h : run ∈ newRuns seen runs)
    : run ∈ runs := by
  induction runs generalizing seen with
  | nil => exact h
  | cons first runs ih =>
    unfold newRuns at h
    split at h
    . exact List.mem_cons_of_mem _ (ih h)
    . rcases List.mem_cons.mp h with rfl | h
      . exact List.mem_cons_self
      . exact List.mem_cons_of_mem _ (ih h)

theorem Gathered.visit {found : List (SubAgentRun F)} {s : Search F}
    (h : Gathered includeTerminal cappedLimit found s) {child : SubAgentRun F} (hnew : child.runId ∉ s.visited)
    : Gathered includeTerminal cappedLimit (found ++ [child]) (visit includeTerminal cappedLimit s child) ∧
      (Bucket.visit includeTerminal cappedLimit s child).visited = child.runId :: s.visited ∧
      (Bucket.visit includeTerminal cappedLimit s child).queue = s.queue ++ [child.runId] := by
  have hvisited : ∀ id, id ∈ child.runId :: s.visited ↔ id ∈ (found ++ [child]).map (·.runId) := by
    intro id
    rw [List.mem_cons, h.visited, List.map_append, List.mem_append, List.map_singleton, List.mem_singleton]
    exact or_comm
  unfold Bucket.visit
  rw [if_neg hnew]
  dsimp only
  by_cases hlisted : listed includeTerminal child = true
  . rw [if_pos hlisted]
    have hfilter : (found ++ [child]).filter (listed includeTerminal)
        = found.filter (listed includeTerminal) ++ [child] := by
      rw [List.filter_append, List.filter_cons_of_pos hlisted, List.filter_nil]
    cases cappedLimit with
    | none =>
      refine ⟨⟨hvisited, ?_, ?_⟩, rfl, rfl⟩
      . intro _
        rw [hfilter, ← h.descendants rfl]
      . intro capped hcapped
        cases hcapped
    | some capped =>
      refine ⟨⟨hvisited, ?_, ?_⟩, rfl, rfl⟩
      . intro hnone
        cases hnone
      . intro capped' hcapped
        cases hcapped
        rw [hfilter, List.foldl_append, ← h.limited capped rfl]
        rfl
  . rw [if_neg hlisted]
    have hfilter : (found ++ [child]).filter (listed includeTerminal) = found.filter (listed includeTerminal) := by
      rw [List.filter_append, List.filter_cons_of_neg hlisted, List.filter_nil, List.append_nil]
    refine ⟨⟨hvisited, ?_, ?_⟩, rfl, rfl⟩
    . rw [hfilter]
      exact h.descendants
    . rw [hfilter]
      exact h.limited

theorem Gathered.foldl {found : List (SubAgentRun F)} {s : Search F}
    (h : Gathered includeTerminal cappedLimit found s) (children : List (SubAgentRun F))
    : Gathered includeTerminal cappedLimit (found ++ newRuns s.visited children)
        (children.foldl (Bucket.visit includeTerminal cappedLimit) s) ∧
      (children.foldl (Bucket.visit includeTerminal cappedLimit) s).queue =
        s.queue ++ (newRuns s.visited children).map (·.runId) := by
  induction children generalizing found s with
  | nil =>
    unfold newRuns
    rw [List.append_nil, List.map_nil, List.append_nil]
    exact ⟨h, rfl⟩
  | cons child children ih =>
    rw [List.foldl_cons]
    unfold newRuns
    by_cases hseen : child.runId ∈ s.visited
    . have hskip : Bucket.visit includeTerminal cappedLimit s child = s := if_pos hseen
      rw [if_pos hseen, hskip]
      exact ih h
    . obtain ⟨hnext, hvisited, hqueue⟩ := h.visit hseen
      obtain ⟨hgathered, hrest⟩ := ih hnext
      rw [if_neg hseen]
      rw [hvisited] at hgathered hrest
      rw [hqueue] at hrest
      refine ⟨?_, ?_⟩
      . rw [List.append_assoc] at hgathered
        exact hgathered
      . rw [hrest, List.append_assoc]
        rfl

end Gathered

end Bucket

variable [PyConversions F]

-- `str(run.metadata.get("parent_run_id") or "").strip()`
def SubAgentRun.parentRunId (run : SubAgentRun F) : String :=
  Text.strip (textOr ((run.metadata.get "parent_run_id").getD .null))

namespace Bucket

variable (bucket : Bucket F)

def childrenByParent (parentId : String) : List (SubAgentRun F) :=
  bucket.values.filter fun run => run.parentRunId ≠ "" ∧ run.parentRunId = parentId

def search (includeTerminal : Bool) (cappedLimit : Option Nat) : Nat → Search F → Search F
  | 0, s => s
  | fuel + 1, s =>
    match s.queue with
    | [] => s
    | current :: queue =>
      search includeTerminal cappedLimit fuel
        ((bucket.childrenByParent current).foldl (visit includeTerminal cappedLimit) { s with queue })

def listDescendantRuns (parentRunId : String) (includeTerminal : Bool) (limit : Option Int)
    : List (SubAgentRun F) :=
  let cappedLimit := limit.map Int.toNat
  if cappedLimit = some 0 then []
  else
    let s := bucket.search includeTerminal cappedLimit (bucket.entries.length + 1) ⟨[parentRunId], [], [], #[]⟩
    match cappedLimit with
    | none => Heap.sortBy (·.createdAt) s.descendants
    | some _ => Heap.sortBy (·.createdAt) s.limitedDescendants.toList

def Parent (parentId childId : String) : Prop :=
  ∃ run, bucket.get childId = some run ∧ run.parentRunId ≠ "" ∧ run.parentRunId = parentId

def childIds (parentId : String) : List String :=
  (bucket.childrenByParent parentId).map (·.runId)

def discover : Nat → List String → List (SubAgentRun F) → List (SubAgentRun F)
  | 0, _, found => found
  | _ + 1, [], found => found
  | fuel + 1, current :: queue, found =>
    let runs := newRuns (found.map (·.runId)) (bucket.childrenByParent current)
    discover fuel (queue ++ runs.map (·.runId)) (found ++ runs)

def discovered (parentRunId : String) : List (SubAgentRun F) :=
  bucket.discover (bucket.entries.length + 1) [parentRunId] []

variable {bucket}

theorem mem_childIds (hfiled : bucket.Filed) {parentId childId : String}
    : childId ∈ bucket.childIds parentId ↔ bucket.Parent parentId childId := by
  unfold childIds childrenByParent Parent
  simp only [List.mem_map, List.mem_filter, decide_eq_true_eq, mem_values_of_filed hfiled]
  constructor
  . rintro ⟨run, ⟨hget, hparent⟩, rfl⟩
    exact ⟨run, hget, hparent⟩
  . rintro ⟨run, hget, hparent⟩
    have hid := hfiled childId run hget
    exact ⟨run, ⟨by rw [hid]; exact hget, hparent⟩, hid⟩

theorem gathered_search (bucket : Bucket F) {includeTerminal : Bool} {cappedLimit : Option Nat} (fuel : Nat)
    {found : List (SubAgentRun F)} {s : Search F} (h : Gathered includeTerminal cappedLimit found s)
    : Gathered includeTerminal cappedLimit (bucket.discover fuel s.queue found)
        (bucket.search includeTerminal cappedLimit fuel s) := by
  induction fuel generalizing found s with
  | zero => exact h
  | succ fuel ih =>
    unfold search
    split
    . next hqueue =>
      rw [hqueue]
      exact h
    . next current queue hqueue =>
      have hpopped : Gathered includeTerminal cappedLimit found { s with queue } :=
        ⟨h.visited, h.descendants, h.limited⟩
      obtain ⟨hnext, hqueue'⟩ := hpopped.foldl (bucket.childrenByParent current)
      have hnew := newRuns_congr h.visited (bucket.childrenByParent current)
      have hrest := ih hnext
      rw [hqueue'] at hrest
      dsimp only at hrest
      rw [hnew] at hrest
      rw [hqueue]
      exact hrest

theorem discover_spec (hfiled : bucket.Filed) {root : String} {fuel : Nat} {queue expanded : List String}
    {found : List (SubAgentRun F)} (hinv : Bfs.Inv bucket.childIds [] root expanded queue (found.map (·.runId)))
    (hfound : ∀ run ∈ found, run ∈ bucket.values)
    (hfuel : bucket.entries.length + 1 ≤ expanded.length + fuel)
    : (∀ run ∈ bucket.discover fuel queue found, run ∈ bucket.values) ∧
      ∃ expanded, Bfs.Inv bucket.childIds [] root expanded [] ((bucket.discover fuel queue found).map (·.runId)) := by
  induction fuel generalizing queue expanded found with
  | zero =>
    have hlength := hinv.length
    have hle : (found.map (·.runId)).length ≤ bucket.entries.length := by
      have hsub : found.map (·.runId) ⊆ bucket.keys := by
        intro id hid
        rw [List.mem_map] at hid
        obtain ⟨run, hrun, rfl⟩ := hid
        exact Dict.mem_keys.mpr ⟨run, (mem_values_of_filed hfiled).mp (hfound run hrun)⟩
      have hkeys : bucket.keys.length = bucket.entries.length := List.length_map _
      rw [← hkeys]
      exact (hinv.nodup.subperm hsub).length_le
    have hempty : queue = [] := by
      rw [← List.length_eq_zero_iff]
      omega
    rw [hempty] at hinv
    exact ⟨hfound, expanded, hinv⟩
  | succ fuel ih =>
    cases queue with
    | nil => exact ⟨hfound, expanded, hinv⟩
    | cons current queue =>
      have hseen : ∀ id, id ∈ found.map (·.runId) ↔ id ∈ ([] : List String) ∨ id ∈ found.map (·.runId) := by
        simp
      have hfresh := Bfs.fresh_firsts hseen (bucket.childIds current)
      unfold childIds at hfresh
      rw [← map_newRuns] at hfresh
      have hstep := hinv.step hfresh
      rw [← List.map_append] at hstep
      unfold discover
      apply ih hstep
      . intro run hrun
        rcases List.mem_append.mp hrun with hrun | hrun
        . exact hfound run hrun
        . exact (List.mem_filter.mp (mem_of_mem_newRuns hrun)).1
      . rw [List.length_append, List.length_singleton]
        omega

section Discovered

variable (hfiled : bucket.Filed)
include hfiled

theorem discovered_spec (parentRunId : String)
    : ((bucket.discovered parentRunId).map (·.runId)).Nodup ∧
      ∀ run, run ∈ bucket.discovered parentRunId ↔
        bucket.get run.runId = some run ∧ TransGen bucket.Parent parentRunId run.runId := by
  have hstart : Bfs.Inv bucket.childIds [] parentRunId [] [parentRunId] (([] : List (SubAgentRun F)).map (·.runId)) :=
    Bfs.Inv.start bucket.childIds [] parentRunId
  obtain ⟨hvalues, expanded, hinv⟩ := discover_spec hfiled hstart (by simp) (Nat.le_add_left _ _)
  have hparent : (fun u v => v ∈ bucket.childIds u) = bucket.Parent := by
    funext u v
    exact propext (mem_childIds hfiled)
  have hmem := fun id => hinv.mem_iff (by simp) id
  rw [hparent] at hmem
  refine ⟨hinv.nodup, ?_⟩
  intro run
  constructor
  . intro hrun
    exact ⟨(mem_values_of_filed hfiled).mp (hvalues run hrun), ((hmem run.runId).mp (List.mem_map_of_mem hrun)).2⟩
  . rintro ⟨hget, hpath⟩
    have hid := (hmem run.runId).mpr ⟨by simp, hpath⟩
    rw [List.mem_map] at hid
    obtain ⟨other, hother, hid⟩ := hid
    have hget' := (mem_values_of_filed hfiled).mp (hvalues other hother)
    rw [hid, hget, Option.some_inj] at hget'
    rw [hget']
    exact hother

end Discovered

section Listing

variable (includeTerminal : Bool) (parentRunId : String)

theorem listDescendantRuns_none
    : bucket.listDescendantRuns parentRunId includeTerminal none =
      Heap.sortBy (·.createdAt) ((bucket.discovered parentRunId).filter (listed includeTerminal)) := by
  have hgathered := gathered_search bucket (bucket.entries.length + 1)
    (⟨by simp, fun _ => rfl, fun _ _ => rfl⟩ : Gathered includeTerminal none [] ⟨[parentRunId], [], [], #[]⟩)
  unfold listDescendantRuns
  exact congrArg _ (hgathered.descendants rfl)

theorem listDescendantRuns_some {limit : Int} (hlimit : 0 < limit)
    : bucket.listDescendantRuns parentRunId includeTerminal (some limit) =
      Heap.sortBy (·.createdAt) (((bucket.discovered parentRunId).filter (listed includeTerminal)).foldl
        (Heap.keep SubAgentRun.heapKey limit.toNat) #[]).toList := by
  have hgathered := gathered_search bucket (bucket.entries.length + 1)
    (⟨by simp, fun _ => rfl, fun _ _ => rfl⟩ :
      Gathered includeTerminal (some limit.toNat) [] ⟨[parentRunId], [], [], #[]⟩)
  have hne : limit.toNat ≠ 0 := by omega
  unfold listDescendantRuns
  dsimp only [Option.map_some]
  rw [if_neg (by simpa using hne)]
  exact congrArg (fun heap => Heap.sortBy (·.createdAt) heap.toList) (hgathered.limited limit.toNat rfl)

theorem listDescendantRuns_of_le {limit : Int} (hlimit : limit ≤ 0)
    : bucket.listDescendantRuns parentRunId includeTerminal (some limit) = [] := by
  have hzero : limit.toNat = 0 := by omega
  unfold listDescendantRuns
  dsimp only [Option.map_some]
  rw [hzero, if_pos rfl]

end Listing

structure Asked (bucket : Bucket F) (parentRunId : String) (includeTerminal : Bool) (run : SubAgentRun F) : Prop where
  stored : bucket.get run.runId = some run
  descends : TransGen bucket.Parent parentRunId run.runId
  listed : listed includeTerminal run = true

structure Listing (bucket : Bucket F) (parentRunId : String) (includeTerminal : Bool) : Prop where
  limited : ∀ limit, bucket.listDescendantRuns parentRunId includeTerminal (some limit) =
    (bucket.listDescendantRuns parentRunId includeTerminal none).take (max limit 0).toNat
  nodup : (bucket.listDescendantRuns parentRunId includeTerminal none).Nodup
  mem : ∀ run, run ∈ bucket.listDescendantRuns parentRunId includeTerminal none ↔
    bucket.Asked parentRunId includeTerminal run ∧ run.runId ≠ parentRunId

section Asked

variable {includeTerminal : Bool} {parentRunId : String} (hfiled : bucket.Filed)
include hfiled

theorem mem_asked {run : SubAgentRun F}
    : run ∈ (bucket.discovered parentRunId).filter (listed includeTerminal)
        ↔
      bucket.Asked parentRunId includeTerminal run := by
  rw [List.mem_filter, (discovered_spec hfiled parentRunId).2]
  constructor
  . rintro ⟨⟨hstored, hdescends⟩, hlisted⟩
    exact ⟨hstored, hdescends, hlisted⟩
  . rintro ⟨hstored, hdescends, hlisted⟩
    exact ⟨⟨hstored, hdescends⟩, hlisted⟩

theorem nodup_asked : ((bucket.discovered parentRunId).filter (listed includeTerminal)).Nodup :=
  (discovered_spec hfiled parentRunId).1.of_map _ |>.filter _

theorem mem_listDescendantRuns {run : SubAgentRun F}
    : run ∈ bucket.listDescendantRuns parentRunId includeTerminal none
        ↔
      bucket.Asked parentRunId includeTerminal run := by
  rw [listDescendantRuns_none, (Heap.perm_sortBy _ _).mem_iff, mem_asked hfiled]

theorem limited_iff
    : (∀ limit, bucket.listDescendantRuns parentRunId includeTerminal (some limit) =
        (bucket.listDescendantRuns parentRunId includeTerminal none).take (max limit 0).toNat)
        ↔
      ∀ a, bucket.Asked parentRunId includeTerminal a → ∀ b, bucket.Asked parentRunId includeTerminal b →
        a.createdAt = b.createdAt → a = b := by
  have hkey : ∀ a ∈ (bucket.discovered parentRunId).filter (listed includeTerminal),
      ∀ b ∈ (bucket.discovered parentRunId).filter (listed includeTerminal), a.heapKey = b.heapKey → a = b := by
    intro a ha b hb hkey
    have hid : a.runId = b.runId := congrArg Prod.snd (toLex.injective hkey)
    have hstored := ((mem_asked hfiled).mp ha).stored
    rw [hid, ((mem_asked hfiled).mp hb).stored, Option.some_inj] at hstored
    exact hstored.symm
  have hnodup : ((bucket.discovered parentRunId).filter (listed includeTerminal)).Nodup := nodup_asked hfiled
  have hrank : ∀ a b : SubAgentRun F, a.createdAt < b.createdAt → b.heapKey < a.heapKey :=
    fun _ _ => heapKey_lt
  have hforall := Heap.forall_take_iff hrank hnodup hkey
  simp only [mem_asked hfiled] at hforall
  rw [← hforall]
  constructor
  . intro h capped hcapped
    have hcut := h capped
    rw [listDescendantRuns_some _ _ (by omega), listDescendantRuns_none] at hcut
    rw [show (max (capped : Int) 0).toNat = capped by omega, Int.toNat_natCast] at hcut
    exact hcut
  . intro h limit
    by_cases hlimit : limit ≤ 0
    . rw [listDescendantRuns_of_le _ _ hlimit, show (max limit 0).toNat = 0 by omega, List.take_zero]
    . rw [listDescendantRuns_some _ _ (by omega), listDescendantRuns_none, show max limit 0 = limit by omega]
      exact h limit.toNat (by omega)

end Asked

theorem listing_iff (bucket : Bucket F) (hfiled : bucket.Filed) (parentRunId : String) (includeTerminal : Bool)
    : Listing bucket parentRunId includeTerminal
        ↔
      (∀ a, bucket.Asked parentRunId includeTerminal a → ∀ b, bucket.Asked parentRunId includeTerminal b →
        a.createdAt = b.createdAt → a = b) ∧
      ∀ run, bucket.Asked parentRunId includeTerminal run → run.runId ≠ parentRunId := by
  constructor
  . intro h
    refine ⟨(limited_iff hfiled).mp h.limited, ?_⟩
    intro run hrun
    exact ((h.mem run).mp ((mem_listDescendantRuns hfiled).mpr hrun)).2
  . rintro ⟨hdistinct, hstart⟩
    refine ⟨(limited_iff hfiled).mpr hdistinct, ?_, ?_⟩
    . rw [listDescendantRuns_none, (Heap.perm_sortBy _ _).nodup_iff]
      exact nodup_asked hfiled
    . intro run
      rw [mem_listDescendantRuns hfiled, iff_self_and]
      exact hstart run

def childRun (runId parentId : String) (createdAt : Int) (hnamed : isBlank runId = false) : SubAgentRun Nat where
  conversationId := "talk"
  subagentName := "coder"
  task := "build"
  runId := runId
  createdAt := createdAt
  metadata := Dict.empty.set "parent_run_id" (.str parentId)
  named := ⟨hnamed, by decide +kernel, by decide +kernel, by decide +kernel⟩

def siblings (createdAt : Int) : Bucket Nat :=
  ((Dict.empty.set "early" (childRun "early" "root" 0 (by decide +kernel))).set "late"
    (childRun "late" "root" createdAt (by decide +kernel))).set "leaf"
    (childRun "leaf" "late" 5 (by decide +kernel))

theorem entries_siblings (createdAt : Int) : (siblings createdAt).entries =
    [("early", childRun "early" "root" 0 (by decide +kernel)),
      ("late", childRun "late" "root" createdAt (by decide +kernel)),
      ("leaf", childRun "leaf" "late" 5 (by decide +kernel))] :=
  rfl

theorem filed_siblings (createdAt : Int) : (siblings createdAt).Filed := by
  apply filed_of_entries
  intro e he
  rw [entries_siblings, List.mem_cons, List.mem_cons, List.mem_singleton] at he
  rcases he with rfl | rfl | rfl <;> rfl

theorem listing_siblings : Listing (siblings 1) "root" true := by
  have hstored : ∀ run, (siblings 1).Asked "root" true run → (run.runId, run) ∈ (siblings 1).entries := by
    intro run hrun
    exact Dict.get_eq_some.mp hrun.stored
  simp only [entries_siblings, List.mem_cons, List.not_mem_nil, or_false, Prod.mk.injEq] at hstored
  apply (listing_iff (siblings 1) (filed_siblings 1) "root" true).mpr
  constructor
  . intro a ha b hb hcreated
    rcases hstored a ha with ⟨-, rfl⟩ | ⟨-, rfl⟩ | ⟨-, rfl⟩ <;>
      rcases hstored b hb with ⟨-, rfl⟩ | ⟨-, rfl⟩ | ⟨-, rfl⟩ <;>
        first | rfl | exact absurd hcreated (by decide)
  . intro run hrun
    rcases hstored run hrun with ⟨hid, -⟩ | ⟨hid, -⟩ | ⟨hid, -⟩ <;> rw [hid] <;> decide

/--
Of two runs that were created at the same time the limit keeps the one with the greater id.
-/
theorem limit_keeps_late_sibling
    : ¬∀ bucket : Bucket Nat, bucket.Filed → ∀ parentRunId includeTerminal,
        Listing bucket parentRunId includeTerminal := by
  intro h
  have hcut := (h (siblings 0) (filed_siblings 0) "root" true).limited 1
  have hlimited : ((siblings 0).listDescendantRuns "root" true (some 1)).map (·.runId) = ["late"] := by
    decide +kernel
  have hunlimited :
      ((siblings 0).listDescendantRuns "root" true none).map (·.runId) = ["early", "late", "leaf"] := by
    decide +kernel
  have hmap := congrArg (List.map (·.runId)) hcut
  rw [List.map_take, hlimited, hunlimited] at hmap
  exact absurd hmap (by decide)

end Bucket

end SubagentRuns
end Agent
end MemStack
