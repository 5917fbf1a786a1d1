import MemStack.Util.Kahn
import MemStack.Workspace.Valid

/-!
This module contains the progress of a plan towards its goal (`workspace_plan/progress.py`). What a node is
estimated to take is given by its id. A float is the number that it stands for.
-/

namespace MemStack
namespace Workspace

open History

structure Effort where
  minutes : Int := 0
  minutes_nonneg : 0 ≤ minutes := by decide

structure GoalProgress where
  workspaceId : String
  planId : String
  goalNodeId : String
  totalNodes : Nat
  todoNodes : Nat
  inProgressNodes : Nat
  blockedNodes : Nat
  doneNodes : Nat
  percent : ℚ
  criticalPathRemainingMinutes : Int := 0
  counts : todoNodes + inProgressNodes + blockedNodes + doneNodes = totalNodes
  percent_mem : 0 ≤ percent ∧ percent ≤ 100

def roundHalfEven (q : ℚ) : Int :=
  if q - ⌊q⌋ < 1 / 2 ∨ q - ⌊q⌋ = 1 / 2 ∧ ⌊q⌋ % 2 = 0 then ⌊q⌋ else ⌊q⌋ + 1

-- `round(q, 2)`.
def roundCents (q : ℚ) : ℚ :=
  roundHalfEven (q * 100) / 100

theorem roundHalfEven_mem {q : ℚ} {n : Nat} (h : 0 ≤ q ∧ q ≤ n)
    : 0 ≤ roundHalfEven q ∧ roundHalfEven q ≤ n := by
  have hfloor : 0 ≤ ⌊q⌋ := Int.floor_nonneg.mpr h.1
  have hle : ⌊q⌋ ≤ (n : Int) := Int.floor_le_iff.mpr (lt_of_le_of_lt h.2 (by simp))
  unfold roundHalfEven
  split
  . exact ⟨hfloor, hle⟩
  . next hup =>
    refine ⟨by omega, ?_⟩
    rw [Int.add_one_le_iff]
    apply lt_of_le_of_ne hle
    intro heq
    apply hup
    left
    rw [heq]
    have := h.2
    push_cast
    linarith

theorem roundCents_mem {q : ℚ} (h : 0 ≤ q ∧ q ≤ 100) : 0 ≤ roundCents q ∧ roundCents q ≤ 100 := by
  have hround := roundHalfEven_mem (q := q * 100) (n := 10000) (by push_cast; constructor <;> linarith)
  have hlow : (0 : ℚ) ≤ roundHalfEven (q * 100) := by exact_mod_cast hround.1
  have hhigh : (roundHalfEven (q * 100) : ℚ) ≤ 10000 := by exact_mod_cast hround.2
  unfold roundCents
  constructor <;> linarith

-- The nearest float.
structure FloatRounding where
  nearest : ℚ → ℚ
  monotone : Monotone nearest
  natCast : ∀ n : Nat, n ≤ 100 → nearest n = n

theorem FloatRounding.mem (float : FloatRounding) {q : ℚ} {n : Nat} (hn : n ≤ 100) (h : 0 ≤ q ∧ q ≤ n)
    : 0 ≤ float.nearest q ∧ float.nearest q ≤ n := by
  have hlow := float.monotone h.1
  have hhigh := float.monotone h.2
  have hzero := float.natCast 0 (Nat.zero_le 100)
  rw [Nat.cast_zero] at hzero
  rw [hzero] at hlow
  rw [float.natCast n hn] at hhigh
  exact ⟨hlow, hhigh⟩

namespace PlanNode

def isExecutable (node : PlanNode) : Bool :=
  node.kind = .task ∨ node.kind = .verify

def isRemaining (node : PlanNode) : Bool :=
  node.intent ≠ .done ∧ node.isExecutable

end PlanNode

namespace Plan

variable (plan : Plan) (float : FloatRounding) (effort : String → Effort)

def executable : List PlanNode :=
  plan.nodes.values.filter (·.isExecutable)

def countIntent (intent : TaskIntent) : Nat :=
  plan.executable.countP (·.intent = intent)

def percentDone : ℚ :=
  if plan.executable.length ≠ 0 then
    float.nearest (float.nearest (plan.countIntent .done / plan.executable.length) * 100)
  else
    0

def baseOf (id : String) : Int :=
  match plan.nodes.get id with
  | some node =>
    if node.intent = .done ∨ ¬node.isExecutable then 0 else max 0 (effort node.id).minutes
  | none => 0

def depsOf (id : String) : Finset String :=
  ((plan.nodes.get id).map (·.dependsOn)).getD ∅

def criticalPathEta : Int :=
  match plan.topologicalOrder with
  | .error _ => 0
  | .ok order => (LongestChain.run (plan.baseOf effort) plan.depsOf order).values.max?.getD 0

theorem countIntent_sum
    : plan.countIntent .todo + plan.countIntent .inProgress + plan.countIntent .blocked +
        plan.countIntent .done = plan.executable.length := by
  unfold countIntent
  induction plan.executable with
  | nil => rfl
  | cons node rest ih =>
    simp only [List.countP_cons, List.length_cons]
    cases node.intent <;> simp <;> omega

theorem percentDone_mem : 0 ≤ plan.percentDone float ∧ plan.percentDone float ≤ 100 := by
  unfold percentDone
  split
  . next hne =>
    have hpos : (0 : ℚ) < plan.executable.length := by
      exact_mod_cast Nat.pos_of_ne_zero hne
    have hle : plan.countIntent .done / plan.executable.length ≤ ((1 : Nat) : ℚ) := by
      rw [Nat.cast_one, div_le_one hpos]
      exact_mod_cast List.countP_le_length
    have hshare := float.mem (by decide) ⟨by positivity, hle⟩
    rw [Nat.cast_one] at hshare
    exact float.mem (n := 100) (by decide) ⟨by linarith, by push_cast; linarith⟩
  . norm_num

def project : GoalProgress where
  workspaceId := plan.workspaceId
  planId := plan.id
  goalNodeId := plan.goalId
  totalNodes := plan.executable.length
  todoNodes := plan.countIntent .todo
  inProgressNodes := plan.countIntent .inProgress
  blockedNodes := plan.countIntent .blocked
  doneNodes := plan.countIntent .done
  percent := float.nearest (roundCents (plan.percentDone float))
  criticalPathRemainingMinutes := plan.criticalPathEta effort
  counts := plan.countIntent_sum
  percent_mem := float.mem (n := 100) (by decide) (roundCents_mem (plan.percentDone_mem float))

structure IsDependencyChain (path : List String) : Prop where
  mem : ∀ id ∈ path, id ∈ plan.nodes.keys
  linked : path.IsChain plan.DependsOn

def remainingMinutes (path : List String) : Int :=
  (((path.filterMap plan.nodes.get).filter (·.isRemaining)).map fun node => (effort node.id).minutes).sum

variable {plan effort} {order path : List String} {id : String}

theorem baseOf_nonneg : 0 ≤ plan.baseOf effort id := by
  unfold baseOf
  cases plan.nodes.get id with
  | none => rfl
  | some node =>
    dsimp only
    split
    . rfl
    . exact le_max_left _ _

theorem baseOf_of_get {node : PlanNode} (h : plan.nodes.get id = some node)
    : plan.baseOf effort id = if node.isRemaining then (effort node.id).minutes else 0 := by
  unfold baseOf PlanNode.isRemaining
  rw [h]
  dsimp only
  by_cases hdone : node.intent = .done
  . simp [hdone]
  . by_cases hexec : node.isExecutable
    . simp [hdone, hexec, (effort node.id).minutes_nonneg]
    . simp [hdone, hexec]

theorem sum_baseOf : (path.map (plan.baseOf effort)).sum = plan.remainingMinutes effort path := by
  unfold remainingMinutes
  induction path with
  | nil => rfl
  | cons id path ih =>
    rw [List.map_cons, List.sum_cons, ih]
    cases h : plan.nodes.get id with
    | none =>
      rw [List.filterMap_cons_none h]
      simp [baseOf, h]
    | some node =>
      rw [List.filterMap_cons_some h, baseOf_of_get h, List.filter_cons]
      split <;> simp

theorem mem_depsOf {u v : String} (hu : u ∈ plan.nodes.keys) : u ∈ plan.depsOf v ↔ plan.DependsOn v u := by
  unfold depsOf DependsOn
  cases plan.nodes.get v with
  | none => simp
  | some node => simp [hu]

theorem isChainIn_iff (hperm : order.Perm plan.nodes.keys)
    : LongestChain.IsChainIn plan.depsOf order path ↔ plan.IsDependencyChain path := by
  have hmem : (∀ id ∈ path, id ∈ order) ↔ ∀ id ∈ path, id ∈ plan.nodes.keys := by
    simp only [hperm.mem_iff]
  have hlinked : (∀ id ∈ path, id ∈ plan.nodes.keys) →
      (path.IsChain (fun v u => u ∈ plan.depsOf v) ↔ path.IsChain plan.DependsOn) := by
    intro hkeys
    induction path with
    | nil => simp
    | cons v path ih =>
      rw [List.forall_mem_cons] at hkeys
      rw [List.isChain_cons, List.isChain_cons, ih (by simp only [hperm.mem_iff]) hkeys.2]
      apply and_congr_left
      intro _
      apply forall₂_congr
      intro u hu
      rw [mem_depsOf (hkeys.2 u (List.mem_of_mem_head? hu))]
  unfold LongestChain.IsChainIn
  rw [hmem]
  constructor
  . rintro ⟨hkeys, hchain⟩
    exact ⟨hkeys, (hlinked hkeys).mp hchain⟩
  . rintro ⟨hkeys, hchain⟩
    exact ⟨hkeys, (hlinked hkeys).mpr hchain⟩

theorem ready_topologicalOrder (h : plan.topologicalOrder = .ok order)
    : AtEach (LongestChain.Ready plan.depsOf order) order := by
  have hperm := topologicalOrder_perm h
  have hnodup : order.Nodup := hperm.nodup_iff.mpr plan.nodup_keys
  intro before v after hsplit
  constructor
  . intro hv
    rw [hsplit, List.nodup_append] at hnodup
    exact hnodup.2.2 v hv v (by simp) rfl
  . intro u hu hmem
    rw [mem_depsOf (hperm.mem_iff.mp hmem)] at hu
    exact (topologicalOrder_unblocked h before v after hsplit).2 u hu

theorem isGreatest_criticalPathEta (h : plan.topologicalOrder = .ok order)
    : IsGreatest {minutes | ∃ path, plan.IsDependencyChain path ∧ plan.remainingMinutes effort path = minutes}
        (plan.criticalPathEta effort) := by
  have hgreatest := LongestChain.isGreatest_max (plan.baseOf effort) (fun _ => baseOf_nonneg)
    (ready_topologicalOrder h)
  simp only [isChainIn_iff (topologicalOrder_perm h), sum_baseOf] at hgreatest
  unfold criticalPathEta
  rw [h]
  exact hgreatest

theorem project_critical_path (hacyclic : Waiting.Acyclic plan.DependsOn) (effort : String → Effort)
    : IsGreatest {minutes | ∃ path, plan.IsDependencyChain path ∧ plan.remainingMinutes effort path = minutes}
        (plan.project float effort).criticalPathRemainingMinutes ∧
      (plan.project float effort).todoNodes + (plan.project float effort).inProgressNodes +
        (plan.project float effort).blockedNodes + (plan.project float effort).doneNodes =
          (plan.project float effort).totalNodes := by
  obtain ⟨order, horder⟩ := topologicalOrder_isOk_iff_acyclic.mpr hacyclic
  exact ⟨isGreatest_criticalPathEta horder, (plan.project float effort).counts⟩

def buildAndTest : Plan where
  id := "p"
  workspaceId := "w"
  goalId := "g"
  nodes := ⟨[("g", { id := "g", planId := "p", kind := .goal, title := "ship" }),
    ("a", { id := "a", planId := "p", parentId := some "g", title := "build" }),
    ("b", { id := "b", planId := "p", parentId := some "g", title := "test", dependsOn := {"a", "x"} })],
    by decide⟩
  keyed id node h := by
    simp only [Dict.get, List.find?_cons, List.find?_nil] at h
    grind

def exactFloats : FloatRounding :=
  ⟨fun q => q, fun _ _ h => h, fun _ _ => rfl⟩

theorem project_critical_path_of_two
    : IsGreatest {minutes | ∃ path, buildAndTest.IsDependencyChain path ∧
          buildAndTest.remainingMinutes (fun _ => { minutes := 5 }) path = minutes}
        (10 : Int) ∧ 2 + 0 + 0 + 0 = 2 := by
  have hacyclic : Waiting.Acyclic buildAndTest.DependsOn :=
    topologicalOrder_isOk_iff_acyclic.mp ⟨["g", "a", "b"], by decide +kernel⟩
  have heta : (buildAndTest.project exactFloats fun _ => { minutes := 5 }).criticalPathRemainingMinutes = 10 := by
    decide +kernel
  have h := project_critical_path exactFloats hacyclic fun _ => { minutes := 5 }
  rw [heta] at h
  exact h

end Plan

end Workspace
end MemStack
