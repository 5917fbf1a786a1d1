import MemStack.Workspace.Plan

/-!
This module contains what the operations of a plan do to its nodes, what it means that a plan passes its
structural checks, and what its topological order is: when there is one, and which of the nodes that could come next
is the next.
-/

namespace MemStack
namespace Workspace

open Checked

namespace Plan

variable {plan plan' : Plan} {node node' : PlanNode} {id : String}

theorem mem_values : node ∈ plan.nodes.values ↔ plan.nodes.get node.id = some node := by
  rw [Dict.mem_values]
  constructor
  . intro h
    rcases h with ⟨id, h⟩
    rw [plan.keyed id node h]
    exact h
  . intro h
    exact ⟨node.id, h⟩

theorem nodup_keys (plan : Plan) : plan.nodes.keys.Nodup :=
  plan.nodes.nodup

theorem mem_keys_of_get (h : plan.nodes.get id = some node) : id ∈ plan.nodes.keys :=
  Dict.mem_keys.mpr ⟨node, h⟩

@[simp]
theorem setNode_goalId : (plan.setNode node).goalId = plan.goalId := by
  rfl

theorem get_setNode (id : String)
    : (plan.setNode node).nodes.get id = if id = node.id then some node else plan.nodes.get id := by
  apply Dict.get_set

theorem mem_keys_setNode
    : id ∈ (plan.setNode node).nodes.keys ↔ id = node.id ∨ id ∈ plan.nodes.keys := by
  apply Dict.mem_keys_set

theorem replaceNode_eq_ok
    : plan.replaceNode node = .ok plan' ↔ node.id ∈ plan.nodes.keys ∧ plan' = plan.setNode node := by
  apply guarded_eq_ok

theorem addNode_eq_ok (hkind : node.kind ≠ .goal)
    : plan.addNode node = .ok plan'
        ↔
      node.id ∉ plan.nodes.keys ∧ node.planId = plan.id ∧
      (∃ parentId ∈ node.parentId, parentId ∈ plan.nodes.keys) ∧ plan.missingDeps node = ∅ ∧
      plan' = plan.setNode node := by
  unfold addNode
  simp only [bind_eq_ok, ensure_eq_ok, if_neg hkind, exists_const]
  simp only [pure, Except.pure, Except.ok.injEq]
  rw [eq_comm (a := plan')]

theorem missingDeps_eq_empty
    : plan.missingDeps node = ∅ ↔ ∀ dep ∈ node.dependsOn, dep ∈ plan.nodes.keys := by
  unfold missingDeps
  rw [Finset.filter_eq_empty_iff]
  simp

end Plan

structure Valid (plan : Plan) : Prop where
  goal : ∃ id node, plan.nodes.get id = some node ∧ node.kind = .goal
  parents : ∀ id node, plan.nodes.get id = some node →
    ∀ parentId ∈ node.parentId, parentId ∈ plan.nodes.keys
  deps : ∀ id node, plan.nodes.get id = some node → ∀ dep ∈ node.dependsOn, dep ∈ plan.nodes.keys
  ranked : ∃ rank : String → Nat, ∀ id node, plan.nodes.get id = some node →
    ∀ dep ∈ node.dependsOn, rank dep < rank id

namespace Plan

variable {plan : Plan}

theorem mem_dependents {u v : String}
    : v ∈ plan.dependents u ↔ ∃ node, plan.nodes.get v = some node ∧ u ∈ node.dependsOn := by
  unfold dependents
  simp only [List.mem_map, List.mem_filter, decide_eq_true_eq, mem_values]
  constructor
  . intro h
    rcases h with ⟨node, ⟨hget, hu⟩, rfl⟩
    exact ⟨node, hget, hu⟩
  . intro h
    rcases h with ⟨node, hget, hu⟩
    have hid := plan.keyed v node hget
    exact ⟨node, ⟨by rw [hid]; exact hget, hu⟩, hid⟩

theorem ids_eq_keys : plan.nodes.values.map (·.id) = plan.nodes.keys := by
  unfold Dict.values Dict.keys
  rw [List.map_map]
  apply List.map_congr_left
  intro e he
  exact plan.keyed e.1 e.2 (Dict.get_eq_some.mpr he)

theorem nodup_dependents (u : String) : (plan.dependents u).Nodup := by
  have hsub : (plan.dependents u).Sublist (plan.nodes.values.map (·.id)) :=
    List.filter_sublist.map _
  apply hsub.nodup
  rw [ids_eq_keys]
  exact plan.nodup_keys

theorem sum_indicator_eq_card (s : Finset String) {l : List String} (hl : l.Nodup)
    : (l.map fun u => if u ∈ s then 1 else 0).sum = (s.filter (· ∈ l)).card := by
  have hfilter : s.filter (· ∈ l) = (l.filter (· ∈ s)).toFinset := by
    ext u
    simp [and_comm]
  rw [hfilter, List.toFinset_card_of_nodup (hl.filter _)]
  clear hfilter hl
  induction l with
  | nil => rfl
  | cons u l ih =>
    rw [List.map_cons, List.sum_cons, ih, List.filter_cons]
    split <;> simp_all [Nat.add_comm]

theorem inDegree_eq (v : String)
    : plan.inDegree v = Kahn.edgesInto plan.dependents plan.nodes.keys v := by
  unfold inDegree Kahn.edgesInto
  cases hget : plan.nodes.get v with
  | none =>
    have hzero : ∀ u, (plan.dependents u).count v = 0 := by
      intro u
      rw [List.count_eq_zero, mem_dependents, hget]
      simp
    simp [hzero]
  | some node =>
    have hcount : ∀ u, (plan.dependents u).count v = if u ∈ node.dependsOn then 1 else 0 := by
      intro u
      rw [(nodup_dependents u).count]
      simp only [mem_dependents, hget, Option.some.injEq, exists_eq_left']
    simp only [hcount]
    rw [sum_indicator_eq_card _ plan.nodup_keys]

theorem dependents_subset (u : String) : plan.dependents u ⊆ plan.nodes.keys := by
  intro v hv
  rcases mem_dependents.mp hv with ⟨node, hget, _⟩
  apply mem_keys_of_get hget

theorem topologicalOrder_isOk_iff
    : (∃ order, plan.topologicalOrder = .ok order)
        ↔
      ∃ rank : String → Nat, ∀ u ∈ plan.nodes.keys, ∀ v ∈ plan.dependents u, rank u < rank v := by
  have hrun := Kahn.length_order_run_iff
    (fun q => List.perm_insertionSort (fun a b => plan.priorityOf b ≤ plan.priorityOf a) q)
    plan.nodup_keys (fun u _ => dependents_subset u) inDegree_eq
  rw [← hrun]
  unfold topologicalOrder
  simp only [bind_eq_ok, ensure_eq_ok, exists_const]
  simp only [pure, Except.pure, Except.ok.injEq, exists_and_left, exists_eq', and_true]

theorem nodeErrors_eq_nil_iff {node : PlanNode}
    : plan.nodeErrors node = []
        ↔
      (∀ parentId ∈ node.parentId, parentId ∈ plan.nodes.keys) ∧
      ∀ dep ∈ node.dependsOn, dep ∈ plan.nodes.keys := by
  unfold nodeErrors
  rw [List.append_eq_nil_iff, List.map_eq_nil_iff, ← missingDeps_eq_empty]
  have hsort : (plan.missingDeps node).sort (· ≤ ·) = [] ↔ plan.missingDeps node = ∅ := by
    rw [← List.length_eq_zero_iff, Finset.length_sort, Finset.card_eq_zero]
  rw [hsort]
  cases node.parentId with
  | none => simp
  | some parentId => simp

theorem validate_eq_nil_iff : plan.validate = [] ↔ Valid plan := by
  have hgoal : plan.findGoal.isNone = false
      ↔
    ∃ id node, plan.nodes.get id = some node ∧ node.kind = .goal := by
    unfold findGoal
    rw [Option.isNone_eq_false_iff, List.find?_isSome]
    simp only [mem_values, decide_eq_true_eq]
    constructor
    . intro h
      rcases h with ⟨node, hget, hkind⟩
      exact ⟨node.id, node, hget, hkind⟩
    . intro h
      rcases h with ⟨id, node, hget, hkind⟩
      exact ⟨node, by rw [plan.keyed id node hget]; exact hget, hkind⟩
  have hnodes : plan.nodes.values.flatMap plan.nodeErrors = []
      ↔
    ∀ id node, plan.nodes.get id = some node →
      (∀ parentId ∈ node.parentId, parentId ∈ plan.nodes.keys) ∧
      ∀ dep ∈ node.dependsOn, dep ∈ plan.nodes.keys := by
    rw [List.flatMap_eq_nil_iff]
    simp only [nodeErrors_eq_nil_iff, Dict.mem_values, forall_exists_index]
    exact forall_comm
  have horder : plan.cycleErrors = [] ↔ ∃ order, plan.topologicalOrder = .ok order := by
    unfold cycleErrors
    cases plan.topologicalOrder <;> simp
  unfold validate
  rw [List.append_eq_nil_iff, List.append_eq_nil_iff, horder, hnodes, topologicalOrder_isOk_iff]
  simp only [ite_eq_right_iff, List.cons_ne_nil, imp_false, Bool.not_eq_true, hgoal]
  constructor
  . intro h
    rcases h with ⟨⟨hgoal, rank, hrank⟩, hnodes⟩
    refine ⟨hgoal, fun id node hget => (hnodes id node hget).1,
      fun id node hget => (hnodes id node hget).2, rank, ?_⟩
    intro id node hget dep hdep
    apply hrank dep ((hnodes id node hget).2 dep hdep)
    exact mem_dependents.mpr ⟨node, hget, hdep⟩
  . intro h
    rcases h.ranked with ⟨rank, hrank⟩
    refine ⟨⟨h.goal, rank, ?_⟩, fun id node hget => ⟨h.parents id node hget, h.deps id node hget⟩⟩
    intro u _ v hv
    rcases mem_dependents.mp hv with ⟨node, hget, hdep⟩
    apply hrank v node hget u hdep

open Checked
open History

variable {u v : String}

def DependsOn (plan : Plan) (v u : String) : Prop :=
  u ∈ plan.nodes.keys ∧ ∃ node, plan.nodes.get v = some node ∧ u ∈ node.dependsOn

def Unblocked (plan : Plan) (before : List String) (v : String) : Prop :=
  v ∈ plan.nodes.keys ∧ ∀ u, plan.DependsOn v u → u ∈ before

theorem dependsOn_iff : plan.DependsOn v u ↔ u ∈ plan.nodes.keys ∧ v ∈ plan.dependents u := by
  unfold DependsOn
  rw [mem_dependents]

theorem topologicalOrder_eq_ok {order : List String}
    : plan.topologicalOrder = .ok order
        ↔
      order =
        (Kahn.run (fun queue => queue.insertionSort fun a b => plan.priorityOf b ≤ plan.priorityOf a)
          plan.nodes.keys plan.dependents plan.inDegree).order ∧
      order.length = plan.nodes.keys.length := by
  unfold topologicalOrder
  dsimp only
  rw [guarded_eq_ok]
  constructor
  . rintro ⟨hlength, rfl⟩
    exact ⟨rfl, hlength⟩
  . rintro ⟨rfl, hlength⟩
    exact ⟨hlength, rfl⟩

theorem priority_head {queue rest : List String} {a : String}
    (h : queue.insertionSort (fun a b => plan.priorityOf b ≤ plan.priorityOf a) = a :: rest)
    : ∀ b ∈ queue, plan.priorityOf b ≤ plan.priorityOf a := by
  have htotal : Std.Total fun a b => plan.priorityOf b ≤ plan.priorityOf a := by
    constructor
    intro a b
    exact Nat.le_total _ _
  have htrans : IsTrans String fun a b => plan.priorityOf b ≤ plan.priorityOf a := by
    constructor
    intro a b c hab hbc
    exact Nat.le_trans hbc hab
  have hsorted := List.pairwise_insertionSort (fun a b => plan.priorityOf b ≤ plan.priorityOf a) queue
  rw [h, List.pairwise_cons] at hsorted
  intro b hb
  rw [← List.mem_insertionSort fun a b => plan.priorityOf b ≤ plan.priorityOf a, h, List.mem_cons] at hb
  rcases hb with rfl | hb
  . exact Nat.le_refl _
  . exact hsorted.1 b hb

section Order

variable {order : List String} (h : plan.topologicalOrder = .ok order)
include h

theorem topologicalOrder_perm : order.Perm plan.nodes.keys := by
  rw [topologicalOrder_eq_ok] at h
  have hinv := Kahn.inv_run
    (fun q => List.perm_insertionSort (fun a b => plan.priorityOf b ≤ plan.priorityOf a) q)
    plan.nodup_keys (fun u _ => dependents_subset u) (fun v => le_of_eq (inDegree_eq v).symm)
  rw [h.1]
  apply (hinv.order_nodup.subperm hinv.order_subset).perm_of_length_le
  rw [← h.1, h.2]

theorem topologicalOrder_unblocked : AtEach (fun before v => plan.Unblocked before v) order := by
  have hperm := topologicalOrder_perm h
  rw [topologicalOrder_eq_ok] at h
  have hinv := Kahn.inv_run
    (fun q => List.perm_insertionSort (fun a b => plan.priorityOf b ≤ plan.priorityOf a) q)
    plan.nodup_keys (fun u _ => dependents_subset u) (fun v => le_of_eq (inDegree_eq v).symm)
  intro before v after hsplit
  constructor
  . rw [← hperm.mem_iff, hsplit]
    simp
  . intro u hdepends
    rw [dependsOn_iff] at hdepends
    rw [h.1] at hsplit
    exact hinv.ordered before v after hsplit u hdepends.1 hdepends.2

theorem topologicalOrder_arranged
    : AtEach
      (fun before v => ∀ w, w ∉ before → plan.Unblocked before w → plan.priorityOf w ≤ plan.priorityOf v)
      order := by
  rw [topologicalOrder_eq_ok] at h
  have harranged := Kahn.arranged_run
    (fun q => List.perm_insertionSort (fun a b => plan.priorityOf b ≤ plan.priorityOf a) q)
    plan.nodup_keys (fun u _ => dependents_subset u) inDegree_eq
    (R := fun a b => plan.priorityOf b ≤ plan.priorityOf a) (fun _ _ _ heq => priority_head heq)
  intro before v after hsplit w hnot hunblocked
  rw [h.1] at hsplit
  apply harranged before v after hsplit w hunblocked.1 hnot
  intro u hu hedge
  exact hunblocked.2 u (dependsOn_iff.mpr ⟨hu, hedge⟩)

end Order

theorem topologicalOrder_isOk_iff_acyclic
    : (∃ order, plan.topologicalOrder = .ok order) ↔ Waiting.Acyclic plan.DependsOn := by
  have hrun := Kahn.length_order_run_iff_acyclic
    (fun q => List.perm_insertionSort (fun a b => plan.priorityOf b ≤ plan.priorityOf a) q)
    plan.nodup_keys (fun u _ => dependents_subset u) inDegree_eq
  have hedges : plan.DependsOn = fun v u => u ∈ plan.nodes.keys ∧ v ∈ plan.dependents u := by
    funext v u
    exact propext dependsOn_iff
  rw [hedges, ← hrun]
  simp only [topologicalOrder_eq_ok, exists_eq_left]

/--
There is no order just when some node depends on itself through others. An order has each node once, after
all that it depends on, and none of the nodes that could stand there instead has a higher priority.
-/
theorem topological_order_correct (plan : Plan)
    : ((∃ error, plan.topologicalOrder = .error error) ↔ ∃ id, Relation.TransGen plan.DependsOn id id) ∧
      ∀ order, plan.topologicalOrder = .ok order →
        order.Perm plan.nodes.keys ∧ order.Nodup ∧
        AtEach (fun before v => plan.Unblocked before v ∧
          ∀ w, w ∉ before → plan.Unblocked before w → plan.priorityOf w ≤ plan.priorityOf v) order := by
  constructor
  . have hok : (∃ order, plan.topologicalOrder = .ok order) ↔ ∀ id, ¬Relation.TransGen plan.DependsOn id id :=
      topologicalOrder_isOk_iff_acyclic
    rw [← not_iff_not, not_exists, not_exists, ← hok]
    cases plan.topologicalOrder with
    | ok order => simp
    | error error => simp
  . intro order h
    have hperm := topologicalOrder_perm h
    refine ⟨hperm, hperm.nodup_iff.mpr plan.nodup_keys, ?_⟩
    intro before v after hsplit
    exact ⟨topologicalOrder_unblocked h before v after hsplit,
      topologicalOrder_arranged h before v after hsplit⟩

end Plan

end Workspace
end MemStack
