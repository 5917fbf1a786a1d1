import MemStack.Util.Bfs
import MemStack.Workspace.Valid

/-!
This module contains the tree that the nodes of a plan form when they are added one after the other, and the
descendants of a node in it.
-/

namespace MemStack
namespace Workspace

open Checked
open History
open Relation

namespace Plan

variable {plan plan' : Plan} {node : PlanNode} {id parentId : String}

-- The loop of `descendants_of`, which has no memory of the nodes that it has been at.
def descend (plan : Plan) : Nat → List String → List PlanNode → Option (List PlanNode)
  | _, [], out => some out
  | 0, _ :: _, _ => none
  | fuel + 1, id :: stack, out =>
    match plan.nodes.get id with
    | none => plan.descend fuel stack out
    | some node => plan.descend fuel (stack ++ (plan.childrenOf id).map (·.id)) (out ++ [node])

def descendantsOf (plan : Plan) (fuel : Nat) (id : String) : Option (List PlanNode) :=
  plan.descend fuel ((plan.childrenOf id).map (·.id)) []

def build (id workspaceId goalId : String) (nodes : List PlanNode) : Plan :=
  nodes.foldl (fun plan node => (plan.addNode node).toOption.getD plan) { id, workspaceId, goalId }

def parentOf (plan : Plan) (id : String) : Option String :=
  (plan.nodes.get id).bind (·.parentId)

inductive AtDepth (plan : Plan) : String → Nat → Prop where
  | goal (h : plan.goalId ∈ plan.nodes.keys) : AtDepth plan plan.goalId 0
  | child {id parentId : String} {depth : Nat} (hparent : plan.parentOf id = some parentId)
    (h : AtDepth plan parentId depth) : AtDepth plan id (depth + 1)

structure Follows (goalId : String) (before : List String) (node : PlanNode) : Prop where
  goal : node.kind = .goal → node.id = goalId
  parent : ∀ parentId ∈ node.parentId, parentId ∈ before
  deps : ∀ dep ∈ node.dependsOn, dep ∈ before

def Grown (plan : Plan) : Prop :=
  AtEach (fun before entry => Follows plan.goalId (before.map Prod.fst) entry.2) plan.nodes.entries

theorem addNode_goal_eq_ok (hkind : node.kind = .goal)
    : plan.addNode node = .ok plan'
        ↔
      node.id ∉ plan.nodes.keys ∧ node.planId = plan.id ∧ (∀ goal ∈ plan.findGoal, goal.id = node.id) ∧
      node.id = plan.goalId ∧ plan.missingDeps node = ∅ ∧ plan' = plan.setNode node := by
  unfold addNode
  simp only [bind_eq_ok, ensure_eq_ok, if_pos hkind, exists_const]
  simp only [pure, Except.pure, Except.ok.injEq]
  rw [eq_comm (a := plan')]

theorem follows_of_addNode (h : plan.addNode node = .ok plan')
    : node.id ∉ plan.nodes.keys ∧ Follows plan.goalId plan.nodes.keys node ∧ plan' = plan.setNode node := by
  by_cases hkind : node.kind = .goal
  . rw [addNode_goal_eq_ok hkind, missingDeps_eq_empty] at h
    obtain ⟨hnew, -, -, hid, hdeps, rfl⟩ := h
    refine ⟨hnew, ⟨fun _ => hid, ?_, hdeps⟩, rfl⟩
    rw [node.goal_iff.mp hkind]
    simp
  . rw [addNode_eq_ok hkind, missingDeps_eq_empty] at h
    obtain ⟨hnew, -, ⟨parentId, hparent, hmem⟩, hdeps, rfl⟩ := h
    refine ⟨hnew, ⟨fun hgoal => absurd hgoal hkind, ?_, hdeps⟩, rfl⟩
    intro parentId' hparent'
    rw [Option.mem_unique hparent' hparent]
    exact hmem

theorem Grown.addNode (hgrown : plan.Grown) (h : plan.addNode node = .ok plan') : plan'.Grown := by
  obtain ⟨hnew, hfollows, rfl⟩ := follows_of_addNode h
  have hentries : (plan.setNode node).nodes.entries = plan.nodes.entries ++ [(node.id, node)] :=
    Dict.entries_set_of_notMem hnew node
  unfold Grown
  rw [hentries, atEach_concat]
  exact ⟨hgrown, hfollows⟩

theorem grown_build (id workspaceId goalId : String) (nodes : List PlanNode)
    : (build id workspaceId goalId nodes).Grown := by
  induction nodes using List.reverseRecOn with
  | nil => exact atEach_nil _
  | append_singleton nodes node ih =>
    unfold build at ih ⊢
    rw [List.foldl_append, List.foldl_cons, List.foldl_nil]
    generalize nodes.foldl _ _ = plan at ih ⊢
    cases h : plan.addNode node with
    | error e => exact ih
    | ok plan' => exact ih.addNode h

section Grown

variable (hgrown : plan.Grown)
include hgrown

theorem Grown.follows (hget : plan.nodes.get id = some node)
    : ∃ before after, plan.nodes.keys = before ++ id :: after ∧ Follows plan.goalId before node := by
  obtain ⟨before, after, hsplit⟩ := List.append_of_mem (Dict.get_eq_some.mp hget)
  refine ⟨before.map Prod.fst, after.map Prod.fst, ?_, hgrown before _ after hsplit⟩
  unfold Dict.keys
  rw [hsplit, List.map_append, List.map_cons]

theorem Grown.earlier (hget : plan.nodes.get id = some node) {other : String}
    (h : other ∈ node.parentId ∨ other ∈ node.dependsOn)
    : other ∈ plan.nodes.keys ∧ plan.nodes.keys.idxOf other < plan.nodes.keys.idxOf id := by
  obtain ⟨before, after, hkeys, hfollows⟩ := hgrown.follows hget
  have hbefore : other ∈ before := by
    cases h with
    | inl h => exact hfollows.parent other h
    | inr h => exact hfollows.deps other h
  have hnodup := plan.nodup_keys
  rw [hkeys] at hnodup ⊢
  have hnot : id ∉ before := by
    intro hmem
    exact (List.nodup_append.mp hnodup).2.2 id hmem id List.mem_cons_self rfl
  rw [List.idxOf_append_of_mem hbefore, List.idxOf_append_of_notMem hnot, List.idxOf_cons_self]
  have := List.idxOf_lt_length_iff.mpr hbefore
  exact ⟨List.mem_append_left _ hbefore, by omega⟩

theorem Grown.parentOf_earlier (h : plan.parentOf id = some parentId)
    : id ∈ plan.nodes.keys ∧ parentId ∈ plan.nodes.keys ∧
      plan.nodes.keys.idxOf parentId < plan.nodes.keys.idxOf id := by
  unfold parentOf at h
  rw [Option.bind_eq_some_iff] at h
  obtain ⟨node, hget, hparent⟩ := h
  exact ⟨mem_keys_of_get hget, hgrown.earlier hget (.inl hparent)⟩

theorem Grown.first {entry : String × PlanNode} {rest : List (String × PlanNode)}
    (hentries : plan.nodes.entries = entry :: rest)
    : entry.1 = plan.goalId ∧ entry.2.kind = .goal := by
  have hfollows := hgrown [] entry rest hentries
  have hkind : entry.2.kind = .goal := by
    rw [entry.2.goal_iff]
    apply Option.eq_none_iff_forall_not_mem.mpr
    intro parentId hparent
    exact absurd (hfollows.parent parentId hparent) List.not_mem_nil
  have hget : plan.nodes.get entry.1 = some entry.2 := by
    rw [Dict.get_eq_some, hentries]
    exact List.mem_cons_self
  refine ⟨?_, hkind⟩
  rw [← plan.keyed entry.1 entry.2 hget]
  exact hfollows.goal hkind

theorem Grown.kind_iff (hget : plan.nodes.get id = some node) : node.kind = .goal ↔ id = plan.goalId := by
  constructor
  . intro hkind
    obtain ⟨before, after, -, hfollows⟩ := hgrown.follows hget
    rw [← plan.keyed id node hget]
    exact hfollows.goal hkind
  . rintro rfl
    cases hentries : plan.nodes.entries with
    | nil =>
      rw [Dict.get_eq_some, hentries] at hget
      cases hget
    | cons entry rest =>
      obtain ⟨hid, hkind⟩ := hgrown.first hentries
      have hfirst : plan.nodes.get plan.goalId = some entry.2 := by
        rw [Dict.get_eq_some, hentries, ← hid]
        exact List.mem_cons_self
      rw [hfirst, Option.some_inj] at hget
      rw [← hget]
      exact hkind

theorem Grown.goal_mem (hne : plan.nodes.keys ≠ []) : plan.goalId ∈ plan.nodes.keys := by
  cases hentries : plan.nodes.entries with
  | nil =>
    unfold Dict.keys at hne
    rw [hentries] at hne
    exact absurd rfl hne
  | cons entry rest =>
    rw [← (hgrown.first hentries).1]
    unfold Dict.keys
    rw [hentries, List.map_cons]
    exact List.mem_cons_self

theorem Grown.parentOf_isSome (hid : id ∈ plan.nodes.keys) (hne : id ≠ plan.goalId) : (plan.parentOf id).isSome := by
  obtain ⟨node, hget⟩ := Dict.mem_keys.mp hid
  unfold parentOf
  rw [hget, Option.bind_some, Option.isSome_iff_ne_none, Ne, ← node.goal_iff, hgrown.kind_iff hget]
  exact hne

theorem Grown.exists_depth (hid : id ∈ plan.nodes.keys) : ∃ depth, plan.AtDepth id depth := by
  induction hn : plan.nodes.keys.idxOf id using Nat.strong_induction_on generalizing id with
  | _ n ih =>
    by_cases hgoal : id = plan.goalId
    . rw [hgoal] at hid ⊢
      exact ⟨0, .goal hid⟩
    . obtain ⟨parentId, hparent⟩ := Option.isSome_iff_exists.mp (hgrown.parentOf_isSome hid hgoal)
      obtain ⟨-, hmem, hlt⟩ := hgrown.parentOf_earlier hparent
      obtain ⟨depth, hdepth⟩ := ih _ (by omega) hmem rfl
      exact ⟨depth + 1, .child hparent hdepth⟩

theorem Grown.parentOf_goal : plan.parentOf plan.goalId = none := by
  unfold parentOf
  cases hget : plan.nodes.get plan.goalId with
  | none => rfl
  | some node =>
    rw [Option.bind_some, ← node.goal_iff, hgrown.kind_iff hget]

theorem Grown.depth_unique {depth depth' : Nat} (h : plan.AtDepth id depth) (h' : plan.AtDepth id depth')
    : depth = depth' := by
  induction h generalizing depth' with
  | goal hmem =>
    generalize hid : plan.goalId = id at h'
    cases h' with
    | goal => rfl
    | child hparent =>
      rw [← hid, hgrown.parentOf_goal] at hparent
      cases hparent
  | @child id parentId depth hparent h ih =>
    cases h' with
    | goal =>
      rw [hgrown.parentOf_goal] at hparent
      cases hparent
    | @child _ parentId' depth' hparent' h' =>
      rw [hparent, Option.some_inj] at hparent'
      rw [← hparent'] at h'
      rw [ih h']

theorem Grown.valid (hne : plan.nodes.keys ≠ []) : Valid plan where
  goal := by
    obtain ⟨node, hget⟩ := Dict.mem_keys.mp (hgrown.goal_mem hne)
    exact ⟨plan.goalId, node, hget, (hgrown.kind_iff hget).mpr rfl⟩
  parents id node hget parentId hparent := (hgrown.earlier hget (.inl hparent)).1
  deps id node hget dep hdep := (hgrown.earlier hget (.inr hdep)).1
  ranked := ⟨plan.nodes.keys.idxOf, fun _ _ hget _ hdep => (hgrown.earlier hget (.inr hdep)).2⟩

theorem Grown.path_earlier {u v : String} (hpath : TransGen (fun u v => plan.parentOf v = some u) u v)
    : plan.nodes.keys.idxOf u < plan.nodes.keys.idxOf v := by
  induction hpath with
  | single hparent => exact (hgrown.parentOf_earlier hparent).2.2
  | tail _ hparent ih => exact ih.trans (hgrown.parentOf_earlier hparent).2.2

end Grown

def childIds (plan : Plan) (id : String) : List String :=
  (plan.childrenOf id).map (·.id)

theorem mem_childIds {u v : String} : v ∈ plan.childIds u ↔ plan.parentOf v = some u := by
  unfold childIds childrenOf parentOf
  simp only [List.mem_map, List.mem_filter, decide_eq_true_eq, mem_values, Option.bind_eq_some_iff]
  constructor
  . rintro ⟨node, ⟨hget, hparent⟩, rfl⟩
    exact ⟨node, hget, hparent⟩
  . rintro ⟨node, hget, hparent⟩
    have hid := plan.keyed v node hget
    exact ⟨node, ⟨by rw [hid]; exact hget, hparent⟩, hid⟩

theorem nodup_childIds (id : String) : (plan.childIds id).Nodup := by
  have hsub : (plan.childIds id).Sublist (plan.nodes.values.map (·.id)) :=
    List.filter_sublist.map _
  apply hsub.nodup
  rw [ids_eq_keys]
  exact plan.nodup_keys

theorem descend_mono {fuel fuel' : Nat} {stack : List String} {out result : List PlanNode} (hle : fuel ≤ fuel')
    (h : plan.descend fuel stack out = some result)
    : plan.descend fuel' stack out = some result := by
  induction fuel generalizing fuel' stack out with
  | zero =>
    cases stack with
    | nil =>
      rw [← h]
      cases fuel' <;> rfl
    | cons id stack => cases h
  | succ fuel ih =>
    obtain ⟨more, rfl⟩ := Nat.exists_eq_add_of_le hle
    rw [Nat.add_right_comm]
    cases stack with
    | nil => exact h
    | cons id stack =>
      unfold descend at h ⊢
      cases hget : plan.nodes.get id with
      | none =>
        rw [hget] at h
        exact ih (by omega) h
      | some node =>
        rw [hget] at h
        exact ih (by omega) h

section Descendants

variable (hgrown : plan.Grown)
include hgrown

theorem Grown.fresh_childIds {root u : String} {expanded queue found : List String}
    (h : Bfs.Inv plan.childIds [] root expanded (u :: queue) found)
    : Bfs.Fresh [] found (plan.childIds u) (plan.childIds u) := by
  apply h.fresh_of_forest
  . intro u u' v hu hu'
    rw [mem_childIds] at hu hu'
    rw [hu, Option.some_inj] at hu'
    exact hu'
  . exact nodup_childIds u
  . simp
  . intro hroot
    have hpath := h.reachable root hroot
    simp only [mem_childIds] at hpath
    exact absurd (hgrown.path_earlier hpath) (Nat.lt_irrefl _)

theorem Grown.found_length {root : String} {expanded queue found : List String}
    (h : Bfs.Inv plan.childIds [] root expanded queue found)
    : found.length ≤ plan.nodes.keys.length := by
  apply (h.nodup.subperm _).length_le
  intro v hv
  obtain ⟨u, -, hedge⟩ := h.source v hv
  exact (hgrown.parentOf_earlier (mem_childIds.mp hedge)).1

theorem Grown.descend_eq_some {rank : String → Nat} (hrank : ∀ u, ∀ v ∈ plan.childIds u, rank v = rank u + 1)
    {root : String} {fuel : Nat} {stack found : List String} {out : List PlanNode}
    (hinv : Bfs.Inv plan.childIds [] root (root :: out.map (·.id)) stack found)
    (hlayered : Bfs.Layered rank (root :: out.map (·.id)) stack)
    (hout : ∀ node ∈ out, plan.nodes.get node.id = some node)
    (hfuel : plan.nodes.keys.length ≤ fuel + out.length)
    : ∃ result, plan.descend fuel stack out = some result ∧
      (∀ node ∈ result, plan.nodes.get node.id = some node) ∧
      Bfs.Inv plan.childIds [] root (root :: result.map (·.id)) [] (result.map (·.id)) ∧
      Bfs.Layered rank (root :: result.map (·.id)) [] := by
  induction fuel generalizing stack found out with
  | zero =>
    have hlength := hinv.length
    have hle := hgrown.found_length hinv
    rw [List.length_cons, List.length_map] at hlength
    obtain rfl : stack = [] := by
      rw [← List.length_eq_zero_iff]
      omega
    have hfound : found = out.map (·.id) := by
      simpa using hinv.split
    exact ⟨out, rfl, hout, hfound ▸ hinv, hlayered⟩
  | succ fuel ih =>
    cases stack with
    | nil =>
      have hfound : found = out.map (·.id) := by
        simpa using hinv.split
      exact ⟨out, rfl, hout, hfound ▸ hinv, hlayered⟩
    | cons id stack =>
      have hid : id ∈ found := by
        have hsplit := hinv.split
        rw [List.cons_append, List.cons.injEq] at hsplit
        rw [hsplit.2]
        simp
      obtain ⟨u, -, hedge⟩ := hinv.source id hid
      obtain ⟨node, hget⟩ := Dict.mem_keys.mp (hgrown.parentOf_earlier (mem_childIds.mp hedge)).1
      have hnode := plan.keyed id node hget
      have hstep := hinv.step (hgrown.fresh_childIds hinv)
      have hlayer := hlayered.step (hrank id)
      have hexpanded : root :: out.map (·.id) ++ [id] = root :: (out ++ [node]).map (·.id) := by
        rw [List.map_append, List.map_singleton, hnode, List.cons_append]
      rw [hexpanded] at hstep hlayer
      unfold descend
      rw [hget]
      apply ih hstep hlayer
      . intro node' hnode'
        rw [List.mem_append, List.mem_singleton] at hnode'
        rcases hnode' with hnode' | rfl
        . exact hout node' hnode'
        . rw [hnode]
          exact hget
      . rw [List.length_append, List.length_singleton]
        omega

theorem Grown.exists_rank
    : ∃ rank : String → Nat, (∀ id depth, plan.AtDepth id depth → rank id = depth) ∧
      ∀ u, ∀ v ∈ plan.childIds u, rank v = rank u + 1 := by
  refine ⟨fun id => sInf {depth | plan.AtDepth id depth}, ?_, ?_⟩
  . intro id depth h
    exact hgrown.depth_unique (Nat.sInf_mem ⟨depth, h⟩) h
  . intro u v hv
    rw [mem_childIds] at hv
    obtain ⟨depth, hdepth⟩ := hgrown.exists_depth (hgrown.parentOf_earlier hv).2.1
    have hu : sInf {depth | plan.AtDepth u depth} = depth :=
      hgrown.depth_unique (Nat.sInf_mem ⟨depth, hdepth⟩) hdepth
    have hchild : plan.AtDepth v (depth + 1) := .child hv hdepth
    dsimp only
    rw [hu]
    exact hgrown.depth_unique (Nat.sInf_mem ⟨depth + 1, hchild⟩) hchild

theorem Grown.descendantsOf_eq_some (id : String)
    : ∃ result, (∀ fuel ≥ plan.nodes.keys.length, plan.descendantsOf fuel id = some result) ∧
      (∀ node ∈ result, plan.nodes.get node.id = some node) ∧ (result.map (·.id)).Nodup ∧
      (∀ v, v ∈ result.map (·.id) ↔ TransGen (fun u v => plan.parentOf v = some u) id v) ∧
      result.Pairwise fun a b =>
        ∀ depth depth', plan.AtDepth a.id depth → plan.AtDepth b.id depth' → depth ≤ depth' := by
  obtain ⟨rank, hdepth, hrank⟩ := hgrown.exists_rank
  have hinv := Bfs.Inv.start plan.childIds [] id
  have hstep := hinv.step (hgrown.fresh_childIds hinv)
  have hlayer := (Bfs.Layered.start rank id).step (hrank id)
  obtain ⟨result, hresult, hout, hdone, hsorted⟩ :=
    hgrown.descend_eq_some hrank (show Bfs.Inv _ _ _ (id :: ([] : List PlanNode).map (·.id)) _ _ from hstep) hlayer
      (by simp) le_rfl
  refine ⟨result, ?_, hout, hdone.nodup, ?_, ?_⟩
  . intro fuel hfuel
    exact descend_mono hfuel hresult
  . intro v
    rw [hdone.mem_iff (by simp)]
    simp only [mem_childIds, List.not_mem_nil, not_false_eq_true, true_and]
  . have hpairs := hsorted.sorted
    rw [List.append_nil, List.pairwise_cons, List.pairwise_map] at hpairs
    apply hpairs.2.imp
    intro a b hle depth depth' ha hb
    rw [hdepth a.id depth ha, hdepth b.id depth' hb] at hle
    exact hle

theorem Grown.exists_goal (hne : plan.nodes.keys ≠ [])
    : ∃ goal, plan.nodes.values.filter (·.kind = .goal) = [goal] ∧ goal.id = plan.goalId := by
  cases hentries : plan.nodes.entries with
  | nil =>
    unfold Dict.keys at hne
    rw [hentries] at hne
    exact absurd rfl hne
  | cons entry rest =>
    obtain ⟨hid, hkind⟩ := hgrown.first hentries
    have hget : ∀ e ∈ entry :: rest, plan.nodes.get e.1 = some e.2 := by
      intro e he
      rw [Dict.get_eq_some, hentries]
      exact he
    refine ⟨entry.2, ?_, ?_⟩
    . unfold Dict.values
      rw [hentries, List.map_cons, List.filter_cons, if_pos (decide_eq_true hkind), List.cons.injEq]
      refine ⟨rfl, ?_⟩
      rw [List.filter_eq_nil_iff, List.forall_mem_map]
      intro e he hgoal
      rw [decide_eq_true_eq, hgrown.kind_iff (hget e (List.mem_cons_of_mem _ he))] at hgoal
      have hnodup := plan.nodes.nodup
      rw [hentries, List.map_cons, List.nodup_cons, hid, ← hgoal] at hnodup
      exact hnodup.1 (List.mem_map_of_mem he)
    . rw [plan.keyed entry.1 entry.2 (hget entry List.mem_cons_self)]
      exact hid

end Descendants

structure GoalTree (plan : Plan) : Prop where
  goal : ∃ goal, plan.nodes.values.filter (·.kind = .goal) = [goal] ∧ goal.id = plan.goalId
  reaches : ∀ id ∈ plan.nodes.keys, ∃ depth, plan.AtDepth id depth
  deps : ∀ node ∈ plan.nodes.values, ∀ dep ∈ node.dependsOn, dep ∈ plan.nodes.keys
  valid : plan.validate = []
  descendants : ∀ id, ∃ result,
    (∀ fuel ≥ plan.nodes.keys.length, plan.descendantsOf fuel id = some result) ∧
    (∀ node ∈ result, plan.nodes.get node.id = some node) ∧ (result.map (·.id)).Nodup ∧
    (∀ v, v ∈ result.map (·.id) ↔ TransGen (fun u v => plan.parentOf v = some u) id v) ∧
    result.Pairwise fun a b => ∀ depth depth', plan.AtDepth a.id depth → plan.AtDepth b.id depth' → depth ≤ depth'

theorem goal_tree_build (id workspaceId goalId : String) (nodes : List PlanNode)
    (hne : (build id workspaceId goalId nodes).nodes.keys ≠ [])
    : (build id workspaceId goalId nodes).GoalTree := by
  have hgrown := grown_build id workspaceId goalId nodes
  have hvalid := hgrown.valid hne
  refine ⟨hgrown.exists_goal hne, fun _ => hgrown.exists_depth, ?_, validate_eq_nil_iff.mpr hvalid,
    hgrown.descendantsOf_eq_some⟩
  intro node hnode
  exact hvalid.deps node.id node (mem_values.mp hnode)

def earlyTask : List PlanNode := [
  { id := "goal", planId := "plan", kind := .goal, title := "goal" },
  { id := "late", planId := "plan", parentId := some "first", title := "late" },
  { id := "first", planId := "plan", parentId := some "goal", title := "first" },
  { id := "next", planId := "plan", parentId := some "first", dependsOn := {"first"}, title := "next" }
]

theorem goal_tree_early_task
    : (build "plan" "space" "goal" earlyTask).nodes.keys = ["goal", "first", "next"] ∧
      (build "plan" "space" "goal" earlyTask).GoalTree := by
  have hkeys : (build "plan" "space" "goal" earlyTask).nodes.keys = ["goal", "first", "next"] := by
    decide +kernel
  refine ⟨hkeys, goal_tree_build "plan" "space" "goal" earlyTask ?_⟩
  rw [hkeys]
  exact List.cons_ne_nil _ _

end Plan

end Workspace
end MemStack
