import MemStack.Workspace.Layered

/-!
This module contains when the next sprint can be planned, what is left behind when it can not, and that
a new sprint fits into the layers of a plan.
-/

namespace MemStack
namespace Workspace

open Checked

variable {newId : Nat → String} {tasks : List IterationNextTask} {plan plan' : Plan}
  {nextIteration now : Nat} {specs : List TaskSpec} {spec prior : TaskSpec} {node : PlanNode}

section TaskIds

def lastWithId (l : List (IterationNextTask × Nat)) (id : String) : Option (IterationNextTask × Nat) :=
  l.reverse.find? fun t => t.1.id = id ∧ t.1.id ≠ ""

theorem get_foldl_byTaskId {α : Type} (f : Nat → IterationNextTask → α) (id : String)
    (l : List (IterationNextTask × Nat)) (d : Dict String α)
    : (l.foldl (fun d t => if t.1.id = "" then d else d.set t.1.id (f t.2 t.1)) d).get id
        =
      ((lastWithId l id).map fun t => f t.2 t.1).or (d.get id) := by
  induction l generalizing d with
  | nil => rfl
  | cons t l ih =>
    unfold lastWithId at ih ⊢
    rw [List.foldl_cons, ih, List.reverse_cons, List.find?_append]
    cases l.reverse.find? _ with
    | some t' => rfl
    | none =>
      simp only [Option.map_none, Option.none_or, List.find?_singleton]
      by_cases hempty : t.1.id = ""
      . simp [hempty]
      . by_cases heq : t.1.id = id
        . subst heq
          simp [hempty, Dict.get_set]
        . simp [hempty, heq, Dict.get_set, Ne.symm heq]

theorem get_byTaskId {α : Type} (f : Nat → IterationNextTask → α) (tasks : List IterationNextTask)
    (id : String)
    : (byTaskId f tasks).get id = (lastWithId tasks.zipIdx id).map fun t => f t.2 t.1 := by
  unfold byTaskId
  rw [get_foldl_byTaskId, Dict.get_empty, Option.or_none]

theorem lastWithId_eq_some {id : String} {t : IterationNextTask × Nat}
    (h : lastWithId tasks.zipIdx id = some t)
    : tasks[t.2]? = some t.1 ∧ t.1.id = id ∧ id ≠ "" := by
  unfold lastWithId at h
  have hmem := List.mem_of_find?_eq_some h
  have hid := List.find?_some h
  rw [List.mem_reverse, List.mem_zipIdx_iff_getElem?] at hmem
  simp only [decide_eq_true_eq] at hid
  refine ⟨hmem, hid.1, ?_⟩
  rw [← hid.1]
  exact hid.2

theorem exists_prior_of_mem_taskDependencies {dep : String}
    (h : dep ∈ taskDependencies newId tasks spec)
    : ∃ prior ∈ taskSpecs newId tasks, prior.nodeId = dep ∧
        (prior.phase.index < spec.phase.index ∨
          prior.nodeId ≠ spec.nodeId ∧ prior.sequence < spec.sequence ∧
            prior.phase.index ≤ spec.phase.index) := by
  unfold taskDependencies at h
  rw [List.mem_toFinset, List.mem_append] at h
  cases h with
  | inl hexplicit =>
    unfold explicitDependencies at hexplicit
    rw [List.mem_filterMap] at hexplicit
    rcases hexplicit with ⟨id, _, hget⟩
    rw [Option.filter_eq_some_iff] at hget
    unfold idMap sequenceByTaskId phaseByTaskId at hget
    simp only [get_byTaskId] at hget
    cases hlast : lastWithId tasks.zipIdx id with
    | none => simp [hlast] at hget
    | some t =>
      rcases lastWithId_eq_some hlast with ⟨htask, hid, _⟩
      simp only [hlast, Option.map_some, Option.some.injEq, Option.getD_some, decide_eq_true_eq] at hget
      rcases hget with ⟨rfl, hne, hseq, hphase⟩
      have hnode : (taskSpec newId tasks t.2 t.1).nodeId = newId t.2 := by
        unfold taskSpec idMap
        simp only [get_byTaskId, hid, hlast, Option.map_some, Option.getD_some]
      refine ⟨taskSpec newId tasks t.2 t.1, mem_taskSpecs.mpr ⟨t.2, t.1, htask, rfl⟩, hnode, .inr ?_⟩
      rw [hnode]
      exact ⟨hne, hseq, hphase⟩
  | inr hbarrier =>
    rw [mem_phaseBarrierDependencies] at hbarrier
    rcases hbarrier with ⟨phase, hphase, hmem⟩
    unfold nodesByPhase at hmem
    simp only [List.mem_map, List.mem_filter, decide_eq_true_eq] at hmem
    rcases hmem with ⟨prior, ⟨hprior, rfl⟩, hid⟩
    exact ⟨prior, hprior, hid, .inl hphase⟩

theorem eq_of_nodeId_eq (hnodup : ((taskSpecs newId tasks).map (·.nodeId)).Nodup)
    (hspec : spec ∈ taskSpecs newId tasks) (hprior : prior ∈ taskSpecs newId tasks)
    (h : prior.nodeId = spec.nodeId)
    : prior = spec := by
  apply List.inj_on_of_nodup_map hnodup hprior hspec h

theorem notMem_taskDependencies (hnodup : ((taskSpecs newId tasks).map (·.nodeId)).Nodup)
    (hspec : spec ∈ taskSpecs newId tasks)
    : spec.nodeId ∉ taskDependencies newId tasks spec := by
  intro h
  rcases exists_prior_of_mem_taskDependencies h with ⟨prior, hprior, hid, hlt | hne⟩
  . rw [eq_of_nodeId_eq hnodup hspec hprior hid] at hlt
    exact lt_irrefl _ hlt
  . exact hne.1 hid

end TaskIds

section Outcome

theorem sprintAdded_of_error {e : String}
    (h : editAll (addNextIterationNode nextIteration now) specs plan = (plan', some e))
    : ∃ added, added <+: specs ∧
        SprintAdded plan plan' added (iterationNode plan nextIteration now) := by
  induction specs generalizing plan with
  | nil => cases h
  | cons spec specs ih =>
    unfold editAll Edited.andThen Edited.ofExcept at h
    cases hadd : addNextIterationNode nextIteration now plan spec with
    | error e' =>
      rw [hadd] at h
      cases h
      exact ⟨[], List.nil_prefix, .nil _ _⟩
    | ok plan₁ =>
      rw [hadd] at h
      rw [addNextIterationNode_eq_ok] at hadd
      rcases hadd with ⟨_, hnew, _, rfl⟩
      rcases ih h with ⟨added, hprefix, hadded⟩
      refine ⟨spec :: added, ?_, hadded.cons hnew⟩
      rw [List.cons_prefix_cons]
      exact ⟨rfl, hprefix⟩

theorem exists_editAll_add (htitle : ∀ spec ∈ specs,
      Text.strip (iterationNode plan nextIteration now spec).title ≠ "")
    (hnodup : (specs.map (·.nodeId)).Nodup) (hfresh : ∀ spec ∈ specs, spec.nodeId ∉ plan.nodes.keys)
    (hgoal : plan.goalId ∈ plan.nodes.keys)
    : ∃ plan', editAll (addNextIterationNode nextIteration now) specs plan = (plan', none) := by
  induction specs generalizing plan with
  | nil => exact ⟨_, rfl⟩
  | cons spec specs ih =>
    simp only [List.mem_cons, forall_eq_or_imp, List.map_cons, List.nodup_cons] at htitle hnodup hfresh
    have hrest : ∃ plan', editAll (addNextIterationNode nextIteration now) specs
        (plan.setNode (iterationNode plan nextIteration now spec)) = (plan', none) := by
      refine @ih (plan.setNode _) htitle.2 hnodup.2 ?_ ?_
      . intro spec' hspec' hmem
        rw [Plan.mem_keys_setNode] at hmem
        cases hmem with
        | inl heq =>
          apply hnodup.1
          rw [List.mem_map]
          exact ⟨spec', hspec', heq⟩
        | inr hin => exact hfresh.2 spec' hspec' hin
      . apply Plan.mem_keys_setNode.mpr (.inr hgoal)
    rcases hrest with ⟨plan', hrest⟩
    refine ⟨plan', ?_⟩
    rw [editAll_cons_eq_ok]
    refine ⟨_, ?_, hrest⟩
    rw [addNextIterationNode_eq_ok]
    exact ⟨htitle.1, hfresh.1, hgoal, rfl⟩

theorem exists_editAll_setDependencies {deps : TaskSpec → Finset String}
    (hkeys : ∀ spec ∈ specs, spec.nodeId ∈ plan.nodes.keys) (hself : ∀ spec ∈ specs, spec.nodeId ∉ deps spec)
    : ∃ plan', editAll (setDependencies deps) specs plan = (plan', none) := by
  induction specs generalizing plan with
  | nil => exact ⟨_, rfl⟩
  | cons spec specs ih =>
    simp only [List.mem_cons, forall_eq_or_imp] at hkeys hself
    rcases Dict.mem_keys.mp hkeys.1 with ⟨node, hget⟩
    have hid := plan.keyed _ node hget
    have hnode : node.id ∉ deps spec := by
      rw [hid]
      exact hself.1
    have hrest : ∃ plan', editAll (setDependencies deps) specs
        (plan.setNode { node with dependsOn := deps spec, id_notMem := hnode }) = (plan', none) := by
      apply ih _ hself.2
      intro spec' hspec'
      apply Plan.mem_keys_setNode.mpr (.inr (hkeys.2 spec' hspec'))
    rcases hrest with ⟨plan', hrest⟩
    refine ⟨plan', ?_⟩
    rw [editAll_cons_eq_ok]
    refine ⟨_, ?_, hrest⟩
    rw [setDependencies_eq_ok]
    exact ⟨node, hget, hnode, rfl⟩

variable {verdict : IterationReviewVerdict} {maxIterations : Nat}

theorem exists_append_of_added {goal : PlanNode} {plan₁ : Plan}
    (hgoal : plan.nodes.get plan.goalId = some goal)
    (hadd : editAll (addNextIterationNode nextIteration now) (taskSpecs newId verdict.nextTasks) plan
      = (plan₁, none))
    : ∃ plan', appendNextIteration newId now verdict nextIteration maxIterations plan = (plan', none) := by
  have hadded := sprintAdded_of_editAll hadd
  have hset : ∃ plan₂, editAll (setDependencies (taskDependencies newId verdict.nextTasks))
      (taskSpecs newId verdict.nextTasks) plan₁ = (plan₂, none) := by
    apply exists_editAll_setDependencies
    . intro spec hspec
      apply Plan.mem_keys_of_get (hadded.new spec hspec)
    . intro spec hspec
      apply notMem_taskDependencies hadded.nodup hspec
  rcases hset with ⟨plan₂, hset⟩
  rcases get_of_editAll_setDependencies hset hadded.nodup with ⟨_, hgoalId, _, hold⟩
  have hgoalKey : plan.goalId ∉ (taskSpecs newId verdict.nextTasks).map (·.nodeId) := by
    intro hmem
    rcases List.mem_map.mp hmem with ⟨spec, hspec, heq⟩
    apply hadded.fresh spec hspec
    rw [heq]
    apply Plan.mem_keys_of_get hgoal
  have hgoal₂ : plan₂.nodes.get plan₂.goalId = some goal := by
    rw [hgoalId, hadded.goalId, hold _ hgoalKey, hadded.old _ hgoalKey, hgoal]
  unfold appendNextIteration Plan.goalNode
  simp only [hgoal, Edited.andThen_eq_ok, Edited.ofExcept_eq_ok, replaceGoalLoopMetadata_eq_ok]
  exact ⟨_, plan₂, ⟨plan₁, hadd, hset⟩, goal, hgoal₂, rfl⟩

theorem appendNextIteration_cases (newId : Nat → String) (now : Nat) (verdict : IterationReviewVerdict)
    (nextIteration maxIterations : Nat) (plan : Plan)
    : (appendNextIteration newId now verdict nextIteration maxIterations plan).1 = plan ∧
        plan.nodes.get plan.goalId = none ∨
      (∃ added, added <+: taskSpecs newId verdict.nextTasks ∧
        SprintAdded plan (appendNextIteration newId now verdict nextIteration maxIterations plan).1 added
          (iterationNode plan nextIteration now)) ∨
      appendNextIteration newId now verdict nextIteration maxIterations plan
        =
      ((appendNextIteration newId now verdict nextIteration maxIterations plan).1, none) := by
  cases hgoal : plan.nodes.get plan.goalId with
  | none =>
    left
    unfold appendNextIteration Plan.goalNode
    simp [hgoal]
  | some goal =>
    right
    cases hadd : editAll (addNextIterationNode nextIteration now)
        (taskSpecs newId verdict.nextTasks) plan with
    | mk plan₁ e =>
      cases e with
      | none =>
        right
        rcases exists_append_of_added hgoal hadd with ⟨plan', happend⟩
        rw [happend]
      | some e =>
        left
        have hplan : (appendNextIteration newId now verdict nextIteration maxIterations plan).1 = plan₁ := by
          unfold appendNextIteration Plan.goalNode
          simp [hgoal, hadd, Edited.andThen]
        rw [hplan]
        apply sprintAdded_of_error hadd

end Outcome

section Layers

variable {k : PhaseKey} {pos : String → ℚ}

structure PlannedNode (plan : Plan) (nextIteration : Nat) (spec : TaskSpec) (node : PlanNode) : Prop where
  parentId : node.parentId = some plan.goalId
  iterationIndex : node.iterationIndex = max 1 nextIteration
  sequence : node.sequence = spec.sequence
  phaseText : node.text "iteration_phase" = some spec.phase.toText
  blocked : node.repairBlockingDependencyId = none
  repairFor : node.text "repair_for_node_id" = none
  signature : node.text "repair_failure_signature" = none

theorem plannedNode_iterationNode (hspec : spec ∈ taskSpecs newId tasks)
    : PlannedNode plan nextIteration spec (iterationNode plan nextIteration now spec) := by
  have hnode : SprintNode nextIteration spec (iterationNode plan nextIteration now spec) :=
    sprintNode_iterationNode hspec
  refine ⟨rfl, hnode.iterationIndex, hnode.sequence, ?_, repairBlockingDependencyId_iterationNode,
    ?_, ?_⟩
  . simp [PlanNode.text, iterationNode, withAll, plannerNodeMetadata, Dict.get_set, Value.asStr]
  . simp [PlanNode.text, iterationNode, withAll, plannerNodeMetadata, Dict.get_set]
  . simp [PlanNode.text, iterationNode, withAll, plannerNodeMetadata, Dict.get_set]

theorem PlannedNode.withDependsOn {deps : Finset String} (h : PlannedNode plan nextIteration spec node)
    (hself : node.id ∉ deps)
    : PlannedNode plan nextIteration spec { node with dependsOn := deps, id_notMem := hself } := by
  exact ⟨h.parentId, h.iterationIndex, h.sequence, h.phaseText, h.blocked, h.repairFor, h.signature⟩

theorem PlannedNode.iterationPhase (h : PlannedNode plan nextIteration spec node)
    : node.iterationPhase = spec.phase := by
  apply iterationPhase_of_text h.phaseText

structure SprintNodes (newId : Nat → String) (tasks : List IterationNextTask) (nextIteration : Nat)
    (plan plan' : Plan) : Prop where
  goalId : plan'.goalId = plan.goalId
  old : ∀ id ∈ plan.nodes.keys, ∃ node node', plan.nodes.get id = some node ∧
    plan'.nodes.get id = some node' ∧ SameRole node node' ∧ node'.dependsOn = node.dependsOn ∧
    node'.repairBlockingDependencyId = node.repairBlockingDependencyId
  new : ∀ id node, plan'.nodes.get id = some node → id ∉ plan.nodes.keys →
    ∃ spec ∈ taskSpecs newId tasks, spec.nodeId = id ∧ PlannedNode plan nextIteration spec node ∧
      ∀ dep ∈ node.dependsOn, ∃ prior ∈ taskSpecs newId tasks, ∃ node', prior.nodeId = dep ∧
        dep ∉ plan.nodes.keys ∧ plan'.nodes.get dep = some node' ∧
        PlannedNode plan nextIteration prior node' ∧
        (prior.phase.index < spec.phase.index ∨
          prior.sequence < spec.sequence ∧ prior.phase.index ≤ spec.phase.index)

theorem sequence_le (hspec : spec ∈ taskSpecs newId tasks) : spec.sequence ≤ tasks.length := by
  rcases mem_taskSpecs.mp hspec with ⟨i, task, hget, rfl⟩
  rcases List.getElem?_eq_some_iff.mp hget with ⟨hi, _⟩
  apply hi

def sprintPos (count : Nat) (node : PlanNode) : ℚ :=
  (node.iterationPhase.index * (count + 1) + node.sequence : ℕ)

theorem sprintPos_lt {node' : PlanNode} (h : PlannedNode plan nextIteration spec node)
    (h' : PlannedNode plan nextIteration prior node') (hprior : prior ∈ taskSpecs newId tasks)
    (hbefore : prior.phase.index < spec.phase.index ∨
      prior.sequence < spec.sequence ∧ prior.phase.index ≤ spec.phase.index)
    : sprintPos tasks.length node' < sprintPos tasks.length node := by
  unfold sprintPos
  rw [Nat.cast_lt, h.iterationPhase, h'.iterationPhase, h.sequence, h'.sequence]
  have hle := sequence_le hprior
  cases hbefore with
  | inl hphase =>
    have hmul : (prior.phase.index + 1) * (tasks.length + 1) ≤ spec.phase.index * (tasks.length + 1) :=
      Nat.mul_le_mul_right _ hphase
    rw [Nat.add_mul] at hmul
    omega
  | inr hsame =>
    have hmul : prior.phase.index * (tasks.length + 1) ≤ spec.phase.index * (tasks.length + 1) :=
      Nat.mul_le_mul_right _ hsame.2
    omega

theorem layer_le {node' : PlanNode} (h : PlannedNode plan nextIteration spec node)
    (h' : PlannedNode plan nextIteration prior node')
    (hbefore : prior.phase.index < spec.phase.index ∨
      prior.sequence < spec.sequence ∧ prior.phase.index ≤ spec.phase.index)
    : node'.layer k ≤ node.layer k := by
  unfold PlanNode.layer
  rw [h.iterationIndex, h'.iterationIndex, h.iterationPhase, h'.iterationPhase]
  apply k.mono
  cases hbefore with
  | inl hphase => apply le_of_lt hphase
  | inr hsame => apply hsame.2

theorem Layered.sprint (h : Layered k pos plan) (hsprint : SprintNodes newId tasks nextIteration plan plan')
    (hstrip : ∀ spec ∈ taskSpecs newId tasks, Text.strip spec.nodeId = spec.nodeId)
    : ∃ pos', Layered k pos' plan' := by
  let place (id : String) : ℚ :=
    ((plan'.nodes.get id).map (sprintPos tasks.length)).getD 0
  have hgoalKey : plan.goalId ∈ plan.nodes.keys := by
    rcases h.goal with ⟨goal, hget, _⟩
    apply Plan.mem_keys_of_get hget
  have hkeys : ∀ id ∈ plan.nodes.keys, id ∈ plan'.nodes.keys := by
    intro id hid
    rcases hsprint.old id hid with ⟨_, node', _, hget', _⟩
    apply Plan.mem_keys_of_get hget'
  refine ⟨fun id => if id ∈ plan.nodes.keys then pos id else place id, ?_⟩
  apply h.edit hsprint.goalId hkeys
  . intro id hid
    apply if_pos hid
  . intro id node' hget' hid
    rcases hsprint.old id hid with ⟨node, node₂, hget, hget₂, hrole, hdeps, hblocked⟩
    rw [hget'] at hget₂
    cases hget₂
    rw [hdeps, hblocked]
    exact ⟨node, hget, hrole, h.edges id node hget, h.blocked id node hget⟩
  . intro id node' hget' hid
    rcases hsprint.new id node' hget' hid with ⟨spec, hspec, hspecId, hplanned, hdeps⟩
    refine ⟨?_, hspecId ▸ hstrip spec hspec, ⟨_, hplanned.phaseText⟩, ?_, hplanned.blocked, ?_⟩
    . rw [hplanned.parentId]
      intro p hp
      cases hp
      apply hkeys _ hgoalKey
    . intro dep hdep
      rcases hdeps dep hdep with ⟨prior, hprior, node₂, _, hfresh, hget₂, hplanned₂, hbefore⟩
      have hne : id ≠ plan.goalId := fun heq => hid (heq ▸ hgoalKey)
      have hne₂ : dep ≠ plan.goalId := fun heq => hfresh (heq ▸ hgoalKey)
      have hlt := sprintPos_lt hplanned hplanned₂ hprior hbefore
      refine ⟨Plan.mem_keys_of_get hget₂, ?_⟩
      rw [depth_eq hget', depth_eq hget₂, hsprint.goalId, if_neg hne, if_neg hne₂, if_neg hid,
        if_neg hfresh]
      dsimp only [place]
      rw [hget', hget₂]
      apply Prod.Lex.toLex_lt_toLex.mpr
      right
      refine ⟨rfl, ?_⟩
      apply Prod.Lex.toLex_lt_toLex.mpr
      cases lt_or_eq_of_le (layer_le (k := k) hplanned hplanned₂ hbefore) with
      | inl hlayer => exact .inl hlayer
      | inr hlayer => exact .inr ⟨hlayer, hlt⟩
    . intro target htarget
      rw [hplanned.repairFor] at htarget
      cases htarget

theorem SprintAdded.sprintNodes {added : List TaskSpec} (hadded : added <+: taskSpecs newId tasks)
    (h : SprintAdded plan plan' added (iterationNode plan nextIteration now))
    : SprintNodes newId tasks nextIteration plan plan' := by
  have hold : ∀ id ∈ plan.nodes.keys, plan'.nodes.get id = plan.nodes.get id := by
    intro id hid
    apply h.old
    intro hmem
    rcases List.mem_map.mp hmem with ⟨spec, hspec, rfl⟩
    apply h.fresh spec hspec hid
  refine ⟨h.goalId, ?_, ?_⟩
  . intro id hid
    rcases Dict.mem_keys.mp hid with ⟨node, hget⟩
    exact ⟨node, node, hget, (hold id hid).trans hget, .refl node, rfl, rfl⟩
  . intro id node hget hid
    by_cases hmem : id ∈ added.map (·.nodeId)
    . rcases List.mem_map.mp hmem with ⟨spec, hspec, rfl⟩
      rw [h.new spec hspec] at hget
      cases hget
      have hspec' := hadded.subset hspec
      refine ⟨spec, hspec', rfl, plannedNode_iterationNode hspec', ?_⟩
      intro dep hdep
      cases hdep
    . rw [h.old id hmem] at hget
      exact absurd (Plan.mem_keys_of_get hget) hid

theorem sameRole_iterationLoop (node : PlanNode) (loop : Value)
    : SameRole node { node with metadata := node.metadata.set "iteration_loop" loop } := by
  have hkey : ∀ key, key ≠ "iteration_loop" →
      (node.metadata.set "iteration_loop" loop).get key = node.metadata.get key := by
    intro key hne
    rw [Dict.get_set, if_neg hne]
  refine ⟨rfl, rfl, ?_, ?_, ?_, ?_, ?_⟩
  . unfold PlanNode.iterationIndex
    rw [hkey _ (by decide)]
  . unfold PlanNode.iterationPhase PlanNode.text
    rw [hkey _ (by decide)]
  . unfold PlanNode.text
    rw [hkey _ (by decide)]
    exact id
  . apply text_eq_of_get
    apply hkey _ (by decide)
  . apply text_eq_of_get
    apply hkey _ (by decide)

theorem Appended.sprintNodes {updates : Metadata → List (String × Value)}
    (h : Appended newId now tasks nextIteration updates plan plan')
    : SprintNodes newId tasks nextIteration plan plan' := by
  have hnew : ∀ spec ∈ taskSpecs newId tasks, ∃ node, plan'.nodes.get spec.nodeId = some node ∧
      PlannedNode plan nextIteration spec node ∧ node.dependsOn = taskDependencies newId tasks spec := by
    intro spec hspec
    rcases h.new spec hspec with ⟨hself, hget⟩
    exact ⟨_, hget, (plannedNode_iterationNode hspec).withDependsOn hself, rfl⟩
  rcases h.goal with ⟨goal, hgoal, hgoal'⟩
  refine ⟨h.goalId, ?_, ?_⟩
  . intro id hid
    by_cases heq : id = plan.goalId
    . subst heq
      refine ⟨goal, _, hgoal, hgoal', sameRole_iterationLoop goal _, rfl, ?_⟩
      unfold PlanNode.repairBlockingDependencyId PlanNode.text
      rw [Dict.get_set, if_neg (by decide)]
    . rcases Dict.mem_keys.mp hid with ⟨node, hget⟩
      refine ⟨node, node, hget, ?_, .refl node, rfl, rfl⟩
      rw [h.old id _ heq, hget]
      intro hmem
      rcases List.mem_map.mp hmem with ⟨spec, hspec, rfl⟩
      apply h.fresh spec hspec hid
  . intro id node hget hid
    by_cases hmem : id ∈ (taskSpecs newId tasks).map (·.nodeId)
    . rcases List.mem_map.mp hmem with ⟨spec, hspec, rfl⟩
      rcases hnew spec hspec with ⟨node₁, hget₁, hplanned, hdeps⟩
      rw [hget] at hget₁
      cases hget₁
      refine ⟨spec, hspec, rfl, hplanned, ?_⟩
      rw [hdeps]
      intro dep hdep
      rcases exists_prior_of_mem_taskDependencies hdep with ⟨prior, hprior, rfl, hbefore⟩
      rcases hnew prior hprior with ⟨node₂, hget₂, hplanned₂, _⟩
      refine ⟨prior, hprior, node₂, rfl, h.fresh prior hprior, hget₂, hplanned₂, ?_⟩
      cases hbefore with
      | inl hphase => exact .inl hphase
      | inr hlisted => exact .inr hlisted.2
    . have hne : id ≠ plan.goalId := by
        rintro rfl
        apply hid
        apply Plan.mem_keys_of_get hgoal
      rw [h.old id hmem hne] at hget
      exact absurd (Plan.mem_keys_of_get hget) hid

end Layers

end Workspace
end MemStack
