import MemStack.Workspace.Review

/-!
This module contains which answers of the iteration reviewer the supervisor can plan a sprint from: those
whose tasks have distinct ids.
-/

namespace MemStack
namespace Workspace

open Checked

section Parsed

structure ParsedTask (task : IterationNextTask) : Prop where
  id : task.id ≠ ""
  description : ∃ s, task.description = Text.strip s
  nonempty : task.description ≠ ""

theorem taskId_ne_empty (index : Nat) (item : List (String × Value)) : Review.taskId index item ≠ "" := by
  unfold Review.taskId
  dsimp only
  split
  . intro h
    have hlist := congrArg String.toList h
    simp at hlist
  . assumption

theorem parsedTask_of_parseNextTask {index : Nat} {item : List (String × Value)} {task : IterationNextTask}
    (h : Review.parseNextTask index item = .ok (some task))
    : ParsedTask task := by
  unfold Review.parseNextTask at h
  dsimp only at h
  split at h
  . cases h
  . next hdescription =>
    simp only [bind_eq_ok] at h
    rcases h with ⟨priority, _, hreturn⟩
    cases hreturn
    exact ⟨taskId_ne_empty index item, ⟨_, rfl⟩, hdescription⟩

theorem parsedTask_of_parseItems {items : List (Value × Nat)} {tasks : List IterationNextTask}
    (h : Review.parseItems items = .ok tasks)
    : ∀ task ∈ tasks, ParsedTask task := by
  induction items generalizing tasks with
  | nil =>
    cases h
    simp
  | cons t items ih =>
    unfold Review.parseItems at h
    split at h
    . apply ih h
    . simp only [bind_eq_ok] at h
      rcases h with ⟨parsed, hparsed, rest, hrest, hreturn⟩
      cases hreturn
      intro task htask
      rw [List.mem_append, Option.mem_toList] at htask
      cases htask with
      | inl hfirst =>
        rw [hfirst] at hparsed
        apply parsedTask_of_parseNextTask hparsed
      | inr hin => apply ih hrest task hin

theorem parsedTask_of_parseNextTasks {value : Option Value} {maxNextTasks : Nat}
    {tasks : List IterationNextTask} (h : Review.parseNextTasks value maxNextTasks = .ok tasks)
    : ∀ task ∈ tasks, ParsedTask task := by
  unfold Review.parseNextTasks at h
  split at h
  . cases h
    simp
  . apply parsedTask_of_parseItems h

end Parsed

variable {newId : Nat → String} {tasks : List IterationNextTask} {plan plan' : Plan}
  {nextIteration now : Nat} {spec prior : TaskSpec}

section Titles

theorem head_strip {s : String} {c : Char} {l : List Char} (h : (Text.strip s).toList = c :: l)
    : ¬ Text.isSpace c := by
  unfold Text.strip at h
  rw [String.toList_ofList] at h
  have hprefix : (((s.toList.dropWhile Text.isSpace).reverse.dropWhile Text.isSpace).reverse)
      <+: s.toList.dropWhile Text.isSpace := by
    rw [← List.reverse_suffix, List.reverse_reverse]
    apply List.dropWhile_suffix
  rw [h] at hprefix
  rcases hprefix with ⟨rest, hrest⟩
  intro hspace
  have hhead := List.dropWhile_cons_of_pos (p := Text.isSpace) (l := l ++ rest) hspace
  have hidem : (s.toList.dropWhile Text.isSpace).dropWhile Text.isSpace
      = s.toList.dropWhile Text.isSpace := List.dropWhile_idempotent _ _
  rw [← hrest, List.cons_append, hhead] at hidem
  have hlength := congrArg List.length hidem
  have hle := (List.dropWhile_suffix Text.isSpace (l := l ++ rest)).length_le
  rw [List.length_cons] at hlength
  omega

theorem strip_ne_empty_of_head {c : Char} {l : List Char} (h : ¬ Text.isSpace c)
    : Text.strip (String.ofList (c :: l)) ≠ "" := by
  intro hempty
  have hlist := congrArg String.toList hempty
  unfold Text.strip at hlist
  rw [String.toList_ofList, String.toList_ofList, List.dropWhile_cons_of_neg h] at hlist
  simp only [List.reverse_eq_nil_iff, String.toList_empty, List.dropWhile_eq_nil_iff] at hlist
  exact h (hlist c (by simp))

theorem strip_title_ne_empty (hspec : spec ∈ taskSpecs newId tasks)
    (htask : ∀ task ∈ tasks, ParsedTask task)
    : Text.strip (iterationNode plan nextIteration now spec).title ≠ "" := by
  rcases mem_taskSpecs.mp hspec with ⟨i, task, hget, rfl⟩
  have hparsed := htask task (List.mem_of_getElem? hget)
  rcases hparsed.description with ⟨s, hs⟩
  cases hchars : task.description.toList with
  | nil =>
    apply absurd _ hparsed.nonempty
    rw [← @String.ofList_toList task.description, hchars]
  | cons c l =>
    have hspace : ¬ Text.isSpace c := by
      rw [hs] at hchars
      apply head_strip hchars
    have htitle : (iterationNode plan nextIteration now (taskSpec newId tasks i task)).title
        =
      String.ofList (c :: l.take 119) := by
      unfold iterationNode taskSpec
      simp [hchars]
    rw [htitle]
    apply strip_ne_empty_of_head hspace

end Titles

section NodeIds

variable {i : Nat} {task : IterationNextTask}

theorem lastWithId_of_nodup (hnodup : (tasks.map (·.id)).Nodup) (hget : tasks[i]? = some task)
    (hid : task.id ≠ "")
    : lastWithId tasks.zipIdx task.id = some (task, i) := by
  cases h : lastWithId tasks.zipIdx task.id with
  | none =>
    unfold lastWithId at h
    rw [List.find?_eq_none] at h
    have hnot := h (task, i) (by rw [List.mem_reverse, List.mem_zipIdx_iff_getElem?]; exact hget)
    simp [hid] at hnot
  | some t =>
    rcases lastWithId_eq_some h with ⟨htask, heq, _⟩
    have hindex : t.2 = i := by
      rcases List.getElem?_eq_some_iff.mp htask with ⟨hj, hgetj⟩
      rcases List.getElem?_eq_some_iff.mp hget with ⟨hi, hgeti⟩
      have hinj := @List.Nodup.getElem_inj_iff _ _ hnodup t.2 (by simpa using hj) i (by simpa using hi)
      rw [← hinj, List.getElem_map, List.getElem_map, hgetj, hgeti, heq]
    rw [hindex, hget] at htask
    cases htask
    rw [← hindex]

theorem nodeId_of_nodup (hnodup : (tasks.map (·.id)).Nodup) (hget : tasks[i]? = some task)
    (hid : task.id ≠ "")
    : (taskSpec newId tasks i task).nodeId = newId i := by
  unfold taskSpec idMap
  dsimp only
  rw [get_byTaskId, lastWithId_of_nodup hnodup hget hid]
  rfl

theorem nodup_nodeIds_iff (hinj : Function.Injective newId) (hids : ∀ task ∈ tasks, task.id ≠ "")
    : ((taskSpecs newId tasks).map (·.nodeId)).Nodup ↔ (tasks.map (·.id)).Nodup := by
  constructor
  . intro h
    have hmap : (taskSpecs newId tasks).map (·.nodeId)
        =
      (tasks.map (·.id)).map fun id => ((idMap newId tasks).get id).getD "" := by
      unfold taskSpecs
      rw [List.map_map, List.map_map, ← List.zipIdx_map_fst 0 tasks, List.map_map, List.zipIdx_map_fst]
      apply List.map_congr_left
      intro t ht
      have hget := List.mem_zipIdx_iff_getElem?.mp ht
      have hlast : ∃ t', lastWithId tasks.zipIdx t.1.id = some t' := by
        rw [← Option.isSome_iff_exists]
        unfold lastWithId
        rw [List.find?_isSome]
        refine ⟨t, List.mem_reverse.mpr ht, ?_⟩
        simp [hids t.1 (List.mem_of_getElem? hget)]
      rcases hlast with ⟨t', hlast⟩
      simp [taskSpec, idMap, get_byTaskId, hlast]
    rw [hmap] at h
    apply h.of_map
  . intro h
    have hmap : (taskSpecs newId tasks).map (·.nodeId) = (tasks.zipIdx.map Prod.snd).map newId := by
      unfold taskSpecs
      rw [List.map_map, List.map_map]
      apply List.map_congr_left
      intro t ht
      have hget := List.mem_zipIdx_iff_getElem?.mp ht
      apply nodeId_of_nodup h hget (hids t.1 (List.mem_of_getElem? hget))
    rw [hmap, List.zipIdx_map_snd]
    apply List.Nodup.map hinj
    exact List.nodup_range'

end NodeIds

section Accepted

variable {verdict : IterationReviewVerdict} {maxIterations : Nat}
  {updates : Metadata → List (String × Value)}

theorem Appended.keys_perm (h : Appended newId now tasks nextIteration updates plan plan')
    : plan'.nodes.keys.Perm (plan.nodes.keys ++ (taskSpecs newId tasks).map (·.nodeId)) := by
  rw [List.perm_ext_iff_of_nodup plan'.nodup_keys]
  . intro id
    rw [List.mem_append]
    rcases h.goal with ⟨goal, hgoal, hgoal'⟩
    by_cases hnew : id ∈ (taskSpecs newId tasks).map (·.nodeId)
    . rcases List.mem_map.mp hnew with ⟨spec, hspec, rfl⟩
      rcases h.new spec hspec with ⟨_, hget⟩
      exact iff_of_true (Plan.mem_keys_of_get hget) (.inr hnew)
    . by_cases hid : id = plan.goalId
      . rw [hid]
        exact iff_of_true (Plan.mem_keys_of_get hgoal') (.inl (Plan.mem_keys_of_get hgoal))
      . rw [or_iff_left hnew, Dict.mem_keys, Dict.mem_keys, h.old id hnew hid]
  . apply plan.nodup_keys.append h.nodup
    intro id hold hnew
    rcases List.mem_map.mp hnew with ⟨spec, hspec, rfl⟩
    apply h.fresh spec hspec hold

structure Accepted (plan : Plan) (tasks : List IterationNextTask) (edited : Edited) : Prop where
  noError : edited.2 = none
  oneNodeEach : edited.1.nodes.keys.length = plan.nodes.keys.length + tasks.length
  unchanged : edited.2 ≠ none → edited.1 = plan

theorem accepted_iff {goal : PlanNode} (hgoal : plan.nodes.get plan.goalId = some goal)
    (hinj : Function.Injective newId) (hfresh : ∀ n, newId n ∉ plan.nodes.keys)
    (hparsed : ∀ task ∈ verdict.nextTasks, ParsedTask task)
    : Accepted plan verdict.nextTasks
          (appendNextIteration newId now verdict nextIteration maxIterations plan)
        ↔
      (verdict.nextTasks.map (·.id)).Nodup := by
  rw [← nodup_nodeIds_iff hinj fun task htask => (hparsed task htask).id]
  constructor
  . intro h
    apply (appended_of_appendNextIteration (Prod.ext rfl h.noError)).nodup
  . intro h
    have hadd : ∃ plan₁, editAll (addNextIterationNode nextIteration now)
        (taskSpecs newId verdict.nextTasks) plan = (plan₁, none) := by
      apply exists_editAll_add _ h _ (Plan.mem_keys_of_get hgoal)
      . intro spec hspec
        apply strip_title_ne_empty hspec hparsed
      . intro spec hspec
        rcases mem_taskSpecs.mp hspec with ⟨i, task, hget, rfl⟩
        rw [nodeId_of_nodup ((nodup_nodeIds_iff hinj fun task htask => (hparsed task htask).id).mp h) hget
          (hparsed task (List.mem_of_getElem? hget)).id]
        apply hfresh
    rcases hadd with ⟨plan₁, hadd⟩
    rcases exists_append_of_added hgoal hadd with ⟨plan', happend⟩
    refine ⟨?_, ?_, ?_⟩
    . rw [happend]
    . have hlength := (appended_of_appendNextIteration happend).keys_perm.length_eq
      rw [List.length_append, List.length_map] at hlength
      rw [happend, hlength]
      unfold taskSpecs
      rw [List.length_map, List.length_zipIdx]
    . rw [happend]
      exact fun hne => absurd rfl hne

end Accepted

end Workspace
end MemStack
