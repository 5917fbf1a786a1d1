import MemStack.Util.Lists
import MemStack.Agent.Types

/-!
This module contains the append-only plan (`agent/plan.rs`) and what its operations do: a step comes
after the steps it depends on, and marking a step changes its status and nothing else.
-/

namespace MemStack
namespace Agent

open History

inductive StepStatus where
  | pending
  | running
  | done
  | failed
  deriving DecidableEq, Repr

structure PlanStep where
  id : String
  description : String
  deps : List String
  status : StepStatus
  deriving DecidableEq, Repr

structure Plan where
  steps : List PlanStep
  deriving DecidableEq, Repr

namespace Plan

def new : Plan :=
  { steps := [] }

def append (p : Plan) (step : PlanStep) : Except CoreError Plan :=
  if p.steps.any (·.id = step.id) then
    .error (.plan s!"duplicate step id: {step.id}")
  else
    match step.deps.find? (fun dep => !p.steps.any (·.id = dep)) with
    | some dep => .error (.plan s!"step {step.id} depends on unknown step {dep}")
    | none => .ok { steps := p.steps ++ [step] }

def get (p : Plan) (id : String) : Option PlanStep :=
  p.steps.find? (·.id = id)

def markFirst (id : String) (status : StepStatus) : List PlanStep → Option (List PlanStep)
  | [] => none
  | s :: steps =>
    if s.id = id then
      some ({ s with status } :: steps)
    else
      (markFirst id status steps).map (s :: ·)

def mark (p : Plan) (id : String) (status : StepStatus) : Except CoreError Plan :=
  match markFirst id status p.steps with
  | some steps => .ok { steps }
  | none => .error (.plan s!"unknown step: {id}")

def ready (p : Plan) : List String :=
  let done := (p.steps.filter (·.status = .done)).map (·.id)
  let ids :=
    ((p.steps.filter (·.status = .pending)).filter fun s => s.deps.all (done.contains ·)).map (·.id)
  ids.insertionSort (· ≤ ·)

def isComplete (p : Plan) : Bool :=
  !p.steps.isEmpty && p.steps.all (·.status = .done)

def hasFailure (p : Plan) : Bool :=
  p.steps.any (·.status = .failed)

inductive Built : Plan → Prop where
  | new : Built Plan.new
  | append (p p' : Plan) (step : PlanStep) (hbuilt : Built p) (happend : p.append step = .ok p')
      : Built p'

end Plan

def PlanStep.node (s : PlanStep) : String × List String :=
  (s.id, s.deps)

def Placed (before : List (String × List String)) (node : String × List String) : Prop :=
  node.1 ∉ before.map Prod.fst ∧ ∀ dep ∈ node.2, dep ∈ before.map Prod.fst

namespace Plan

structure WellFormed (p : Plan) : Prop where
  placed : AtEach Placed (p.steps.map PlanStep.node)
  idle : ∀ s ∈ p.steps, s.status ≠ .running
  nonempty : p.steps ≠ []

theorem Built.placed {p : Plan} (h : Built p) : AtEach Placed (p.steps.map PlanStep.node) := by
  induction h with
  | new => apply atEach_nil
  | append p p' step hbuilt happend ih =>
    unfold Plan.append at happend
    split at happend
    . cases happend
    . next hid =>
      split at happend
      . cases happend
      . next hdeps =>
        cases happend
        rw [List.map_append, List.map_singleton, atEach_concat]
        refine ⟨ih, ?_, ?_⟩
        . simpa [PlanStep.node] using hid
        . simpa [PlanStep.node] using hdeps

theorem ids_nodup {nodes : List (String × List String)} (h : AtEach Placed nodes)
    : (nodes.map Prod.fst).Nodup := by
  induction nodes using List.reverseRecOn with
  | nil => simp
  | append_singleton nodes node ih =>
    rw [atEach_concat] at h
    rw [List.map_append, List.map_singleton, List.nodup_append]
    refine ⟨ih h.1, by simp, ?_⟩
    intro id hid id' hid' heq
    rw [List.mem_singleton] at hid'
    rw [heq, hid'] at hid
    apply h.2.1 hid

variable {p p' : Plan}

theorem WellFormed.ids_nodup (h : p.WellFormed) : (p.steps.map (·.id)).Nodup := by
  have := Plan.ids_nodup h.placed
  rw [List.map_map] at this
  exact this

theorem mem_of_get {id : String} {s : PlanStep} (h : p.get id = some s)
    : s ∈ p.steps ∧ s.id = id := by
  refine ⟨List.mem_of_find?_eq_some h, ?_⟩
  simpa using List.find?_some h

theorem WellFormed.get_of_mem (h : p.WellFormed) {s : PlanStep} (hs : s ∈ p.steps)
    : p.get s.id = some s := by
  have hnodup := h.ids_nodup
  unfold get
  generalize p.steps = steps at hs hnodup
  induction steps with
  | nil => simp at hs
  | cons t steps ih =>
    simp only [List.map_cons, List.nodup_cons] at hnodup
    rw [List.mem_cons] at hs
    cases hs with
    | inl hs => simp [hs]
    | inr hs =>
      have hne : ¬ t.id = s.id := by
        intro heq
        apply hnodup.1
        rw [heq]
        apply List.mem_map_of_mem hs
      simpa [hne] using ih hs hnodup.2

theorem mem_ready {id : String}
    : id ∈ p.ready
        ↔
      ∃ s ∈ p.steps, s.id = id ∧ s.status = .pending ∧
        ∀ dep ∈ s.deps, ∃ t ∈ p.steps, t.id = dep ∧ t.status = .done := by
  simp only [ready, List.mem_insertionSort, List.mem_map, List.mem_filter, decide_eq_true_eq,
    List.all_eq_true, List.contains_iff_mem]
  constructor
  . rintro ⟨s, ⟨⟨hs, hpending⟩, hdeps⟩, rfl⟩
    refine ⟨s, hs, rfl, hpending, ?_⟩
    intro dep hdep
    rcases hdeps dep hdep with ⟨t, ht, heq⟩
    exact ⟨t, ht.1, heq, ht.2⟩
  . rintro ⟨s, hs, rfl, hpending, hdeps⟩
    refine ⟨s, ⟨⟨hs, hpending⟩, ?_⟩, rfl⟩
    intro dep hdep
    rcases hdeps dep hdep with ⟨t, ht, heq, hdone⟩
    exact ⟨t, ⟨ht, hdone⟩, heq⟩

theorem WellFormed.ready_nodup (h : p.WellFormed) : p.ready.Nodup := by
  unfold ready
  rw [(List.perm_insertionSort _ _).nodup_iff]
  have hsub : ((p.steps.filter (·.status = .pending)).filter fun s =>
      s.deps.all (((p.steps.filter (·.status = .done)).map (·.id)).contains ·)).Sublist p.steps := by
    apply (List.filter_sublist).trans List.filter_sublist
  apply (hsub.map _).nodup h.ids_nodup

theorem WellFormed.ready_ne_nil (h : p.WellFormed) (hcomplete : p.isComplete = false)
    (hfailure : p.hasFailure = false)
    : p.ready ≠ [] := by
  have hopen : ∃ s ∈ p.steps, s.status ≠ .done := by
    simpa [isComplete, h.nonempty] using hcomplete
  -- the first step that is not done only depends on steps that are
  rcases hopen with ⟨s₀, hs₀, hopen⟩
  have hfind : (p.steps.find? (fun s => decide (s.status ≠ .done))).isSome := by
    rw [List.find?_isSome]
    exact ⟨s₀, hs₀, by simp [hopen]⟩
  rcases Option.isSome_iff_exists.mp hfind with ⟨s, hs⟩
  rw [List.find?_eq_some_iff_append] at hs
  rcases hs with ⟨hnotDone, before, after, hsplit, hbefore⟩
  have hmem : s ∈ p.steps := by
    simp [hsplit]
  have hplaced := h.placed (before.map PlanStep.node) s.node (after.map PlanStep.node)
    (by simp [hsplit])
  have hpending : s.status = .pending := by
    have hidle := h.idle s hmem
    have hnotFailed : s.status ≠ .failed := by
      intro hfailed
      simp only [hasFailure, List.any_eq_false] at hfailure
      simpa [hfailed] using hfailure s hmem
    cases hstatus : s.status <;> simp_all
  intro hnil
  have hready : s.id ∈ p.ready := by
    rw [mem_ready]
    refine ⟨s, hmem, rfl, hpending, ?_⟩
    intro dep hdep
    have hdep := hplaced.2 dep hdep
    rw [List.map_map, List.mem_map] at hdep
    rcases hdep with ⟨t, ht, heq⟩
    refine ⟨t, by simp [hsplit, ht], heq, ?_⟩
    simpa using hbefore t ht
  simp [hnil] at hready

theorem markFirst_eq_some {steps : List PlanStep} {id : String} {s : PlanStep} (status : StepStatus)
    (hs : steps.find? (·.id = id) = some s)
    : ∃ before after, steps = before ++ s :: after ∧ s.id = id ∧ (∀ t ∈ before, t.id ≠ id) ∧
        markFirst id status steps = some (before ++ { s with status } :: after) := by
  induction steps with
  | nil => simp at hs
  | cons t steps ih =>
    by_cases hid : t.id = id
    . simp only [List.find?_cons, hid, decide_true, Option.some.injEq] at hs
      subst hs
      exact ⟨[], steps, by simp, hid, by simp, by simp [markFirst, hid]⟩
    . simp only [List.find?_cons, hid, decide_false] at hs
      rcases ih hs with ⟨before, after, hsplit, hsid, hbefore, hmark⟩
      refine ⟨t :: before, after, by simp [hsplit], hsid, ?_, by simp [markFirst, hid, hmark]⟩
      simpa [hid] using hbefore

def pendingSteps (p : Plan) : Nat :=
  p.steps.countP (·.status = .pending)

structure Marked (p : Plan) (s : PlanStep) (status : StepStatus) (p' : Plan) : Prop where
  node : p'.steps.map PlanStep.node = p.steps.map PlanStep.node
  get : ∀ id, p'.get id = if id = s.id then some { s with status } else p.get id
  mem : ∀ t ∈ p'.steps, t ∈ p.steps ∨ t = { s with status }
  pending : s.status = .pending → status ≠ .pending → p'.pendingSteps + 1 = p.pendingSteps

theorem mark_spec {id : String} {s : PlanStep} (status : StepStatus) (hs : p.get id = some s)
    : ∃ p', p.mark id status = .ok p' ∧ Marked p s status p' := by
  rcases markFirst_eq_some status hs with ⟨before, after, hsplit, rfl, hbefore, hmark⟩
  refine ⟨{ steps := before ++ { s with status } :: after }, by simp [mark, hmark], ?_⟩
  constructor
  . simp [hsplit, PlanStep.node]
  . intro id
    simp only [get, hsplit, List.find?_append, List.find?_cons]
    by_cases hid : id = s.id
    . have hnone : before.find? (·.id = s.id) = none := by
        simpa using hbefore
      simp [hnone, hid]
    . have hid' : ¬ s.id = id := fun heq => hid heq.symm
      simp [hid, hid']
  . intro t ht
    simp only [hsplit, List.mem_append, List.mem_cons] at ht ⊢
    tauto
  . intro hpending hstatus
    simp [pendingSteps, hsplit, List.countP_append, hpending, hstatus]
    omega

theorem Marked.wellFormed {s : PlanStep} {status : StepStatus} (h : Marked p s status p')
    (hp : p.WellFormed) (hstatus : status ≠ .running)
    : p'.WellFormed := by
  constructor
  . rw [h.node]
    apply hp.placed
  . intro t ht
    cases h.mem t ht with
    | inl ht => apply hp.idle t ht
    | inr ht => simpa [ht] using hstatus
  . intro hnil
    have := h.node
    simp only [hnil, List.map_nil] at this
    apply hp.nonempty
    simpa using this.symm

def Advances (p p' : Plan) : Prop :=
  ∀ s ∈ p.steps, s.status = .done ∨ s.status = .failed → s ∈ p'.steps

theorem Advances.refl (p : Plan) : Advances p p := by
  intro s hs _
  exact hs

theorem Advances.trans {p₁ p₂ p₃ : Plan} (h : Advances p₁ p₂) (h' : Advances p₂ p₃)
    : Advances p₁ p₃ := by
  intro s hs hfinal
  apply h' s _ hfinal
  apply h s hs hfinal

theorem Advances.hasFailure (h : Advances p p') (hfailure : p'.hasFailure = false)
    : p.hasFailure = false := by
  simp only [Plan.hasFailure, List.any_eq_false, decide_eq_true_eq] at hfailure ⊢
  intro s hs hfailed
  apply hfailure s _ hfailed
  apply h s hs (.inr hfailed)

structure Runnable (p : Plan) (s : PlanStep) : Prop where
  get : p.get s.id = some s
  pending : s.status = .pending
  deps : ∀ dep ∈ s.deps, ∃ t, p.get dep = some t ∧ t.status = .done

theorem WellFormed.runnable_of_mem_ready (h : p.WellFormed) {id : String} (hid : id ∈ p.ready)
    : ∃ s, s.id = id ∧ p.Runnable s := by
  rw [mem_ready] at hid
  rcases hid with ⟨s, hs, heq, hpending, hdeps⟩
  refine ⟨s, heq, h.get_of_mem hs, hpending, ?_⟩
  intro dep hdep
  rcases hdeps dep hdep with ⟨t, ht, hdep, hdone⟩
  refine ⟨t, ?_, hdone⟩
  rw [← hdep]
  apply h.get_of_mem ht

theorem Runnable.not_final {s t : PlanStep} (h : p'.Runnable s) (hp' : p'.WellFormed)
    (hadv : Advances p p') (ht : p.get s.id = some t)
    : t.status ≠ .done ∧ t.status ≠ .failed := by
  rw [← not_or]
  intro hfinal
  have hmem := hadv t (mem_of_get ht).1 hfinal
  have hget := hp'.get_of_mem hmem
  rw [(mem_of_get ht).2, h.get] at hget
  cases hget
  simp [h.pending] at hfinal

section Marked

variable {s : PlanStep} {status : StepStatus}

theorem Marked.get_of_not_pending (h : Marked p s status p') (hs : p.Runnable s) {id : String}
    {t : PlanStep} (ht : p.get id = some t) (hstatus : t.status ≠ .pending)
    : p'.get id = some t := by
  rw [h.get]
  split
  . next hid =>
    rw [hid, hs.get] at ht
    cases ht
    simp [hs.pending] at hstatus
  . exact ht

theorem Marked.advances (h : Marked p s status p') (hp : p.WellFormed) (hs : p.Runnable s)
    : Advances p p' := by
  intro t ht hfinal
  have hstatus : t.status ≠ .pending := by
    intro hpending
    simp [hpending] at hfinal
  have := h.get_of_not_pending hs (hp.get_of_mem ht) hstatus
  apply (mem_of_get this).1

theorem Marked.runnable (h : Marked p s status p') (hs : p.Runnable s) {t : PlanStep}
    (ht : p.Runnable t) (hne : t.id ≠ s.id)
    : p'.Runnable t := by
  constructor
  . rw [h.get, if_neg hne]
    apply ht.get
  . apply ht.pending
  . intro dep hdep
    rcases ht.deps dep hdep with ⟨u, hu, hdone⟩
    refine ⟨u, ?_, hdone⟩
    apply h.get_of_not_pending hs hu
    simp [hdone]

end Marked

theorem pendingSteps_le_length (p : Plan) : p.pendingSteps ≤ p.steps.length := by
  apply List.countP_le_length

end Plan

end Agent
end MemStack
