import MemStack.Util.Claims
import MemStack.Workspace.Allocator
import MemStack.Workspace.Invalidate

/-!
This module contains how a supervisor tick chooses the ready nodes that it dispatches (`supervisor.py`), and what
the dispatches of a tick do to the nodes under way: their write sets, and what they depend on. Instants are
integers, and the parser of ISO texts is given.
-/

namespace MemStack
namespace Workspace
namespace Supervisor

def nodeWriteSet (node : PlanNode) : Finset String :=
  ((((node.metadata.get "write_set").bind Value.asList).getD []).filterMap fun item =>
    item.asStr.filter (· ≠ "")).toFinset

def activeWriteScopeNodes (plan : Plan) : List PlanNode :=
  plan.leafTasks.filter fun node => node.execution ∈ [.dispatched, .running, .reported, .verifying]

def selectReadyNodesWithoutWriteConflicts (readyNodes activeNodes : List PlanNode) : Claims.Choice PlanNode String :=
  Claims.choose nodeWriteSet (activeNodes.foldl (fun claimed node => claimed ∪ nodeWriteSet node) ∅)
    (readyNodes.insertionSort fun a b => b.priority ≤ a.priority)

def selectReadyNodesWithIntegratedDependencies (readyNodes : List PlanNode) (plan : Plan) (refs : Refs)
    : List PlanNode × List PlanNode :=
  readyNodes.partition fun node => dependencyBlockingIds plan refs node = []

-- `none` is the earliest instant there is.
def nodeRetryNotBefore (fromIsoFormat : String → Option Int) (node : PlanNode) : Option Int :=
  (metadataText (node.metadata.get "retry_not_before")).bind fun raw =>
    match (Text.strip raw).toList.reverse with
    | 'Z' :: rest => fromIsoFormat (String.ofList rest.reverse ++ "+00:00")
    | _ => fromIsoFormat (Text.strip raw)

def readyNodesDue (fromIsoFormat : String → Option Int) (readyNodes : List PlanNode) (now : Int) : List PlanNode :=
  readyNodes.filter fun node => (nodeRetryNotBefore fromIsoFormat node).all (· ≤ now)

section Tick

variable (fromIsoFormat : String → Option Int) (now : Int) (maxDispatchesPerTick : Nat) (plan : Plan) (refs : Refs)

def readyCandidates : List PlanNode :=
  (selectReadyNodesWithIntegratedDependencies (readyNodesDue fromIsoFormat plan.readyNodes now) plan refs).1

def readyToDispatch : List PlanNode :=
  (selectReadyNodesWithoutWriteConflicts (readyCandidates fromIsoFormat now plan refs)
    (activeWriteScopeNodes plan)).selected.take maxDispatchesPerTick

structure Agents where
  allocator : Allocator.CapabilityAllocator
  py : Allocator.PyText
  recommendedCapabilities : PlanNode → List String
  preferredAgentId : PlanNode → Option String
  pool : List Allocator.WorkspaceAgent

def Agents.ready (agents : Agents) (node : PlanNode) : Allocator.ReadyNode where
  node := node
  recommendedCapabilities := agents.recommendedCapabilities node
  preferredAgentId := agents.preferredAgentId node

def Agents.allocate (agents : Agents) (nodes : List PlanNode) : List Allocation :=
  (agents.allocator.allocate agents.py (nodes.map agents.ready) agents.pool).map fun alloc =>
    { nodeId := alloc.nodeId, agentId := alloc.agentId }

def dispatches (agents : Agents) (reports : List (String × Option String)) (requests : List DispatchTick.Request)
    : DispatchTick :=
  Machine.final DispatchTick.step
    (.start (reports.foldl (fun plan report => plan.markWorkerReported report.1 report.2) plan)
      (agents.allocate (readyToDispatch fromIsoFormat now maxDispatchesPerTick plan refs)))
    requests

end Tick

def WasActive (plan : Plan) (id : String) : Prop :=
  ∃ node ∈ activeWriteScopeNodes plan, node.id = id

structure SameScope (before after : PlanNode) : Prop where
  id : after.id = before.id
  kind : after.kind = before.kind
  parentId : after.parentId = before.parentId
  writeSet : nodeWriteSet after = nodeWriteSet before

-- The plan has become `p`, and of its nodes only those with these ids have been dispatched.
structure Within (plan : Plan) (ids : List String) (p : Plan) : Prop where
  present : ∀ id, (p.nodes.get id).isSome = (plan.nodes.get id).isSome
  kept : ∀ id before after, plan.nodes.get id = some before → p.nodes.get id = some after →
    SameScope before after ∧ (after.execution ≠ .idle → before.execution ≠ .idle ∨ id ∈ ids)

section Lemmas

variable {plan p : Plan} {ids : List String} {node before : PlanNode} {refs : Refs} {now : Int}
  {fromIsoFormat : String → Option Int} {maxDispatchesPerTick : Nat}

theorem nodeWriteSet_congr (h : node.metadata.get "write_set" = before.metadata.get "write_set")
    : nodeWriteSet node = nodeWriteSet before := by
  unfold nodeWriteSet
  rw [h]

theorem isActive_iff : node.execution ∈ [TaskExecution.dispatched, .running, .reported, .verifying]
    ↔ node.execution ≠ .idle := by
  cases node.execution <;> decide

theorem mem_activeWriteScopeNodes
    : node ∈ activeWriteScopeNodes plan ↔ node ∈ plan.leafTasks ∧ node.execution ≠ .idle := by
  unfold activeWriteScopeNodes
  rw [List.mem_filter, decide_eq_true_eq, isActive_iff]

theorem SameScope.refl (node : PlanNode) : SameScope node node :=
  ⟨rfl, rfl, rfl, rfl⟩

theorem SameScope.trans {after : PlanNode} (h : SameScope before node) (h' : SameScope node after)
    : SameScope before after :=
  ⟨h'.id.trans h.id, h'.kind.trans h.kind, h'.parentId.trans h.parentId, h'.writeSet.trans h.writeSet⟩

theorem sameScope_reported (node : PlanNode) (attemptId : Option String) : SameScope node (node.reported attemptId) :=
  ⟨rfl, rfl, rfl, rfl⟩

theorem get_metadataForAttempt (node : PlanNode) (attemptId : String)
    : (node.metadataForAttempt attemptId).get "write_set" = node.metadata.get "write_set" := by
  have hkept : (clearStaleAttemptMetadata node.metadata).get "write_set" = node.metadata.get "write_set" := by
    unfold clearStaleAttemptMetadata
    rw [Dict.get_eraseAll, if_neg (by decide)]
  unfold PlanNode.metadataForAttempt
  split
  . exact hkept
  . split
    . dsimp only
      split
      . rw [Dict.get_set, if_neg (by decide), Dict.get_set, if_neg (by decide), hkept]
      . rw [Dict.get_set, if_neg (by decide), hkept]
    . exact hkept

theorem sameScope_dispatched (node : PlanNode) (agentId attemptId : String)
    : SameScope node (node.dispatchedWithFreshAttempt agentId attemptId) :=
  ⟨rfl, rfl, rfl, nodeWriteSet_congr (get_metadataForAttempt node attemptId)⟩

theorem Within.refl (plan : Plan) (ids : List String) : Within plan ids plan where
  present _ := rfl
  kept id before after hbefore hafter := by
    rw [hbefore, Option.some.injEq] at hafter
    rw [← hafter]
    exact ⟨SameScope.refl before, .inl⟩

theorem Within.setNode (h : Within plan ids p) (hget : plan.nodes.get node.id = some before)
    (hsame : SameScope before node) (hactive : node.execution ≠ .idle → before.execution ≠ .idle ∨ node.id ∈ ids)
    : Within plan ids (p.setNode node) where
  present id := by
    rw [Plan.get_setNode]
    split
    . next heq =>
      rw [heq, hget]
      rfl
    . exact h.present id
  kept id before' after hbefore hafter := by
    rw [Plan.get_setNode] at hafter
    split at hafter
    . next heq =>
      rw [heq, hget, Option.some.injEq] at hbefore
      rw [Option.some.injEq] at hafter
      rw [heq, ← hbefore, ← hafter]
      exact ⟨hsame, hactive⟩
    . exact h.kept id before' after hbefore hafter

theorem Within.exists_before (h : Within plan ids p) {id : String} (hget : p.nodes.get id = some node)
    : ∃ before, plan.nodes.get id = some before ∧ SameScope before node
        ∧ (node.execution ≠ .idle → before.execution ≠ .idle ∨ id ∈ ids) := by
  have hpresent := h.present id
  rw [hget, Option.isSome_some] at hpresent
  obtain ⟨before, hbefore⟩ := Option.isSome_iff_exists.mp hpresent.symm
  exact ⟨before, hbefore, h.kept id before node hbefore hget⟩

theorem Within.markWorkerReported (h : Within plan ids p) (id : String) (reportedId : Option String)
    : Within plan ids (p.markWorkerReported id reportedId) := by
  rcases p.markWorkerReported_cases id reportedId with hsame | ⟨node, hget, -, hexecution, hmoved⟩
  . rw [hsame]
    exact h
  . obtain ⟨before, hbefore, hscope, hactive⟩ := h.exists_before hget
    have hid : node.id = id := p.keyed id node hget
    have hnode : node.execution ≠ .idle := by
      rcases hexecution with hexecution | hexecution <;> simp [hexecution]
    rw [hmoved]
    apply h.setNode
    . show plan.nodes.get node.id = some before
      rw [hid, hbefore]
    . exact hscope.trans (sameScope_reported node _)
    . intro _
      show before.execution ≠ .idle ∨ node.id ∈ ids
      rw [hid]
      exact hactive hnode

theorem Within.reports (reports : List (String × Option String))
    : Within plan ids (reports.foldl (fun plan report => plan.markWorkerReported report.1 report.2) plan) := by
  induction reports using List.reverseRecOn with
  | nil => exact Within.refl plan ids
  | append_singleton reports report ih =>
    rw [List.foldl_concat]
    exact ih.markWorkerReported report.1 report.2

theorem Within.leafTasks (h : Within plan ids p) (hmem : node ∈ p.leafTasks)
    : ∃ before ∈ plan.leafTasks, SameScope before node
        ∧ (node.execution ≠ .idle → before.execution ≠ .idle ∨ before.id ∈ ids) := by
  unfold Plan.leafTasks at hmem
  rw [List.mem_filter, decide_eq_true_eq] at hmem
  obtain ⟨hvalue, hchildren, hkind⟩ := hmem
  obtain ⟨before, hbefore, hscope, hactive⟩ := h.exists_before (Plan.mem_values.mp hvalue)
  refine ⟨before, ?_, hscope, ?_⟩
  . unfold Plan.leafTasks
    rw [List.mem_filter, decide_eq_true_eq]
    refine ⟨?_, ?_, ?_⟩
    . rw [Plan.mem_values, ← hscope.id]
      exact hbefore
    . unfold Plan.childrenOf at hchildren ⊢
      rw [List.filter_eq_nil_iff] at hchildren ⊢
      intro child hchild
      have hget := Plan.mem_values.mp hchild
      have hpresent := h.present child.id
      rw [hget, Option.isSome_some] at hpresent
      obtain ⟨child', hchild'⟩ := Option.isSome_iff_exists.mp hpresent
      have hsame := (h.kept child.id child child' hget hchild').1
      have hno := hchildren child' (Plan.mem_values.mpr (by rw [hsame.id]; exact hchild'))
      rw [hsame.parentId, hscope.id] at hno
      exact hno
    . rw [hscope.kind] at hkind
      exact hkind
  . rw [← hscope.id]
    exact hactive

theorem mem_claimed {l : List PlanNode} {start : Finset String} {resource : String}
    : resource ∈ l.foldl (fun claimed node => claimed ∪ nodeWriteSet node) start
        ↔ resource ∈ start ∨ ∃ node ∈ l, resource ∈ nodeWriteSet node := by
  induction l generalizing start with
  | nil => simp
  | cons node l ih =>
    rw [List.foldl_cons, ih, Finset.mem_union]
    simp [or_assoc]

theorem disjoint_claimed_iff {l : List PlanNode} {s : Finset String}
    : Disjoint (l.foldl (fun claimed node => claimed ∪ nodeWriteSet node) ∅) s
        ↔ ∀ node ∈ l, Disjoint (nodeWriteSet node) s := by
  simp only [Finset.disjoint_left, mem_claimed, Finset.notMem_empty, false_or]
  constructor
  . intro h node hnode resource hresource
    exact h ⟨node, hnode, hresource⟩
  . rintro h resource ⟨node, hnode, hresource⟩
    exact h node hnode hresource

theorem mem_readyCandidates
    : node ∈ readyCandidates fromIsoFormat now plan refs
        ↔ node ∈ readyNodesDue fromIsoFormat plan.readyNodes now ∧ dependencyBlockingIds plan refs node = [] := by
  unfold readyCandidates selectReadyNodesWithIntegratedDependencies
  rw [List.partition_eq_filter_filter, List.mem_filter, decide_eq_true_eq]

theorem mem_readyCandidates_of_dispatch
    (h : node ∈ readyToDispatch fromIsoFormat now maxDispatchesPerTick plan refs)
    : node ∈ readyCandidates fromIsoFormat now plan refs := by
  have hselected := List.mem_of_mem_take h
  have hsorted := (Claims.selected_sublist _ _ _).subset hselected
  exact (List.mem_insertionSort _).mp hsorted

theorem mem_readyNodes_of_dispatch (h : node ∈ readyToDispatch fromIsoFormat now maxDispatchesPerTick plan refs)
    : node ∈ plan.readyNodes :=
  List.mem_of_mem_filter (mem_readyCandidates.mp (mem_readyCandidates_of_dispatch h)).1

theorem disjoint_active_of_dispatch (h : node ∈ readyToDispatch fromIsoFormat now maxDispatchesPerTick plan refs)
    : ∀ active ∈ activeWriteScopeNodes plan, Disjoint (nodeWriteSet active) (nodeWriteSet node) :=
  disjoint_claimed_iff.mp (Claims.disjoint_of_selected _ _ _ node (List.mem_of_mem_take h))

theorem disjoint_of_dispatch {other : PlanNode}
    (h : node ∈ readyToDispatch fromIsoFormat now maxDispatchesPerTick plan refs)
    (hother : other ∈ readyToDispatch fromIsoFormat now maxDispatchesPerTick plan refs) (hne : node ≠ other)
    : Disjoint (nodeWriteSet node) (nodeWriteSet other) := by
  exact Claims.disjoint_of_ne (List.mem_of_mem_take h) (List.mem_of_mem_take hother) hne

end Lemmas

def Placed (plan : Plan) (ids : List String) : DispatchPlace → Prop
  | .finished => True
  | .dispatching alloc node _ rest =>
    (∃ before, plan.nodes.get alloc.nodeId = some before ∧ SameScope before node) ∧ alloc.nodeId ∈ ids
      ∧ ∀ later ∈ rest, later.nodeId ∈ ids

def toLaunch : DispatchPlace → Nat
  | .finished => 0
  | .dispatching _ _ none rest => rest.length + 1
  | .dispatching _ _ (some _) rest => rest.length

structure Dispatching (plan : Plan) (ids : List String) (bound : Nat) (s : DispatchTick) : Prop where
  within : Within plan ids s.plan
  placed : Placed plan ids s.place
  launched : s.launched.length + toLaunch s.place ≤ bound

section Run

variable {plan p : Plan} {ids : List String} {bound : Nat} {s : DispatchTick} {allocations : List Allocation}

theorem placed_next (h : Within plan ids p) (hids : ∀ alloc ∈ allocations, alloc.nodeId ∈ ids)
    : Placed plan ids (.next p allocations) := by
  induction allocations with
  | nil => trivial
  | cons alloc rest ih =>
    rw [List.forall_mem_cons] at hids
    unfold DispatchPlace.next
    split
    . next node hget =>
      obtain ⟨before, hbefore, hscope, -⟩ := h.exists_before hget
      exact ⟨⟨before, hbefore, hscope⟩, hids⟩
    . exact ih hids.2

theorem toLaunch_next_le (p : Plan) (allocations : List Allocation)
    : toLaunch (.next p allocations) ≤ allocations.length := by
  induction allocations with
  | nil => exact Nat.le_refl 0
  | cons alloc rest ih =>
    unfold DispatchPlace.next
    split
    . exact Nat.le_refl _
    . exact Nat.le_succ_of_le ih

theorem Dispatching.start (h : Within plan ids p) (hids : ∀ alloc ∈ allocations, alloc.nodeId ∈ ids)
    (hbound : allocations.length ≤ bound)
    : Dispatching plan ids bound (.start p allocations) where
  within := h
  placed := placed_next h hids
  launched := by
    have hle := toLaunch_next_le p allocations
    show 0 + toLaunch (.next p allocations) ≤ bound
    omega

theorem Dispatching.goOn {alloc : Allocation} {node : PlanNode} {launched : Option String}
    {rest : List Allocation} (h : Dispatching plan ids bound s)
    (hplace : s.place = .dispatching alloc node launched rest) (hp : Within plan ids p)
    : Dispatching plan ids bound ⟨p, .next p rest, s.launched⟩ where
  within := hp
  placed := by
    have hplaced := h.placed
    rw [hplace] at hplaced
    exact placed_next hp hplaced.2.2
  launched := by
    have hlaunched := h.launched
    have hle := toLaunch_next_le p rest
    have hrest : rest.length ≤ toLaunch s.place := by
      rw [hplace]
      cases launched with
      | none => exact Nat.le_succ _
      | some _ => exact Nat.le_refl _
    show s.launched.length + toLaunch (.next p rest) ≤ bound
    omega

theorem Dispatching.launch (h : Dispatching plan ids bound s) (attemptId : String)
    : Dispatching plan ids bound (s.launch attemptId) := by
  unfold DispatchTick.launch
  split
  . next alloc node rest hplace =>
    split
    . exact h
    . have hplaced := h.placed
      have hlaunched := h.launched
      rw [hplace] at hplaced hlaunched
      refine ⟨h.within, hplaced, ?_⟩
      show (_ :: s.launched).length + rest.length ≤ bound
      rw [toLaunch] at hlaunched
      rw [List.length_cons]
      omega
  . exact h

theorem Dispatching.dispatcherReturns (h : Dispatching plan ids bound s)
    : Dispatching plan ids bound s.dispatcherReturns := by
  unfold DispatchTick.dispatcherReturns
  split
  . next alloc node attemptId rest hplace =>
    have hplaced := h.placed
    rw [hplace] at hplaced
    obtain ⟨⟨before, hbefore, hscope⟩, hmem, -⟩ := hplaced
    have hid : node.id = alloc.nodeId := hscope.id.trans (plan.keyed _ _ hbefore)
    split
    . apply h.goOn hplace
      apply h.within.setNode
      . show plan.nodes.get node.id = some before
        rw [hid, hbefore]
      . exact hscope.trans (sameScope_dispatched node alloc.agentId attemptId)
      . intro _
        right
        show node.id ∈ ids
        rw [hid]
        exact hmem
    . exact h.goOn hplace h.within
  . next hplace => exact h.goOn hplace h.within
  . exact h

theorem Dispatching.dispatcherRaises (h : Dispatching plan ids bound s)
    : Dispatching plan ids bound s.dispatcherRaises := by
  unfold DispatchTick.dispatcherRaises
  split
  . next hplace => exact h.goOn hplace h.within
  . exact h

theorem Dispatching.step (s : DispatchTick) (request : DispatchTick.Request) (h : Dispatching plan ids bound s)
    : Dispatching plan ids bound (s.step request).1 := by
  cases request with
  | launch attemptId => exact h.launch attemptId
  | dispatcherReturns => exact h.dispatcherReturns
  | dispatcherRaises => exact h.dispatcherRaises
  | report nodeId attemptId => exact ⟨h.within.markWorkerReported nodeId attemptId, h.placed, h.launched⟩

end Run

section Main

variable (fromIsoFormat : String → Option Int) (now : Int) (maxDispatchesPerTick : Nat) (plan : Plan) (refs : Refs)

theorem subperm_allocate (agents : Agents) (nodes : List PlanNode)
    : ((agents.allocate nodes).map (·.nodeId)).Subperm (nodes.map (·.id)) := by
  have hsorted : (Allocator.readySorted (nodes.map agents.ready)).Perm (nodes.map agents.ready) :=
    List.perm_insertionSort _ _
  have hids := (hsorted.map (·.node.id)).subperm
  rw [List.map_map] at hids
  unfold Agents.allocate
  rw [List.map_map, Allocator.CapabilityAllocator.allocate_eq]
  exact Allocator.CapabilityAllocator.allocateFrom_sublist.subperm.trans hids

theorem dispatching_dispatches (agents : Agents) (reports : List (String × Option String))
    (requests : List DispatchTick.Request)
    : Dispatching plan ((readyToDispatch fromIsoFormat now maxDispatchesPerTick plan refs).map (·.id))
        maxDispatchesPerTick
        (dispatches fromIsoFormat now maxDispatchesPerTick plan refs agents reports requests) := by
  apply Machine.inv_final Dispatching.step
  have hsubperm := subperm_allocate agents (readyToDispatch fromIsoFormat now maxDispatchesPerTick plan refs)
  apply Dispatching.start (Within.reports reports)
  . intro alloc halloc
    exact hsubperm.subset (List.mem_map_of_mem halloc)
  . have hle := hsubperm.length_le
    rw [List.length_map, List.length_map] at hle
    exact hle.trans (List.length_take_le _ _)

theorem active_or_dispatched {s : DispatchTick} {bound : Nat} {node : PlanNode}
    (h : Dispatching plan ((readyToDispatch fromIsoFormat now maxDispatchesPerTick plan refs).map (·.id)) bound s)
    (hnode : node ∈ activeWriteScopeNodes s.plan)
    : ∃ before, SameScope before node
        ∧ (before ∈ activeWriteScopeNodes plan
          ∨ before ∈ readyToDispatch fromIsoFormat now maxDispatchesPerTick plan refs) := by
  rw [mem_activeWriteScopeNodes] at hnode
  obtain ⟨before, hleaf, hscope, hactive⟩ := h.within.leafTasks hnode.1
  refine ⟨before, hscope, ?_⟩
  rw [mem_activeWriteScopeNodes]
  rcases hactive hnode.2 with hbefore | hmem
  . exact .inl ⟨hleaf, hbefore⟩
  . right
    obtain ⟨chosen, hchosen, hid⟩ := List.mem_map.mp hmem
    have hvalue : ∀ node ∈ plan.leafTasks, plan.nodes.get node.id = some node := fun node hnode =>
      Plan.mem_values.mp (List.mem_of_mem_filter hnode)
    have hget := hvalue chosen (List.mem_of_mem_filter (mem_readyNodes_of_dispatch hchosen))
    rw [hid, hvalue before hleaf, Option.some.injEq] at hget
    rw [hget]
    exact hchosen

/--
However reports arrive while a tick dispatches: of two nodes under way whose write sets overlap both were under way
before, a node that was not has all its dependencies done and integrated, and no more workers are launched than the
limit of the tick.
-/
theorem dispatches_separate (agents : Agents) (reports : List (String × Option String))
    (requests : List DispatchTick.Request)
    : let s := dispatches fromIsoFormat now maxDispatchesPerTick plan refs agents reports requests
      (∀ a ∈ activeWriteScopeNodes s.plan, ∀ b ∈ activeWriteScopeNodes s.plan, a.id ≠ b.id →
          ¬Disjoint (nodeWriteSet a) (nodeWriteSet b) → WasActive plan a.id ∧ WasActive plan b.id)
        ∧ (∀ a ∈ activeWriteScopeNodes s.plan, ¬WasActive plan a.id →
          ∃ node ∈ plan.readyNodes, node.id = a.id ∧ dependencyBlockingIds plan refs node = [])
        ∧ s.launched.length ≤ maxDispatchesPerTick := by
  intro s
  have hrun := dispatching_dispatches fromIsoFormat now maxDispatchesPerTick plan refs agents reports requests
  refine ⟨?_, ?_, ?_⟩
  . intro a ha b hb hne hoverlap
    obtain ⟨a', hsame, ha'⟩ := active_or_dispatched fromIsoFormat now maxDispatchesPerTick plan refs hrun ha
    obtain ⟨b', hsame', hb'⟩ := active_or_dispatched fromIsoFormat now maxDispatchesPerTick plan refs hrun hb
    rw [hsame.id, hsame'.id] at hne
    rw [hsame.writeSet, hsame'.writeSet] at hoverlap
    rcases ha' with ha' | ha' <;> rcases hb' with hb' | hb'
    . exact ⟨⟨a', ha', hsame.id.symm⟩, b', hb', hsame'.id.symm⟩
    . exact absurd (disjoint_active_of_dispatch hb' a' ha') hoverlap
    . exact absurd (disjoint_active_of_dispatch ha' b' hb').symm hoverlap
    . exact absurd (disjoint_of_dispatch ha' hb' fun heq => hne (congrArg PlanNode.id heq)) hoverlap
  . intro a ha hnew
    obtain ⟨before, hsame, hbefore⟩ := active_or_dispatched fromIsoFormat now maxDispatchesPerTick plan refs hrun ha
    rcases hbefore with hbefore | hbefore
    . exact absurd ⟨before, hbefore, hsame.id.symm⟩ hnew
    . exact ⟨before, mem_readyNodes_of_dispatch hbefore, hsame.id.symm,
        (mem_readyCandidates.mp (mem_readyCandidates_of_dispatch hbefore)).2⟩
  . exact (Nat.le_add_right _ _).trans hrun.launched

theorem head?_readyToDispatch (hlimit : 0 < maxDispatchesPerTick)
    : (readyToDispatch fromIsoFormat now maxDispatchesPerTick plan refs).head? =
        ((readyCandidates fromIsoFormat now plan refs).insertionSort fun a b => b.priority ≤ a.priority).find?
          fun node => ∀ active ∈ activeWriteScopeNodes plan, Disjoint (nodeWriteSet active) (nodeWriteSet node) := by
  unfold readyToDispatch selectReadyNodesWithoutWriteConflicts
  rw [List.head?_take, if_neg (Nat.pos_iff_ne_zero.mp hlimit), Claims.head?_selected]
  simp only [disjoint_claimed_iff]

/--
A tick has a node to dispatch unless each candidate overlaps a node under way, and what it dispatches first has the
highest priority among the candidates that overlap none.
-/
theorem dispatch_waits_only_for_active (hlimit : 0 < maxDispatchesPerTick)
    : (readyToDispatch fromIsoFormat now maxDispatchesPerTick plan refs = [] ↔
          ∀ node ∈ readyCandidates fromIsoFormat now plan refs,
            ∃ active ∈ activeWriteScopeNodes plan, ¬Disjoint (nodeWriteSet active) (nodeWriteSet node))
        ∧ ∀ first ∈ (readyToDispatch fromIsoFormat now maxDispatchesPerTick plan refs).head?,
            ∀ node ∈ readyCandidates fromIsoFormat now plan refs,
              (∀ active ∈ activeWriteScopeNodes plan, Disjoint (nodeWriteSet active) (nodeWriteSet node)) →
              node.priority ≤ first.priority := by
  have hhead := head?_readyToDispatch fromIsoFormat now maxDispatchesPerTick plan refs hlimit
  constructor
  . rw [← List.head?_eq_none_iff, hhead, List.find?_eq_none]
    simp only [List.mem_insertionSort, decide_eq_true_eq, not_forall, exists_prop]
  . intro first hfirst node hnode hfree
    rw [hhead, Option.mem_def, List.find?_eq_some_iff_append] at hfirst
    obtain ⟨-, before, after, hsplit, hbefore⟩ := hfirst
    have hsorted := List.pairwise_insertionSort (fun a b : PlanNode => b.priority ≤ a.priority)
      (readyCandidates fromIsoFormat now plan refs)
    have hmem := (List.mem_insertionSort fun a b : PlanNode => b.priority ≤ a.priority).mpr hnode
    rw [hsplit] at hsorted hmem
    rw [List.pairwise_append, List.pairwise_cons] at hsorted
    rw [List.mem_append, List.mem_cons] at hmem
    rcases hmem with hmem | rfl | hmem
    . have hnot := hbefore node hmem
      rw [Bool.not_eq_true', decide_eq_false_iff_not] at hnot
      exact absurd hfree hnot
    . exact Nat.le_refl _
    . exact hsorted.2.1.1 node hmem

end Main

def writer (id : String) (priority : Nat) (execution : TaskExecution) (file : String) : PlanNode where
  id := id
  planId := "plan"
  parentId := some "goal"
  title := id
  priority := priority
  execution := execution
  intent := if execution = .idle then .todo else .inProgress
  metadata := Dict.empty.set "write_set" (.list [.str file])

def writersPlan : Plan :=
  let goal : PlanNode := { id := "goal", planId := "plan", kind := .goal, title := "Ship" }
  let plan : Plan := { id := "plan", workspaceId := "workspace", goalId := "goal" }
  ((((plan.setNode goal).setNode (writer "build" 0 .running "a.py")).setNode (writer "fix" 9 .idle "a.py")).setNode
    (writer "docs" 3 .idle "b.py")).setNode (writer "tests" 5 .idle "b.py")

def testWriter : PlanNode :=
  writer "tests" 5 .idle "b.py"

theorem writersPlan_dispatched
    : readyToDispatch (fun _ => none) 0 2 writersPlan .empty ≠ [] ∧
        ∀ first ∈ (readyToDispatch (fun _ => none) 0 2 writersPlan .empty).head?, 5 ≤ first.priority := by
  have hactive : activeWriteScopeNodes writersPlan = [writer "build" 0 .running "a.py"] := rfl
  have hleaf : testWriter ∈ writersPlan.leafTasks := by
    rw [show writersPlan.leafTasks = [writer "build" 0 .running "a.py", writer "fix" 9 .idle "a.py",
      writer "docs" 3 .idle "b.py", testWriter] from rfl]
    simp
  have htests : testWriter ∈ readyCandidates (fun _ => none) 0 writersPlan .empty := by
    rw [mem_readyCandidates, readyNodesDue, Plan.readyNodes, List.mem_filter, List.mem_filter]
    refine ⟨⟨⟨hleaf, ?_⟩, ?_⟩, ?_⟩ <;> decide +kernel
  have hfree : ∀ active ∈ activeWriteScopeNodes writersPlan,
      Disjoint (nodeWriteSet active) (nodeWriteSet testWriter) := by
    rw [hactive]
    decide +kernel
  obtain ⟨hwaits, hfirst⟩ :=
    dispatch_waits_only_for_active (fun _ => none) 0 2 writersPlan .empty (by decide)
  constructor
  . intro hnone
    obtain ⟨active, hmem, hoverlaps⟩ := hwaits.mp hnone testWriter htests
    exact hoverlaps (hfree active hmem)
  . intro first hmem
    exact hfirst first hmem testWriter htests hfree

end Supervisor
end Workspace
end MemStack
