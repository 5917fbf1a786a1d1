import MemStack.Util.Lists
import MemStack.Util.Incumbent
import MemStack.Workspace.Plan

/-!
This module contains the allocator that gives ready nodes to the agents of a pool by weighted scores
(`workspace_plan/allocator.py`). Scores are exact fractions, and counts of active tasks are not negative.
-/

namespace MemStack
namespace Workspace
namespace Allocator

open History

-- What Python does to texts: `str.lower`, and the format `.2f`.
structure PyText where
  lower : String → String
  fixed : ℚ → String

structure WorkspaceAgent where
  agentId : String
  capabilities : Finset String := ∅
  toolNames : Finset String := ∅
  activeTaskCount : Nat := 0
  isLeader : Bool := false
  isAvailable : Bool := true
  -- The set in the order in which it is gone through.
  affinityTags : List String := []
  deriving DecidableEq

structure ReadyNode where
  node : PlanNode
  recommendedCapabilities : List String := []
  preferredAgentId : Option String := none

structure Allocation where
  nodeId : String
  agentId : String
  score : ℚ
  reasons : List String := []
  deriving DecidableEq

structure CapabilityAllocator where
  skillWeight : ℚ := 1 / 2
  toolWeight : ℚ := 3 / 10
  loadWeight : ℚ := 1 / 10
  affinityWeight : ℚ := 1 / 10
  minScore : ℚ := 1 / 100
  total : |skillWeight + toolWeight + loadWeight + affinityWeight - 1| ≤ 1 / 1000000 := by norm_num

def defaultExecutionCapabilities : Finset String :=
  {"backend", "codegen", "file_edit", "frontend", "shell", "software_development", "testing"}

def genericExecutionCapabilities : Finset String :=
  {"agent:worker"}

def jaccard (a b : Finset String) : ℚ :=
  if a = ∅ ∧ b = ∅ then
    0
  else
    if (a ∪ b).card ≠ 0 then (a ∩ b).card / (a ∪ b).card else 0

def defaultExecutionFit (capabilities : Finset String) : ℚ :=
  if capabilities = ∅ then
    0
  else
    (capabilities ∩ defaultExecutionCapabilities).card / defaultExecutionCapabilities.card

-- `s.split(":", 1)[-1]`.
def afterColon (s : String) : String :=
  match s.toList.dropWhile (· ≠ ':') with
  | [] => s
  | _ :: rest => String.ofList rest

def nameTokenMatch (py : PyText) (caps tools : Finset String) : ℚ :=
  if caps = ∅ then
    0
  else
    let hits := caps.filter fun c => ∃ t ∈ tools, Text.contains (py.lower t) (afterColon (py.lower c))
    hits.card / caps.card

def ReadyNode.capNames (node : ReadyNode) : Finset String :=
  (node.recommendedCapabilities.filter (· ∉ genericExecutionCapabilities)).toFinset

abbrev Load := Dict String Nat

namespace Load

def of (load : Load) (agentId : String) : Nat :=
  (load.get agentId).getD 0

def initial (agents : List WorkspaceAgent) : Load :=
  Dict.setAll .empty (agents.map fun agent => (agent.agentId, agent.activeTaskCount))

def bump (load : Load) (agentId : String) : Load :=
  load.set agentId (load.of agentId + 1)

end Load

def keyLt (a b : ℚ × Int × String) : Prop :=
  a.1 < b.1 ∨ a.1 = b.1 ∧ (a.2.1 < b.2.1 ∨ a.2.1 = b.2.1 ∧ a.2.2 < b.2.2)

instance (a b : ℚ × Int × String) : Decidable (keyLt a b) :=
  inferInstanceAs (Decidable (_ ∨ _))

def availableOf (pool : List WorkspaceAgent) : List WorkspaceAgent :=
  pool.filter fun agent => agent.isAvailable ∧ ¬agent.isLeader

def readySorted (nodes : List ReadyNode) : List ReadyNode :=
  nodes.insertionSort fun a b =>
    b.node.priority < a.node.priority ∨ a.node.priority = b.node.priority ∧ a.node.id ≤ b.node.id

namespace CapabilityAllocator

variable (allocator : CapabilityAllocator) (py : PyText)

def score (node : ReadyNode) (agent : WorkspaceAgent) (load : Load) : ℚ × List String :=
  let capNames := node.capNames
  let skill :=
    if capNames = ∅ then defaultExecutionFit agent.capabilities else jaccard capNames agent.capabilities
  let tool := nameTokenMatch py capNames agent.toolNames
  let lb : ℚ := 1 / (1 + load.of agent.agentId)
  let preferred := node.preferredAgentId.any fun id => id ≠ "" ∧ id = agent.agentId
  -- Only the first tag that fits is named.
  let tag := agent.affinityTags.find? (· ∈ capNames)
  let aff : ℚ := max (if preferred then 1 else 0) (if tag.isSome then 7 / 10 else 0)
  let reasons :=
    (if 0 < skill then ["skill=" ++ py.fixed skill] else []) ++
    (if 0 < tool then ["tool=" ++ py.fixed tool] else []) ++
    ["load=" ++ py.fixed lb] ++
    (if preferred then ["affinity:preferred"] else []) ++
    (tag.toList.map fun t => "affinity:tag:" ++ t)
  (allocator.skillWeight * skill + allocator.toolWeight * tool + allocator.loadWeight * lb +
    allocator.affinityWeight * aff, reasons)

-- One turn of the loop over the agents. The candidate comes with the tasks that it had before, the best so
-- far with those that it was given since.
def better (node : ReadyNode) (load : Load) (best : Option WorkspaceAgent × ℚ × List String)
    (agent : WorkspaceAgent)
    : Option WorkspaceAgent × ℚ × List String :=
  let scored := allocator.score py node agent load
  let key : ℚ × Int × String := (scored.1, -agent.activeTaskCount, agent.agentId)
  let bestKey : ℚ × Int × String :=
    match best.1 with
    | some incumbent => (best.2.1, -load.of incumbent.agentId, incumbent.agentId)
    | none => (best.2.1, 0, "")
  if keyLt bestKey key then (some agent, scored) else best

def bestAgent (node : ReadyNode) (agents : List WorkspaceAgent) (load : Load)
    : Option WorkspaceAgent × ℚ × List String :=
  agents.foldl (allocator.better py node load) (none, -1, [])

def allocateFrom (available : List WorkspaceAgent) : Load → List ReadyNode → List Allocation
  | _, [] => []
  | load, node :: nodes =>
    match allocator.bestAgent py node available load with
    | (none, _, _) => allocateFrom available load nodes
    | (some agent, score, reasons) =>
      if score < allocator.minScore then
        allocateFrom available load nodes
      else
        { nodeId := node.node.id, agentId := agent.agentId, score, reasons } ::
          allocateFrom available (load.bump agent.agentId) nodes

def allocate (nodes : List ReadyNode) (pool : List WorkspaceAgent) : List Allocation :=
  let available := availableOf pool
  if available.isEmpty then
    []
  else
    allocator.allocateFrom py available (Load.initial available) (readySorted nodes)

variable {available pool : List WorkspaceAgent} {node : ReadyNode} {nodes : List ReadyNode} {load : Load}

def key (node : ReadyNode) (load : Load) (agent : WorkspaceAgent) : ℚ × Int × String :=
  ((allocator.score py node agent load).1, -agent.activeTaskCount, agent.agentId)

def bestKey (node : ReadyNode) (load : Load) (best : Option WorkspaceAgent) : ℚ × Int × String :=
  match best with
  | some incumbent => ((allocator.score py node incumbent load).1, -load.of incumbent.agentId, incumbent.agentId)
  | none => (-1, 0, "")

def Outranks (node : ReadyNode) (load : Load) (agent : WorkspaceAgent) (best : Option WorkspaceAgent) : Prop :=
  keyLt (allocator.bestKey py node load best) (allocator.key py node load agent)

instance (agent : WorkspaceAgent) (best : Option WorkspaceAgent)
    : Decidable (allocator.Outranks py node load agent best) :=
  inferInstanceAs (Decidable (keyLt _ _))

theorem bestAgent_eq
    : allocator.bestAgent py node available load =
        match Incumbent.pick (allocator.Outranks py node load) available with
        | some agent => (some agent, allocator.score py node agent load)
        | none => (none, -1, []) := by
  unfold bestAgent
  induction available using List.reverseRecOn with
  | nil => rfl
  | append_singleton agents agent ih =>
    rw [List.foldl_concat, ih, Incumbent.pick_concat, better, Incumbent.take]
    cases Incumbent.pick (allocator.Outranks py node load) agents with
    | none =>
      dsimp only
      by_cases h : allocator.Outranks py node load agent none
      . rw [if_pos h]
        exact if_pos h
      . rw [if_neg h]
        exact if_neg h
    | some incumbent =>
      dsimp only
      by_cases h : allocator.Outranks py node load agent (some incumbent)
      . rw [if_pos h]
        exact if_pos h
      . rw [if_neg h]
        exact if_neg h

def Gives (available : List WorkspaceAgent) (load : Load) (node : ReadyNode) (agent : WorkspaceAgent) : Prop :=
  Incumbent.pick (allocator.Outranks py node load) available = some agent ∧
    allocator.minScore ≤ (allocator.score py node agent load).1

def allocation (load : Load) (node : ReadyNode) (agent : WorkspaceAgent) : Allocation where
  nodeId := node.node.id
  agentId := agent.agentId
  score := (allocator.score py node agent load).1
  reasons := (allocator.score py node agent load).2

variable {allocator py} {agent : WorkspaceAgent}

theorem allocateFrom_of_gives (h : allocator.Gives py available load node agent)
    : allocator.allocateFrom py available load (node :: nodes) =
        allocator.allocation py load node agent ::
          allocator.allocateFrom py available (load.bump agent.agentId) nodes := by
  rw [allocateFrom, bestAgent_eq, h.1]
  exact if_neg (not_lt.mpr h.2)

theorem allocateFrom_of_not_gives (h : ∀ agent, ¬allocator.Gives py available load node agent)
    : allocator.allocateFrom py available load (node :: nodes) = allocator.allocateFrom py available load nodes := by
  rw [allocateFrom, bestAgent_eq]
  cases hpick : Incumbent.pick (allocator.Outranks py node load) available with
  | none => rfl
  | some agent =>
    apply if_pos
    rw [← not_le]
    intro hmin
    exact h agent ⟨hpick, hmin⟩

theorem fst_le_of_keyLt {a b : ℚ × Int × String} (h : keyLt a b) : a.1 ≤ b.1 := by
  rcases h with hlt | ⟨heq, -⟩
  . exact le_of_lt hlt
  . exact le_of_eq heq

theorem fst_le_of_not_keyLt {a b : ℚ × Int × String} (h : ¬keyLt a b) : b.1 ≤ a.1 := by
  rw [← not_lt]
  intro hlt
  exact h (.inl hlt)

theorem score_le_of_pick (h : Incumbent.pick (allocator.Outranks py node load) available = some agent)
    : ∀ other ∈ available, (allocator.score py node other load).1 ≤ (allocator.score py node agent load).1 := by
  have hrank := Incumbent.rank_le_pick (l := available) (allocator.Outranks py node load)
    (fun best => (allocator.bestKey py node load best).1)
    (fun a _ hbeats => fst_le_of_keyLt (b := allocator.key py node load a) hbeats)
    (fun a _ hkeeps => fst_le_of_not_keyLt (b := allocator.key py node load a) hkeeps)
  rw [h] at hrank
  exact hrank

def Loaded (available : List WorkspaceAgent) (load : Load) : Prop :=
  ∀ agent ∈ available, agent.activeTaskCount ≤ load.of agent.agentId

theorem of_bump (agentId id : String)
    : (load.bump agentId).of id = if id = agentId then load.of agentId + 1 else load.of id := by
  unfold Load.bump
  rw [Load.of, Dict.get_set]
  split <;> rfl

theorem Loaded.bump (h : Loaded available load) (agentId : String) : Loaded available (load.bump agentId) := by
  intro agent hagent
  have hle := h agent hagent
  rw [of_bump]
  split
  . next heq =>
    rw [heq] at hle
    exact Nat.le_succ_of_le hle
  . exact hle

theorem Loaded.of_perm {available' : List WorkspaceAgent} (h : Loaded available load)
    (hperm : available'.Perm available)
    : Loaded available' load := by
  intro agent hagent
  exact h agent (hperm.mem_iff.mp hagent)

theorem outranks_total (h : Loaded available load) (hids : (available.map (·.agentId)).Nodup)
    : ∀ a ∈ available, ∀ b ∈ available, b ≠ a →
        allocator.Outranks py node load b (some a) ∨ allocator.Outranks py node load a (some b) := by
  intro a ha b hb hne
  have hid : a.agentId ≠ b.agentId := fun heq => hne (List.inj_on_of_nodup_map hids hb ha heq.symm)
  have hload := h a ha
  have hload' := h b hb
  unfold Outranks keyLt bestKey key
  dsimp only
  rcases lt_trichotomy (allocator.score py node a load).1 (allocator.score py node b load).1 with
    hlt | heq | hlt
  . exact .inl (.inl hlt)
  . rcases lt_or_gt_of_ne hid with hlt | hlt
    . by_cases hright : a.activeTaskCount < load.of b.agentId
      . exact .inr (.inr ⟨heq.symm, .inl (by omega)⟩)
      . refine .inl (.inr ⟨heq, ?_⟩)
        by_cases hleft : b.activeTaskCount < load.of a.agentId
        . exact .inl (by omega)
        . exact .inr ⟨by omega, hlt⟩
    . by_cases hleft : b.activeTaskCount < load.of a.agentId
      . exact .inl (.inr ⟨heq, .inl (by omega)⟩)
      . refine .inr (.inr ⟨heq.symm, ?_⟩)
        by_cases hright : a.activeTaskCount < load.of b.agentId
        . exact .inl (by omega)
        . exact .inr ⟨by omega, hlt⟩
  . exact .inr (.inl hlt)

variable (allocator py) in
/--
Whenever a node is given away, some agent is outranked by no other. The cases are those of a node that no
agent is fit for, of one for which all score too low, and of one that is given to the agent without rivals.
-/
inductive Decided (available : List WorkspaceAgent) : Load → List ReadyNode → Prop where
  | nil {load : Load} : Decided available load []
  | unfit {load : Load} {node : ReadyNode} {nodes : List ReadyNode}
    (h : ∀ agent ∈ available, ¬allocator.Outranks py node load agent none)
    (rest : Decided available load nodes) : Decided available load (node :: nodes)
  | poor {load : Load} {node : ReadyNode} {nodes : List ReadyNode}
    (h : ∀ agent ∈ available, (allocator.score py node agent load).1 < allocator.minScore)
    (rest : Decided available load nodes) : Decided available load (node :: nodes)
  | give {load : Load} {node : ReadyNode} {nodes : List ReadyNode} {agent : WorkspaceAgent}
    (hmem : agent ∈ available)
    (h : Incumbent.Unrivalled (allocator.Outranks py node load) available agent)
    (hscore : allocator.minScore ≤ (allocator.score py node agent load).1)
    (rest : Decided available (load.bump agent.agentId) nodes) : Decided available load (node :: nodes)

section Perm

variable {available' : List WorkspaceAgent} (hids : (available.map (·.agentId)).Nodup)
  (hloaded : Loaded available load) (hperm : available'.Perm available)
include hids hloaded

theorem gives_of_unrivalled (hmem : agent ∈ available)
    (h : Incumbent.Unrivalled (allocator.Outranks py node load) available agent)
    (hscore : allocator.minScore ≤ (allocator.score py node agent load).1)
    : allocator.Gives py available load node agent :=
  ⟨h.pick hmem hids.of_map fun b hb hne => outranks_total hloaded hids agent hmem b hb hne, hscore⟩

include hperm

omit hids hloaded in
theorem exists_gives_of_perm (h : allocator.Gives py available load node agent)
    : ∃ agent', allocator.Gives py available' load node agent' := by
  cases hpick : Incumbent.pick (allocator.Outranks py node load) available' with
  | none =>
    have hnone : Incumbent.pick (allocator.Outranks py node load) available = none := by
      rw [Incumbent.pick_eq_none_iff] at hpick ⊢
      intro a ha
      exact hpick a (hperm.mem_iff.mpr ha)
    rw [h.1] at hnone
    cases hnone
  | some agent' =>
    have hmem := hperm.mem_iff.mpr (Incumbent.pick_mem h.1)
    exact ⟨agent', hpick, le_trans h.2 (score_le_of_pick hpick agent hmem)⟩

theorem gives_of_perm (h : Incumbent.Unrivalled (allocator.Outranks py node load) available agent)
    (hgives : allocator.Gives py available load node agent)
    : allocator.Gives py available' load node agent := by
  apply gives_of_unrivalled _ (hloaded.of_perm hperm) (hperm.mem_iff.mpr (Incumbent.pick_mem hgives.1)) _ hgives.2
  . exact (hperm.map _).nodup_iff.mpr hids
  . refine ⟨h.1, ?_⟩
    intro b hb
    exact h.2 b (hperm.mem_iff.mp hb)

end Perm

theorem unrivalled_of_gives (hids : (available.map (·.agentId)).Nodup)
    (hgives : allocator.Gives py available load node agent)
    (h : ∀ available', available'.Perm available →
      allocator.allocateFrom py available' load (node :: nodes) =
        allocator.allocateFrom py available load (node :: nodes))
    : Incumbent.Unrivalled (allocator.Outranks py node load) available agent := by
  have hmem := Incumbent.pick_mem hgives.1
  by_contra hrival
  obtain ⟨available', hperm, hne⟩ := Incumbent.exists_pick_ne hmem hids.of_map hrival
  obtain ⟨agent', hgives'⟩ := exists_gives_of_perm hperm hgives
  have heq := h available' hperm
  rw [allocateFrom_of_gives hgives, allocateFrom_of_gives hgives', List.cons.injEq] at heq
  have hid : agent'.agentId = agent.agentId := congrArg Allocation.agentId heq.1
  have hmem' := hperm.mem_iff.mp (Incumbent.pick_mem hgives'.1)
  rw [← List.inj_on_of_nodup_map hids hmem' hmem hid] at hne
  exact hne hgives'.1

theorem allocateFrom_perm_iff (hids : (available.map (·.agentId)).Nodup) (hloaded : Loaded available load)
    : (∀ available', available'.Perm available →
        allocator.allocateFrom py available' load nodes = allocator.allocateFrom py available load nodes)
        ↔
      allocator.Decided py available load nodes := by
  induction nodes generalizing load with
  | nil => exact ⟨fun _ => .nil, fun _ _ _ => rfl⟩
  | cons node nodes ih =>
    by_cases hgives : ∃ agent, allocator.Gives py available load node agent
    . obtain ⟨agent, hgives⟩ := hgives
      have hmem := Incumbent.pick_mem hgives.1
      have hstep : Incumbent.Unrivalled (allocator.Outranks py node load) available agent →
          ((∀ available', available'.Perm available →
            allocator.allocateFrom py available' load (node :: nodes) =
              allocator.allocateFrom py available load (node :: nodes)) ↔
            allocator.Decided py available (load.bump agent.agentId) nodes) := by
        intro hunrivalled
        rw [← ih (hloaded.bump agent.agentId)]
        apply forall₂_congr
        intro available' hperm
        rw [allocateFrom_of_gives hgives,
          allocateFrom_of_gives (gives_of_perm hids hloaded hperm hunrivalled hgives), List.cons.injEq]
        exact and_iff_right rfl
      constructor
      . intro h
        have hunrivalled := unrivalled_of_gives hids hgives h
        exact .give hmem hunrivalled hgives.2 ((hstep hunrivalled).mp h)
      . intro hdecided
        cases hdecided with
        | unfit hunfit =>
          rw [← Incumbent.pick_eq_none_iff, hgives.1] at hunfit
          cases hunfit
        | poor hpoor => exact absurd hgives.2 (not_le.mpr (hpoor agent hmem))
        | give hmem' hunrivalled hscore hrest =>
          have hgives' := gives_of_unrivalled hids hloaded hmem' hunrivalled hscore
          cases hgives.1.symm.trans hgives'.1
          exact (hstep hunrivalled).mpr hrest
    . rw [not_exists] at hgives
      have hskip : (∀ available', available'.Perm available →
          allocator.allocateFrom py available' load (node :: nodes) =
            allocator.allocateFrom py available load (node :: nodes)) ↔
          allocator.Decided py available load nodes := by
        rw [← ih hloaded]
        apply forall₂_congr
        intro available' hperm
        rw [allocateFrom_of_not_gives hgives, allocateFrom_of_not_gives]
        intro agent hgives'
        obtain ⟨agent', hgives'⟩ := exists_gives_of_perm hperm.symm hgives'
        exact hgives agent' hgives'
      rw [hskip]
      constructor
      . intro hrest
        cases hpick : Incumbent.pick (allocator.Outranks py node load) available with
        | none =>
          rw [Incumbent.pick_eq_none_iff] at hpick
          exact .unfit hpick hrest
        | some agent =>
          have hlow : (allocator.score py node agent load).1 < allocator.minScore := by
            rw [← not_le]
            intro hmin
            exact hgives agent ⟨hpick, hmin⟩
          exact .poor (fun other hother => lt_of_le_of_lt (score_le_of_pick hpick other hother) hlow) hrest
      . intro hdecided
        cases hdecided with
        | unfit _ hrest => exact hrest
        | poor _ hrest => exact hrest
        | give hmem hunrivalled hscore hrest =>
          exact absurd (gives_of_unrivalled hids hloaded hmem hunrivalled hscore) (hgives _)

theorem entries_initial (hids : (available.map (·.agentId)).Nodup)
    : (Load.initial available).entries = available.map fun agent => (agent.agentId, agent.activeTaskCount) := by
  rw [Load.initial, Dict.entries_setAll]
  . rfl
  . intro e _
    simp [Dict.empty, Dict.keys]
  . rw [List.map_map]
    exact hids

theorem of_initial (hids : (available.map (·.agentId)).Nodup) (hmem : agent ∈ available)
    : (Load.initial available).of agent.agentId = agent.activeTaskCount := by
  have hget : (Load.initial available).get agent.agentId = some agent.activeTaskCount := by
    rw [Dict.get_eq_some, entries_initial hids]
    exact List.mem_map_of_mem (f := fun agent => (agent.agentId, agent.activeTaskCount)) hmem
  rw [Load.of, hget]
  rfl

theorem of_initial_of_notMem {id : String} (hids : (available.map (·.agentId)).Nodup)
    (h : id ∉ available.map (·.agentId))
    : (Load.initial available).of id = 0 := by
  have hget : (Load.initial available).get id = none := by
    rw [Dict.get_eq_none, Dict.keys, entries_initial hids, List.map_map]
    exact h
  rw [Load.of, hget]
  rfl

theorem of_initial_perm {available' : List WorkspaceAgent} (hids : (available.map (·.agentId)).Nodup)
    (hperm : available'.Perm available)
    : (Load.initial available').of = (Load.initial available).of := by
  have hids' := (hperm.map (·.agentId)).nodup_iff.mpr hids
  funext id
  by_cases hmem : id ∈ available.map (·.agentId)
  . obtain ⟨agent, hagent, rfl⟩ := List.mem_map.mp hmem
    rw [of_initial hids hagent, of_initial hids' (hperm.mem_iff.mpr hagent)]
  . rw [of_initial_of_notMem hids hmem, of_initial_of_notMem hids']
    rwa [(hperm.map (·.agentId)).mem_iff]

theorem loaded_initial (hids : (available.map (·.agentId)).Nodup) : Loaded available (Load.initial available) := by
  intro agent hagent
  exact le_of_eq (of_initial hids hagent).symm

theorem score_congr {load' : Load} (h : load.of = load'.of)
    : allocator.score py node agent load = allocator.score py node agent load' := by
  unfold score
  rw [h]

theorem bestAgent_congr {load' : Load} (h : load.of = load'.of)
    : allocator.bestAgent py node available load = allocator.bestAgent py node available load' := by
  have hbetter : allocator.better py node load = allocator.better py node load' := by
    funext best agent
    unfold better
    rw [score_congr h, h]
  rw [bestAgent, hbetter]
  rfl

theorem allocateFrom_congr {load' : Load} (h : load.of = load'.of)
    : allocator.allocateFrom py available load nodes = allocator.allocateFrom py available load' nodes := by
  induction nodes generalizing load load' with
  | nil => rfl
  | cons node nodes ih =>
    rw [allocateFrom, allocateFrom, bestAgent_congr h]
    rcases allocator.bestAgent py node available load' with ⟨_ | agent, score, reasons⟩
    . exact ih h
    . have hbump : (load.bump agent.agentId).of = (load'.bump agent.agentId).of := by
        funext id
        rw [of_bump, of_bump, h]
      dsimp only
      rw [ih h, ih hbump]

theorem availableOf_perm {pool' : List WorkspaceAgent} (h : pool'.Perm pool)
    : (availableOf pool').Perm (availableOf pool) :=
  h.filter _

theorem exists_availableOf_eq (h : available.Perm (availableOf pool))
    : ∃ pool', pool'.Perm pool ∧ availableOf pool' = available := by
  refine ⟨available ++ pool.filter fun agent => ¬(agent.isAvailable ∧ ¬agent.isLeader), ?_, ?_⟩
  . have hsplit := List.filter_append_perm (fun agent => decide (agent.isAvailable ∧ ¬agent.isLeader)) pool
    apply (h.append_right _).trans
    simpa [availableOf] using hsplit
  . have hall : ∀ agent ∈ available, agent.isAvailable ∧ ¬agent.isLeader := by
      intro agent hagent
      have := h.mem_iff.mp hagent
      simpa [availableOf] using (List.mem_filter.mp this).2
    unfold availableOf
    rw [List.filter_append, List.filter_filter, List.filter_eq_self.mpr, List.filter_eq_nil_iff.mpr]
    . simp
    . simp
    . simpa using hall

theorem readySorted_perm {nodes' : List ReadyNode} (h : nodes'.Perm nodes)
    (hids : (nodes.map (·.node.id)).Nodup)
    : readySorted nodes' = readySorted nodes := by
  let le (a b : ReadyNode) : Prop :=
    b.node.priority < a.node.priority ∨ a.node.priority = b.node.priority ∧ a.node.id ≤ b.node.id
  have htotal : Std.Total le := by
    constructor
    intro a b
    rcases lt_trichotomy a.node.priority b.node.priority with hlt | heq | hlt
    . exact .inr (.inl hlt)
    . rcases le_total a.node.id b.node.id with hle | hle
      . exact .inl (.inr ⟨heq, hle⟩)
      . exact .inr (.inr ⟨heq.symm, hle⟩)
    . exact .inl (.inl hlt)
  have htrans : IsTrans ReadyNode le := by
    constructor
    rintro a b c (hab | ⟨hab, hab'⟩) (hbc | ⟨hbc, hbc'⟩)
    . exact .inl (hbc.trans hab)
    . exact .inl (hbc ▸ hab)
    . exact .inl (hab ▸ hbc)
    . exact .inr ⟨hab.trans hbc, hab'.trans hbc'⟩
  have hsorted (l : List ReadyNode) : (readySorted l).Pairwise le :=
    List.pairwise_insertionSort le l
  have hperm (l : List ReadyNode) : (readySorted l).Perm l :=
    List.perm_insertionSort le l
  refine List.Perm.eq_of_pairwise ?_ (hsorted nodes') (hsorted nodes)
    (((hperm nodes').trans h).trans (hperm nodes).symm)
  rintro a b ha hb (hab | ⟨hprio, hab⟩) (hba | ⟨hprio', hba⟩)
  . exact absurd hab (lt_asymm hba)
  . exact absurd hab (not_lt.mpr (le_of_eq hprio'.symm))
  . exact absurd hba (not_lt.mpr (le_of_eq hprio.symm))
  . apply List.inj_on_of_nodup_map hids (h.mem_iff.mp ((hperm nodes').mem_iff.mp ha)) ((hperm nodes).mem_iff.mp hb)
    exact le_antisymm hab hba

theorem allocate_eq
    : allocator.allocate py nodes pool =
        allocator.allocateFrom py (availableOf pool) (Load.initial (availableOf pool)) (readySorted nodes) := by
  have hnil : ∀ load nodes, allocator.allocateFrom py [] load nodes = [] := by
    intro load nodes
    induction nodes with
    | nil => rfl
    | cons node nodes ih => exact ih
  unfold allocate
  dsimp only
  split
  . next hempty => rw [List.isEmpty_iff.mp hempty, hnil]
  . rfl

def loadAfter (pool : List WorkspaceAgent) (given : List Allocation) : Load :=
  given.foldl (fun load allocation => load.bump allocation.agentId) (Load.initial (availableOf pool))

def GivenToBest (allocator : CapabilityAllocator) (py : PyText) (nodes : List ReadyNode)
    (available : List WorkspaceAgent) (load : Load) (allocation : Allocation) : Prop :=
  ∃ node ∈ nodes, node.node.id = allocation.nodeId ∧
    ∃ agent ∈ available, agent.agentId = allocation.agentId ∧
      (allocator.score py node agent load).1 = allocation.score ∧
      ∀ other ∈ available, (allocator.score py node other load).1 ≤ allocation.score

theorem atEach_cons {α : Type} {P : List α → α → Prop} {l : List α} {a : α} (ha : P [] a)
    (hl : AtEach (fun before => P (a :: before)) l)
    : AtEach P (a :: l) := by
  intro before b after hsplit
  cases before with
  | nil =>
    rw [List.nil_append, List.cons.injEq] at hsplit
    rw [← hsplit.1]
    exact ha
  | cons c before =>
    rw [List.cons_append, List.cons.injEq] at hsplit
    rw [← hsplit.1]
    exact hl before b after hsplit.2

theorem allocateFrom_sublist
    : ((allocator.allocateFrom py available load nodes).map (·.nodeId)).Sublist (nodes.map (·.node.id)) := by
  induction nodes generalizing load with
  | nil => exact List.nil_sublist _
  | cons node nodes ih =>
    by_cases hgives : ∃ agent, allocator.Gives py available load node agent
    . obtain ⟨agent, hgives⟩ := hgives
      rw [allocateFrom_of_gives hgives]
      exact ih.cons_cons _
    . rw [allocateFrom_of_not_gives (not_exists.mp hgives)]
      exact ih.cons _

theorem allocateFrom_given {all : List ReadyNode} (hsubset : ∀ node ∈ nodes, node ∈ all)
    : AtEach
      (fun before => GivenToBest allocator py all available
        (before.foldl (fun load allocation => load.bump allocation.agentId) load))
      (allocator.allocateFrom py available load nodes) := by
  induction nodes generalizing load with
  | nil => exact atEach_nil _
  | cons node nodes ih =>
    rw [List.forall_mem_cons] at hsubset
    by_cases hgives : ∃ agent, allocator.Gives py available load node agent
    . obtain ⟨agent, hgives⟩ := hgives
      rw [allocateFrom_of_gives hgives]
      apply atEach_cons
      . exact ⟨node, hsubset.1, rfl, agent, Incumbent.pick_mem hgives.1, rfl, rfl, score_le_of_pick hgives.1⟩
      . exact ih hsubset.2
    . rw [allocateFrom_of_not_gives (not_exists.mp hgives)]
      exact ih hsubset.2

/--
Each node is given away at most once and to the best. The order of the pool and of the nodes does not
matter just when at each node that is given away some agent has no rivals.
-/
theorem allocate_order_free_iff (allocator : CapabilityAllocator) (py : PyText)
    (hnodes : (nodes.map (·.node.id)).Nodup) (hpool : (pool.map (·.agentId)).Nodup)
    : ((∀ nodes' pool', nodes'.Perm nodes → pool'.Perm pool →
          allocator.allocate py nodes' pool' = allocator.allocate py nodes pool) ∧
        ((allocator.allocate py nodes pool).map (·.nodeId)).Nodup ∧
        AtEach (fun before => GivenToBest allocator py nodes (availableOf pool) (loadAfter pool before))
          (allocator.allocate py nodes pool))
        ↔
      allocator.Decided py (availableOf pool) (Load.initial (availableOf pool)) (readySorted nodes) := by
  have hids : ((availableOf pool).map (·.agentId)).Nodup :=
    hpool.sublist (List.filter_sublist.map _)
  have hsorted : (readySorted nodes).Perm nodes := List.perm_insertionSort _ nodes
  have honce : ((allocator.allocate py nodes pool).map (·.nodeId)).Nodup := by
    rw [allocate_eq]
    apply List.Nodup.sublist allocateFrom_sublist
    rwa [(hsorted.map _).nodup_iff]
  have hgiven : AtEach (fun before => GivenToBest allocator py nodes (availableOf pool) (loadAfter pool before))
      (allocator.allocate py nodes pool) := by
    rw [allocate_eq]
    exact allocateFrom_given fun node hnode => hsorted.mem_iff.mp hnode
  rw [and_iff_left ⟨honce, hgiven⟩, ← allocateFrom_perm_iff hids (loaded_initial hids)]
  constructor
  . intro h available' hperm
    obtain ⟨pool', hpool', rfl⟩ := exists_availableOf_eq hperm
    have heq := h nodes pool' (List.Perm.refl nodes) hpool'
    rw [allocate_eq, allocate_eq] at heq
    rw [← heq]
    exact allocateFrom_congr (of_initial_perm hids hperm).symm
  . intro h nodes' pool' hnodes' hpool'
    have hperm := availableOf_perm hpool'
    rw [allocate_eq, allocate_eq, readySorted_perm hnodes' hnodes, ← h _ hperm]
    exact allocateFrom_congr (of_initial_perm hids hperm)

section Tied

def plainText : PyText where
  lower := Text.lower
  fixed _ := ""

def plainNode (id : String) : ReadyNode where
  node := { id, planId := "p", parentId := some "g", title := "build" }

/--
Two agents that are alike have been given one node each. The third goes to whoever comes last.
-/
theorem allocate_depends_on_order
    : ∃ nodes : List ReadyNode, ∃ pool pool' : List WorkspaceAgent,
        (nodes.map (·.node.id)).Nodup ∧ (pool.map (·.agentId)).Nodup ∧ pool'.Perm pool ∧
          ({} : CapabilityAllocator).allocate plainText nodes pool' ≠
            ({} : CapabilityAllocator).allocate plainText nodes pool :=
  ⟨[plainNode "1", plainNode "2", plainNode "3"], [{ agentId := "a" }, { agentId := "b" }],
    [{ agentId := "b" }, { agentId := "a" }], by decide, by decide, by decide, by decide +kernel⟩

theorem allocate_order_free_of_two
    : ({} : CapabilityAllocator).allocate plainText [plainNode "1"] [{ agentId := "b" }, { agentId := "a" }] =
        ({} : CapabilityAllocator).allocate plainText [plainNode "1"] [{ agentId := "a" }, { agentId := "b" }] := by
  let pool : List WorkspaceAgent := [{ agentId := "a" }, { agentId := "b" }]
  let best : WorkspaceAgent := { agentId := "b" }
  let load := Load.initial (availableOf pool)
  have hunrivalled : Incumbent.Unrivalled (({} : CapabilityAllocator).Outranks plainText (plainNode "1") load)
      (availableOf pool) best :=
    ⟨by decide +kernel, by decide +kernel⟩
  have hscore : ({} : CapabilityAllocator).minScore ≤
      (({} : CapabilityAllocator).score plainText (plainNode "1") best load).1 := by
    decide +kernel
  have hdecided : ({} : CapabilityAllocator).Decided plainText (availableOf pool) load [plainNode "1"] :=
    .give (by decide) hunrivalled hscore .nil
  have hnodes : ([plainNode "1"].map (·.node.id)).Nodup := by decide
  have hpool : (pool.map (·.agentId)).Nodup := by decide
  have h := (allocate_order_free_iff {} plainText hnodes hpool).mpr hdecided
  exact h.1 [plainNode "1"] _ (List.Perm.refl _) (List.Perm.swap _ _ [])

end Tied

end CapabilityAllocator

end Allocator
end Workspace
end MemStack
