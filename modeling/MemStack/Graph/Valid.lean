import MemStack.Graph.Impl

/-!
This module contains what the validation of a graph guarantees: edges run between nodes of the graph,
along a rank that grows, and the topological order of a pipeline has all the nodes.
-/

namespace MemStack
namespace Graph

open Kahn

variable {graph : AgentGraph}

structure Valid (graph : AgentGraph) : Prop where
  entry : graph.entryNodes ≠ []
  terminal : graph.terminalNodes ≠ []
  source : ∀ e ∈ graph.edges, e.sourceNodeId ∈ graph.nodes.map (·.nodeId)
  target : ∀ e ∈ graph.edges, e.targetNodeId ∈ graph.nodes.map (·.nodeId)
  acyclic : graph.detectCycles = false

theorem edgeErrors_eq_nil {e : AgentEdge}
    : graph.edgeErrors e = []
        ↔
      e.sourceNodeId ∈ graph.nodes.map (·.nodeId) ∧ e.targetNodeId ∈ graph.nodes.map (·.nodeId) := by
  unfold AgentGraph.edgeErrors AgentGraph.nodeIds
  simp only [List.mem_dedup, List.append_eq_nil_iff, ite_eq_left_iff, List.cons_ne_nil, imp_false,
    not_not]

theorem valid_of_validateGraph (h : graph.validateGraph = []) : Valid graph := by
  unfold AgentGraph.validateGraph at h
  split at h
  . cases h
  . split at h
    . cases h
    . next hcycle =>
      simp only [h, true_and, Bool.not_eq_true] at hcycle
      unfold AgentGraph.structureErrors at h
      simp only [List.append_eq_nil_iff, List.flatMap_eq_nil_iff, edgeErrors_eq_nil,
        ite_eq_right_iff, List.cons_ne_nil, imp_false] at h
      exact {
        entry := h.1.1
        terminal := h.1.2
        source := fun e he => (h.2 e he).1
        target := fun e he => (h.2 e he).2
        acyclic := hcycle
      }

theorem nodup_inDegreeKeys (graph : AgentGraph) : graph.inDegreeKeys.Nodup :=
  List.nodup_dedup _

theorem nodup_nodeIds (graph : AgentGraph) : graph.nodeIds.Nodup :=
  List.nodup_dedup _

namespace Valid

variable (h : Valid graph)

include h

theorem mem_inDegreeKeys {nodeId : String}
    : nodeId ∈ graph.inDegreeKeys ↔ nodeId ∈ graph.nodes.map (·.nodeId) := by
  unfold AgentGraph.inDegreeKeys
  rw [List.mem_dedup, List.mem_append]
  constructor
  . rintro (hnode | htarget)
    . exact hnode
    . rw [List.mem_map] at htarget
      rcases htarget with ⟨e, he, rfl⟩
      apply h.target e he
  . exact .inl

theorem length_inDegreeKeys : graph.inDegreeKeys.length = graph.nodeIds.length := by
  apply List.Perm.length_eq
  rw [List.perm_ext_iff_of_nodup (nodup_inDegreeKeys graph) (nodup_nodeIds graph)]
  intro nodeId
  rw [h.mem_inDegreeKeys, AgentGraph.nodeIds, List.mem_dedup]

theorem inDegree_eq (nodeId : String)
    : graph.inDegree nodeId
        =
      edgesInto (fun current => (graph.getSuccessors current).map (·.targetNodeId))
        graph.inDegreeKeys nodeId := by
  unfold AgentGraph.inDegree AgentGraph.getPredecessors AgentGraph.getSuccessors
  rw [edgesInto_edges (fun e : AgentEdge => e.sourceNodeId) (fun e : AgentEdge => e.targetNodeId)
    (nodup_inDegreeKeys graph)]
  intro e he
  rw [h.mem_inDegreeKeys]
  apply h.source e he

theorem getSuccessors_subset (current : String)
    : (graph.getSuccessors current).map (·.targetNodeId) ⊆ graph.inDegreeKeys := by
  intro nodeId hnode
  rw [List.mem_map] at hnode
  rcases hnode with ⟨e, he, rfl⟩
  rw [h.mem_inDegreeKeys]
  apply h.target
  exact List.mem_of_mem_filter he

theorem exists_rank
    : ∃ rank : String → Nat, ∀ e ∈ graph.edges, rank e.sourceNodeId < rank e.targetNodeId := by
  have hlength := h.acyclic
  unfold AgentGraph.detectCycles at hlength
  simp only [bne_eq_false_iff_eq] at hlength
  rw [← h.length_inDegreeKeys] at hlength
  rw [length_order_run_iff (fun _ => List.Perm.refl _) (nodup_inDegreeKeys graph)
    (fun u _ => h.getSuccessors_subset u) h.inDegree_eq] at hlength
  rcases hlength with ⟨rank, hrank⟩
  refine ⟨rank, ?_⟩
  intro e he
  apply hrank
  . rw [h.mem_inDegreeKeys]
    apply h.source e he
  . apply List.mem_map_of_mem
    simpa [AgentGraph.getSuccessors] using he

theorem mem_topologicalOrder {nodeId : String}
    : nodeId ∈ PipelineCoordinator.topologicalOrder graph ↔ nodeId ∈ graph.nodes.map (·.nodeId) := by
  rcases h.exists_rank with ⟨rank, hrank⟩
  have hkeys : (graph.inDegreeKeys.insertionSort (· ≤ ·)).Perm graph.inDegreeKeys :=
    List.perm_insertionSort _ _
  have hsorted (current : String)
      : (((graph.getSuccessors current).map (·.targetNodeId)).insertionSort (· ≤ ·)).Perm
          ((graph.getSuccessors current).map (·.targetNodeId)) :=
    List.perm_insertionSort _ _
  unfold PipelineCoordinator.topologicalOrder
  rw [(perm_order_run (fun _ => List.Perm.refl _) _ _ _ rank _).mem_iff]
  . rw [hkeys.mem_iff, h.mem_inDegreeKeys]
  . rw [hkeys.nodup_iff]
    apply nodup_inDegreeKeys
  . intro u _ v hv
    rw [(hsorted u).mem_iff] at hv
    rw [hkeys.mem_iff]
    apply h.getSuccessors_subset u hv
  . intro v
    rw [h.inDegree_eq, edgesInto_perm hsorted]
    unfold edgesInto
    rw [(hkeys.map _).sum_eq]
  . intro u _ v hv
    rw [(hsorted u).mem_iff, List.mem_map] at hv
    rcases hv with ⟨e, he, rfl⟩
    simp only [AgentGraph.getSuccessors, List.mem_filter, decide_eq_true_eq] at he
    rw [← he.2]
    apply hrank e he.1

end Valid

end Graph
end MemStack
