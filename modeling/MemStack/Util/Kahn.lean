import MemStack.Util.Lists
import MemStack.Util.Semaphore
import MemStack.Util.Dict

/-!
This module contains Kahn's algorithm. The nodes and their successors are given as lists, a node that
is reached by several edges is repeated among the successors, and the queue may be rearranged before
a node is taken from it. A pass over the order then gives each element the weight of the heaviest chain of
dependencies that it is the head of.
-/

namespace Kahn

open History

variable {ν : Type} [DecidableEq ν]

structure State (ν : Type) where
  inDegree : ν → Int
  queue : List ν
  order : List ν

def release (s : State ν) (target : ν) : State ν :=
  { s with
    inDegree := Function.update s.inDegree target (s.inDegree target - 1)
    queue := if s.inDegree target - 1 = 0 then s.queue ++ [target] else s.queue
  }

def visit (arrange : List ν → List ν) (succ : ν → List ν) (s : State ν) : State ν :=
  match arrange s.queue with
  | [] => s
  | current :: queue =>
    (succ current).foldl release { s with queue, order := s.order ++ [current] }

def start (nodes : List ν) (inDegree : ν → Int) : State ν :=
  { inDegree, queue := nodes.filter (inDegree · = 0), order := [] }

-- A loop of the source ends when the queue is empty. `queue_run` shows that it is empty by then.
def run (arrange : List ν → List ν) (nodes : List ν) (succ : ν → List ν) (inDegree : ν → Int)
    : State ν :=
  (visit arrange succ)^[nodes.length] (start nodes inDegree)

def edgesInto (succ : ν → List ν) (sources : List ν) (v : ν) : Nat :=
  (sources.map fun u => (succ u).count v).sum

theorem mem_succ_of_edgesInto {succ : ν → List ν} {sources : List ν} {v : ν}
    (h : 0 < edgesInto succ sources v)
    : ∃ u ∈ sources, v ∈ succ u := by
  unfold edgesInto at h
  rw [List.sum_pos_iff_exists_pos_nat] at h
  rcases h with ⟨n, hn, hpos⟩
  rw [List.mem_map] at hn
  rcases hn with ⟨u, hu, rfl⟩
  exact ⟨u, hu, List.count_pos_iff.mp hpos⟩

theorem edgesInto_pos {succ : ν → List ν} {sources : List ν} {u v : ν} (hu : u ∈ sources)
    (hv : v ∈ succ u)
    : 0 < edgesInto succ sources v := by
  unfold edgesInto
  rw [List.sum_pos_iff_exists_pos_nat]
  refine ⟨(succ u).count v, ?_, List.count_pos_iff.mpr hv⟩
  apply List.mem_map_of_mem hu

theorem edgesInto_concat (succ : ν → List ν) (sources : List ν) (u v : ν)
    : edgesInto succ (sources ++ [u]) v = edgesInto succ sources v + (succ u).count v := by
  simp [edgesInto]

theorem edgesInto_split {nodes order : List ν} (succ : ν → List ν) (hnodes : nodes.Nodup)
    (horder : order.Nodup) (hsub : order ⊆ nodes) (v : ν)
    : edgesInto succ nodes v
        =
      edgesInto succ order v + edgesInto succ (nodes.filter (· ∉ order)) v := by
  have hperm : nodes.Perm (order ++ nodes.filter (· ∉ order)) := by
    apply (List.perm_ext_iff_of_nodup hnodes _).mpr
    . intro a
      simp only [List.mem_append, List.mem_filter, decide_eq_true_eq]
      have := @hsub a
      tauto
    . apply List.Nodup.append horder (hnodes.filter _)
      intro a ha hfilter
      simp only [List.mem_filter, decide_eq_true_eq] at hfilter
      exact hfilter.2 ha
  unfold edgesInto
  rw [← List.sum_append, ← List.map_append]
  exact (hperm.map _).sum_eq

theorem edgesInto_perm {succ succ' : ν → List ν} (h : ∀ u, (succ u).Perm (succ' u))
    (sources : List ν) (v : ν)
    : edgesInto succ sources v = edgesInto succ' sources v := by
  unfold edgesInto
  congr 1
  apply List.map_congr_left
  intro u _
  apply (h u).count_eq

theorem sum_indicator {nodes : List ν} (hnodes : nodes.Nodup) {u : ν} (hu : u ∈ nodes) (n : Nat)
    : (nodes.map fun u' => if u = u' then n else 0).sum = n := by
  induction nodes with
  | nil => simp at hu
  | cons u' nodes ih =>
    rw [List.nodup_cons] at hnodes
    rw [List.map_cons, List.sum_cons]
    by_cases heq : u = u'
    . have hzero : (nodes.map fun u' => if u = u' then n else 0).sum = 0 := by
        apply List.sum_eq_zero
        intro m hm
        rw [List.mem_map] at hm
        rcases hm with ⟨u'', hu'', rfl⟩
        rw [if_neg]
        intro heq'
        apply hnodes.1
        rw [← heq, heq']
        exact hu''
      rw [if_pos heq, hzero]
      omega
    . rw [if_neg heq, ih hnodes.2]
      . omega
      . simpa [heq] using hu

theorem edgesInto_edges {ε : Type} (source target : ε → ν) {nodes : List ν} (hnodes : nodes.Nodup)
    {edges : List ε} (hsource : ∀ e ∈ edges, source e ∈ nodes) (v : ν)
    : edgesInto (fun u => (edges.filter (source · = u)).map target) nodes v
        =
      (edges.filter (target · = v)).length := by
  induction edges with
  | nil => simp [edgesInto]
  | cons e edges ih =>
    have ih := ih <| by
      intro e' he'
      apply hsource
      simp [he']
    have hone := sum_indicator hnodes (hsource e (by simp)) (if target e = v then 1 else 0)
    unfold edgesInto at ih ⊢
    have hsplit (u : ν)
        : ((List.filter (source · = u) (e :: edges)).map target).count v
            =
          (if source e = u then (if target e = v then 1 else 0) else 0) +
            ((edges.filter (source · = u)).map target).count v := by
      rw [List.filter_cons]
      by_cases hu : source e = u
      . simp only [hu, decide_true, if_true, List.map_cons, List.count_cons, beq_iff_eq]
        omega
      . simp [hu]
    simp only [hsplit]
    rw [List.sum_map_add, hone, ih, List.filter_cons]
    by_cases hv : target e = v
    . simp only [hv, if_true, decide_true, List.length_cons]
      omega
    . simp [hv]

section Release

theorem release_foldl_order (targets : List ν) (s : State ν)
    : (targets.foldl release s).order = s.order := by
  induction targets generalizing s with
  | nil => rfl
  | cons t targets ih => rw [List.foldl_cons, ih]; rfl

theorem release_foldl_inDegree (targets : List ν) (s : State ν) (v : ν)
    : (targets.foldl release s).inDegree v = s.inDegree v - targets.count v := by
  induction targets generalizing s with
  | nil => simp
  | cons t targets ih =>
    rw [List.foldl_cons, ih, List.count_cons]
    simp only [release, Function.update_apply, beq_iff_eq]
    by_cases h : v = t
    . rw [if_pos h, if_pos h.symm, h]
      push_cast
      omega
    . rw [if_neg h, if_neg (Ne.symm h)]
      simp

theorem release_foldl_queue {targets : List ν} {s : State ν}
    (hdegree : ∀ v, (targets.count v : Int) ≤ s.inDegree v)
    : ∃ released, (targets.foldl release s).queue = s.queue ++ released ∧ released.Nodup ∧
      ∀ v, v ∈ released ↔ v ∈ targets ∧ s.inDegree v = targets.count v := by
  induction targets generalizing s with
  | nil => exact ⟨[], by simp⟩
  | cons t targets ih =>
    have hdegree' : ∀ v, (targets.count v : Int) ≤ (release s t).inDegree v := by
      intro v
      have := hdegree v
      have hfold := release_foldl_inDegree [t] s v
      simp only [List.foldl_cons, List.foldl_nil] at hfold
      rw [List.count_cons] at this
      rw [hfold, List.count_singleton]
      push_cast at this ⊢
      omega
    rcases ih hdegree' with ⟨released, hqueue, hnodup, hmem⟩
    rw [List.foldl_cons, hqueue]
    have ht := hdegree t
    rw [List.count_cons_self] at ht
    push_cast at ht
    by_cases hzero : s.inDegree t - 1 = 0
    . have hlast : t ∉ targets := by
        rw [← List.count_eq_zero]
        omega
      refine ⟨t :: released, by simp [release, hzero], ?_, ?_⟩
      . rw [List.nodup_cons]
        refine ⟨?_, hnodup⟩
        rw [hmem]
        tauto
      . intro v
        rw [List.mem_cons, hmem, List.mem_cons, List.count_cons]
        simp only [release, Function.update_apply, beq_iff_eq]
        by_cases hv : v = t
        . have hcount : targets.count t = 0 := List.count_eq_zero.mpr hlast
          simp only [hv, hcount, hlast]
          simp
          omega
        . simp [hv, Ne.symm hv]
    . refine ⟨released, by simp [release, hzero], hnodup, ?_⟩
      intro v
      rw [hmem, List.mem_cons, List.count_cons]
      simp only [release, Function.update_apply, beq_iff_eq]
      by_cases hv : v = t
      . have hcount : 0 < targets.count t ↔ t ∈ targets := List.count_pos_iff
        rw [hv]
        simp only [if_true, true_or, true_and]
        push_cast
        constructor
        . intro h
          omega
        . intro h
          refine ⟨?_, by omega⟩
          rw [← hcount]
          omega
      . simp [hv, Ne.symm hv]

end Release

section Run

variable {arrange : List ν → List ν} {nodes : List ν} {succ : ν → List ν} {inDegree : ν → Int}

structure Inv (nodes : List ν) (succ : ν → List ν) (inDegree : ν → Int) (s : State ν) : Prop where
  nodup : (s.order ++ s.queue).Nodup
  mem : ∀ v, v ∈ s.order ++ s.queue ↔ v ∈ nodes ∧ s.inDegree v = 0
  inDegree : ∀ v, s.inDegree v + edgesInto succ s.order v = inDegree v
  ordered : AtEach (fun before v => ∀ u ∈ nodes, v ∈ succ u → u ∈ before) s.order

theorem Inv.order_subset {s : State ν} (h : Inv nodes succ inDegree s) : s.order ⊆ nodes := by
  intro v hv
  apply ((h.mem v).mp _).1
  apply List.mem_append_left _ hv

theorem Inv.order_nodup {s : State ν} (h : Inv nodes succ inDegree s) : s.order.Nodup :=
  (List.nodup_append.mp h.nodup).1

theorem Inv.start (hnodes : nodes.Nodup) : Inv nodes succ inDegree (start nodes inDegree) where
  nodup := by simpa [Kahn.start] using hnodes.filter _
  mem := by simp [Kahn.start]
  inDegree := by simp [Kahn.start, edgesInto]
  ordered := by simp [Kahn.start]

theorem Inv.sources_taken (hnodes : nodes.Nodup)
    (hdegree : ∀ v, (edgesInto succ nodes v : Int) ≤ inDegree v)
    {s : State ν} (h : Inv nodes succ inDegree s) {u v : ν} (hv : s.inDegree v = 0) (hu : u ∈ nodes)
    (hedge : v ∈ succ u)
    : u ∈ s.order := by
  by_contra hnot
  have hsplit := edgesInto_split succ hnodes h.order_nodup h.order_subset v
  have hrest : 0 < edgesInto succ (nodes.filter (· ∉ s.order)) v := by
    apply edgesInto_pos _ hedge
    simp [hu, hnot]
  have h1 := hdegree v
  have h2 := h.inDegree v
  omega

theorem Inv.visit (harrange : ∀ q, (arrange q).Perm q) (hnodes : nodes.Nodup)
    (hsucc : ∀ u ∈ nodes, succ u ⊆ nodes)
    (hdegree : ∀ v, (edgesInto succ nodes v : Int) ≤ inDegree v)
    {s : State ν} (h : Inv nodes succ inDegree s)
    : Inv nodes succ inDegree (visit arrange succ s) := by
  unfold Kahn.visit
  split
  . exact h
  . next current queue hqueue =>
    have hperm : s.queue.Perm (current :: queue) := by
      rw [← hqueue]
      exact (harrange s.queue).symm
    have htaken : (s.order ++ [current] ++ queue).Perm (s.order ++ s.queue) := by
      rw [List.append_assoc]
      apply List.Perm.append_left
      exact hperm.symm
    have hnodup : (s.order ++ [current] ++ queue).Nodup := htaken.nodup_iff.mpr h.nodup
    have hcurrent : current ∈ nodes ∧ s.inDegree current = 0 := by
      rw [← h.mem, htaken.symm.mem_iff]
      simp
    have horder : s.order ++ [current] ⊆ nodes := by
      intro v hv
      apply ((h.mem v).mp _).1
      rw [htaken.symm.mem_iff]
      apply List.mem_append_left _ hv
    have hcount (v : ν) : ((succ current).count v : Int) ≤ s.inDegree v := by
      have hsplit := edgesInto_split succ hnodes (List.nodup_append.mp hnodup).1 horder v
      have hconcat := edgesInto_concat succ s.order current v
      have h1 := hdegree v
      have h2 := h.inDegree v
      omega
    rcases release_foldl_queue (s := { s with queue, order := s.order ++ [current] }) hcount with
      ⟨released, hreleased, hreleasedNodup, hmem⟩
    have hnew (v : ν) (hv : v ∈ released) : v ∉ s.order ++ s.queue := by
      intro hold
      have hzero := ((h.mem v).mp hold).2
      have hv := (hmem v).mp hv
      have hpos : 0 < (succ current).count v := List.count_pos_iff.mpr hv.1
      dsimp only at hv
      omega
    constructor
    . rw [release_foldl_order, hreleased, ← List.append_assoc]
      apply List.Nodup.append hnodup hreleasedNodup
      intro v hv hv'
      apply hnew v hv'
      apply htaken.mem_iff.mp hv
    . intro v
      rw [release_foldl_order, hreleased, ← List.append_assoc, List.mem_append, htaken.mem_iff]
      rw [h.mem, hmem, release_foldl_inDegree]
      have hsub := @hsucc current hcurrent.1 v
      have hpos : 0 < (succ current).count v ↔ v ∈ succ current := List.count_pos_iff
      have hle := hcount v
      dsimp only
      constructor
      . rintro (hv | hv)
        . exact ⟨hv.1, by omega⟩
        . exact ⟨hsub hv.1, by omega⟩
      . intro hv
        by_cases hzero : s.inDegree v = 0
        . exact .inl ⟨hv.1, hzero⟩
        . refine .inr ⟨?_, by omega⟩
          rw [← hpos]
          omega
    . intro v
      rw [release_foldl_order, release_foldl_inDegree]
      have hconcat := edgesInto_concat succ s.order current v
      have hinv := h.inDegree v
      dsimp only
      omega
    . rw [release_foldl_order, atEach_concat]
      refine ⟨h.ordered, ?_⟩
      intro u hu hedge
      apply h.sources_taken hnodes hdegree hcurrent.2 hu hedge

theorem visit_of_queue_nil (harrange : ∀ q, (arrange q).Perm q) {s : State ν} (h : s.queue = [])
    : visit arrange succ s = s := by
  unfold visit
  rw [h, (harrange []).eq_nil]

theorem visit_order_length (harrange : ∀ q, (arrange q).Perm q) {s : State ν} (h : s.queue ≠ [])
    : (visit arrange succ s).order.length = s.order.length + 1 := by
  unfold visit
  split
  . next hqueue =>
    have hperm := harrange s.queue
    rw [hqueue] at hperm
    exact absurd hperm.nil_eq.symm h
  . rw [release_foldl_order]
    simp

variable (harrange : ∀ q, (arrange q).Perm q) (hnodes : nodes.Nodup)
  (hsucc : ∀ u ∈ nodes, succ u ⊆ nodes)

section Bounded

variable (hdegree : ∀ v, (edgesInto succ nodes v : Int) ≤ inDegree v)

include harrange hnodes hsucc hdegree

theorem inv_iterate (n : Nat)
    : Inv nodes succ inDegree ((visit arrange succ)^[n] (start nodes inDegree)) := by
  induction n with
  | zero => apply Inv.start hnodes
  | succ n ih =>
    rw [Function.iterate_succ_apply']
    apply ih.visit harrange hnodes hsucc hdegree

theorem inv_run : Inv nodes succ inDegree (run arrange nodes succ inDegree) :=
  inv_iterate harrange hnodes hsucc hdegree nodes.length

theorem queue_run : (run arrange nodes succ inDegree).queue = [] := by
  have hprogress (n : Nat)
      : ((visit arrange succ)^[n] (start nodes inDegree)).queue = [] ∨
        ((visit arrange succ)^[n] (start nodes inDegree)).order.length = n := by
    induction n with
    | zero => exact .inr rfl
    | succ n ih =>
      rw [Function.iterate_succ_apply']
      by_cases hempty : ((visit arrange succ)^[n] (start nodes inDegree)).queue = []
      . left
        rw [visit_of_queue_nil harrange hempty, hempty]
      . right
        rw [visit_order_length harrange hempty, ih.resolve_left hempty]
  cases hprogress nodes.length with
  | inl hempty => exact hempty
  | inr hlength =>
    have hinv := inv_run harrange hnodes hsucc hdegree
    have hsub : (run arrange nodes succ inDegree).order ++ (run arrange nodes succ inDegree).queue
        ⊆ nodes := by
      intro v hv
      exact ((hinv.mem v).mp hv).1
    have hle := (hinv.nodup.subperm hsub).length_le
    have hlength : (run arrange nodes succ inDegree).order.length = nodes.length := hlength
    rw [List.length_append] at hle
    rw [← List.length_eq_zero_iff]
    omega

end Bounded

section Exact

variable (hdegree : ∀ v, inDegree v = edgesInto succ nodes v)

include harrange hnodes hsucc hdegree

theorem exists_source_left_out {v : ν} (hv : v ∈ nodes)
    (hout : v ∉ (run arrange nodes succ inDegree).order)
    : ∃ u ∈ nodes, u ∉ (run arrange nodes succ inDegree).order ∧ v ∈ succ u := by
  have hle : ∀ v, (edgesInto succ nodes v : Int) ≤ inDegree v := by
    intro v
    rw [hdegree]
  have hinv := inv_run harrange hnodes hsucc hle
  have hmem := hinv.mem v
  rw [queue_run harrange hnodes hsucc hle, List.append_nil] at hmem
  have hpos : 0 < edgesInto succ (nodes.filter (· ∉ (run arrange nodes succ inDegree).order)) v := by
    have hsplit := edgesInto_split succ hnodes hinv.order_nodup hinv.order_subset v
    have h1 := hdegree v
    have h2 := hinv.inDegree v
    by_contra hzero
    apply hout
    apply hmem.mpr
    exact ⟨hv, by omega⟩
  rcases mem_succ_of_edgesInto hpos with ⟨u, hu, hedge⟩
  simp only [List.mem_filter, decide_eq_true_eq] at hu
  exact ⟨u, hu.1, hu.2, hedge⟩

theorem length_order_run_iff
    : (run arrange nodes succ inDegree).order.length = nodes.length
        ↔
      ∃ rank : ν → Nat, ∀ u ∈ nodes, ∀ v ∈ succ u, rank u < rank v := by
  have hle : ∀ v, (edgesInto succ nodes v : Int) ≤ inDegree v := by
    intro v
    rw [hdegree]
  have hinv := inv_run harrange hnodes hsucc hle
  constructor
  . intro hlength
    have hperm : (run arrange nodes succ inDegree).order.Perm nodes := by
      apply (hinv.order_nodup.subperm hinv.order_subset).perm_of_length_le
      omega
    refine ⟨fun v => (run arrange nodes succ inDegree).order.idxOf v, ?_⟩
    intro u hu v hv
    dsimp only
    have hvmem : v ∈ (run arrange nodes succ inDegree).order := by
      rw [hperm.mem_iff]
      apply hsucc u hu hv
    rcases List.append_of_mem hvmem with ⟨before, after, hsplit⟩
    have hbefore := hinv.ordered before v after hsplit u hu hv
    have hnodup := hinv.order_nodup
    rw [hsplit] at hnodup ⊢
    have hvnot : v ∉ before := by
      intro hmem
      exact (List.nodup_append.mp hnodup).2.2 v hmem v List.mem_cons_self rfl
    rw [List.idxOf_append_of_mem hbefore, List.idxOf_append_of_notMem hvnot, List.idxOf_cons_self]
    have := List.idxOf_lt_length_iff.mpr hbefore
    omega
  . rintro ⟨rank, hrank⟩
    have hall (v : ν) (hv : v ∈ nodes) : v ∈ (run arrange nodes succ inDegree).order := by
      induction hn : rank v using Nat.strong_induction_on generalizing v with
      | _ n ih =>
        by_contra hout
        rcases exists_source_left_out harrange hnodes hsucc hdegree hv hout with
          ⟨u, hu, huout, hedge⟩
        apply huout
        have hless := hrank u hu v hedge
        apply ih (rank u) (by omega) u hu rfl
    apply le_antisymm
    . apply (hinv.order_nodup.subperm hinv.order_subset).length_le
    . apply (hnodes.subperm hall).length_le

theorem perm_order_run (rank : ν → Nat) (hrank : ∀ u ∈ nodes, ∀ v ∈ succ u, rank u < rank v)
    : (run arrange nodes succ inDegree).order.Perm nodes := by
  have hle : ∀ v, (edgesInto succ nodes v : Int) ≤ inDegree v := by
    intro v
    rw [hdegree]
  have hinv := inv_run harrange hnodes hsucc hle
  apply (hinv.order_nodup.subperm hinv.order_subset).perm_of_length_le
  rw [(length_order_run_iff harrange hnodes hsucc hdegree).mpr ⟨rank, hrank⟩]

theorem length_order_run_iff_acyclic
    : (run arrange nodes succ inDegree).order.length = nodes.length
        ↔
      Waiting.Acyclic fun v u => u ∈ nodes ∧ v ∈ succ u := by
  constructor
  . intro hlength
    obtain ⟨rank, hrank⟩ := (length_order_run_iff harrange hnodes hsucc hdegree).mp hlength
    have hless : ∀ v u, u ∈ nodes ∧ v ∈ succ u → rank u < rank v := by
      intro v u hedge
      exact hrank u hedge.1 v hedge.2
    exact Waiting.acyclic_of_rank hless
  . intro hacyclic
    have hle : ∀ v, (edgesInto succ nodes v : Int) ≤ inDegree v := by
      intro v
      rw [hdegree]
    have hinv := inv_run harrange hnodes hsucc hle
    have hall : nodes ⊆ (run arrange nodes succ inDegree).order := by
      by_contra hout
      have hne : nodes.filter (· ∉ (run arrange nodes succ inDegree).order) ≠ [] := by
        intro hnil
        apply hout
        intro v hv
        by_contra hnot
        rw [List.filter_eq_nil_iff] at hnil
        exact hnil v hv (decide_eq_true hnot)
      obtain ⟨v, hv, hfree⟩ := hacyclic.exists_free hne
      rw [List.mem_filter, decide_eq_true_eq] at hv
      obtain ⟨u, hu, huout, hedge⟩ := exists_source_left_out harrange hnodes hsucc hdegree hv.1 hv.2
      apply hfree u _ ⟨hu, hedge⟩
      exact List.mem_filter.mpr ⟨hu, decide_eq_true huout⟩
    apply le_antisymm
    . apply (hinv.order_nodup.subperm hinv.order_subset).length_le
    . apply (hnodes.subperm hall).length_le

omit harrange hsucc in
theorem mem_queue_of_sources {s : State ν} (h : Inv nodes succ inDegree s) {w : ν} (hw : w ∈ nodes)
    (hsources : ∀ u ∈ nodes, w ∈ succ u → u ∈ s.order) (hnot : w ∉ s.order)
    : w ∈ s.queue := by
  have hzero : edgesInto succ (nodes.filter (· ∉ s.order)) w = 0 := by
    by_contra hpos
    obtain ⟨u, hu, hedge⟩ := mem_succ_of_edgesInto (Nat.pos_of_ne_zero hpos)
    rw [List.mem_filter, decide_eq_true_eq] at hu
    exact hu.2 (hsources u hu.1 hedge)
  have hsplit := edgesInto_split succ hnodes h.order_nodup h.order_subset w
  have h1 := hdegree w
  have h2 := h.inDegree w
  have hmem : w ∈ s.order ++ s.queue := (h.mem w).mpr ⟨hw, by omega⟩
  exact (List.mem_append.mp hmem).resolve_left hnot

theorem arranged_run {R : ν → ν → Prop} (hbest : ∀ q a l, arrange q = a :: l → ∀ b ∈ q, R a b)
    : AtEach
      (fun before v => ∀ w ∈ nodes, w ∉ before → (∀ u ∈ nodes, w ∈ succ u → u ∈ before) → R v w)
      (run arrange nodes succ inDegree).order := by
  have hle : ∀ v, (edgesInto succ nodes v : Int) ≤ inDegree v := by
    intro v
    rw [hdegree]
  unfold run
  induction nodes.length with
  | zero => exact atEach_nil _
  | succ n ih =>
    have hinv := inv_iterate harrange hnodes hsucc hle n
    rw [Function.iterate_succ_apply']
    generalize (visit arrange succ)^[n] (start nodes inDegree) = s at ih hinv ⊢
    unfold visit
    split
    . exact ih
    . next current queue hqueue =>
      rw [release_foldl_order, atEach_concat]
      refine ⟨ih, ?_⟩
      intro w hw hnot hsources
      apply hbest s.queue current queue hqueue
      exact mem_queue_of_sources hnodes hdegree hinv hw hsources hnot

end Exact

end Run

end Kahn

namespace LongestChain

open History

variable {α M : Type} [DecidableEq α] [AddCommMonoid M] [LinearOrder M] [IsOrderedAddMonoid M]

def IsChainIn (deps : α → Finset α) (all path : List α) : Prop :=
  (∀ a ∈ path, a ∈ all) ∧ path.IsChain fun a b => b ∈ deps a

def heaviest (deps : α → Finset α) (table : Dict α M) (a : α) : M :=
  (deps a).fold max 0 fun b => (table.get b).getD 0

def visit (weight : α → M) (deps : α → Finset α) (table : Dict α M) (a : α) : Dict α M :=
  table.set a (weight a + heaviest deps table a)

def run (weight : α → M) (deps : α → Finset α) (order : List α) : Dict α M :=
  order.foldl (visit weight deps) .empty

def Ready (deps : α → Finset α) (all before : List α) (a : α) : Prop :=
  a ∉ before ∧ ∀ b ∈ deps a, b ∈ all → b ∈ before

variable {weight : α → M} {deps : α → Finset α} {all l path rest : List α} {a b : α} {table : Dict α M}

omit [IsOrderedAddMonoid M] in
theorem get_run_concat
    : (run weight deps (l ++ [a])).get b =
        if b = a then some (weight a + heaviest deps (run weight deps l) a) else (run weight deps l).get b := by
  rw [run, List.foldl_concat, visit, Dict.get_set]
  rfl

omit [IsOrderedAddMonoid M] in
theorem keys_run : b ∈ (run weight deps l).keys ↔ b ∈ l := by
  induction l using List.reverseRecOn with
  | nil => simp [run, Dict.mem_keys]
  | append_singleton l a ih =>
    rw [Dict.mem_keys] at ih ⊢
    rw [get_run_concat, List.mem_append, List.mem_singleton, ← ih]
    split
    . next heq => simp [heq]
    . next hne => simp [hne]

omit [IsOrderedAddMonoid M] in
theorem heaviest_congr {table' : Dict α M} (h : ∀ b ∈ deps a, table.get b = table'.get b)
    : heaviest deps table a = heaviest deps table' a := by
  apply Finset.fold_congr
  intro b hb
  rw [h b hb]

omit [IsOrderedAddMonoid M] in
theorem get_run (hsubset : ∀ b ∈ l, b ∈ all) (h : AtEach (Ready deps all) l)
    : ∀ a ∈ l, (run weight deps l).get a = some (weight a + heaviest deps (run weight deps l) a) := by
  induction l using List.reverseRecOn with
  | nil => simp
  | append_singleton l c ih =>
    rw [atEach_concat] at h
    have hall : c ∈ all := hsubset c (by simp)
    have hkept {a : α} (hdeps : ∀ b ∈ deps a, b ∈ all → b ∈ l)
        : heaviest deps (run weight deps (l ++ [c])) a = heaviest deps (run weight deps l) a := by
      apply heaviest_congr
      intro b hb
      rw [get_run_concat, if_neg]
      rintro rfl
      exact h.2.1 (hdeps b hb hall)
    intro a ha
    rw [List.mem_append, List.mem_singleton] at ha
    rw [get_run_concat]
    by_cases hac : a = c
    . rw [if_pos hac, hac, hkept h.2.2]
    . rw [if_neg hac]
      have hmem := ha.resolve_right hac
      rw [ih (fun b hb => hsubset b (by simp [hb])) h.1 a hmem, hkept]
      intro b hb hball
      obtain ⟨before, after, hsplit⟩ := List.append_of_mem hmem
      have hbefore := (h.1 before a after hsplit).2 b hb hball
      rw [hsplit]
      simp [hbefore]

def weightsFrom (weight : α → M) (deps : α → Finset α) (all : List α) (a : α) : Set M :=
  {w | ∃ rest, IsChainIn deps all (a :: rest) ∧ ((a :: rest).map weight).sum = w}

omit [DecidableEq α] in
theorem isChainIn_cons
    : IsChainIn deps all (a :: path)
        ↔
      a ∈ all ∧ (∀ b ∈ path.head?, b ∈ deps a) ∧ IsChainIn deps all path := by
  unfold IsChainIn
  rw [List.forall_mem_cons, List.isChain_cons]
  tauto

theorem isGreatest_weightsFrom (ha : a ∈ all) (hnone : ∀ b, b ∉ all → table.get b = none)
    (hdeps : ∀ b ∈ deps a, b ∈ all → IsGreatest (weightsFrom weight deps all b) ((table.get b).getD 0))
    : IsGreatest (weightsFrom weight deps all a) (weight a + heaviest deps table a) := by
  constructor
  . have hattained : heaviest deps table a = 0 ∨ ∃ b ∈ deps a, b ∈ all ∧
        heaviest deps table a = (table.get b).getD 0 := by
      rcases Finset.le_fold_max (heaviest deps table a) |>.mp le_rfl with hle | ⟨b, hb, hle⟩
      . exact .inl (le_antisymm hle (Finset.le_fold_max 0 |>.mpr (.inl le_rfl)))
      . have hge : (table.get b).getD 0 ≤ heaviest deps table a :=
          Finset.le_fold_max _ |>.mpr (.inr ⟨b, hb, le_rfl⟩)
        have heq := le_antisymm hle hge
        by_cases hall : b ∈ all
        . exact .inr ⟨b, hb, hall, heq⟩
        . rw [hnone b hall] at heq
          exact .inl heq
    rcases hattained with hzero | ⟨b, hb, hall, heq⟩
    . refine ⟨[], ?_, ?_⟩
      . simp [IsChainIn, ha]
      . simp [hzero]
    . obtain ⟨rest, hchain, hsum⟩ := (hdeps b hb hall).1
      refine ⟨b :: rest, ?_, ?_⟩
      . rw [isChainIn_cons]
        refine ⟨ha, ?_, hchain⟩
        simpa using hb
      . rw [List.map_cons, List.sum_cons, hsum, heq]
  . rintro w ⟨rest, hchain, rfl⟩
    rw [List.map_cons, List.sum_cons]
    apply add_le_add_right
    cases rest with
    | nil => exact Finset.le_fold_max _ |>.mpr (.inl (by simp))
    | cons b rest =>
      rw [isChainIn_cons] at hchain
      obtain ⟨-, hhead, hchain⟩ := hchain
      have hb : b ∈ deps a := hhead b rfl
      have hle := (hdeps b hb (hchain.1 b (by simp))).2 ⟨rest, hchain, rfl⟩
      exact Finset.le_fold_max _ |>.mpr (.inr ⟨b, hb, hle⟩)

variable (weight) in
theorem isGreatest_get_run (h : AtEach (Ready deps l) l)
    : ∀ a ∈ l, IsGreatest (weightsFrom weight deps l a) (((run weight deps l).get a).getD 0) := by
  have hnone : ∀ b, b ∉ l → (run weight deps l).get b = none := by
    intro b hb
    rw [Dict.get_eq_none, keys_run]
    exact hb
  have hin : AtEach (fun before a => Ready deps l before a ∧ a ∈ l) l := by
    intro before a after hsplit
    refine ⟨h before a after hsplit, ?_⟩
    rw [hsplit]
    simp
  apply hin.forall_mem (Q := fun a =>
    IsGreatest (weightsFrom weight deps l a) (((run weight deps l).get a).getD 0))
  rintro before a ⟨hready, ha⟩ hbefore
  rw [get_run (fun _ hb => hb) h a ha]
  exact isGreatest_weightsFrom ha hnone fun b hb hall => hbefore b (hready.2 b hb hall)

variable (weight) in
theorem isGreatest_max (hweight : ∀ a, 0 ≤ weight a) (h : AtEach (Ready deps l) l)
    : IsGreatest {w | ∃ path, IsChainIn deps l path ∧ (path.map weight).sum = w}
        ((run weight deps l).values.max?.getD 0) := by
  have hrun := isGreatest_get_run weight h
  have hvalues : ∀ w ∈ (run weight deps l).values, ∃ a ∈ l, IsGreatest (weightsFrom weight deps l a) w := by
    intro w hw
    rw [Dict.mem_values] at hw
    obtain ⟨a, ha⟩ := hw
    have hmem : a ∈ l := keys_run.mp (Dict.mem_keys.mpr ⟨w, ha⟩)
    have := hrun a hmem
    rw [ha] at this
    exact ⟨a, hmem, this⟩
  have hnonneg : ∀ path : List α, 0 ≤ (path.map weight).sum := by
    intro path
    apply List.sum_nonneg
    intro w hw
    obtain ⟨a, -, rfl⟩ := List.mem_map.mp hw
    exact hweight a
  cases hmax : (run weight deps l).values.max? with
  | none =>
    rw [List.max?_eq_none_iff] at hmax
    refine ⟨⟨[], by simp [IsChainIn], rfl⟩, ?_⟩
    rintro w ⟨path, hchain, rfl⟩
    cases path with
    | nil => exact le_rfl
    | cons a path =>
      have ha : a ∈ (run weight deps l).keys := keys_run.mpr (hchain.1 a (by simp))
      obtain ⟨w, hw⟩ := Dict.mem_keys.mp ha
      have := Dict.mem_values.mpr ⟨a, hw⟩
      rw [hmax] at this
      exact absurd this (by simp)
  | some m =>
    rw [List.max?_eq_some_iff] at hmax
    obtain ⟨a, -, hgreatest⟩ := hvalues m hmax.1
    constructor
    . obtain ⟨rest, hchain, hsum⟩ := hgreatest.1
      exact ⟨a :: rest, hchain, hsum⟩
    . rintro w ⟨path, hchain, rfl⟩
      cases path with
      | nil =>
        obtain ⟨rest, -, hsum⟩ := hgreatest.1
        change 0 ≤ m
        rw [← hsum]
        exact hnonneg (a :: rest)
      | cons b path =>
        have hb := hchain.1 b (by simp)
        have hle := (hrun b hb).2 ⟨path, hchain, rfl⟩
        apply le_trans hle
        rw [get_run (fun _ hc => hc) h b hb] at hle ⊢
        apply hmax.2
        rw [Dict.mem_values]
        exact ⟨b, get_run (fun _ hc => hc) h b hb⟩

end LongestChain
