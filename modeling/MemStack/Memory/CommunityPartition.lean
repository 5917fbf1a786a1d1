import MemStack.Memory.CommunityMoves

/-!
This module contains the levels of the method of Louvain: the graph of the communities has the modularity of the
graph that it was made from, so no level makes the modularity smaller, and after finitely many levels nothing
merges.
-/

namespace Dict

variable {κ : Type} [DecidableEq κ] {l : List κ} {k k' : κ} {i : Nat}

def numbered (l : List κ) : Dict κ Nat :=
  l.foldl (fun d k => d.setDefault k d.entries.length) Dict.empty

theorem numbered_concat (l : List κ) (k : κ)
    : numbered (l ++ [k]) = (numbered l).setDefault k (numbered l).entries.length := by
  simp [numbered]

theorem keys_setDefault (d : Dict κ Nat) (k : κ) (i : Nat)
    : (d.setDefault k i).keys = if (d.get k).isSome then d.keys else d.keys ++ [k] := by
  unfold setDefault
  split
  . rfl
  . next hnone =>
    rw [Option.not_isSome_iff_eq_none, get_eq_none] at hnone
    unfold keys
    rw [entries_set_of_notMem hnone, List.map_append]
    rfl

theorem get_numbered : (numbered l).get k = some i ↔ (numbered l).keys[i]? = some k := by
  induction l using List.reverseRecOn generalizing k i with
  | nil =>
    rw [numbered, List.foldl_nil, get_empty]
    simp [keys, empty]
  | append_singleton l k' ih =>
    have hlength : (numbered l).keys.length = (numbered l).entries.length := List.length_map _
    rw [numbered_concat, get_setDefault, keys_setDefault, ← hlength]
    cases hget : (numbered l).get k' with
    | some j =>
      rw [Option.getD_some, Option.isSome_some, if_pos rfl, ← ih]
      split
      . next heq => rw [heq, hget]
      . rfl
    | none =>
      have hnew := get_eq_none.mp hget
      rw [Option.getD_none, Option.isSome_none, if_neg Bool.false_ne_true, List.getElem?_append]
      split
      . next heq =>
        subst heq
        have hnot : ∀ i : Nat, (numbered l).keys[i]? ≠ some k := fun i h => hnew (List.mem_of_getElem? h)
        split
        . next hlt =>
          simp only [Option.some.injEq, hnot, iff_false]
          omega
        . next hle =>
          rw [List.getElem?_singleton]
          simp only [Option.some.injEq]
          split <;> simp <;> omega
      . next hne =>
        rw [ih]
        split
        . rfl
        . next hle =>
          rw [List.getElem?_eq_none (by omega), List.getElem?_singleton]
          simp [Ne.symm hne]

theorem mem_numbered : k ∈ (numbered l).keys ↔ k ∈ l := by
  induction l using List.reverseRecOn with
  | nil => simp [numbered, keys, empty]
  | append_singleton l k' ih =>
    rw [mem_keys, numbered_concat, get_setDefault]
    split
    . next heq => simp [heq]
    . next hne => rw [← mem_keys, ih, List.mem_append, List.mem_singleton, or_iff_left hne]

theorem length_numbered_le (l : List κ) : (numbered l).entries.length ≤ l.length := by
  have hsubperm : (numbered l).keys.Subperm l := by
    apply List.Nodup.subperm (numbered l).nodup
    intro k hk
    exact mem_numbered.mp hk
  have hle := hsubperm.length_le
  rwa [keys, List.length_map] at hle

theorem exists_get_numbered (hk : k ∈ l) : ∃ i < (numbered l).entries.length, (numbered l).get k = some i := by
  obtain ⟨i, hi⟩ := List.getElem?_of_mem (mem_numbered.mpr hk)
  refine ⟨i, ?_, get_numbered.mpr hi⟩
  have hlt := (List.getElem?_eq_some_iff.mp hi).1
  rwa [keys, List.length_map] at hlt

theorem numbered_inj (h : (numbered l).get k = some i) (h' : (numbered l).get k' = some i) : k = k' := by
  rw [get_numbered] at h h'
  rw [h] at h'
  exact Option.some.inj h'

end Dict

namespace MemStack
namespace Memory

open Finset

section Compact

variable {comm : List Nat} {i j : Nat}

theorem relabel_eq (comm : List Nat) : relabel comm = Dict.numbered comm :=
  rfl

theorem length_compact (comm : List Nat) : (compact comm).1.length = comm.length :=
  List.length_map _

theorem compact_le (comm : List Nat) : (compact comm).2 ≤ comm.length :=
  Dict.length_numbered_le comm

theorem getD_compact (hi : i < comm.length)
    : (compact comm).1.getD i 0 = ((relabel comm).get (comm.getD i 0)).getD 0 := by
  simp [compact, List.getD_eq_getElem?_getD, hi]

theorem compact_lt (hcomm : comm ≠ []) (i : Nat) : (compact comm).1.getD i 0 < (compact comm).2 := by
  by_cases hi : i < comm.length
  . have hmem : comm.getD i 0 ∈ comm := by
      simp [List.getD_eq_getElem?_getD, hi]
    obtain ⟨c, hlt, hget⟩ := Dict.exists_get_numbered hmem
    rw [getD_compact hi, relabel_eq, hget]
    exact hlt
  . obtain ⟨c, hc⟩ := List.exists_mem_of_ne_nil comm hcomm
    obtain ⟨k, hlt, _⟩ := Dict.exists_get_numbered hc
    have hzero : (compact comm).1.getD i 0 = 0 := by
      rw [List.getD_eq_getElem?_getD, List.getElem?_eq_none (by rw [length_compact]; omega)]
      rfl
    rw [hzero]
    exact Nat.zero_lt_of_lt hlt

theorem compact_eq_iff (hi : i < comm.length) (hj : j < comm.length)
    : (compact comm).1.getD i 0 = (compact comm).1.getD j 0 ↔ comm.getD i 0 = comm.getD j 0 := by
  have hmem : ∀ k < comm.length, comm.getD k 0 ∈ comm := by
    intro k hk
    simp [List.getD_eq_getElem?_getD, hk]
  obtain ⟨a, _, ha⟩ := Dict.exists_get_numbered (hmem i hi)
  obtain ⟨b, _, hb⟩ := Dict.exists_get_numbered (hmem j hj)
  rw [getD_compact hi, getD_compact hj, relabel_eq, ha, hb, Option.getD_some, Option.getD_some]
  constructor
  . rintro rfl
    exact Dict.numbered_inj ha hb
  . intro heq
    rw [heq, hb] at ha
    exact (Option.some.inj ha).symm

end Compact

section Level

variable {n : Nat} {A : Nat → Nat → ℚ} {g : WGraph} {current comm labels : List Nat} {moved : Bool}
  {fuel i : Nat}

abbrev labelled (n : Nat) (A : Nat → Nat → ℚ) (l : Nat → Nat) : ℚ :=
  Modularity.modularity (range n) A l

structure Level (n : Nat) (A : Nat → Nat → ℚ) (g : WGraph) (current : List Nat) : Prop where
  represents : ∃ A', g.Represents A' ∧ ∀ l : Nat → Nat, labelled g.n A' l = labelled n A fun i => l (current.getD i 0)
  m2 : 0 < g.m2
  length : current.length = n
  lt : ∀ i < n, current.getD i 0 < g.n

theorem aggregate_m2 {A' : Nat → Nat → ℚ} {k : Nat} (h : g.Represents A') (hlabels : ∀ i, labels.getD i 0 < k)
    : (WGraph.build k (aggregate g labels)).m2 = g.m2 := by
  rw [(WGraph.build_represents (WGraph.aggregate_inRange hlabels)).m2, h.m2]
  exact (WGraph.aggregate_merged h hlabels).total_eq

theorem aggregate_modularity {A' : Nat → Nat → ℚ} {k : Nat} (h : g.Represents A')
    (hlabels : ∀ i, labels.getD i 0 < k) (l : Nat → Nat)
    : labelled k (matrixOf (aggregate g labels)) l = labelled g.n A' fun i => l (labels.getD i 0) :=
  (WGraph.aggregate_merged h hlabels).modularity_eq l

theorem Level.pos (h : Level n A g current) : 0 < g.n := by
  obtain ⟨A', hA', _⟩ := h.represents
  have hm2 := h.m2
  rw [hA'.m2] at hm2
  by_contra hzero
  have hzero' : g.n = 0 := by omega
  rw [hzero'] at hm2
  simp [Modularity.total] at hm2

theorem getD_map_getD (hi : i < current.length)
    : (current.map (labels.getD · 0)).getD i 0 = labels.getD (current.getD i 0) 0 := by
  simp [List.getD_eq_getElem?_getD, hi]

theorem Level.step (h : Level n A g current) (hrun : g.localMove fuel = some (comm, moved))
    : labelled n A (current.getD · 0) ≤ labelled n A ((current.map ((compact comm).1.getD · 0)).getD · 0) ∧
        Level n A (WGraph.build (compact comm).2 (aggregate g (compact comm).1))
          (current.map ((compact comm).1.getD · 0)) := by
  obtain ⟨A', hA', hlift⟩ := h.represents
  obtain ⟨hlength, hle⟩ := WGraph.localMove_spec hA' h.m2 hrun
  have hcomm : comm ≠ [] := by
    rw [← List.length_pos_iff, hlength]
    exact h.pos
  have hlabels := compact_lt hcomm
  have hfollow : ∀ l : Nat → Nat, labelled g.n A' (fun i => l ((compact comm).1.getD i 0)) =
      labelled n A fun i => l ((current.map ((compact comm).1.getD · 0)).getD i 0) := by
    intro l
    rw [hlift]
    apply Modularity.modularity_congr
    intro i hi j hj
    rw [mem_range] at hi hj
    rw [getD_map_getD (by rwa [h.length]), getD_map_getD (by rwa [h.length])]
  constructor
  . rw [WGraph.modularityIndexed_eq hA' List.length_range, WGraph.modularityIndexed_eq hA' hlength] at hle
    calc labelled n A (current.getD · 0)
        = labelled g.n A' fun i => i := (hlift fun i => i).symm
      _ = labelled g.n A' ((List.range g.n).getD · 0) := by
        apply Modularity.modularity_congr
        intro i hi j hj
        rw [mem_range] at hi hj
        simp [List.getD_eq_getElem?_getD, hi, hj]
      _ ≤ labelled g.n A' (comm.getD · 0) := hle
      _ = labelled g.n A' ((compact comm).1.getD · 0) := by
        apply Modularity.modularity_congr
        intro i hi j hj
        rw [mem_range, ← hlength] at hi hj
        exact (compact_eq_iff hi hj).symm
      _ = _ := hfollow fun i => i
  . refine ⟨⟨matrixOf (aggregate g (compact comm).1),
      WGraph.build_represents (WGraph.aggregate_inRange hlabels), ?_⟩, ?_, ?_, ?_⟩
    . intro l
      rw [← hfollow l]
      exact aggregate_modularity hA' hlabels l
    . rw [aggregate_m2 hA' hlabels]
      exact h.m2
    . rw [List.length_map, h.length]
    . intro i hi
      rw [getD_map_getD (by rwa [h.length])]
      exact hlabels _

theorem Level.partitionFrom {levels : Nat} {final : List Nat} (h : Level n A g current)
    (hrun : partitionFrom fuel levels g current = some final)
    : final.length = n ∧ labelled n A (current.getD · 0) ≤ labelled n A (final.getD · 0) := by
  induction levels generalizing g current with
  | zero => cases hrun
  | succ levels ih =>
    unfold Memory.partitionFrom at hrun
    split at hrun
    . cases hrun
    . next comm moved hmove =>
      obtain ⟨hle, hnext⟩ := h.step hmove
      dsimp only at hrun
      split at hrun
      . cases hrun
        exact ⟨hnext.length, hle⟩
      . split at hrun
        . cases hrun
          exact ⟨hnext.length, hle⟩
        . obtain ⟨hlength, hle'⟩ := ih hnext hrun
          exact ⟨hlength, hle.trans hle'⟩

theorem partitionFrom_mono {fuel' levels levels' : Nat} {final : List Nat} (hfuel : fuel ≤ fuel')
    (hlevels : levels ≤ levels') (hrun : partitionFrom fuel levels g current = some final)
    : partitionFrom fuel' levels' g current = some final := by
  induction levels generalizing g current levels' with
  | zero => cases hrun
  | succ levels ih =>
    obtain ⟨levels', rfl⟩ : ∃ k, levels' = k + 1 := ⟨levels' - 1, by omega⟩
    unfold partitionFrom at hrun ⊢
    cases hmove : g.localMove fuel with
    | none =>
      rw [hmove] at hrun
      cases hrun
    | some found =>
      rw [hmove] at hrun
      rw [WGraph.localMove_mono hfuel hmove]
      dsimp only at hrun ⊢
      split
      . next hdone => rwa [if_pos hdone] at hrun
      . next hmore =>
        rw [if_neg hmore] at hrun
        split
        . next hone => rwa [if_pos hone] at hrun
        . next hmany =>
          rw [if_neg hmany] at hrun
          exact ih (by omega) hrun

theorem Level.exists_partitionFrom (h : Level n A g current)
    : ∃ fuel, (Memory.partitionFrom fuel fuel g current).isSome := by
  induction hsize : g.n using Nat.strong_induction_on generalizing g current with
  | h size ih =>
    obtain ⟨A', hA', _⟩ := h.represents
    obtain ⟨passes, hpasses⟩ := WGraph.exists_localMove hA' h.m2
    obtain ⟨⟨comm, moved⟩, hmove⟩ := Option.isSome_iff_exists.mp hpasses
    obtain ⟨_, hnext⟩ := h.step hmove
    have hlength := (WGraph.localMove_spec hA' h.m2 hmove).1
    by_cases hlast : (!moved) = true ∨ (compact comm).2 = g.n
    . refine ⟨passes + 1, ?_⟩
      unfold Memory.partitionFrom
      rw [WGraph.localMove_mono (Nat.le_succ passes) hmove]
      dsimp only
      rw [if_pos hlast]
      rfl
    . have hsmaller : (compact comm).2 < size := by
        have hle := compact_le comm
        push Not at hlast
        omega
      obtain ⟨fuel, hfuel⟩ := ih _ hsmaller hnext rfl
      obtain ⟨final, hfinal⟩ := Option.isSome_iff_exists.mp hfuel
      refine ⟨max passes fuel + 1, ?_⟩
      unfold Memory.partitionFrom
      rw [WGraph.localMove_mono (by omega) hmove]
      dsimp only
      rw [if_neg hlast]
      split
      . rfl
      . rw [partitionFrom_mono (by omega) (by omega) hfinal]
        rfl

end Level

section Partition

variable {n fuel : Nat} {edges : List IndexedEdge} {labels : List Nat}

theorem level_build (h : InRange n edges) (hpos : 0 < (WGraph.build n edges).m2)
    : Level n (matrixOf edges) (WGraph.build n edges) (List.range n) where
  represents := by
    refine ⟨matrixOf edges, WGraph.build_represents h, ?_⟩
    intro l
    apply Modularity.modularity_congr
    intro i hi j hj
    have hi' : i < n := mem_range.mp hi
    have hj' : j < n := mem_range.mp hj
    simp [List.getD_eq_getElem?_getD, hi', hj']
  m2 := hpos
  length := List.length_range
  lt i hi := by
    have hget : (List.range n).getD i 0 = i := by
      simp [List.getD_eq_getElem?_getD, hi]
    rw [hget]
    exact hi

theorem partition_eq (hpos : 0 < (WGraph.build n edges).m2)
    : partition fuel n edges = partitionFrom fuel fuel (WGraph.build n edges) (List.range n) := by
  unfold partition
  dsimp only
  rw [if_neg hpos.ne']

theorem partition_mono {fuel' : Nat} (hfuel : fuel ≤ fuel') (hrun : partition fuel n edges = some labels)
    : partition fuel' n edges = some labels := by
  unfold partition at hrun ⊢
  dsimp only at hrun ⊢
  split
  . next hzero => rwa [if_pos hzero] at hrun
  . next hsome =>
    rw [if_neg hsome] at hrun
    exact partitionFrom_mono hfuel hfuel hrun

theorem exists_partition (h : InRange n edges) (hpos : 0 < (WGraph.build n edges).m2)
    : ∃ enough labels, ∀ fuel ≥ enough, partition fuel n edges = some labels := by
  obtain ⟨enough, henough⟩ := (level_build h hpos).exists_partitionFrom
  obtain ⟨labels, hlabels⟩ := Option.isSome_iff_exists.mp henough
  refine ⟨enough, labels, ?_⟩
  intro fuel hfuel
  apply partition_mono hfuel
  rwa [partition_eq hpos]

theorem partition_spec (h : InRange n edges) (hpos : 0 < (WGraph.build n edges).m2)
    (hrun : partition fuel n edges = some labels)
    : labels.length = n ∧
        modularityIndexed (WGraph.build n edges) (List.range n) ≤ modularityIndexed (WGraph.build n edges) labels := by
  rw [partition_eq hpos] at hrun
  obtain ⟨hlength, hle⟩ := (level_build h hpos).partitionFrom hrun
  have hstart : (List.range n).length = (WGraph.build n edges).n := List.length_range
  refine ⟨hlength, ?_⟩
  rw [WGraph.modularityIndexed_eq (WGraph.build_represents h) hstart,
    WGraph.modularityIndexed_eq (WGraph.build_represents h) hlength]
  exact hle

end Partition

end Memory
end MemStack
