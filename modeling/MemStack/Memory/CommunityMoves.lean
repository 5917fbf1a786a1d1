import MemStack.Memory.CommunityGraph

/-!
This module contains the moves of single nodes: each move that is made makes the modularity greater, and after
finitely many passes no node moves.
-/

namespace MemStack
namespace Memory
namespace WGraph

open Finset

variable {g : WGraph} {A : Nat → Nat → ℚ} {s s' : Moving} {i c : Nat}

structure Moving.Sound (g : WGraph) (A : Nat → Nat → ℚ) (s : Moving) : Prop where
  comm_length : s.comm.length = g.n
  comm_lt : ∀ i < g.n, s.comm.getD i 0 < g.n
  tot_length : s.tot.length = g.n
  tot : ∀ c < g.n,
    s.tot.getD c 0 = ∑ j ∈ range g.n, if s.comm.getD j 0 = c then Modularity.degree (range g.n) A j else 0

section Best

theorem gainEps_pos : 0 < gainEps := by
  unfold gainEps
  norm_num

theorem bestOf_spec (gain : Nat × ℚ → ℚ) (stay : Nat × ℚ) (candidates : List (Nat × ℚ))
    : (bestOf gain stay candidates = stay ∨
          ∃ e ∈ candidates, bestOf gain stay candidates = (e.1, gain e) ∧ stay.2 + gainEps < gain e) ∧
        ∀ e ∈ candidates, gain e ≤ (bestOf gain stay candidates).2 + gainEps := by
  have heps := gainEps_pos
  unfold bestOf
  induction candidates using List.reverseRecOn with
  | nil => simp
  | append_singleton candidates e ih =>
    obtain ⟨hsource, hall⟩ := ih
    rw [List.foldl_concat]
    split
    . next hbetter =>
      refine ⟨.inr ⟨e, by simp, rfl, ?_⟩, ?_⟩
      . rcases hsource with hsource | ⟨e', _, hsource, hlt⟩
        . rwa [hsource] at hbetter
        . rw [hsource] at hbetter
          dsimp only at hbetter
          linarith
      . intro e' he'
        rw [List.mem_append, List.mem_singleton] at he'
        rcases he' with he' | rfl
        . have := hall e' he'
          dsimp only
          linarith
        . dsimp only
          linarith
    . next hworse =>
      refine ⟨?_, ?_⟩
      . rcases hsource with hsource | ⟨e', he', hsource⟩
        . exact .inl hsource
        . exact .inr ⟨e', by simp [he'], hsource⟩
      . intro e' he'
        rw [List.mem_append, List.mem_singleton] at he'
        rcases he' with he' | rfl
        . exact hall e' he'
        . exact not_lt.mp hworse

end Best

section Weights

variable {comm : List Nat}

theorem sumOf_weightTo (h : g.Represents A) (hi : i < g.n) (f : Nat → ℚ)
    : (weightTo (g.neighbours i) comm i).sumOf (fun c v => v * f c) =
        ∑ j ∈ (range g.n).erase i, A i j * f (comm.getD j 0) := by
  let worth (e : Nat × ℚ) : ℚ := e.2 * ((if e.1 = i then 2 else 1) * if e.1 = i then 0 else f (comm.getD e.1 0))
  have hstep : ∀ m : Weights, ∀ e ∈ (g.neighbours i).entries,
      (if e.1 = i then m else addWeight m (comm.getD e.1 0) e.2).sumOf (fun c v => v * f c) =
        m.sumOf (fun c v => v * f c) + worth e := by
    intro m e _
    unfold worth
    split
    . simp
    . rw [sumOf_addWeight, one_mul]
  unfold weightTo
  rw [EntryMap.sumOf_foldl worth hstep, EntryMap.sumOf_empty, zero_add]
  have hsums := h.sums i hi fun j => if j = i then 0 else f (comm.getD j 0)
  unfold EntryMap.sumOf at hsums
  rw [hsums, ← add_sum_erase _ _ (mem_range.mpr hi), if_pos rfl, mul_zero, zero_add]
  apply sum_congr rfl
  intro j hj
  rw [if_neg (ne_of_mem_erase hj)]

theorem get_weightTo (h : g.Represents A) (hi : i < g.n) (c : Nat)
    : ((weightTo (g.neighbours i) comm i).get c).getD 0 =
        ∑ j ∈ (range g.n).erase i, if comm.getD j 0 = c then A i j else 0 := by
  rw [getD_get_eq_sumOf, sumOf_weightTo h hi]
  simp only [mul_ite, mul_one, mul_zero]

theorem mem_keys_weightTo {neighbours : Weights}
    : c ∈ (weightTo neighbours comm i).keys ↔ ∃ j ∈ neighbours.keys, j ≠ i ∧ comm.getD j 0 = c := by
  have hfold : ∀ (l : List (Nat × ℚ)) (m : Weights),
      c ∈ (l.foldl (fun m e => if e.1 = i then m else addWeight m (comm.getD e.1 0) e.2) m).keys ↔
        c ∈ m.keys ∨ ∃ e ∈ l, e.1 ≠ i ∧ comm.getD e.1 0 = c := by
    intro l
    induction l with
    | nil => simp
    | cons e l ih =>
      intro m
      rw [List.foldl_cons, ih]
      simp only [List.mem_cons, exists_eq_or_imp]
      split
      . next hloop => simp [hloop]
      . next hother =>
        have hadd : c ∈ (addWeight m (comm.getD e.1 0) e.2).keys ↔ c = comm.getD e.1 0 ∨ c ∈ m.keys :=
          EntryMap.mem_keys_entry
        rw [hadd]
        simp only [hother, ne_eq, not_false_eq_true, true_and, eq_comm]
        tauto
  have hnone : c ∉ (EntryMap.empty : Weights).keys := List.not_mem_nil
  unfold weightTo
  rw [hfold, or_iff_right hnone]
  simp only [EntryMap.keys, List.mem_map, exists_exists_and_eq_and]

theorem keys_weightTo (h : g.Represents A) (hi : i < g.n) (hcomm : ∀ j < g.n, comm.getD j 0 < g.n)
    : ∀ c ∈ (weightTo (g.neighbours i) comm i).keys, c < g.n := by
  intro c hc
  obtain ⟨j, hj, _, rfl⟩ := mem_keys_weightTo.mp hc
  exact hcomm j (h.keys i hi j hj)

end Weights

section Move

theorem getD_tot (hs : s.Sound g A) (h : g.Represents A) (hi : i < g.n) (hc : c < g.n)
    : (s.tot.modify (s.comm.getD i 0) (· - g.degreeAt i)).getD c 0 =
        ∑ j ∈ (range g.n).erase i, if s.comm.getD j 0 = c then Modularity.degree (range g.n) A j else 0 := by
  have hsum := hs.tot c hc
  rw [← add_sum_erase _ _ (mem_range.mpr hi)] at hsum
  rw [getD_modify (by rwa [hs.tot_length]), hsum, h.degree i hi]
  split
  . rw [add_sub_cancel_left]
  . rw [zero_add]

theorem gain_candidate (hs : s.Sound g A) (h : g.Represents A) (hi : i < g.n) (hc : c < g.n)
    : ((weightTo (g.neighbours i) s.comm i).get c).getD 0 -
          (s.tot.modify (s.comm.getD i 0) (· - g.degreeAt i)).getD c 0 * g.degreeAt i / g.m2 =
        Modularity.gain (range g.n) A (s.comm.getD · 0) i c := by
  rw [get_weightTo h hi, getD_tot hs h hi hc, h.degree i hi, h.m2]
  rfl

structure Moves (g : WGraph) (A : Nat → Nat → ℚ) (s : Moving) (i c : Nat) : Prop where
  lt : c < g.n
  comm : (g.moveNode s i).comm = s.comm.set i c
  tot : (g.moveNode s i).tot =
    (s.tot.modify (s.comm.getD i 0) (· - g.degreeAt i)).modify c (· + g.degreeAt i)
  moved : (g.moveNode s i).moved = (s.moved || c != s.comm.getD i 0)
  anyMove : (g.moveNode s i).anyMove = (s.anyMove || c != s.comm.getD i 0)
  gain_lt : c ≠ s.comm.getD i 0 →
    Modularity.gain (range g.n) A (s.comm.getD · 0) i (s.comm.getD i 0) + gainEps <
      Modularity.gain (range g.n) A (s.comm.getD · 0) i c
  key : c ≠ s.comm.getD i 0 → c ∈ (weightTo (g.neighbours i) s.comm i).keys
  gain_le : ∀ c' ∈ (weightTo (g.neighbours i) s.comm i).keys,
    Modularity.gain (range g.n) A (s.comm.getD · 0) i c' ≤
      Modularity.gain (range g.n) A (s.comm.getD · 0) i c + gainEps

theorem exists_moves (hs : s.Sound g A) (h : g.Represents A) (hi : i < g.n) : ∃ c, Moves g A s i c := by
  let gain (e : Nat × ℚ) : ℚ :=
    e.2 - (s.tot.modify (s.comm.getD i 0) (· - g.degreeAt i)).getD e.1 0 * g.degreeAt i / g.m2
  let wTo := weightTo (g.neighbours i) s.comm i
  let stay : Nat × ℚ := (s.comm.getD i 0, gain (s.comm.getD i 0, (wTo.get (s.comm.getD i 0)).getD 0))
  have hkeys := keys_weightTo h hi hs.comm_lt
  have hgain : ∀ e ∈ wTo.entries, gain e = Modularity.gain (range g.n) A (s.comm.getD · 0) i e.1 := by
    intro e he
    have hget : wTo.get e.1 = some e.2 := EntryMap.get_eq_some.mpr he
    rw [← gain_candidate hs h hi (hkeys e.1 (List.mem_map_of_mem he)), hget]
    rfl
  have hstay : stay.2 = Modularity.gain (range g.n) A (s.comm.getD · 0) i (s.comm.getD i 0) :=
    gain_candidate hs h hi (hs.comm_lt i hi)
  obtain ⟨hsource, hall⟩ := bestOf_spec gain stay wTo.entries
  have hbest : (bestOf gain stay wTo.entries).1 < g.n ∧
      (bestOf gain stay wTo.entries).2 =
        Modularity.gain (range g.n) A (s.comm.getD · 0) i (bestOf gain stay wTo.entries).1 := by
    rcases hsource with heq | ⟨e, he, heq, _⟩
    . rw [heq]
      exact ⟨hs.comm_lt i hi, hstay⟩
    . rw [heq]
      exact ⟨hkeys e.1 (List.mem_map_of_mem he), hgain e he⟩
  refine ⟨(bestOf gain stay wTo.entries).1, hbest.1, rfl, rfl, rfl, rfl, ?_, ?_, ?_⟩
  . intro hne
    rw [← hbest.2, ← hstay]
    rcases hsource with heq | ⟨e, he, heq, hlt⟩
    . rw [heq] at hne
      exact absurd rfl hne
    . rw [heq]
      exact hlt
  . intro hne
    rcases hsource with heq | ⟨e, he, heq, _⟩
    . rw [heq] at hne
      exact absurd rfl hne
    . rw [heq]
      exact List.mem_map.mpr ⟨e, he, rfl⟩
  . intro c' hc'
    obtain ⟨e, he, rfl⟩ := List.mem_map.mp hc'
    rw [← hgain e he, ← hbest.2]
    exact hall e he

theorem getD_set_eq_update {comm : List Nat} (hi : i < comm.length) (c : Nat)
    : ((comm.set i c).getD · 0) = Function.update (comm.getD · 0) i c := by
  funext j
  by_cases hj : j < comm.length
  . rw [getD_set hj, Function.update_apply]
    simp only [eq_comm]
  . have hne : j ≠ i := by omega
    rw [Function.update_of_ne hne]
    simp [List.getD_eq_getElem?_getD, List.getElem?_set_ne (Ne.symm hne)]

theorem Moves.sound (hm : Moves g A s i c) (hs : s.Sound g A) (h : g.Represents A) (hi : i < g.n)
    : (g.moveNode s i).Sound g A := by
  have hcomm : ((g.moveNode s i).comm.getD · 0) = Function.update (s.comm.getD · 0) i c := by
    rw [hm.comm, getD_set_eq_update (by rwa [hs.comm_length])]
  have hself : ∀ j, (g.moveNode s i).comm.getD j 0 = Function.update (s.comm.getD · 0) i c j := congrFun hcomm
  refine ⟨?_, ?_, ?_, ?_⟩
  . rw [hm.comm, List.length_set, hs.comm_length]
  . intro j hj
    rw [hself, Function.update_apply]
    split
    . exact hm.lt
    . exact hs.comm_lt j hj
  . rw [hm.tot, List.length_modify, List.length_modify, hs.tot_length]
  . intro c' hc'
    rw [hm.tot, getD_modify_add (by rwa [List.length_modify, hs.tot_length]), getD_tot hs h hi hc',
      ← add_sum_erase _ _ (mem_range.mpr hi), hself, Function.update_self, add_comm, h.degree i hi]
    congr 1
    apply sum_congr rfl
    intro j hj
    rw [hself, Function.update_of_ne (ne_of_mem_erase hj)]

theorem Moves.modularity (hm : Moves g A s i c) (hs : s.Sound g A) (h : g.Represents A) (hi : i < g.n)
    (htotal : g.m2 ≠ 0)
    : modularityIndexed g (g.moveNode s i).comm =
        modularityIndexed g s.comm +
          2 * (Modularity.gain (range g.n) A (s.comm.getD · 0) i c -
            Modularity.gain (range g.n) A (s.comm.getD · 0) i (s.comm.getD i 0)) / g.m2 := by
  have hsound := hm.sound hs h hi
  rw [modularityIndexed_eq h hsound.comm_length, modularityIndexed_eq h hs.comm_length, hm.comm,
    getD_set_eq_update (by rwa [hs.comm_length]), h.m2]
  rw [h.m2] at htotal
  exact Modularity.modularity_update h.symm htotal (mem_range.mpr hi) (s.comm.getD · 0) c

end Move

section Step

theorem moveNode_sound (hs : s.Sound g A) (h : g.Represents A) (hi : i < g.n) : (g.moveNode s i).Sound g A := by
  obtain ⟨c, hm⟩ := exists_moves hs h hi
  exact hm.sound hs h hi

def leap (g : WGraph) : ℚ :=
  2 * gainEps / g.m2

theorem leap_pos (hpos : 0 < g.m2) : 0 < g.leap := by
  have heps := gainEps_pos
  unfold leap
  positivity

theorem moveNode_spec (hs : s.Sound g A) (h : g.Represents A) (hi : i < g.n) (hpos : 0 < g.m2)
    : ((g.moveNode s i).comm = s.comm ∧ (g.moveNode s i).moved = s.moved ∧ (g.moveNode s i).anyMove = s.anyMove) ∨
        ((g.moveNode s i).comm ≠ s.comm ∧
          (g.moveNode s i).moved = true ∧
            (g.moveNode s i).anyMove = true ∧
              modularityIndexed g s.comm + g.leap < modularityIndexed g (g.moveNode s i).comm) := by
  obtain ⟨c, hm⟩ := exists_moves hs h hi
  have hlt : i < s.comm.length := by rwa [hs.comm_length]
  by_cases hc : c = s.comm.getD i 0
  . refine .inl ⟨?_, ?_, ?_⟩
    . rw [hm.comm, hc]
      apply List.ext_getElem
      . simp
      . intro j hj hj'
        rw [List.getElem_set]
        split
        . next heq =>
          subst heq
          simp [List.getD_eq_getElem?_getD, hlt]
        . rfl
    . rw [hm.moved, hc, bne_self_eq_false, Bool.or_false]
    . rw [hm.anyMove, hc, bne_self_eq_false, Bool.or_false]
  . refine .inr ⟨?_, ?_, ?_, ?_⟩
    . intro heq
      have hget : (s.comm.set i c).getD i 0 = c := by
        rw [getD_set hlt, if_pos rfl]
      rw [← hm.comm, heq] at hget
      exact hc hget.symm
    . rw [hm.moved, bne_iff_ne.mpr hc, Bool.or_true]
    . rw [hm.anyMove, bne_iff_ne.mpr hc, Bool.or_true]
    . rw [hm.modularity hs h hi hpos.ne']
      have hgain := hm.gain_lt hc
      have hleap : g.leap = 2 * gainEps / g.m2 := rfl
      rw [hleap, add_lt_add_iff_left]
      apply div_lt_div_of_pos_right _ hpos
      linarith

end Step

section Run

def Progress (g : WGraph) (s s' : Moving) : Prop :=
  (s'.comm = s.comm ∧ s'.moved = s.moved ∧ s'.anyMove = s.anyMove) ∨
    (s'.moved = true ∧ s'.anyMove = true ∧ modularityIndexed g s.comm + g.leap < modularityIndexed g s'.comm)

theorem Progress.trans {s'' : Moving} (hpos : 0 < g.m2) (h : Progress g s s') (h' : Progress g s' s'')
    : Progress g s s'' := by
  have hleap := leap_pos hpos
  rcases h with ⟨hcomm, hmoved, hany⟩ | ⟨hmoved, hany, hlt⟩
  . unfold Progress at h' ⊢
    rwa [← hcomm, ← hmoved, ← hany]
  . rcases h' with ⟨hcomm', hmoved', hany'⟩ | ⟨hmoved', hany', hlt'⟩
    . exact .inr ⟨hmoved'.trans hmoved, hany'.trans hany, by rwa [hcomm']⟩
    . exact .inr ⟨hmoved', hany', by linarith⟩

theorem foldl_moveNode (h : g.Represents A) (hpos : 0 < g.m2) {l : List Nat} (hl : ∀ i ∈ l, i < g.n)
    (hs : s.Sound g A)
    : (l.foldl g.moveNode s).Sound g A ∧ Progress g s (l.foldl g.moveNode s) := by
  induction l generalizing s with
  | nil => exact ⟨hs, .inl ⟨rfl, rfl, rfl⟩⟩
  | cons i l ih =>
    rw [List.forall_mem_cons] at hl
    have hstep : Progress g s (g.moveNode s i) := by
      rcases moveNode_spec hs h hl.1 hpos with hsame | ⟨_, hmoved, hany, hlt⟩
      . exact .inl hsame
      . exact .inr ⟨hmoved, hany, hlt⟩
    obtain ⟨hsound, hrest⟩ := ih hl.2 (moveNode_sound hs h hl.1)
    exact ⟨hsound, hstep.trans hpos hrest⟩

theorem pass_spec (h : g.Represents A) (hpos : 0 < g.m2) (hs : s.Sound g A)
    : (g.pass s).Sound g A ∧ Progress g { s with moved := false } (g.pass s) :=
  foldl_moveNode h hpos (fun _ hi => List.mem_range.mp hi)
    ⟨hs.comm_length, hs.comm_lt, hs.tot_length, hs.tot⟩

theorem start_sound (h : g.Represents A) : g.start.Sound g A := by
  refine ⟨List.length_range, ?_, h.degree_length, ?_⟩
  . intro i hi
    simp [start, List.getD_eq_getElem?_getD, hi]
  . intro c hc
    have hdegree : g.start.tot.getD c 0 = Modularity.degree (range g.n) A c := h.degree c hc
    rw [hdegree, sum_eq_single_of_mem c (mem_range.mpr hc)]
    . simp [start, List.getD_eq_getElem?_getD, hc]
    . intro j hj hne
      rw [mem_range] at hj
      simp [start, List.getD_eq_getElem?_getD, hj, hne]

inductive Visited (g : WGraph) : Nat → Moving → Prop
  | start : Visited g 0 g.start
  | next {i : Nat} {s : Moving} : Visited g i s → i < g.n → Visited g (i + 1) (g.moveNode s i)
  | again {s : Moving} : Visited g g.n s → s.moved = true → Visited g 0 { s with moved := false }

theorem Visited.sound (h : g.Represents A) (hv : Visited g i s) : s.Sound g A := by
  induction hv with
  | start => exact start_sound h
  | next _ hi ih => exact moveNode_sound ih h hi
  | again _ _ ih => exact ⟨ih.comm_length, ih.comm_lt, ih.tot_length, ih.tot⟩

end Run

section Termination

def ceiling (n : Nat) (A : Nat → Nat → ℚ) : ℚ :=
  ∑ i ∈ range n, ∑ j ∈ range n, |Modularity.excess (range n) A i j|

theorem modularity_le_ceiling (h : g.Represents A) (hs : s.Sound g A)
    : modularityIndexed g s.comm ≤ ceiling g.n A := by
  rw [modularityIndexed_eq h hs.comm_length]
  apply sum_le_sum
  intro i _
  apply sum_le_sum
  intro j _
  split
  . exact le_abs_self _
  . exact abs_nonneg _

theorem localMoveFrom_mono {fuel fuel' : Nat} (hle : fuel ≤ fuel') (hrun : g.localMoveFrom fuel s = some s')
    : g.localMoveFrom fuel' s = some s' := by
  induction fuel generalizing s fuel' with
  | zero => cases hrun
  | succ fuel ih =>
    obtain ⟨fuel', rfl⟩ : ∃ k, fuel' = k + 1 := ⟨fuel' - 1, by omega⟩
    unfold localMoveFrom at hrun ⊢
    dsimp only at hrun ⊢
    split
    . next hmoved =>
      rw [if_pos hmoved] at hrun
      exact ih (by omega) hrun
    . next hmoved =>
      rwa [if_neg hmoved] at hrun

theorem exists_localMoveFrom (h : g.Represents A) (hpos : 0 < g.m2) (hs : s.Sound g A)
    : ∃ fuel, (g.localMoveFrom fuel s).isSome := by
  obtain ⟨leaps, hleaps⟩ := exists_nat_ge ((ceiling g.n A - modularityIndexed g s.comm) / g.leap)
  rw [div_le_iff₀ (leap_pos hpos)] at hleaps
  induction leaps generalizing s with
  | zero =>
    obtain ⟨hsound, hprogress⟩ := pass_spec h hpos hs
    have hceiling := modularity_le_ceiling h hsound
    have hleap := leap_pos hpos
    rcases hprogress with ⟨_, hmoved, _⟩ | ⟨_, _, hlt⟩
    . refine ⟨1, ?_⟩
      unfold localMoveFrom
      dsimp only at hmoved ⊢
      simp [hmoved]
    . dsimp only at hlt
      push_cast at hleaps
      linarith
  | succ leaps ih =>
    obtain ⟨hsound, hprogress⟩ := pass_spec h hpos hs
    rcases hprogress with ⟨_, hmoved, _⟩ | ⟨hmoved, _, hlt⟩
    . refine ⟨1, ?_⟩
      unfold localMoveFrom
      dsimp only at hmoved ⊢
      simp [hmoved]
    . obtain ⟨fuel, hfuel⟩ := ih hsound (by
        dsimp only at hlt
        push_cast at hleaps
        linarith)
      refine ⟨fuel + 1, ?_⟩
      unfold localMoveFrom
      dsimp only
      rwa [if_pos hmoved]

theorem exists_localMove (h : g.Represents A) (hpos : 0 < g.m2) : ∃ fuel, (g.localMove fuel).isSome := by
  obtain ⟨fuel, hfuel⟩ := exists_localMoveFrom h hpos (start_sound h)
  exact ⟨fuel, by rwa [localMove, Option.isSome_map]⟩

theorem localMove_mono {fuel fuel' : Nat} {found : List Nat × Bool} (hle : fuel ≤ fuel')
    (hrun : g.localMove fuel = some found)
    : g.localMove fuel' = some found := by
  obtain ⟨s, hs, rfl⟩ := Option.map_eq_some_iff.mp hrun
  rw [localMove, localMoveFrom_mono hle hs]
  rfl

theorem localMoveFrom_spec {fuel : Nat} (h : g.Represents A) (hpos : 0 < g.m2) (hs : s.Sound g A)
    (hrun : g.localMoveFrom fuel s = some s')
    : s'.Sound g A ∧ modularityIndexed g s.comm ≤ modularityIndexed g s'.comm := by
  induction fuel generalizing s with
  | zero => cases hrun
  | succ fuel ih =>
    obtain ⟨hsound, hprogress⟩ := pass_spec h hpos hs
    have hle : modularityIndexed g s.comm ≤ modularityIndexed g (g.pass s).comm := by
      rcases hprogress with ⟨hcomm, _⟩ | ⟨_, _, hlt⟩
      . rw [hcomm]
      . have hleap := leap_pos hpos
        dsimp only at hlt
        linarith
    unfold localMoveFrom at hrun
    dsimp only at hrun
    split at hrun
    . obtain ⟨hsound', hle'⟩ := ih hsound hrun
      exact ⟨hsound', hle.trans hle'⟩
    . cases hrun
      exact ⟨hsound, hle⟩

theorem localMove_spec {fuel : Nat} {comm : List Nat} {moved : Bool} (h : g.Represents A) (hpos : 0 < g.m2)
    (hrun : g.localMove fuel = some (comm, moved))
    : comm.length = g.n ∧ modularityIndexed g (List.range g.n) ≤ modularityIndexed g comm := by
  obtain ⟨s, hs, heq⟩ := Option.map_eq_some_iff.mp hrun
  cases heq
  obtain ⟨hsound, hle⟩ := localMoveFrom_spec h hpos (start_sound h) hs
  exact ⟨hsound.comm_length, hle⟩

end Termination

end WGraph
end Memory
end MemStack
