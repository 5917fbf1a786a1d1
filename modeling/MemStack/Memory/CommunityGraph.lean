import MemStack.Memory.Community
import MemStack.Util.Modularity

/-!
This module contains the matrix of the weights of a graph, what the loops over a graph sum up, and that the graph of
the communities merges the nodes of a community.
-/

namespace MemStack
namespace Memory

open Finset

section Sums

variable {κ α : Type} [LinearOrder κ]

theorem foldl_add_eq {f : ℚ → α → ℚ} {g : α → ℚ} (h : ∀ d a, f d a = d + g a) (l : List α) (d : ℚ)
    : l.foldl f d = d + (l.map g).sum := by
  induction l generalizing d with
  | nil => simp
  | cons a l ih => rw [List.foldl_cons, ih, h, List.map_cons, List.sum_cons, add_assoc]

theorem getD_modify {l : List α} {i j : Nat} {f : α → α} {d : α} (hj : j < l.length)
    : (l.modify i f).getD j d = if i = j then f (l.getD j d) else l.getD j d := by
  rw [List.getD_eq_getElem?_getD, List.getElem?_modify, List.getD_eq_getElem?_getD, List.getElem?_eq_getElem hj]
  split <;> simp [*]

theorem getD_set {l : List α} {i j : Nat} {a d : α} (hj : j < l.length)
    : (l.set i a).getD j d = if i = j then a else l.getD j d := by
  rw [List.getD_eq_getElem?_getD, List.getElem?_set, List.getD_eq_getElem?_getD]
  split
  . next heq =>
    subst heq
    simp [hj]
  . rfl

theorem length_foldl {step : List ℚ → α → List ℚ} {l : List α}
    (hlength : ∀ v, ∀ a ∈ l, (step v a).length = v.length) (v : List ℚ)
    : (l.foldl step v).length = v.length := by
  induction l generalizing v with
  | nil => rfl
  | cons a l ih =>
    rw [List.foldl_cons, ih fun v b hb => hlength v b (List.mem_cons_of_mem a hb)]
    exact hlength v a List.mem_cons_self

theorem getD_foldl {step : List ℚ → α → List ℚ} (worth : α → ℚ) {c : Nat} {l : List α}
    (hlength : ∀ v, ∀ a ∈ l, (step v a).length = v.length)
    (hstep : ∀ v, ∀ a ∈ l, c < v.length → (step v a).getD c 0 = v.getD c 0 + worth a) {v : List ℚ}
    (hc : c < v.length)
    : (l.foldl step v).getD c 0 = v.getD c 0 + (l.map worth).sum := by
  induction l generalizing v with
  | nil => simp
  | cons a l ih =>
    have hrest := ih (fun v b hb => hlength v b (List.mem_cons_of_mem a hb))
      (fun v b hb => hstep v b (List.mem_cons_of_mem a hb))
      (by rwa [hlength v a List.mem_cons_self])
    rw [List.foldl_cons, List.map_cons, List.sum_cons, hrest, hstep v a List.mem_cons_self hc, add_assoc]

theorem getD_modify_add {v : List ℚ} {k c : Nat} {x : ℚ} (hc : c < v.length)
    : (v.modify k (· + x)).getD c 0 = v.getD c 0 + if k = c then x else 0 := by
  rw [getD_modify hc]
  split <;> simp

theorem sum_range_eq (n : Nat) (f : Nat → ℚ) : ((List.range n).map f).sum = ∑ i ∈ range n, f i :=
  rfl

theorem sumOf_addWeight (m : EntryMap κ ℚ) (k : κ) (w : ℚ) (h : κ → ℚ)
    : (addWeight m k w).sumOf (fun k v => v * h k) = m.sumOf (fun k v => v * h k) + w * h k := by
  apply EntryMap.sumOf_entry
  . simp
  . intro v
    exact add_mul v w (h k)

theorem getD_get_eq_sumOf (m : EntryMap κ ℚ) (k : κ)
    : (m.get k).getD 0 = m.sumOf fun k' v => v * if k' = k then 1 else 0 := by
  have hkeys : ∀ k' ∈ m.keys, k' ∈ insert k m.keys.toFinset := by
    intro k' hk'
    simp [hk']
  rw [EntryMap.sumOf_eq_sum hkeys, Finset.sum_eq_single k]
  . cases m.get k <;> simp
  . intro k' _ hne
    cases m.get k' <;> simp [hne]
  . intro hnot
    exact absurd (Finset.mem_insert_self _ _) hnot

end Sums

def IndexedEdge.between (e : IndexedEdge) (i j : Nat) : ℚ :=
  (if e.a = i ∧ e.b = j then e.weight else 0) + if e.a = j ∧ e.b = i then e.weight else 0

def matrixOf (edges : List IndexedEdge) (i j : Nat) : ℚ :=
  (edges.map fun e => e.between i j).sum

def InRange (n : Nat) (edges : List IndexedEdge) : Prop :=
  ∀ e ∈ edges, e.a < n ∧ e.b < n

namespace WGraph

structure Represents (g : WGraph) (A : Nat → Nat → ℚ) : Prop where
  symm : ∀ i j, A i j = A j i
  keys : ∀ i < g.n, ∀ j ∈ (g.neighbours i).keys, j < g.n
  sums : ∀ i < g.n, ∀ f : Nat → ℚ,
    (g.neighbours i).sumOf (fun j w => w * ((if j = i then 2 else 1) * f j)) = ∑ j ∈ range g.n, A i j * f j
  degree : ∀ i < g.n, g.degreeAt i = Modularity.degree (range g.n) A i
  degree_length : g.degree.length = g.n
  m2 : g.m2 = Modularity.total (range g.n) A

variable {n : Nat} {edges : List IndexedEdge} {e : IndexedEdge} {g : WGraph} {A : Nat → Nat → ℚ}

theorem matrixOf_symm (edges : List IndexedEdge) (i j : Nat) : matrixOf edges i j = matrixOf edges j i := by
  unfold matrixOf IndexedEdge.between
  simp only [add_comm]

section Build

theorem sum_between (he : e.a < n ∧ e.b < n) (i : Nat) (f : Nat → ℚ)
    : (∑ j ∈ range n, e.between i j * f j) =
        (if e.a = i then e.weight * f e.b else 0) + if e.b = i then e.weight * f e.a else 0 := by
  unfold IndexedEdge.between
  simp only [add_mul, sum_add_distrib]
  congr 1
  . by_cases ha : e.a = i
    . simp [ha, he.2]
    . simp [ha]
  . by_cases hb : e.b = i
    . simp [hb, he.1]
    . simp [hb]

theorem sumOf_addEdge {adj : List Weights} {i : Nat} (hi : i < adj.length) (h : Nat → ℚ)
    : ((addEdge adj e).getD i EntryMap.empty).sumOf (fun j w => w * h j) =
        (adj.getD i EntryMap.empty).sumOf (fun j w => w * h j) +
          ((if e.a = i then e.weight * h e.b else 0) +
            if e.a ≠ e.b ∧ e.b = i then e.weight * h e.a else 0) := by
  unfold addEdge
  split
  . next heq =>
    rw [getD_modify hi]
    by_cases ha : e.a = i
    . rw [if_pos ha, if_pos ha, sumOf_addWeight, heq]
      simp
    . rw [if_neg ha, if_neg ha]
      simp [heq]
  . next hne =>
    rw [getD_modify (by rwa [List.length_modify]), getD_modify hi]
    by_cases hb : e.b = i
    . have ha : e.a ≠ i := fun ha => hne (ha.trans hb.symm)
      rw [if_pos hb, if_neg ha, if_neg ha, sumOf_addWeight]
      simp [hb, ha]
    . rw [if_neg hb]
      by_cases ha : e.a = i
      . rw [if_pos ha, if_pos ha, sumOf_addWeight]
        simp [hb]
      . rw [if_neg ha, if_neg ha]
        simp [hb]

theorem length_addEdge (adj : List Weights) (e : IndexedEdge) : (addEdge adj e).length = adj.length := by
  unfold addEdge
  split <;> simp

theorem mem_keys_addEdge {adj : List Weights} {i j : Nat} (hi : i < adj.length)
    (hj : j ∈ ((addEdge adj e).getD i EntryMap.empty).keys)
    : j = e.a ∨ j = e.b ∨ j ∈ (adj.getD i EntryMap.empty).keys := by
  have hadd : ∀ (m : Weights) k w, j ∈ (addWeight m k w).keys → j = k ∨ j ∈ m.keys :=
    fun m k w => EntryMap.mem_keys_entry.mp
  unfold addEdge at hj
  split at hj
  . rw [getD_modify hi] at hj
    split at hj
    . rcases hadd _ _ _ hj with h | h
      . exact .inl h
      . exact .inr (.inr h)
    . exact .inr (.inr hj)
  . rw [getD_modify (by rwa [List.length_modify]), getD_modify hi] at hj
    split at hj
    . rcases hadd _ _ _ hj with h | h
      . exact .inl h
      . split at h
        . rcases hadd _ _ _ h with h | h
          . exact .inr (.inl h)
          . exact .inr (.inr h)
        . exact .inr (.inr h)
    . split at hj
      . rcases hadd _ _ _ hj with h | h
        . exact .inr (.inl h)
        . exact .inr (.inr h)
      . exact .inr (.inr hj)

def adjOf (n : Nat) (edges : List IndexedEdge) : List Weights :=
  edges.foldl addEdge (List.replicate n EntryMap.empty)

theorem adjOf_spec (h : InRange n edges)
    : (adjOf n edges).length = n ∧
        (∀ i < n, ∀ j ∈ ((adjOf n edges).getD i EntryMap.empty).keys, j < n) ∧
        ∀ i < n, ∀ f : Nat → ℚ,
          ((adjOf n edges).getD i EntryMap.empty).sumOf (fun j w => w * ((if j = i then 2 else 1) * f j)) =
            ∑ j ∈ range n, matrixOf edges i j * f j := by
  unfold adjOf
  induction edges using List.reverseRecOn with
  | nil =>
    refine ⟨by simp, ?_, ?_⟩
    . intro i hi j hj
      simp [hi, EntryMap.keys, EntryMap.empty] at hj
    . intro i hi f
      simp [hi, matrixOf]
  | append_singleton edges e ih =>
    have he : e.a < n ∧ e.b < n := h e (by simp)
    obtain ⟨hlength, hkeys, hsums⟩ := ih fun e he => h e (by simp [he])
    rw [List.foldl_concat]
    refine ⟨(length_addEdge _ e).trans hlength, ?_, ?_⟩
    . intro i hi j hj
      rcases mem_keys_addEdge (by rwa [hlength]) hj with rfl | rfl | hj
      . exact he.1
      . exact he.2
      . exact hkeys i hi j hj
    . intro i hi f
      have hmatrix : ∀ j, matrixOf (edges ++ [e]) i j = matrixOf edges i j + e.between i j := by
        intro j
        simp [matrixOf]
      rw [sumOf_addEdge (by rwa [hlength]), hsums i hi]
      simp only [hmatrix, add_mul, sum_add_distrib]
      rw [sum_between he]
      congr 1
      by_cases ha : e.a = i
      . by_cases hb : e.b = i
        . simp [ha, hb]
          ring
        . simp [ha, hb, Ne.symm hb]
      . by_cases hb : e.b = i
        . simp [ha, hb]
        . simp [ha, hb]

theorem degreeOf_eq (m : Weights) (i : Nat)
    : degreeOf m i = m.sumOf fun j w => w * ((if j = i then 2 else 1) * 1) := by
  unfold degreeOf
  have hadd : ∀ (d : ℚ) (e : Nat × ℚ), (if e.1 = i then d + e.2 + e.2 else d + e.2) =
      d + e.2 * ((if e.1 = i then 2 else 1) * 1) := by
    intro d e
    split <;> ring
  rw [foldl_add_eq hadd, zero_add]
  rfl

theorem build_represents (h : InRange n edges) : (build n edges).Represents (matrixOf edges) := by
  obtain ⟨hlength, hkeys, hsums⟩ := adjOf_spec h
  have hdegrees : (build n edges).degree = (adjOf n edges).zipIdx.map fun e => degreeOf e.1 e.2 := rfl
  have hcount : (build n edges).degree.length = n := by
    rw [hdegrees, List.length_map, List.length_zipIdx, hlength]
  have hdegree : ∀ i < n, (build n edges).degreeAt i = Modularity.degree (range n) (matrixOf edges) i := by
    intro i hi
    have hget : (build n edges).degreeAt i = degreeOf ((adjOf n edges).getD i EntryMap.empty) i := by
      unfold degreeAt
      rw [hdegrees]
      simp [List.getD_eq_getElem?_getD, hlength, hi]
    rw [hget, degreeOf_eq, hsums i hi fun _ => 1]
    simp [Modularity.degree]
  refine ⟨matrixOf_symm edges, hkeys, hsums, hdegree, hcount, ?_⟩
  have hsum : (build n edges).m2 = ∑ i ∈ range n, (build n edges).degreeAt i := by
    have hlist : (List.range n).map (build n edges).degreeAt = (build n edges).degree := by
      apply List.ext_getElem
      . simp [hcount]
      . intro i hi _
        simp [degreeAt, List.getD_eq_getElem?_getD, List.length_map, List.length_range] at hi ⊢
        simp [hcount, hi]
    rw [← sum_range_eq, hlist]
    rfl
  rw [hsum]
  exact sum_congr rfl fun i hi => hdegree i (mem_range.mp hi)

end Build

section Modularity

variable {comm : List Nat}

theorem modularity_by_community {s : Finset Nat} {A : Nat → Nat → ℚ} {l : Nat → Nat} {k : Nat}
    (hl : ∀ i ∈ s, l i < k)
    : Modularity.modularity s A l =
        ∑ c ∈ range k,
          ((∑ i ∈ s, if l i = c then (∑ j ∈ s, A i j * if l j = l i then 1 else 0) else 0) / Modularity.total s A -
            ((∑ i ∈ s, if l i = c then Modularity.degree s A i else 0) / Modularity.total s A) ^ 2) := by
  have hpick : ∀ f : Nat → Nat → ℚ, (∀ i ∈ s, ∑ c ∈ range k, (if l i = c then f i c else 0) = f i (l i)) := by
    intro f i hi
    rw [sum_ite_eq, if_pos (mem_range.mpr (hl i hi))]
  have hinside : (∑ c ∈ range k, ∑ i ∈ s, if l i = c then (∑ j ∈ s, A i j * if l j = l i then 1 else 0) else 0) =
      ∑ i ∈ s, ∑ j ∈ s, if l i = l j then A i j else 0 := by
    rw [sum_comm]
    apply sum_congr rfl
    intro i hi
    rw [hpick (fun i _ => ∑ j ∈ s, A i j * if l j = l i then 1 else 0) i hi]
    apply sum_congr rfl
    intro j _
    simp only [eq_comm (a := l j), mul_ite, mul_one, mul_zero]
  have hdegrees : (∑ c ∈ range k, (∑ i ∈ s, if l i = c then Modularity.degree s A i else 0) ^ 2) =
      ∑ i ∈ s, ∑ j ∈ s, if l i = l j then Modularity.degree s A i * Modularity.degree s A j else 0 := by
    have hsquare : ∀ c, (∑ i ∈ s, if l i = c then Modularity.degree s A i else 0) ^ 2 =
        ∑ i ∈ s, ∑ j ∈ s, if l i = c then
          (if l i = l j then Modularity.degree s A i * Modularity.degree s A j else 0) else 0 := by
      intro c
      rw [sq, sum_mul_sum]
      apply sum_congr rfl
      intro i _
      apply sum_congr rfl
      intro j _
      by_cases hi : l i = c
      . simp [hi, eq_comm]
      . simp [hi]
    simp only [hsquare]
    rw [sum_comm]
    apply sum_congr rfl
    intro i hi
    rw [sum_comm]
    apply sum_congr rfl
    intro j _
    exact hpick (fun i _ => if l i = l j then Modularity.degree s A i * Modularity.degree s A j else 0) i hi
  simp only [div_pow]
  rw [sum_sub_distrib, ← sum_div, ← sum_div, hinside, hdegrees]
  unfold Modularity.modularity Modularity.excess
  rw [sum_div, sum_div, ← sum_sub_distrib]
  apply sum_congr rfl
  intro i _
  rw [sum_div, sum_div, ← sum_sub_distrib]
  apply sum_congr rfl
  intro j _
  split
  . rfl
  . simp

theorem lt_of_max (comm : List Nat) (i : Nat) (hi : i < comm.length) : comm.getD i 0 < comm.max?.elim 0 (· + 1) := by
  have hmem : comm.getD i 0 ∈ comm := by
    simp [List.getD_eq_getElem?_getD, hi]
  cases hmax : comm.max? with
  | none =>
    rw [List.max?_eq_none_iff] at hmax
    rw [hmax] at hi
    exact absurd hi (Nat.not_lt_zero i)
  | some m =>
    have hle := (List.max?_eq_some_iff.mp hmax).2 _ hmem
    exact Nat.lt_succ_of_le hle

def insideOf (g : WGraph) (comm : List Nat) (i : Nat) (inC : List ℚ) : List ℚ :=
  (g.neighbours i).entries.foldl
    (fun inC e =>
      if comm.getD e.1 0 = comm.getD i 0 then
        inC.modify (comm.getD i 0) (· + if i = e.1 then 2 * e.2 else e.2)
      else
        inC)
    inC

theorem insideOf_step {c : Nat} (i : Nat) (e : Nat × ℚ) {v : List ℚ} (hc : c < v.length)
    : (if comm.getD e.1 0 = comm.getD i 0 then
          v.modify (comm.getD i 0) (· + if i = e.1 then 2 * e.2 else e.2) else v).getD c 0 =
        v.getD c 0 + if comm.getD i 0 = c then
          e.2 * ((if e.1 = i then 2 else 1) * if comm.getD e.1 0 = comm.getD i 0 then 1 else 0) else 0 := by
  by_cases hsame : comm.getD e.1 0 = comm.getD i 0
  . rw [if_pos hsame, getD_modify_add hc, if_pos hsame]
    congr 2
    by_cases hloop : e.1 = i
    . rw [if_pos hloop.symm, if_pos hloop]
      ring
    . rw [if_neg (Ne.symm hloop), if_neg hloop]
      ring
  . rw [if_neg hsame, if_neg hsame]
    simp

theorem length_insideOf (g : WGraph) (comm : List Nat) (i : Nat) (v : List ℚ)
    : (insideOf g comm i v).length = v.length := by
  apply length_foldl
  intro v e _
  split <;> simp

theorem getD_insideOf (h : g.Represents A) {i c : Nat} (hi : i < g.n) {v : List ℚ} (hc : c < v.length)
    : (insideOf g comm i v).getD c 0 = v.getD c 0 +
        if comm.getD i 0 = c then
          (∑ j ∈ range g.n, A i j * if comm.getD j 0 = comm.getD i 0 then 1 else 0) else 0 := by
  unfold insideOf
  rw [← h.sums i hi, getD_foldl _ _ (fun v e _ hc => insideOf_step i e hc) hc]
  . congr 1
    split
    . rfl
    . simp
  . intro v e _
    split <;> simp

theorem modularityIndexed_eq (h : g.Represents A) (hcomm : comm.length = g.n)
    : modularityIndexed g comm = Modularity.modularity (range g.n) A (comm.getD · 0) := by
  unfold modularityIndexed
  dsimp only
  generalize hk : comm.max?.elim 0 (· + 1) = k
  have hlt : ∀ i ∈ range g.n, comm.getD i 0 < k := by
    intro i hi
    rw [← hk]
    exact lt_of_max comm i (by rwa [hcomm, ← mem_range])
  rw [modularity_by_community hlt, foldl_add_eq (fun d c => rfl), zero_add, sum_range_eq, h.m2]
  apply sum_congr rfl
  intro c hc
  have hck : c < k := mem_range.mp hc
  have hzero : (List.replicate k (0 : ℚ)).getD c 0 = 0 := by simp [hck]
  congr 2
  . have hinside := getD_foldl _ (fun v i _ => length_insideOf g comm i v)
      (fun v i hi hc => getD_insideOf h (List.mem_range.mp hi) hc) (v := List.replicate k 0) (c := c)
      (by simpa using hck)
    rw [hzero, zero_add, sum_range_eq] at hinside
    exact hinside
  . have htotal := getD_foldl (fun i => if comm.getD i 0 = c then g.degreeAt i else 0) (l := List.range g.n)
      (fun (v : List ℚ) i _ => List.length_modify (· + g.degreeAt i) v (comm.getD i 0))
      (fun v i _ hc => getD_modify_add hc) (v := List.replicate k 0) (c := c) (by simpa using hck)
    rw [hzero, zero_add, sum_range_eq] at htotal
    rw [htotal]
    congr 1
    apply sum_congr rfl
    intro i hi
    rw [h.degree i (mem_range.mp hi)]

end Modularity

section Aggregate

variable {labels : List Nat} {k : Nat}

def cell (a b : Nat) (key : Nat ×ₗ Nat) : ℚ :=
  (if (ofLex key).1 = a ∧ (ofLex key).2 = b then 1 else 0) + if (ofLex key).1 = b ∧ (ofLex key).2 = a then 1 else 0

theorem cell_swap (a b u v : Nat) : cell a b (toLex (u, v)) = cell a b (toLex (v, u)) := by
  unfold cell
  rw [add_comm]
  congr 1
  . exact if_congr and_comm rfl rfl
  . exact if_congr and_comm rfl rfl

def visits (labels : List Nat) (a b i j : Nat) : ℚ :=
  if j < i then 0
  else if j = i then cell a b (toLex (labels.getD i 0, labels.getD i 0)) / 2
  else cell a b (toLex (labels.getD i 0, labels.getD j 0))

theorem sumOf_aggregateNode (a b : Nat) (acc : EntryMap (Nat ×ₗ Nat) ℚ) (i : Nat)
    : (aggregateNode g labels acc i).sumOf (fun key v => v * cell a b key) =
        acc.sumOf (fun key v => v * cell a b key) +
          (g.neighbours i).sumOf fun j w => w * ((if j = i then 2 else 1) * visits labels a b i j) := by
  unfold aggregateNode
  apply EntryMap.sumOf_foldl
  intro acc e _
  unfold visits
  dsimp only
  by_cases hlt : e.1 < i
  . rw [if_pos hlt, if_pos hlt, mul_zero, mul_zero, add_zero]
  . rw [if_neg hlt, if_neg hlt]
    by_cases heq : e.1 = i
    . rw [if_pos heq, if_pos heq, if_pos heq, sumOf_addWeight]
      ring
    . rw [if_neg heq, if_neg heq, if_neg heq, sumOf_addWeight, one_mul]
      split
      . rfl
      . rw [cell_swap]

theorem keys_aggregateNode {P : Nat → Prop} (acc : EntryMap (Nat ×ₗ Nat) ℚ) (i : Nat)
    (hlabels : ∀ i, P (labels.getD i 0)) (hacc : ∀ key ∈ acc.keys, P (ofLex key).1 ∧ P (ofLex key).2)
    : ∀ key ∈ (aggregateNode g labels acc i).keys, P (ofLex key).1 ∧ P (ofLex key).2 := by
  unfold aggregateNode
  apply EntryMap.keys_foldl _ hacc
  intro acc e _ hacc key hkey
  dsimp only at hkey
  split at hkey
  . exact hacc key hkey
  . split at hkey
    . rcases EntryMap.mem_keys_entry.mp hkey with rfl | hkey
      . exact ⟨hlabels i, hlabels i⟩
      . exact hacc key hkey
    . rcases EntryMap.mem_keys_entry.mp hkey with rfl | hkey
      . split
        . exact ⟨hlabels i, hlabels e.1⟩
        . exact ⟨hlabels e.1, hlabels i⟩
      . exact hacc key hkey

theorem sum_visits (hsymm : ∀ i j, A i j = A j i) (s : Finset Nat) (a b : Nat)
    : (∑ i ∈ s, ∑ j ∈ s, A i j * visits labels a b i j) =
        ∑ i ∈ s, ∑ j ∈ s, if labels.getD i 0 = a ∧ labels.getD j 0 = b then A i j else 0 := by
  have hsplit : ∀ i j, A i j * visits labels a b i j =
      (if i ≤ j then (if labels.getD i 0 = a ∧ labels.getD j 0 = b then A i j else 0) else 0) +
        if i < j then (if labels.getD j 0 = a ∧ labels.getD i 0 = b then A j i else 0) else 0 := by
    intro i j
    unfold visits cell
    rcases Nat.lt_trichotomy i j with hlt | rfl | hlt
    . rw [if_neg (by omega), if_neg (by omega), if_pos hlt.le, if_pos hlt, mul_add, hsymm j i]
      simp [and_comm]
    . simp [and_comm]
    . rw [if_pos hlt, if_neg (by omega), if_neg (by omega)]
      simp
  simp only [hsplit, sum_add_distrib]
  rw [add_comm, sum_comm, ← sum_add_distrib]
  apply sum_congr rfl
  intro i _
  rw [← sum_add_distrib]
  apply sum_congr rfl
  intro j _
  rcases Nat.lt_or_ge j i with hlt | hle
  . rw [if_pos hlt, if_neg (Nat.not_le.mpr hlt), add_zero]
  . rw [if_neg (Nat.not_lt.mpr hle), if_pos hle, zero_add]

theorem aggregate_inRange (hlabels : ∀ i, labels.getD i 0 < k) : InRange k (aggregate g labels) := by
  have hkeys := List.foldlRecOn (List.range g.n) (aggregateNode g labels)
    (motive := fun acc => ∀ key ∈ acc.keys, (ofLex key).1 < k ∧ (ofLex key).2 < k) (b := EntryMap.empty)
    (fun key hkey => absurd hkey List.not_mem_nil)
    (fun acc hacc i _ => keys_aggregateNode (P := (· < k)) acc i hlabels hacc)
  intro e he
  unfold aggregate at he
  obtain ⟨entry, hentry, rfl⟩ := List.mem_map.mp he
  exact hkeys entry.1 (List.mem_map_of_mem hentry)

theorem aggregate_merged (h : g.Represents A) (hlabels : ∀ i, labels.getD i 0 < k)
    : Modularity.Merged (range g.n) A (labels.getD · 0) (range k) (matrixOf (aggregate g labels)) where
  mem i _ := mem_range.mpr (hlabels i)
  weight a _ b _ := by
    have hsum : matrixOf (aggregate g labels) a b =
        ((List.range g.n).foldl (aggregateNode g labels) EntryMap.empty).sumOf fun key v => v * cell a b key := by
      unfold matrixOf aggregate EntryMap.sumOf
      rw [List.map_map]
      apply congrArg
      apply List.map_congr_left
      intro e _
      unfold cell
      simp [IndexedEdge.between, mul_add]
    rw [hsum, EntryMap.sumOf_foldl _ fun acc i _ => sumOf_aggregateNode a b acc i, EntryMap.sumOf_empty, zero_add,
      sum_range_eq, ← sum_visits h.symm]
    apply sum_congr rfl
    intro i hi
    exact h.sums i (mem_range.mp hi) (visits labels a b i)

end Aggregate

end WGraph

end Memory
end MemStack
