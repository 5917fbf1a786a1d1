import MemStack.Util.Lists

/-!
This module contains searches in breadth of a graph that is given by the successors of each node.
-/

namespace Bfs

open History
open Relation

variable {ν : Type} {next : ν → List ν} {avoid expanded queue found added : List ν} {root u v : ν}

structure Fresh (avoid found successors added : List ν) : Prop where
  nodup : added.Nodup
  mem : ∀ v, v ∈ added ↔ v ∈ successors ∧ v ∉ avoid ∧ v ∉ found

structure Inv (next : ν → List ν) (avoid : List ν) (root : ν) (expanded queue found : List ν) : Prop where
  split : root :: found = expanded ++ queue
  nodup : found.Nodup
  avoided : ∀ v ∈ found, v ∉ avoid
  reached : AtEach (fun before v => ∃ u ∈ root :: before, v ∈ next u) found
  source : ∀ v ∈ found, ∃ u ∈ expanded, v ∈ next u
  closed : ∀ u ∈ expanded, ∀ v ∈ next u, v ∈ avoid ∨ v ∈ found

theorem Inv.start (next : ν → List ν) (avoid : List ν) (root : ν) : Inv next avoid root [] [root] [] where
  split := rfl
  nodup := List.nodup_nil
  avoided := by simp
  reached := atEach_nil _
  source := by simp
  closed := by simp

theorem Inv.step (h : Inv next avoid root expanded (u :: queue) found)
    (hfresh : Fresh avoid found (next u) added)
    : Inv next avoid root (expanded ++ [u]) (queue ++ added) (found ++ added) where
  split := by
    rw [← List.cons_append, h.split]
    simp
  nodup := by
    apply List.Nodup.append h.nodup hfresh.nodup
    intro v hfound hadded
    exact ((hfresh.mem v).mp hadded).2.2 hfound
  avoided v hv := by
    rw [List.mem_append] at hv
    cases hv with
    | inl hv => exact h.avoided v hv
    | inr hv => exact ((hfresh.mem v).mp hv).2.1
  reached := by
    have hmem : u ∈ root :: found := by
      rw [h.split]
      simp
    apply h.reached.append
    intro before after hsplit v hv
    refine ⟨u, ?_, ((hfresh.mem v).mp hv).1⟩
    rw [List.mem_cons, List.mem_append]
    exact (List.mem_cons.mp hmem).imp_right .inl
  source v hv := by
    rw [List.mem_append] at hv
    cases hv with
    | inl hv =>
      obtain ⟨u', hu', hedge⟩ := h.source v hv
      exact ⟨u', List.mem_append_left _ hu', hedge⟩
    | inr hv => exact ⟨u, by simp, ((hfresh.mem v).mp hv).1⟩
  closed u' hu' v hedge := by
    rw [List.mem_append, List.mem_singleton] at hu'
    rw [List.mem_append]
    rcases hu' with hu' | rfl
    . exact (h.closed u' hu' v hedge).imp_right .inl
    . have hmem := hfresh.mem v
      tauto

theorem Inv.length (h : Inv next avoid root expanded queue found)
    : expanded.length + queue.length = found.length + 1 := by
  rw [← List.length_append, ← h.split, List.length_cons]

theorem Inv.reachable (h : Inv next avoid root expanded queue found)
    : ∀ v ∈ found, TransGen (fun u v => v ∈ next u) root v := by
  apply AtEach.forall_mem (Q := fun v => TransGen (fun u v => v ∈ next u) root v) h.reached
  rintro before v ⟨u, hu, hedge⟩ hbefore
  rw [List.mem_cons] at hu
  rcases hu with rfl | hu
  . exact .single hedge
  . exact (hbefore u hu).tail hedge

theorem Inv.mem_iff (h : Inv next avoid root expanded [] found) (havoid : ∀ v ∈ avoid, v = root) (v : ν)
    : v ∈ found ↔ v ∉ avoid ∧ TransGen (fun u v => v ∈ next u) root v := by
  have hexpanded : ∀ u, u = root ∨ u ∈ found → u ∈ expanded := by
    intro u hu
    rw [← List.append_nil expanded, ← h.split, List.mem_cons]
    exact hu
  constructor
  . intro hv
    exact ⟨h.avoided v hv, h.reachable v hv⟩
  . rintro ⟨hnot, hpath⟩
    have hall : ∀ v, TransGen (fun u v => v ∈ next u) root v → v ∈ avoid ∨ v ∈ found := by
      intro v hpath
      induction hpath with
      | single hedge => exact h.closed root (hexpanded root (.inl rfl)) _ hedge
      | tail _ hedge ih => exact h.closed _ (hexpanded _ (ih.imp_left (havoid _))) _ hedge
    exact (hall v hpath).resolve_left hnot

section Forest

variable (hunique : ∀ {u u' v}, v ∈ next u → v ∈ next u' → u = u')
include hunique

theorem Inv.fresh_of_forest (h : Inv next avoid root expanded (u :: queue) found) (hnodup : (next u).Nodup)
    (havoid : ∀ v ∈ next u, v ∉ avoid) (hroot : root ∉ found)
    : Fresh avoid found (next u) (next u) where
  nodup := hnodup
  mem v := by
    rw [iff_self_and]
    intro hedge
    refine ⟨havoid v hedge, ?_⟩
    intro hfound
    obtain ⟨u', hu', hedge'⟩ := h.source v hfound
    have hdistinct : (root :: found).Nodup := List.nodup_cons.mpr ⟨hroot, h.nodup⟩
    rw [h.split, List.nodup_append] at hdistinct
    exact hdistinct.2.2 u' hu' u List.mem_cons_self (hunique hedge' hedge)

theorem Inv.before_of_path (h : Inv next avoid root expanded queue found)
    (hpath : TransGen (fun u v => v ∈ next u ∧ v ≠ root) u v) {before after : List ν}
    (hsplit : found = before ++ v :: after)
    : u = root ∨ u ∈ before := by
  induction hpath generalizing before after with
  | single hedge =>
    obtain ⟨u', hu', hedge'⟩ := h.reached before _ after hsplit
    rw [hunique hedge.1 hedge']
    exact List.mem_cons.mp hu'
  | @tail w v hpath hedge ih =>
    obtain ⟨u', hu', hedge'⟩ := h.reached before _ after hsplit
    rw [← hunique hedge.1 hedge', List.mem_cons] at hu'
    have hne : w ≠ root := by
      cases hpath with
      | single hlast => exact hlast.2
      | tail _ hlast => exact hlast.2
    obtain ⟨first, second, rfl⟩ := List.append_of_mem (hu'.resolve_left hne)
    have hfirst : found = first ++ w :: (second ++ v :: after) := by
      rw [hsplit]
      simp
    exact (ih hfirst).imp_right (List.mem_append_left _)

theorem Inv.not_path_self (h : Inv next avoid root expanded queue found) (hroot : root ∈ avoid) (hv : v ∈ found)
    : ¬TransGen (fun u v => v ∈ next u ∧ v ≠ root) v v := by
  intro hpath
  obtain ⟨before, after, hsplit⟩ := List.append_of_mem hv
  have hnodup := h.nodup
  rw [hsplit] at hnodup
  cases h.before_of_path hunique hpath hsplit with
  | inl heq =>
    apply h.avoided v hv
    rw [heq]
    exact hroot
  | inr hbefore => exact (List.nodup_append.mp hnodup).2.2 v hbefore v List.mem_cons_self rfl

theorem Inv.pairwise_path (h : Inv next avoid root expanded queue found) (hroot : root ∈ avoid)
    : found.Pairwise fun v u => ¬TransGen (fun u v => v ∈ next u ∧ v ≠ root) u v := by
  rw [List.pairwise_iff_getElem]
  intro i j hi hj hij hpath
  have hsplit : found = found.take i ++ found[i] :: found.drop (i + 1) := by
    rw [List.getElem_cons_drop, List.take_append_drop]
  have hne : found[j] ≠ root := by
    intro heq
    apply h.avoided found[j] (List.getElem_mem hj)
    rw [heq]
    exact hroot
  have hbefore := (h.before_of_path hunique hpath hsplit).resolve_left hne
  obtain ⟨k, hk, heq⟩ := List.mem_take_iff_getElem.mp hbefore
  have := h.nodup.getElem_inj_iff.mp heq
  omega

end Forest

section Rank

structure Layered (rank : ν → Nat) (expanded queue : List ν) : Prop where
  sorted : (expanded ++ queue).Pairwise fun u v => rank u ≤ rank v
  near : ∀ u ∈ queue.head?, ∀ v ∈ queue, rank v ≤ rank u + 1

variable {rank : ν → Nat}

theorem Layered.start (rank : ν → Nat) (root : ν) : Layered rank [] [root] where
  sorted := List.pairwise_singleton _ root
  near := by simp

theorem Layered.step (h : Layered rank expanded (u :: queue)) (hrank : ∀ v ∈ added, rank v = rank u + 1)
    : Layered rank (expanded ++ [u]) (queue ++ added) := by
  have hsorted := h.sorted
  rw [List.pairwise_append, List.pairwise_cons] at hsorted
  have hall : ∀ w ∈ expanded ++ u :: queue, rank w ≤ rank u + 1 := by
    intro w hw
    rw [List.mem_append] at hw
    cases hw with
    | inl hw =>
      have := hsorted.2.2 w hw u List.mem_cons_self
      omega
    | inr hw => exact h.near u rfl w hw
  constructor
  . rw [List.append_assoc, List.singleton_append, ← List.cons_append, ← List.append_assoc, List.pairwise_append]
    refine ⟨h.sorted, ?_, ?_⟩
    . apply List.pairwise_of_forall_mem_list
      intro v hv w hw
      rw [hrank v hv, hrank w hw]
    . intro w hw v hv
      rw [hrank v hv]
      exact hall w hw
  . intro w hw v hv
    have hle : ∀ v ∈ queue ++ added, rank u ≤ rank v ∧ rank v ≤ rank u + 1 := by
      intro v hv
      rw [List.mem_append] at hv
      cases hv with
      | inl hv => exact ⟨hsorted.2.1.1 v hv, h.near u rfl v (List.mem_cons_of_mem _ hv)⟩
      | inr hv => exact ⟨by have := hrank v hv; omega, (hrank v hv).le⟩
    have h1 := hle v hv
    have h2 := hle w (List.mem_of_mem_head? hw)
    omega

end Rank

section Firsts

variable [DecidableEq ν]

def firsts (seen : List ν) : List ν → List ν
  | [] => []
  | v :: l => if v ∈ seen then firsts seen l else v :: firsts (v :: seen) l

theorem firsts_of_mem {seen : List ν} (h : v ∈ seen) (l : List ν) : firsts seen (v :: l) = firsts seen l :=
  if_pos h

theorem firsts_of_notMem {seen : List ν} (h : v ∉ seen) (l : List ν)
    : firsts seen (v :: l) = v :: firsts (v :: seen) l :=
  if_neg h

theorem mem_firsts {seen l : List ν} : v ∈ firsts seen l ↔ v ∈ l ∧ v ∉ seen := by
  induction l generalizing seen with
  | nil => simp [firsts]
  | cons w l ih =>
    unfold firsts
    split
    . next hseen =>
      rw [ih, List.mem_cons]
      constructor
      . exact fun h => ⟨.inr h.1, h.2⟩
      . rintro ⟨rfl | hmem, hnot⟩
        . exact absurd hseen hnot
        . exact ⟨hmem, hnot⟩
    . next hseen =>
      rw [List.mem_cons, ih, List.mem_cons, List.mem_cons]
      by_cases heq : v = w
      . simp [heq, hseen]
      . simp [heq]

theorem nodup_firsts (seen l : List ν) : (firsts seen l).Nodup := by
  induction l generalizing seen with
  | nil => exact List.nodup_nil
  | cons w l ih =>
    unfold firsts
    split
    . exact ih seen
    . rw [List.nodup_cons]
      refine ⟨?_, ih (w :: seen)⟩
      rw [mem_firsts]
      simp

theorem fresh_firsts {seen : List ν} (hseen : ∀ v, v ∈ seen ↔ v ∈ avoid ∨ v ∈ found) (successors : List ν)
    : Fresh avoid found successors (firsts seen successors) where
  nodup := nodup_firsts seen successors
  mem v := by
    rw [mem_firsts, hseen, not_or]

end Firsts

end Bfs
