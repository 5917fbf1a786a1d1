import MemStack.Memory.CommunityDetected

/-!
This module contains when the communities are an optimum for each node: no node gains by a move into another
community.
-/

namespace MemStack
namespace Memory

open Finset

namespace WGraph

variable {g : WGraph} {A : Nat → Nat → ℚ} {s s' : Moving} {i c fuel : Nat} {comm : List Nat} {moved : Bool}

section Stable

def Stable (g : WGraph) (A : Nat → Nat → ℚ) (comm : List Nat) : Prop :=
  ∀ i < g.n, ∀ c ∈ (weightTo (g.neighbours i) comm i).keys,
    Modularity.gain (range g.n) A (comm.getD · 0) i c ≤
      Modularity.gain (range g.n) A (comm.getD · 0) i (comm.getD i 0) + gainEps

end Stable

section Optimal

def Light (g : WGraph) (i : Nat) : Prop :=
  2 * ((g.neighbours i).get i).getD 0 * g.m2 ≤ g.degreeAt i ^ 2

def gainAt (g : WGraph) (s : Moving) (i c : Nat) : ℚ :=
  ((weightTo (g.neighbours i) s.comm i).get c).getD 0 -
    (s.tot.modify (s.comm.getD i 0) (· - g.degreeAt i)).getD c 0 * g.degreeAt i / g.m2

def Overlooks (g : WGraph) (s : Moving) (i : Nat) : Prop :=
  ∃ j < g.n, ∀ c ∈ s.comm.getD i 0 :: (weightTo (g.neighbours i) s.comm i).keys,
    g.gainAt s i c < g.gainAt s i (s.comm.getD j 0)

theorem get_neighbours (h : g.Represents A) (hi : i < g.n) {j : Nat} (hj : j < g.n)
    : (if j = i then 2 else 1) * ((g.neighbours i).get j).getD 0 = A i j := by
  have hsum := h.sums i hi fun k => if k = j then 1 else 0
  have hright : (∑ k ∈ range g.n, A i k * if k = j then 1 else 0) = A i j := by
    simp [hj]
  rw [hright] at hsum
  rw [getD_get_eq_sumOf, ← hsum]
  unfold EntryMap.sumOf
  rw [← List.sum_map_mul_left]
  apply congrArg
  apply List.map_congr_left
  intro e _
  dsimp only
  by_cases heq : e.1 = j
  . simp only [heq]
    ring
  . simp only [heq, if_false]
    ring

end Optimal

section Apart

def Apart (g : WGraph) : Prop :=
  ∀ i < g.n, ∀ j ∈ (g.neighbours i).keys, j ≠ i →
    ((g.neighbours i).get j).getD 0 - g.degreeAt j * g.degreeAt i / g.m2 ≤ gainEps

theorem gain_start (h : g.Represents A) (hi : i < g.n) {c : Nat} (hc : c < g.n)
    : Modularity.gain (range g.n) A ((List.range g.n).getD · 0) i c =
        if c = i then 0 else ((g.neighbours i).get c).getD 0 - g.degreeAt c * g.degreeAt i / g.m2 := by
  have hlabel : ∀ j ∈ (range g.n).erase i, (List.range g.n).getD j 0 = j := by
    intro j hj
    have hlt := mem_range.mp (mem_of_mem_erase hj)
    simp [List.getD_eq_getElem?_getD, hlt]
  have hpick : ∀ f : Nat → ℚ, (∑ j ∈ (range g.n).erase i, if (List.range g.n).getD j 0 = c then f j else 0) =
      if c = i then 0 else f c := by
    intro f
    rw [sum_congr rfl fun j hj => by rw [hlabel j hj], sum_ite_eq']
    simp only [mem_erase, mem_range, hc, and_true]
    split <;> simp_all
  unfold Modularity.gain
  rw [hpick, hpick]
  split
  . simp
  . next hne =>
    rw [← get_neighbours h hi hc, if_neg hne, one_mul, h.degree c hc, h.degree i hi, h.m2]

theorem mem_range_keys (h : g.Represents A) (hi : i < g.n)
    : c ∈ (weightTo (g.neighbours i) (List.range g.n) i).keys ↔ c ∈ (g.neighbours i).keys ∧ c ≠ i := by
  rw [mem_keys_weightTo]
  have hlabel : ∀ j ∈ (g.neighbours i).keys, (List.range g.n).getD j 0 = j := by
    intro j hj
    have hlt := h.keys i hi j hj
    simp [List.getD_eq_getElem?_getD, hlt]
  constructor
  . rintro ⟨j, hj, hne, rfl⟩
    rw [hlabel j hj]
    exact ⟨hj, hne⟩
  . rintro ⟨hc, hne⟩
    exact ⟨c, hc, hne, hlabel c hc⟩

theorem Apart.moveNode (hapart : g.Apart) (h : g.Represents A) (hpos : 0 < g.m2) (hs : s.Sound g A) (hi : i < g.n)
    (hcomm : s.comm = List.range g.n)
    : (g.moveNode s i).comm = s.comm ∧ (g.moveNode s i).moved = s.moved ∧ (g.moveNode s i).anyMove = s.anyMove := by
  rcases moveNode_spec hs h hi hpos with hsame | ⟨hmoves, _⟩
  . exact hsame
  . obtain ⟨c, hm⟩ := exists_moves hs h hi
    have hown : s.comm.getD i 0 = i := by
      rw [hcomm]
      simp [List.getD_eq_getElem?_getD, hi]
    have hne : c ≠ i := by
      rintro rfl
      apply hmoves
      rw [hm.comm, hcomm]
      apply List.ext_getElem
      . simp
      . intro j hj hj'
        simp [List.getElem_set]
    have hlt := hm.gain_lt (by rwa [hown])
    have hkey := hm.key (by rwa [hown])
    rw [hcomm, mem_range_keys h hi] at hkey
    have hle := hapart i hi c hkey.1 hne
    rw [hown, hcomm, gain_start h hi hi, gain_start h hi hm.lt, if_pos rfl, if_neg hne] at hlt
    linarith

theorem Apart.localMove (hapart : g.Apart) (h : g.Represents A) (hpos : 0 < g.m2)
    (hrun : g.localMove fuel = some (comm, moved))
    : comm = List.range g.n ∧ moved = false := by
  have hwalk : ∀ l : List Nat, (∀ i ∈ l, i < g.n) → ∀ s : Moving, s.Sound g A → s.comm = List.range g.n →
      (l.foldl g.moveNode s).comm = s.comm ∧
        (l.foldl g.moveNode s).moved = s.moved ∧ (l.foldl g.moveNode s).anyMove = s.anyMove := by
    intro l
    induction l with
    | nil => exact fun _ s _ _ => ⟨rfl, rfl, rfl⟩
    | cons i l ih =>
      intro hl s hs hcomm
      rw [List.forall_mem_cons] at hl
      obtain ⟨hcomm', hmoved, hany⟩ := hapart.moveNode h hpos hs hl.1 hcomm
      obtain ⟨hc, hm, ha⟩ := ih hl.2 _ (moveNode_sound hs h hl.1) (hcomm'.trans hcomm)
      exact ⟨hc.trans hcomm', hm.trans hmoved, ha.trans hany⟩
  obtain ⟨hcomm, hmoved, hany⟩ := hwalk (List.range g.n) (fun i hi => List.mem_range.mp hi) g.start (start_sound h) rfl
  have hone : g.localMove 1 = some (List.range g.n, false) := by
    have hpass : (g.pass g.start).moved = false := hmoved
    unfold WGraph.localMove localMoveFrom
    dsimp only
    rw [if_neg (by rw [hpass]; decide), Option.map_some]
    exact congrArg some (Prod.ext hcomm hany)
  cases fuel with
  | zero => cases hrun
  | succ fuel =>
    rw [localMove_mono (by omega) hone] at hrun
    cases hrun
    exact ⟨rfl, rfl⟩

end Apart

end WGraph

section Partition

variable {n fuel : Nat} {base : List IndexedEdge} {labels comm : List Nat} {moved : Bool}

def communityGraph (g : WGraph) (comm : List Nat) : WGraph :=
  WGraph.build (compact comm).2 (aggregate g (compact comm).1)

-- The graphs that the levels of `partition` start from.
inductive LevelStart (fuel : Nat) (base : WGraph) : Nat → WGraph → Prop
  | first : LevelStart fuel base 0 base
  | next {level : Nat} {g : WGraph} {comm : List Nat} : LevelStart fuel base level g →
    g.localMove fuel = some (comm, true) → (compact comm).2 ≠ g.n → (compact comm).2 ≠ 1 →
      LevelStart fuel base (level + 1) (communityGraph g comm)

def SameLabels (n : Nat) (l l' : List Nat) : Prop :=
  ∀ i < n, ∀ j < n, l.getD i 0 = l.getD j 0 ↔ l'.getD i 0 = l'.getD j 0

theorem LevelStart.mono {fuel' level : Nat} {g graph : WGraph} (hle : fuel ≤ fuel')
    (hlevel : LevelStart fuel g level graph)
    : LevelStart fuel' g level graph := by
  induction hlevel with
  | first => exact .first
  | next _ hmove hfewer hseveral ih => exact .next ih (WGraph.localMove_mono hle hmove) hfewer hseveral

theorem LevelStart.level (h : InRange n base) (hpos : 0 < (WGraph.build n base).m2) {level : Nat} {graph : WGraph}
    (hlevel : LevelStart fuel (WGraph.build n base) level graph)
    : ∃ current, Level n (matrixOf base) graph current := by
  induction hlevel with
  | first => exact ⟨_, level_build h hpos⟩
  | next _ hmove _ _ ih =>
    obtain ⟨current, hcurrent⟩ := ih
    exact ⟨_, (hcurrent.step hmove).2⟩

end Partition

section Moved

variable {nodes : List String} {edges : List CommunityEdge} {groups : List (List String)} {id : String} {c : Nat}
  {labels : List Nat}

def moveTo (groups : List (List String)) (id : String) (c : Nat) : List (List String) :=
  (groups.map (·.filter (· ≠ id))).modify c (· ++ [id])

end Moved

section Optimum

variable {nodes : List String} {edges : List CommunityEdge} {n : Nat} {base : List IndexedEdge}
  {labels comm : List Nat}

theorem SameLabels.set {i j : Nat} (h : SameLabels n labels comm) (hlabels : labels.length = n)
    (hcomm : comm.length = n)
    (hj : j < n)
    : SameLabels n (labels.set i (labels.getD j 0)) (comm.set i (comm.getD j 0)) := by
  intro p hp q hq
  rw [getD_set (by rwa [hlabels]), getD_set (by rwa [hlabels]), getD_set (by rwa [hcomm]), getD_set (by rwa [hcomm])]
  split
  . split
    . simp
    . exact h j hj q hq
  . split
    . exact h p hp j hj
    . exact h p hp q hq

theorem SameLabels.modularityIndexed_eq {g : WGraph} {A : Nat → Nat → ℚ} (h : SameLabels g.n labels comm)
    (hrepresents : g.Represents A) (hlabels : labels.length = g.n) (hcomm : comm.length = g.n)
    : modularityIndexed g labels = modularityIndexed g comm := by
  rw [WGraph.modularityIndexed_eq hrepresents hlabels, WGraph.modularityIndexed_eq hrepresents hcomm]
  apply Modularity.modularity_congr
  intro i hi j hj
  exact h i (mem_range.mp hi) j (mem_range.mp hj)

-- No node with a heavy loop overlooks a community whenever it is processed, and no level after the first starts with
-- communities that are worth merging.
structure Settled (nodes : List String) (edges : List CommunityEdge) : Prop where
  looks : ∀ i < (baseGraph nodes edges).n, ¬ (baseGraph nodes edges).Light i →
    ∀ s, (baseGraph nodes edges).Visited i s → ¬ (baseGraph nodes edges).Overlooks s i
  apart : ∀ fuel level graph, LevelStart fuel (baseGraph nodes edges) (level + 1) graph → graph.Apart

def WGraph.states (g : WGraph) : Nat → Nat → WGraph.Moving → List (Nat × WGraph.Moving)
  | 0, i, s => [(i, s)]
  | steps + 1, i, s =>
    (i, s) ::
      if i < g.n then states g steps (i + 1) (g.moveNode s i)
      else if s.moved then states g steps 0 { s with moved := false }
      else []

end Optimum

end Memory
end MemStack
