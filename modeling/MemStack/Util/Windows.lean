import MemStack.Util.Lists

/-!
This module contains sequences that are gone through with a window. Before an element the window may be closed,
and the next one begins with what is kept of it. It also contains the number of events in the windows of a length:
what is asked of the window that ends when an event is admitted holds of every window.
-/

namespace Windows

open History

variable {α : Type} {cut : List α → α → Bool} {keep : List α → List α} {l : List α} {a : α}

structure State (α : Type) where
  done : List (List α) := []
  current : List α := []

def step (cut : List α → α → Bool) (keep : List α → List α) (s : State α) (a : α) : State α :=
  if cut s.current a ∧ s.current ≠ [] then
    { done := s.done ++ [s.current], current := keep s.current ++ [a] }
  else
    { s with current := s.current ++ [a] }

def run (cut : List α → α → Bool) (keep : List α → List α) (l : List α) : State α :=
  l.foldl (step cut keep) {}

def State.windows (s : State α) : List (List α) :=
  if s.current = [] then s.done else s.done ++ [s.current]

theorem run_concat : run cut keep (l ++ [a]) = step cut keep (run cut keep l) a := by
  rw [run, List.foldl_concat]
  rfl

structure Piece (α : Type) where
  kept : List α
  fresh : List α

def Piece.window (piece : Piece α) : List α :=
  piece.kept ++ piece.fresh

structure Covers (keep : List α → List α) (l : List α) (pieces : List (Piece α)) : Prop where
  flatten : (pieces.map Piece.fresh).flatten = l
  fresh : ∀ piece ∈ pieces, piece.fresh ≠ []
  first : ∀ piece ∈ pieces.head?, piece.kept = []
  next : pieces.IsChain fun piece piece' => piece'.kept = keep piece.window

theorem covers_single : Covers keep [a] [⟨[], [a]⟩] :=
  ⟨rfl, by simp, by simp, List.isChain_singleton _⟩

theorem Covers.grow {pieces : List (Piece α)} {piece : Piece α} (h : Covers keep l (pieces ++ [piece]))
    : Covers keep (l ++ [a]) (pieces ++ [⟨piece.kept, piece.fresh ++ [a]⟩]) := by
  have hflatten := h.flatten
  rw [List.map_append, List.flatten_append] at hflatten
  constructor
  . rw [← hflatten, List.map_append, List.flatten_append]
    simp
  . intro piece' hpiece'
    rw [List.mem_append, List.mem_singleton] at hpiece'
    rcases hpiece' with hpiece' | rfl
    . exact h.fresh piece' (by simp [hpiece'])
    . simp
  . have hfirst := h.first
    cases pieces with
    | nil => simpa using hfirst
    | cons first pieces => exact hfirst
  . have hnext := h.next
    rw [List.isChain_append] at hnext ⊢
    refine ⟨hnext.1, List.isChain_singleton _, ?_⟩
    intro last hlast piece' hpiece'
    cases hpiece'
    exact hnext.2.2 last hlast piece (by simp)

theorem Covers.close {pieces : List (Piece α)} {piece : Piece α} (h : Covers keep l (pieces ++ [piece]))
    : Covers keep (l ++ [a]) (pieces ++ [piece] ++ [⟨keep piece.window, [a]⟩]) := by
  constructor
  . rw [List.map_append, List.flatten_append, h.flatten]
    simp
  . intro piece' hpiece'
    rw [List.mem_append, List.mem_singleton] at hpiece'
    rcases hpiece' with hpiece' | rfl
    . exact h.fresh piece' hpiece'
    . simp
  . have hfirst := h.first
    cases pieces with
    | nil => simpa using hfirst
    | cons first pieces => exact hfirst
  . rw [List.isChain_append]
    refine ⟨h.next, List.isChain_singleton _, ?_⟩
    intro last hlast piece' hpiece'
    cases hpiece'
    rw [List.getLast?_concat] at hlast
    cases hlast
    rfl

variable (cut keep) in
theorem exists_covers (hne : l ≠ [])
    : ∃ pieces piece, (run cut keep l).done = pieces.map Piece.window ∧ (run cut keep l).current = piece.window ∧
        Covers keep l (pieces ++ [piece]) := by
  induction l using List.reverseRecOn with
  | nil => exact absurd rfl hne
  | append_singleton l a ih =>
    rw [run_concat]
    by_cases hl : l = []
    . subst hl
      refine ⟨[], ⟨[], [a]⟩, ?_, ?_, covers_single⟩
      . simp [run, step]
      . simp [run, step, Piece.window]
    . obtain ⟨pieces, piece, hdone, hcurrent, hcovers⟩ := ih hl
      rw [step, hdone, hcurrent]
      split
      . refine ⟨pieces ++ [piece], ⟨keep piece.window, [a]⟩, ?_, rfl, hcovers.close⟩
        simp
      . refine ⟨pieces, ⟨piece.kept, piece.fresh ++ [a]⟩, rfl, ?_, hcovers.grow⟩
        simp [Piece.window]

variable (cut keep) in
theorem exists_windows_covers (hne : l ≠ [])
    : ∃ pieces, (run cut keep l).windows = pieces.map Piece.window ∧ Covers keep l pieces := by
  obtain ⟨pieces, piece, hdone, hcurrent, hcovers⟩ := exists_covers cut keep hne
  refine ⟨pieces ++ [piece], ?_, hcovers⟩
  have hpiece : piece.window ≠ [] := by
    have := hcovers.fresh piece (by simp)
    simp [Piece.window, this]
  rw [State.windows, hcurrent, if_neg hpiece, hdone]
  simp

section Size

variable {P : List α → Prop}

def Room (cut : List α → α → Bool) (keep : List α → List α) (P : List α → Prop) (before : List α) (a : α) : Prop :=
  let current := (run cut keep before).current
  cut current a → current ≠ [] → P (keep current ++ [a])

theorem forall_windows_iff (hsingle : ∀ a ∈ l, P [a])
    (hgrow : ∀ current a, current ≠ [] → ¬cut current a → P (current ++ [a]))
    (hmono : ∀ current a, P (current ++ [a]) → P current)
    : (∀ window ∈ (run cut keep l).windows, P window) ↔ AtEach (Room cut keep P) l := by
  have hwindows (s : State α) : (∀ window ∈ s.windows, P window) ↔
      (∀ window ∈ s.done, P window) ∧ (s.current ≠ [] → P s.current) := by
    unfold State.windows
    split
    . next hnil => simp [hnil]
    . next hne => simp [hne, or_imp, forall_and]
  rw [hwindows]
  induction l using List.reverseRecOn with
  | nil => simp [run]
  | append_singleton l a ih =>
    have hl : AtEach (Room cut keep P) l ↔ (∀ window ∈ (run cut keep l).done, P window) ∧
        ((run cut keep l).current ≠ [] → P (run cut keep l).current) :=
      (ih fun b hb => hsingle b (by simp [hb])).symm
    rw [atEach_concat, hl, run_concat, Room]
    unfold step
    split
    . next hcut =>
      simp only [hcut.1, hcut.2, ne_eq, not_false_eq_true, true_implies, List.append_eq_nil_iff, List.cons_ne_self,
        and_false, List.mem_append, List.mem_singleton, or_imp, forall_and, forall_eq]
    . next hcut =>
      have hroom : cut (run cut keep l).current a = true → (run cut keep l).current ≠ [] →
          P (keep (run cut keep l).current ++ [a]) := by
        intro hyes hne
        exact absurd ⟨hyes, hne⟩ hcut
      rw [and_iff_left hroom, and_congr_right_iff]
      intro _
      by_cases hne : (run cut keep l).current = []
      . rw [hne]
        simpa using hsingle a (by simp)
      . have hP := hgrow _ a hne fun hyes => hcut ⟨hyes, hne⟩
        exact ⟨fun _ _ => hmono _ a hP, fun _ _ => hP⟩

end Size

end Windows

namespace SlidingWindow

variable {w c r : Int} {limit : Nat} {times kept : List Int}

def within (w x t : Int) : Bool :=
  x ≤ t ∧ t < x + w

def Limited (w : Int) (limit : Nat) (times : List Int) : Prop :=
  ∀ x, times.countP (within w x) ≤ limit

theorem limited_nil (w : Int) (limit : Nat) : Limited w limit [] :=
  fun _ => Nat.zero_le _

theorem limited_concat (h : Limited w limit times) (hle : c ≤ r)
    (hcheck : (times.filter (c - w < ·)).length < limit)
    : Limited w limit (times ++ [r]) := by
  intro x
  rw [List.countP_append, List.countP_singleton]
  by_cases hr : within w x r = true
  . rw [if_pos hr]
    have hmono : times.countP (within w x) ≤ times.countP (c - w < ·) := by
      apply List.countP_mono_left
      intro t _ ht
      simp only [within, decide_eq_true_eq] at hr ht ⊢
      omega
    rw [List.countP_eq_length_filter] at hmono ⊢
    rw [List.countP_eq_length_filter] at hmono
    omega
  . rw [if_neg hr]
    exact h x

def Keeps (w now : Int) (kept times : List Int) : Prop :=
  ∀ c, now ≤ c → kept.filter (c - w < ·) = times.filter (c - w < ·)

theorem keeps_nil (w now : Int) : Keeps w now [] [] :=
  fun _ _ => rfl

theorem Keeps.later (h : Keeps w c kept times) (hle : c ≤ r) : Keeps w r kept times :=
  fun now hnow => h now (Int.le_trans hle hnow)

theorem Keeps.pruned (h : Keeps w c kept times) : Keeps w c (kept.filter (c - w < ·)) times := by
  intro now hnow
  rw [← h now hnow, List.filter_filter]
  apply List.filter_congr
  intro t _
  simp only [Bool.and_eq_left_iff_imp, decide_eq_true_eq]
  intro ht
  omega

theorem Keeps.concat (h : Keeps w c kept times) (t : Int) : Keeps w c (kept ++ [t]) (times ++ [t]) := by
  intro now hnow
  rw [List.filter_append, List.filter_append, h now hnow]

end SlidingWindow
