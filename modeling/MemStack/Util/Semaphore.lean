import Mathlib

/-!
This module contains the semaphore of asyncio.
-/

structure AsyncSemaphore (ι : Type) where
  value : Nat
  waiters : List (ι × Bool)
  deriving DecidableEq, Repr

namespace AsyncSemaphore

variable {ι : Type}

def wake : List (ι × Bool) → Option (List (ι × Bool))
  | [] => none
  | (i, true) :: waiters => (wake waiters).map ((i, true) :: ·)
  | (i, false) :: waiters => some ((i, true) :: waiters)

def wakeUpNext (s : AsyncSemaphore ι) : AsyncSemaphore ι :=
  match wake s.waiters with
  | some waiters => ⟨s.value - 1, waiters⟩
  | none => s

def wakeAll : Nat → AsyncSemaphore ι → AsyncSemaphore ι
  | 0, s => s
  | n + 1, s =>
    match wake s.waiters with
    | some waiters => wakeAll n ⟨s.value - 1, waiters⟩
    | none => s

def release (s : AsyncSemaphore ι) : AsyncSemaphore ι :=
  wakeUpNext { s with value := s.value + 1 }

def locked (s : AsyncSemaphore ι) : Bool :=
  s.value = 0 || !s.waiters.isEmpty

def acquire (s : AsyncSemaphore ι) (i : ι) : AsyncSemaphore ι × Bool :=
  if s.locked then ({ s with waiters := s.waiters ++ [(i, false)] }, false)
  else ({ s with value := s.value - 1 }, true)

def permits (s : AsyncSemaphore ι) : Nat :=
  s.value + s.waiters.countP (·.2)

section Waiters

variable [DecidableEq ι]

def resume (s : AsyncSemaphore ι) (i : ι) : AsyncSemaphore ι :=
  wakeAll s.value { s with waiters := s.waiters.erase (i, true) }

def cancel (s : AsyncSemaphore ι) (i : ι) : AsyncSemaphore ι :=
  if (i, true) ∈ s.waiters then wakeAll (s.value + 1) ⟨s.value + 1, s.waiters.erase (i, true)⟩
  else wakeAll s.value { s with waiters := s.waiters.erase (i, false) }

end Waiters

def ids (s : AsyncSemaphore ι) : List ι :=
  s.waiters.map Prod.fst

variable {s : AsyncSemaphore ι} {waiters waiters' : List (ι × Bool)}

theorem countP_wake (h : wake waiters = some waiters')
    : waiters'.countP (·.2) = waiters.countP (·.2) + 1 := by
  induction waiters generalizing waiters' with
  | nil => cases h
  | cons waiter waiters ih =>
    obtain ⟨i, woken⟩ := waiter
    cases woken with
    | false =>
      cases h
      simp
    | true =>
      rw [wake, Option.map_eq_some_iff] at h
      obtain ⟨rest, hrest, rfl⟩ := h
      simp [ih hrest]

theorem permits_wakeUpNext (h : 0 < s.value) : s.wakeUpNext.permits = s.permits := by
  unfold wakeUpNext
  split
  . next waiters hwake =>
    unfold permits
    dsimp only
    rw [countP_wake hwake]
    omega
  . rfl

theorem permits_wakeAll {n value : Nat} (h : n ≤ value)
    : (wakeAll n ⟨value, waiters⟩).permits = value + waiters.countP (·.2) := by
  induction n generalizing value waiters with
  | zero => rfl
  | succ n ih =>
    rw [wakeAll]
    split
    . next waiters' hwake =>
      rw [ih, countP_wake hwake]
      . dsimp only
        omega
      . dsimp only
        omega
    . rfl

theorem permits_release (s : AsyncSemaphore ι) : s.release.permits = s.permits + 1 := by
  rw [release, permits_wakeUpNext (Nat.succ_pos _)]
  unfold permits
  dsimp only
  omega

theorem permits_acquire (s : AsyncSemaphore ι) (i : ι)
    : (s.acquire i).1.permits + (if (s.acquire i).2 then 1 else 0) = s.permits := by
  unfold acquire
  split
  . simp [permits]
  . next h =>
    have hvalue : s.value ≠ 0 := by
      intro hzero
      simp [locked, hzero] at h
    unfold permits
    dsimp only
    rw [if_pos rfl]
    omega

section Waiters

variable [DecidableEq ι] {i : ι}

theorem permits_resume (h : (i, true) ∈ s.waiters) : (s.resume i).permits + 1 = s.permits := by
  rw [resume, permits_wakeAll (Nat.le_refl _)]
  unfold permits
  have hpos : 0 < s.waiters.countP (·.2) := List.countP_pos_iff.mpr ⟨_, h, rfl⟩
  rw [List.countP_erase, if_pos ⟨h, rfl⟩]
  omega

theorem permits_cancel (s : AsyncSemaphore ι) (i : ι) : (s.cancel i).permits = s.permits := by
  unfold cancel
  split
  . next h =>
    rw [permits_wakeAll (Nat.le_refl _)]
    unfold permits
    have hpos : 0 < s.waiters.countP (·.2) := List.countP_pos_iff.mpr ⟨_, h, rfl⟩
    rw [List.countP_erase, if_pos ⟨h, rfl⟩]
    omega
  . rw [permits_wakeAll (Nat.le_refl _)]
    unfold permits
    rw [List.countP_erase, if_neg (by simp), Nat.sub_zero]

end Waiters

theorem map_fst_wake (h : wake waiters = some waiters') : waiters'.map Prod.fst = waiters.map Prod.fst := by
  induction waiters generalizing waiters' with
  | nil => cases h
  | cons waiter waiters ih =>
    obtain ⟨i, woken⟩ := waiter
    cases woken with
    | false =>
      cases h
      rfl
    | true =>
      rw [wake, Option.map_eq_some_iff] at h
      obtain ⟨rest, hrest, rfl⟩ := h
      rw [List.map_cons, List.map_cons, ih hrest]

theorem ids_wakeAll (n value : Nat) (waiters : List (ι × Bool))
    : (wakeAll n ⟨value, waiters⟩).ids = waiters.map Prod.fst := by
  induction n generalizing value waiters with
  | zero => rfl
  | succ n ih =>
    rw [wakeAll]
    split
    . next waiters' hwake => rw [ih, map_fst_wake hwake]
    . rfl

theorem ids_release (s : AsyncSemaphore ι) : s.release.ids = s.ids := by
  unfold release wakeUpNext
  split
  . next waiters hwake => exact map_fst_wake hwake
  . rfl

theorem ids_acquire (s : AsyncSemaphore ι) (i : ι)
    : (s.acquire i).1.ids = if (s.acquire i).2 then s.ids else s.ids ++ [i] := by
  unfold acquire
  split
  . simp [ids]
  . rfl

section Waiters

variable [DecidableEq ι] {i : ι}

theorem ids_erase (hnodup : s.ids.Nodup) {woken : Bool} (h : (i, woken) ∈ s.waiters)
    : (s.waiters.erase (i, woken)).map Prod.fst = s.ids.erase i := by
  unfold ids at hnodup ⊢
  induction hwaiters : s.waiters generalizing s with
  | nil =>
    rw [hwaiters] at h
    cases h
  | cons waiter waiters ih =>
    rw [hwaiters] at h hnodup
    rw [List.map_cons, List.nodup_cons] at hnodup
    by_cases heq : waiter = (i, woken)
    . rw [heq, List.erase_cons_head, List.map_cons, List.erase_cons_head]
    . have hmem := (List.mem_cons.mp h).resolve_left (Ne.symm heq)
      have hne : waiter.1 ≠ i := by
        rintro rfl
        exact hnodup.1 (List.mem_map.mpr ⟨_, hmem, rfl⟩)
      rw [List.erase_cons_tail (by simpa using heq), List.map_cons, List.map_cons,
        List.erase_cons_tail (by simpa using hne)]
      rw [ih (s := ⟨0, waiters⟩) hnodup.2 hmem rfl]

theorem ids_resume (hnodup : s.ids.Nodup) (h : (i, true) ∈ s.waiters) : (s.resume i).ids = s.ids.erase i := by
  rw [resume, ids_wakeAll, ids_erase hnodup h]

theorem ids_cancel (hnodup : s.ids.Nodup) : (s.cancel i).ids = s.ids.erase i := by
  unfold cancel
  split
  . next h => rw [ids_wakeAll, ids_erase hnodup h]
  . next hwoken =>
    rw [ids_wakeAll]
    by_cases h : (i, false) ∈ s.waiters
    . rw [ids_erase hnodup h]
    . have hnot : i ∉ s.ids := by
        intro hmem
        obtain ⟨⟨i', woken⟩, hwaiter, rfl⟩ := List.mem_map.mp hmem
        cases woken with
        | true => exact hwoken hwaiter
        | false => exact h hwaiter
      rw [List.erase_of_not_mem h, List.erase_of_not_mem hnot]
      rfl

end Waiters

end AsyncSemaphore

namespace Waiting

section Runs

variable {S Q : Type} {step : S → Q → Option S} {s s' : S} {q : Q} {qs : List Q}

def run (step : S → Q → Option S) : S → List Q → Option S
  | s, [] => some s
  | s, q :: qs => (step s q).bind fun s' => run step s' qs

theorem run_cons
    : run step s (q :: qs) = some s' ↔ ∃ next, step s q = some next ∧ run step next qs = some s' := by
  rw [run, Option.bind_eq_some_iff]

theorem inv_run {I : S → Prop} (hI : ∀ s q s', step s q = some s' → I s → I s') (h : I s)
    (hrun : run step s qs = some s')
    : I s' := by
  induction qs generalizing s with
  | nil =>
    cases hrun
    exact h
  | cons q qs ih =>
    rw [run_cons] at hrun
    rcases hrun with ⟨next, hstep, hrun⟩
    exact ih (hI s q next hstep h) hrun

def Takes (step : S → Q → Option S) (s : S) (qs : List Q) (before : S) (q : Q) : Prop :=
  ∃ past later, qs = past ++ q :: later ∧ run step s past = some before

theorem takes_cons {before : S} {q' : Q}
    : Takes step s (q :: qs) before q' ↔
        (before = s ∧ q' = q) ∨ ∃ next, step s q = some next ∧ Takes step next qs before q' := by
  constructor
  . rintro ⟨past, later, hqs, hrun⟩
    cases past with
    | nil =>
      cases hqs
      cases hrun
      exact .inl ⟨rfl, rfl⟩
    | cons first past =>
      rw [List.cons_append, List.cons.injEq] at hqs
      rw [← hqs.1, run_cons] at hrun
      obtain ⟨next, hstep, hrun⟩ := hrun
      exact .inr ⟨next, hstep, past, later, hqs.2, hrun⟩
  . rintro (⟨rfl, rfl⟩ | ⟨next, hstep, past, later, rfl, hrun⟩)
    . exact ⟨[], qs, rfl, rfl⟩
    . exact ⟨q :: past, later, rfl, run_cons.mpr ⟨next, hstep, hrun⟩⟩

theorem Takes.mem {before : S} (h : Takes step s qs before q) : q ∈ qs := by
  obtain ⟨past, later, rfl, -⟩ := h
  simp

theorem kept_run_iff {I P : S → Prop} {L : S → Q → Prop} (hI : ∀ s q s', step s q = some s' → I s → I s')
    (hstep : ∀ s q s', I s → step s q = some s' → (P s' ↔ P s ∧ ¬L s q)) (h : I s)
    (hrun : run step s qs = some s')
    : P s' ↔ P s ∧ ∀ before q, Takes step s qs before q → ¬L before q := by
  induction qs generalizing s with
  | nil =>
    cases hrun
    rw [iff_self_and]
    rintro _ before q ⟨past, later, hqs, -⟩
    exact absurd hqs (by simp)
  | cons q qs ih =>
    rw [run_cons] at hrun
    obtain ⟨next, hnext, hrun⟩ := hrun
    rw [ih (hI s q next hnext h) hrun, hstep s q next h hnext, and_assoc, and_congr_right_iff]
    intro _
    constructor
    . rintro ⟨hfirst, hrest⟩ before q' htakes
      rw [takes_cons] at htakes
      rcases htakes with ⟨rfl, rfl⟩ | ⟨next', hnext', htakes⟩
      . exact hfirst
      . rw [hnext, Option.some.injEq] at hnext'
        rw [← hnext'] at htakes
        exact hrest before q' htakes
    . intro hall
      refine ⟨hall s q (takes_cons.mpr (.inl ⟨rfl, rfl⟩)), ?_⟩
      intro before q' htakes
      exact hall before q' (takes_cons.mpr (.inr ⟨next, hnext, htakes⟩))

variable {μ : S → Nat} (hμ : ∀ s q s', step s q = some s' → μ s' < μ s)
include hμ

theorem length_le (hrun : run step s qs = some s') : qs.length + μ s' ≤ μ s := by
  induction qs generalizing s with
  | nil =>
    cases hrun
    simp
  | cons q qs ih =>
    rw [run_cons] at hrun
    rcases hrun with ⟨next, hstep, hrun⟩
    have hlt := hμ s q next hstep
    have hle := ih hrun
    rw [List.length_cons]
    omega

theorem exists_halted (s : S) : ∃ qs s', run step s qs = some s' ∧ ∀ q, step s' q = none := by
  generalize hn : μ s = n
  induction n using Nat.strongRecOn generalizing s with
  | ind n ih =>
    by_cases hhalted : ∀ q, step s q = none
    . exact ⟨[], s, rfl, hhalted⟩
    . push Not at hhalted
      rcases hhalted with ⟨q, hq⟩
      obtain ⟨next, hstep⟩ := Option.ne_none_iff_exists'.mp hq
      have hlt := hμ s q next hstep
      rw [hn] at hlt
      obtain ⟨qs, s', hrun, hnone⟩ := ih (μ next) hlt next rfl
      exact ⟨q :: qs, s', run_cons.mpr ⟨next, hstep, hrun⟩, hnone⟩

end Runs

section Cycles

variable {ν : Type} {awaits : ν → ν → Prop}

def Acyclic (awaits : ν → ν → Prop) : Prop :=
  ∀ a, ¬Relation.TransGen awaits a a

theorem acyclic_of_rank {rank : ν → Nat} (h : ∀ a b, awaits a b → rank b < rank a) : Acyclic awaits := by
  intro a hcycle
  have hlt : ∀ b, Relation.TransGen awaits a b → rank b < rank a := by
    intro b hb
    induction hb with
    | single hab => exact h _ _ hab
    | tail _ hbc ih =>
      have := h _ _ hbc
      omega
  exact absurd (hlt a hcycle) (Nat.lt_irrefl _)

theorem Acyclic.exists_free (h : Acyclic awaits) {l : List ν} (hl : l ≠ [])
    : ∃ a ∈ l, ∀ b ∈ l, ¬awaits a b := by
  let before (b a : {a // a ∈ l}) : Prop := Relation.TransGen awaits a.1 b.1
  have htrans : IsTrans _ before := by
    constructor
    intro a b c hab hbc
    exact hbc.trans hab
  have hirrefl : Std.Irrefl before := by
    constructor
    intro a
    exact h a.1
  have hfinite : Finite {a // a ∈ l} := (List.finite_toSet l).to_subtype
  have hwf : WellFounded before := Finite.wellFounded_of_trans_of_irrefl before
  obtain ⟨first, hfirst⟩ := List.exists_mem_of_ne_nil l hl
  obtain ⟨a, -, hmin⟩ := hwf.has_min Set.univ ⟨⟨first, hfirst⟩, trivial⟩
  refine ⟨a.1, a.2, ?_⟩
  intro b hb hab
  exact hmin ⟨b, hb⟩ trivial (Relation.TransGen.single hab)

end Cycles

end Waiting
