import MemStack.Util.Lists

/-!
This module contains machines that answer requests one after the other, the transcripts of their runs, what
holds to the end of a run once it holds, and where in a run it begins to hold.
-/

namespace Machine

open History

variable {S Q A : Type}

structure Entry (S Q A : Type) where
  before : S
  request : Q
  reply : A
  after : S

def entry (step : S → Q → S × A) (s : S) (q : Q) : Entry S Q A :=
  { before := s, request := q, reply := (step s q).2, after := (step s q).1 }

def transcript (step : S → Q → S × A) : S → List Q → List (Entry S Q A)
  | _, [] => []
  | s, q :: qs => entry step s q :: transcript step (step s q).1 qs

def final (step : S → Q → S × A) (s : S) (qs : List Q) : S :=
  qs.foldl (fun s q => (step s q).1) s

variable {step : S → Q → S × A}

theorem transcript_concat (s : S) (qs : List Q) (q : Q)
    : transcript step s (qs ++ [q])
        =
      transcript step s qs ++ [entry step (final step s qs) q] := by
  induction qs generalizing s with
  | nil => rfl
  | cons q' qs ih =>
    rw [List.cons_append, transcript, ih]
    rfl

theorem final_concat (s : S) (qs : List Q) (q : Q)
    : final step s (qs ++ [q]) = (step (final step s qs) q).1 := by
  simp [final]

theorem eq_entry_of_mem {s : S} {qs : List Q} {e : Entry S Q A} (h : e ∈ transcript step s qs)
    : e = entry step e.before e.request := by
  induction qs generalizing s with
  | nil => simp [transcript] at h
  | cons q qs ih =>
    rw [transcript, List.mem_cons] at h
    cases h with
    | inl h =>
      rw [h]
      rfl
    | inr h => apply ih h

theorem request_mem_of_mem {s : S} {qs : List Q} {e : Entry S Q A} (h : e ∈ transcript step s qs)
    : e.request ∈ qs := by
  induction qs generalizing s with
  | nil => simp [transcript] at h
  | cons q qs ih =>
    rw [transcript, List.mem_cons] at h
    cases h with
    | inl h =>
      rw [h]
      exact List.mem_cons_self
    | inr h => exact List.mem_cons_of_mem _ (ih h)

theorem inv_transcript {C : S → Q → Prop} {I : List (Entry S Q A) → S → Prop}
    (hstep : ∀ past s q, I past s → C s q → I (past ++ [entry step s q]) (step s q).1)
    {s : S} (hstart : I [] s) (qs : List Q)
    (hC : ∀ e ∈ transcript step s qs, C e.before e.request)
    : I (transcript step s qs) (final step s qs) := by
  induction qs using List.reverseRecOn with
  | nil => exact hstart
  | append_singleton qs q ih =>
    rw [transcript_concat] at hC ⊢
    rw [final_concat]
    apply hstep
    . apply ih
      intro e he
      apply hC
      simp [he]
    . apply hC (entry step (final step s qs) q)
      simp

theorem atEach_transcript {C : S → Q → Prop} {I : List (Entry S Q A) → S → Prop}
    {P : List (Entry S Q A) → Entry S Q A → Prop}
    (hstep : ∀ past s q, I past s → C s q →
      P past (entry step s q) ∧ I (past ++ [entry step s q]) (step s q).1)
    {s : S} (hstart : I [] s) (qs : List Q)
    (hC : ∀ e ∈ transcript step s qs, C e.before e.request)
    : AtEach P (transcript step s qs) := by
  have hrun := @inv_transcript _ _ _ step C (fun past s => I past s ∧ AtEach P past) (by
    intro past s q h hC
    have := hstep past s q h.1 hC
    rw [atEach_concat]
    exact ⟨this.2, h.2, this.1⟩) s ⟨hstart, atEach_nil P⟩ qs hC
  apply hrun.2

theorem atEach_transcript_iff_forall {C D : S → Q → Prop} {I : List (Entry S Q A) → S → Prop}
    {P : List (Entry S Q A) → Entry S Q A → Prop}
    (hstep : ∀ past s q, I past s → D s q →
      (P past (entry step s q) ↔ C s q) ∧ (C s q → I (past ++ [entry step s q]) (step s q).1))
    {s : S} (hstart : I [] s) (qs : List Q)
    (hD : ∀ e ∈ transcript step s qs, D e.before e.request)
    : AtEach P (transcript step s qs) ↔ ∀ e ∈ transcript step s qs, C e.before e.request := by
  induction qs using List.reverseRecOn with
  | nil => simp [transcript, atEach_nil]
  | append_singleton qs q ih =>
    rw [transcript_concat, List.forall_mem_append, List.forall_mem_singleton] at hD
    rw [transcript_concat, atEach_concat, ih hD.1, List.forall_mem_append, List.forall_mem_singleton]
    apply and_congr_right
    intro hC
    have hpast := inv_transcript (C := fun s q => C s q ∧ D s q)
      (fun past s q h hboth => (hstep past s q h hboth.2).2 hboth.1) hstart qs
      (fun e he => ⟨hC e he, hD.1 e he⟩)
    apply (hstep _ _ q hpast hD.2).1

theorem forall_transcript {C : S → Q → Prop} {I : S → Prop} {P : Entry S Q A → Prop}
    (hstep : ∀ s q, I s → C s q → P (entry step s q) ∧ I (step s q).1)
    {s : S} (hstart : I s) (qs : List Q)
    (hC : ∀ e ∈ transcript step s qs, C e.before e.request)
    : ∀ e ∈ transcript step s qs, P e := by
  induction qs generalizing s with
  | nil => simp [transcript]
  | cons q qs ih =>
    rw [transcript, List.forall_mem_cons] at hC ⊢
    have hfirst := hstep s q hstart hC.1
    exact ⟨hfirst.1, ih hfirst.2 hC.2⟩

theorem forall_transcript_iff_of {C D : S → Q → Prop} {I : S → Prop} {P : Entry S Q A → Prop}
    (hstep : ∀ s q, I s → D s q → (P (entry step s q) ↔ C s q) ∧ (C s q → I (step s q).1))
    {s : S} (hstart : I s) (qs : List Q)
    (hD : ∀ e ∈ transcript step s qs, D e.before e.request)
    : (∀ e ∈ transcript step s qs, P e) ↔ ∀ e ∈ transcript step s qs, C e.before e.request := by
  induction qs generalizing s with
  | nil => simp [transcript]
  | cons q qs ih =>
    rw [transcript, List.forall_mem_cons] at hD
    have hfirst := hstep s q hstart hD.1
    rw [transcript, List.forall_mem_cons, List.forall_mem_cons, hfirst.1]
    apply and_congr_right
    intro hC
    apply ih (hfirst.2 hC) hD.2

theorem forall_transcript_iff {C : S → Q → Prop} {I : S → Prop} {P : Entry S Q A → Prop}
    (hstep : ∀ s q, I s → (P (entry step s q) ↔ C s q) ∧ (C s q → I (step s q).1))
    {s : S} (hstart : I s) (qs : List Q)
    : (∀ e ∈ transcript step s qs, P e) ↔ ∀ e ∈ transcript step s qs, C e.before e.request := by
  apply @forall_transcript_iff_of _ _ _ step C (fun _ _ => True) I P _ s hstart qs
  . intro _ _
    trivial
  . intro s q h _
    apply hstep s q h

variable {I R : S → Prop} {s : S} {qs : List Q} {e : Entry S Q A}

section

variable (hI : ∀ s q, I s → I (step s q).1)
include hI

theorem inv_final (h : I s) (qs : List Q) : I (final step s qs) := by
  induction qs generalizing s with
  | nil => exact h
  | cons q qs ih => exact ih (hI s q h)

theorem inv_before (h : I s) (he : e ∈ transcript step s qs) : I e.before := by
  induction qs generalizing s with
  | nil => cases he
  | cons q qs ih =>
    rw [transcript, List.mem_cons] at he
    cases he with
    | inl he =>
      rw [he]
      exact h
    | inr he => exact ih (hI s q h) he

end

section

variable (hI : ∀ s q, I s → I (step s q).1) (hR : ∀ s q, I s → R s → R (step s q).1)
include hI hR

theorem kept_final (h : I s) (hheld : R s) (qs : List Q) : R (final step s qs) := by
  have hboth : ∀ s q, I s ∧ R s → I (step s q).1 ∧ R (step s q).1 := by
    intro s q hs
    exact ⟨hI s q hs.1, hR s q hs.1 hs.2⟩
  exact (inv_final hboth ⟨h, hheld⟩ qs).2

theorem kept_before (h : I s) (hheld : R s) (he : e ∈ transcript step s qs) : R e.before := by
  have hboth : ∀ s q, I s ∧ R s → I (step s q).1 ∧ R (step s q).1 := by
    intro s q hs
    exact ⟨hI s q hs.1, hR s q hs.1 hs.2⟩
  exact (inv_before hboth ⟨h, hheld⟩ he).2

theorem kept_of_after (h : I s) (he : e ∈ transcript step s qs) (hafter : R e.after) : R (final step s qs) := by
  induction qs generalizing s with
  | nil => cases he
  | cons q qs ih =>
    rw [transcript, List.mem_cons] at he
    cases he with
    | inl he =>
      rw [he] at hafter
      exact kept_final hI hR (hI s q h) hafter qs
    | inr he => exact ih (hI s q h) he

end

theorem exists_turn (hstart : ¬R s) (hend : R (final step s qs))
    : ∃ e ∈ transcript step s qs, ¬R e.before ∧ R e.after := by
  induction qs generalizing s with
  | nil => exact absurd hend hstart
  | cons q qs ih =>
    by_cases hnext : R (step s q).1
    . exact ⟨entry step s q, List.mem_cons_self, hstart, hnext⟩
    . obtain ⟨e, he, hturn⟩ := ih hnext hend
      exact ⟨e, List.mem_cons_of_mem _ he, hturn⟩

end Machine
