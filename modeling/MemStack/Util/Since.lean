import MemStack.Util.Machine

/-!
This module contains what a history holds after the last element of a kind, and how often a request
was made there. It also contains a value that is kept in a source and in a cache in front of it. The cache is asked
first, and it is filled after the source was read or written. Whatever is done to the cache may fail.
-/

namespace History

variable {α : Type} {p q : α → Bool} {l : List α} {a : α}

-- How many elements meet `q` from the last one on that does not meet `p`.
def countSince (p q : α → Bool) (l : List α) : Nat :=
  (l.rtakeWhile p).countP q

theorem countSince_concat_hit (l : List α) (hp : p a = true) (hq : q a = true)
    : countSince p q (l ++ [a]) = countSince p q l + 1 := by
  rw [countSince, List.rtakeWhile_concat_pos _ _ _ hp, List.countP_append]
  simp [countSince, hq]

theorem countSince_concat_miss (l : List α) (hp : p a = true) (hq : q a = false)
    : countSince p q (l ++ [a]) = countSince p q l := by
  rw [countSince, List.rtakeWhile_concat_pos _ _ _ hp, List.countP_append]
  simp [countSince, hq]

theorem countSince_concat_neg (l : List α) (hp : p a = false) : countSince p q (l ++ [a]) = 0 := by
  rw [countSince, List.rtakeWhile_concat_neg _ _ _ (by simp [hp])]
  rfl

def Pending (starts keeps : α → Prop) (l : List α) : Prop :=
  ∃ before a rest, l = before ++ a :: rest ∧ starts a ∧ ∀ b ∈ rest, keeps b

theorem not_pending_nil {starts keeps : α → Prop} : ¬Pending starts keeps [] := by
  rintro ⟨before, a, rest, h, -⟩
  simp at h

theorem pending_concat {starts keeps : α → Prop} (l : List α) (a : α)
    : Pending starts keeps (l ++ [a]) ↔ starts a ∨ keeps a ∧ Pending starts keeps l := by
  constructor
  . rintro ⟨before, b, rest, hsplit, hstarts, hrest⟩
    cases rest using List.reverseRecOn with
    | nil =>
      have hlast := List.append_inj' hsplit rfl
      simp only [List.cons.injEq, and_true] at hlast
      rw [hlast.2]
      exact .inl hstarts
    | append_singleton rest c =>
      rw [← List.cons_append, ← List.append_assoc] at hsplit
      have hlast := List.append_inj' hsplit rfl
      simp only [List.cons.injEq, and_true] at hlast
      right
      constructor
      . rw [hlast.2]
        exact hrest c (by simp)
      . exact ⟨before, b, rest, hlast.1, hstarts, fun b hb => hrest b (by simp [hb])⟩
  . rintro (hstarts | ⟨hkeeps, before, b, rest, hsplit, hstarts, hrest⟩)
    . exact ⟨l, a, [], rfl, hstarts, fun b hb => absurd hb List.not_mem_nil⟩
    . refine ⟨before, b, rest ++ [a], ?_, hstarts, ?_⟩
      . rw [hsplit]
        simp
      . intro c hc
        rw [List.mem_append, List.mem_singleton] at hc
        rcases hc with hc | rfl
        . exact hrest c hc
        . exact hkeeps

theorem AtEach.mono {P Q : List α → α → Prop} (h : AtEach (fun past a => P past a → Q past a) l)
    (hP : AtEach P l)
    : AtEach Q l := by
  intro before a after hsplit
  apply h before a after hsplit
  apply hP before a after hsplit

theorem atEach_iff {P Q : List α → α → Prop} (h : AtEach (fun past a => P past a ↔ Q past a) l)
    : AtEach P l ↔ AtEach Q l := by
  constructor
  . apply AtEach.mono
    intro before a after hsplit
    apply (h before a after hsplit).mp
  . apply AtEach.mono
    intro before a after hsplit
    apply (h before a after hsplit).mpr

end History

namespace Machine

open History

variable {S Q A : Type} {step : S → Q → S × A}

theorem atEach_transcript_iff {I : List (Entry S Q A) → S → Prop} {P C : List (Entry S Q A) → Entry S Q A → Prop}
    (hstep : ∀ past s q, I past s →
      (P past (entry step s q) ↔ C past (entry step s q)) ∧
        (C past (entry step s q) → I (past ++ [entry step s q]) (step s q).1))
    {s : S} (hstart : I [] s) (qs : List Q)
    : AtEach P (transcript step s qs) ↔ AtEach C (transcript step s qs) := by
  have hrun : (AtEach P (transcript step s qs) ↔ AtEach C (transcript step s qs)) ∧
      (AtEach C (transcript step s qs) → I (transcript step s qs) (final step s qs)) := by
    induction qs using List.reverseRecOn with
    | nil =>
      refine ⟨?_, fun _ => hstart⟩
      simp [transcript]
    | append_singleton qs q ih =>
      rw [transcript_concat, final_concat, atEach_concat, atEach_concat, ih.1]
      constructor
      . apply and_congr_right
        intro hbefore
        exact (hstep _ _ q (ih.2 hbefore)).1
      . intro h
        exact (hstep _ _ q (ih.2 h.1)).2 h.2
  exact hrun.1

end Machine

structure CacheAside (α : Type) where
  source : α
  cached : Option α

namespace CacheAside

variable {α : Type} (s : CacheAside α) {v : α} {getFails setFails : Bool}

def fill (v : α) (setFails : Bool) : CacheAside α :=
  ⟨s.source, if setFails then s.cached else some v⟩

def hit (getFails : Bool) : Option α :=
  if getFails then none else s.cached

def load (getFails setFails : Bool) : CacheAside α × α :=
  match s.hit getFails with
  | some v => (s, v)
  | none => (s.fill s.source setFails, s.source)

def save (v : α) (setFails : Bool) : CacheAside α :=
  fill ⟨v, s.cached⟩ v setFails

def expire : CacheAside α :=
  ⟨s.source, none⟩

def Stale : Prop :=
  ∃ v, s.cached = some v ∧ v ≠ s.source

variable {s}

@[simp]
theorem load_source (s : CacheAside α) (getFails setFails : Bool)
    : (s.load getFails setFails).1.source = s.source := by
  unfold load
  split
  . rfl
  . rfl

theorem load_of_hit (setFails : Bool) (h : s.hit getFails = some v) : s.load getFails setFails = (s, v) := by
  unfold load
  rw [h]

theorem load_of_miss (setFails : Bool) (h : s.hit getFails = none)
    : s.load getFails setFails = (s.fill s.source setFails, s.source) := by
  unfold load
  rw [h]

theorem cached_of_hit (h : s.hit getFails = some v) : s.cached = some v := by
  unfold hit at h
  split at h
  . cases h
  . exact h

theorem load_value (s : CacheAside α) (getFails setFails : Bool)
    : (s.load getFails setFails).2 = s.source ↔ ¬(s.Stale ∧ s.hit getFails ≠ none) := by
  cases hhit : s.hit getFails with
  | none =>
    rw [load_of_miss setFails hhit]
    simp
  | some v =>
    rw [load_of_hit setFails hhit]
    have hcached := cached_of_hit hhit
    constructor
    . rintro heq ⟨⟨w, hw, hne⟩, -⟩
      rw [hcached, Option.some.injEq] at hw
      rw [← hw] at hne
      exact hne heq
    . intro h
      by_contra hne
      exact h ⟨⟨v, hcached, hne⟩, by simp⟩

theorem not_stale_expire (s : CacheAside α) : ¬s.expire.Stale := by
  rintro ⟨v, hv, -⟩
  cases hv

theorem stale_fill (s : CacheAside α) (setFails : Bool)
    : (s.fill s.source setFails).Stale ↔ setFails = true ∧ s.Stale := by
  unfold fill Stale
  cases setFails with
  | true => simp
  | false => simp

theorem stale_save (s : CacheAside α) (v : α) (setFails : Bool)
    : (s.save v setFails).Stale ↔ setFails = true ∧ ∃ w, s.cached = some w ∧ w ≠ v := by
  unfold save fill Stale
  cases setFails with
  | true => simp
  | false => simp

theorem stale_load (s : CacheAside α) (getFails setFails : Bool)
    : (s.load getFails setFails).1.Stale ↔ (s.hit getFails ≠ none ∨ setFails = true) ∧ s.Stale := by
  cases hhit : s.hit getFails with
  | none =>
    rw [load_of_miss setFails hhit, stale_fill]
    simp
  | some v =>
    rw [load_of_hit setFails hhit]
    simp

end CacheAside
