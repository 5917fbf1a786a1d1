import Mathlib

/-!
This module contains the search for the best of some candidates by going through them one after the other.
-/

namespace Incumbent

variable {α : Type} (beats : α → Option α → Prop) [∀ a best, Decidable (beats a best)]

def take (best : Option α) (a : α) : Option α :=
  if beats a best then some a else best

def pick (l : List α) : Option α :=
  l.foldl (take beats) none

def Unrivalled (l : List α) (a : α) : Prop :=
  beats a none ∧ ∀ b ∈ l, b ≠ a → ¬beats b (some a)

variable {beats} {l l' : List α} {a b : α} {best : Option α}

theorem pick_concat : pick beats (l ++ [a]) = take beats (pick beats l) a := by
  rw [pick, List.foldl_concat]
  rfl

theorem foldl_take_eq_self (h : ∀ a ∈ l, ¬beats a best) : l.foldl (take beats) best = best := by
  induction l with
  | nil => rfl
  | cons a l ih =>
    rw [List.forall_mem_cons] at h
    rw [List.foldl_cons, take, if_neg h.1]
    exact ih h.2

theorem pick_eq_none_iff : pick beats l = none ↔ ∀ a ∈ l, ¬beats a none := by
  constructor
  . intro hnone
    induction l using List.reverseRecOn with
    | nil => simp
    | append_singleton l a ih =>
      rw [pick_concat, take] at hnone
      split at hnone
      . cases hnone
      . next hbeats =>
        rw [hnone] at hbeats
        simpa [or_imp, forall_and] using ⟨ih hnone, hbeats⟩
  . exact foldl_take_eq_self

theorem mem_of_foldl_take (h : l.foldl (take beats) best = some a) : a ∈ l ∨ best = some a := by
  induction l generalizing best with
  | nil => exact .inr h
  | cons b l ih =>
    rcases ih h with hmem | htake
    . exact .inl (by simp [hmem])
    . unfold take at htake
      split at htake
      . cases htake
        exact .inl (by simp)
      . exact .inr htake

theorem pick_mem (h : pick beats l = some a) : a ∈ l := by
  rcases mem_of_foldl_take h with hmem | hnone
  . exact hmem
  . cases hnone

variable (beats) in
theorem rank_le_pick {R : Type} [Preorder R] (rank : Option α → R)
    (htakes : ∀ a best, beats a best → rank best ≤ rank (some a))
    (hkeeps : ∀ a best, ¬beats a best → rank (some a) ≤ rank best)
    : ∀ a ∈ l, rank (some a) ≤ rank (pick beats l) := by
  induction l using List.reverseRecOn with
  | nil => simp
  | append_singleton l b ih =>
    intro a ha
    rw [List.mem_append, List.mem_singleton] at ha
    rw [pick_concat, take]
    split
    . next hbeats =>
      rcases ha with ha | rfl
      . exact le_trans (ih a ha) (htakes b _ hbeats)
      . exact le_rfl
    . next hbeats =>
      rcases ha with ha | rfl
      . exact ih a ha
      . exact hkeeps a _ hbeats

theorem Unrivalled.pick (hunrivalled : Unrivalled beats l a) (ha : a ∈ l) (hnodup : l.Nodup)
    (htotal : ∀ b ∈ l, b ≠ a → beats b (some a) ∨ beats a (some b))
    : pick beats l = some a := by
  obtain ⟨before, after, rfl⟩ := List.append_of_mem ha
  rw [List.nodup_append, List.nodup_cons] at hnodup
  have hfirst : beats a (before.foldl (take beats) none) := by
    cases hbest : before.foldl (take beats) none with
    | none => exact hunrivalled.1
    | some b =>
      have hb : b ∈ before := pick_mem hbest
      have hne : b ≠ a := hnodup.2.2 b hb a (by simp)
      exact (htotal b (by simp [hb]) hne).resolve_left (hunrivalled.2 b (by simp [hb]) hne)
  rw [Incumbent.pick, List.foldl_append, List.foldl_cons, take, if_pos hfirst]
  apply foldl_take_eq_self
  intro b hb
  apply hunrivalled.2 b (by simp [hb])
  rintro rfl
  exact hnodup.2.1.1 hb

theorem exists_pick_ne (ha : a ∈ l) (hnodup : l.Nodup) (h : ¬Unrivalled beats l a)
    : ∃ l', l'.Perm l ∧ pick beats l' ≠ some a := by
  classical
  have hperm := List.perm_cons_erase ha
  have hnot : a ∉ l.erase a := by
    rw [hnodup.mem_erase_iff]
    simp
  by_cases hfirst : beats a none
  . obtain ⟨b, hb, hne, hbeats⟩ : ∃ b ∈ l, b ≠ a ∧ beats b (some a) := by
      by_contra hnone
      push Not at hnone
      exact h ⟨hfirst, hnone⟩
    have hb' : b ∈ l.erase a := hnodup.mem_erase_iff.mpr ⟨hne, hb⟩
    refine ⟨a :: b :: (l.erase a).erase b, ((List.perm_cons_erase hb').cons a).symm.trans hperm.symm, ?_⟩
    intro hpick
    rw [pick, List.foldl_cons, take, if_pos hfirst, List.foldl_cons, take, if_pos hbeats] at hpick
    rcases mem_of_foldl_take hpick with hmem | heq
    . exact hnot (List.mem_of_mem_erase hmem)
    . cases heq
      exact hne rfl
  . refine ⟨a :: l.erase a, hperm.symm, ?_⟩
    intro hpick
    rw [pick, List.foldl_cons, take, if_neg hfirst] at hpick
    exact hnot (pick_mem hpick)

end Incumbent

namespace ArgMax

variable {α : Type u} {β : Type v} [LinearOrder β] {f : α → β} {l l' : List α}

theorem argmax_eq_some_iff (hinj : ∀ a ∈ l, ∀ b ∈ l, f a = f b → a = b) {m : α}
    : l.argmax f = some m ↔ m ∈ l ∧ ∀ a ∈ l, f a ≤ f m := by
  constructor
  . intro h
    refine ⟨List.argmax_mem h, ?_⟩
    intro a ha
    apply List.le_of_mem_argmax ha h
  . intro h
    cases hmax : l.argmax f with
    | none =>
      rw [List.argmax_eq_none] at hmax
      simp [hmax] at h
    | some m' =>
      have hmem := List.argmax_mem hmax
      have hle := List.le_of_mem_argmax h.1 hmax
      rw [hinj m' hmem m h.1 (le_antisymm (h.2 m' hmem) hle)]

theorem argmax_eq_of_perm (hinj : ∀ a ∈ l, ∀ b ∈ l, f a = f b → a = b) (hperm : l.Perm l')
    : l.argmax f = l'.argmax f := by
  have hinj' : ∀ a ∈ l', ∀ b ∈ l', f a = f b → a = b := by
    intro a ha b hb
    apply hinj a (hperm.mem_iff.mpr ha) b (hperm.mem_iff.mpr hb)
  apply Option.ext
  intro m
  rw [argmax_eq_some_iff hinj, argmax_eq_some_iff hinj']
  simp only [hperm.mem_iff]

end ArgMax

namespace LastMatch

variable {α Q : Type} (hit : α → Q → Bool)

def lastMatch (q : Q) (rules : List α) : Option α :=
  rules.reverse.find? (hit · q)

/--
Every query is matched by some rule.
-/
def Covered (rules : List α) : Prop :=
  ∀ q, ∃ r ∈ rules, hit r q

/--
Whatever a rule outside of `p` matches, a later rule of `p` matches as well.
-/
def Overridden (p : α → Prop) (rules : List α) : Prop :=
  ∀ pre r post, rules = pre ++ r :: post → ¬ p r → ∀ q, hit r q → ∃ r' ∈ post, p r' ∧ hit r' q

variable {hit}

theorem lastMatch_eq_some {q : Q} {rules : List α} {r : α}
    : lastMatch hit q rules = some r
      ↔ hit r q ∧ ∃ pre post, rules = pre ++ r :: post ∧ ∀ r' ∈ post, hit r' q = false := by
  unfold lastMatch
  rw [List.find?_eq_some_iff_append]
  apply and_congr_right
  intro _
  constructor
  . rintro ⟨as, bs, heq, hno⟩
    refine ⟨bs.reverse, as.reverse, ?_, ?_⟩
    . rw [← List.reverse_inj, heq]
      simp
    . intro r' hr'
      simpa using hno r' (List.mem_reverse.mp hr')
  . rintro ⟨pre, post, rfl, hno⟩
    refine ⟨post.reverse, pre.reverse, by simp, ?_⟩
    intro r' hr'
    simpa using hno r' (List.mem_reverse.mp hr')

theorem lastMatch_isSome {q : Q} {rules : List α} (h : ∃ r ∈ rules, hit r q)
    : ∃ r, lastMatch hit q rules = some r := by
  rw [← Option.isSome_iff_exists]
  unfold lastMatch
  rw [List.find?_isSome]
  simpa using h

/--
The rules that decide the queries all lie in `p` exactly when the rules outside of `p` are overridden.
-/
theorem forall_lastMatch_iff {p : α → Prop} {rules : List α}
    : (∀ q, ∃ r, lastMatch hit q rules = some r ∧ p r) ↔ Covered hit rules ∧ Overridden hit p rules := by
  constructor
  . intro h
    constructor
    . intro q
      obtain ⟨r, hr, _⟩ := h q
      obtain ⟨hhit, pre, post, rfl, _⟩ := lastMatch_eq_some.mp hr
      exact ⟨r, by simp, hhit⟩
    . intro pre r post heq hp q hq
      obtain ⟨r', hr', hp'⟩ := h q
      obtain ⟨hhit', pre', post', heq', hno⟩ := lastMatch_eq_some.mp hr'
      -- `r` does not come after the deciding rule, and is not that rule itself.
      rw [heq] at heq'
      obtain ⟨as, hpre, hpost⟩ | ⟨as, hpre, hpost⟩ := List.append_eq_append_iff.mp heq'
      . cases as with
        | nil =>
          rw [List.nil_append, List.cons.injEq] at hpost
          rw [hpost.1] at hp
          contradiction
        | cons a as =>
          rw [List.cons_append, List.cons.injEq] at hpost
          refine ⟨r', ?_, hp', hhit'⟩
          rw [hpost.2]
          simp
      . cases as with
        | nil =>
          rw [List.nil_append, List.cons.injEq] at hpost
          rw [← hpost.1] at hp
          contradiction
        | cons a as =>
          rw [List.cons_append, List.cons.injEq] at hpost
          have hmem : r ∈ post' := by
            rw [hpost.2]
            simp
          rw [hno r hmem] at hq
          contradiction
  . rintro ⟨hcovered, hover⟩ q
    obtain ⟨r, hr⟩ := lastMatch_isSome (hcovered q)
    refine ⟨r, hr, ?_⟩
    obtain ⟨hhit, pre, post, heq, hno⟩ := lastMatch_eq_some.mp hr
    by_contra hp
    obtain ⟨r', hmem, _, hhit'⟩ := hover pre r post heq hp q hhit
    rw [hno r' hmem] at hhit'
    contradiction

/--
A rule of `p` that matches every query overrides all the rules before it.
-/
theorem covered_overridden_of_forall {p : α → Prop} {pre post : List α} {r : α} (hp : p r)
    (hhit : ∀ q, hit r q) (hpost : ∀ r' ∈ post, ∀ q, hit r' q = false)
    : Covered hit (pre ++ r :: post) ∧ Overridden hit p (pre ++ r :: post) := by
  rw [← forall_lastMatch_iff]
  intro q
  exact ⟨r, lastMatch_eq_some.mpr ⟨hhit q, pre, post, rfl, fun r' h => hpost r' h q⟩, hp⟩

end LastMatch
