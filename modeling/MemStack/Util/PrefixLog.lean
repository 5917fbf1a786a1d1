import Mathlib

/-!
This module contains the theory of logs that are replicated origin by origin.
-/

namespace PrefixLog

variable {O : Type u} {P : Type v}

def entry (hist : O → List P) (o : O) (s : Nat) : Option P :=
  if s = 0 then none else (hist o)[s - 1]?

/--
What someone holds who has seen the first `v o` entries of every origin `o`.
-/
def upTo (hist : O → List P) (v : O → Nat) (o : O) (s : Nat) : Option P :=
  if s ≤ v o then entry hist o s else none

def Covers (hist : O → List P) (v : O → Nat) : Prop :=
  ∀ o, v o ≤ (hist o).length

def issue [DecidableEq O] (hist : O → List P) (o : O) (p : P) : O → List P :=
  Function.update hist o (hist o ++ [p])

theorem entry_eq_some_iff (hist : O → List P) (o : O) (s : Nat) (p : P)
    : entry hist o s = some p ↔ 0 < s ∧ (hist o)[s - 1]? = some p := by
  unfold entry
  split
  . next h => simp [h]
  . next h =>
    have : 0 < s := by omega
    simp [this]

theorem isSome_entry (hist : O → List P) (o : O) (s : Nat)
    : (entry hist o s).isSome ↔ 0 < s ∧ s ≤ (hist o).length := by
  unfold entry
  split
  . next h => simp [h]
  . simp only [Option.isSome_iff_ne_none, ne_eq, List.getElem?_eq_none_iff]
    omega

theorem isSome_upTo {hist : O → List P} {v : O → Nat} (hcov : Covers hist v) (o : O) (s : Nat)
    : (upTo hist v o s).isSome ↔ 0 < s ∧ s ≤ v o := by
  have := hcov o
  unfold upTo
  split
  . rw [isSome_entry]
    omega
  . simp only [Option.isSome_none, Bool.false_eq_true, false_iff]
    omega

section Issue

variable [DecidableEq O]

theorem length_issue (hist : O → List P) (o o' : O) (p : P)
    : (issue hist o p o').length = (hist o').length + if o' = o then 1 else 0 := by
  unfold issue
  by_cases h : o' = o
  . subst h
    simp
  . simp [h]

theorem entry_issue_of_some {hist : O → List P} {o' : O} {s : Nat} {q : P}
    (h : entry hist o' s = some q) (o : O) (p : P)
    : entry (issue hist o p) o' s = some q := by
  rw [entry_eq_some_iff] at h ⊢
  refine ⟨h.1, ?_⟩
  unfold issue
  by_cases ho : o' = o
  . subst ho
    rw [Function.update_self]
    rw [List.getElem?_append_left]
    . exact h.2
    . rcases List.getElem?_eq_some_iff.mp h.2 with ⟨hlt, -⟩
      exact hlt
  . rw [Function.update_of_ne ho]
    exact h.2

theorem entry_issue_last (hist : O → List P) (o : O) (p : P)
    : entry (issue hist o p) o ((hist o).length + 1) = some p := by
  rw [entry_eq_some_iff]
  simp [issue]

theorem covers_issue {hist : O → List P} {v : O → Nat} (hcov : Covers hist v) (o : O) (p : P)
    : Covers (issue hist o p) v := by
  intro o'
  have := hcov o'
  rw [length_issue]
  omega

end Issue

end PrefixLog

namespace OrdMap

open Std

def cmpPair [Ord α] [Ord β] : α × β → α × β → Ordering :=
  compareLex (compareOn Prod.fst) (compareOn Prod.snd)

section

variable [Ord α] [Ord β] [TransOrd α] [TransOrd β]

instance : TransCmp (cmpPair (α := α) (β := β)) := by
  unfold cmpPair
  infer_instance

variable [LawfulEqOrd α] [LawfulEqOrd β]

instance : LawfulEqCmp (cmpPair (α := α) (β := β)) where
  eq_of_compare := by
    intro a b h
    simp only [cmpPair, compareLex_eq_eq, compareOn] at h
    rcases h with ⟨h1, h2⟩
    apply Prod.ext
    . exact LawfulEqOrd.eq_of_compare h1
    . exact LawfulEqOrd.eq_of_compare h2

end

section

variable {cmp : α → α → Ordering} [TransCmp cmp] [LawfulEqCmp cmp]

def values (m : ExtTreeMap α β cmp) : List β :=
  m.toList.map Prod.snd

theorem mem_values (m : ExtTreeMap α β cmp) (v : β)
    : v ∈ values m ↔ ∃ k : α, m[k]? = some v := by
  simp only [values, List.mem_map, Prod.exists, exists_eq_right]
  simp only [ExtTreeMap.mem_toList_iff_getElem?_eq_some]

end

end OrdMap
