import MemStack.Util.Dict

/-!
This module contains how many values of a dictionary are of a kind, sums over the values of a dictionary and over a
list, and what an assignment or a change of one value does to them.
-/

namespace Dict

variable {κ α : Type} [DecidableEq κ] {d : Dict κ α} {k : κ} {v w : α}

def count (p : α → Bool) (d : Dict κ α) : Nat :=
  d.values.countP p

theorem erase_set (d : Dict κ α) (k : κ) (v : α) : (d.set k v).erase k = d.erase k := by
  apply ext_entries
  unfold erase set
  dsimp only
  split
  . rw [List.filter_map]
    have hsame : d.entries.filter ((fun e : κ × α => decide (e.1 ≠ k)) ∘ fun e => if e.1 = k then (k, v) else e)
        = d.entries.filter fun e => decide (e.1 ≠ k) := by
      apply List.filter_congr
      intro e _
      dsimp only [Function.comp]
      split
      . next h => simp [h]
      . rfl
    rw [hsame]
    conv_rhs => rw [← List.map_id (d.entries.filter fun e => decide (e.1 ≠ k))]
    apply List.map_congr_left
    intro e he
    rw [if_neg (by simpa using (List.mem_filter.mp he).2)]
    rfl
  . simp

theorem count_eq_of_get (p : α → Bool) (h : d.get k = some v)
    : d.count p = (d.erase k).count p + if p v = true then 1 else 0 := by
  unfold count
  rw [(values_perm_of_get h).countP_eq, List.countP_cons]

theorem count_set_of_get (p : α → Bool) (h : d.get k = some v) (w : α)
    : (d.set k w).count p + (if p v = true then 1 else 0) = d.count p + if p w = true then 1 else 0 := by
  have hset : (d.set k w).get k = some w := by
    rw [get_set, if_pos rfl]
  rw [count_eq_of_get p h, count_eq_of_get p hset, erase_set]
  omega

theorem count_set_of_notMem (p : α → Bool) (h : d.get k = none) (w : α)
    : (d.set k w).count p = d.count p + if p w = true then 1 else 0 := by
  unfold count
  rw [values_set_of_notMem (get_eq_none.mp h), List.countP_append, List.countP_cons, List.countP_nil, Nat.zero_add]

theorem set_set (d : Dict κ α) (k : κ) (v w : α) : (d.set k v).set k w = d.set k w := by
  have hmem : k ∈ (d.set k v).keys := mem_keys_set.mpr (Or.inl rfl)
  apply ext_entries
  conv_lhs => rw [set]
  dsimp only
  rw [if_pos hmem]
  unfold set
  dsimp only
  split
  . rw [List.map_map]
    apply List.map_congr_left
    intro e _
    dsimp only [Function.comp]
    split <;> simp_all
  . next hnew =>
    rw [List.map_append]
    congr 1
    . conv_rhs => rw [← List.map_id d.entries]
      apply List.map_congr_left
      intro e he
      rw [if_neg]
      . rfl
      . intro heq
        apply hnew
        rw [← heq]
        exact List.mem_map_of_mem he
    . simp

end Dict

namespace List

variable {α M : Type} [AddCommMonoid M]

theorem sum_map_set {l : List α} {i : Nat} {a : α} (f : α → M) (h : l[i]? = some a) (b : α)
    : ((l.set i b).map f).sum + f a = (l.map f).sum + f b := by
  induction l generalizing i with
  | nil => simp at h
  | cons c l ih =>
    cases i with
    | zero =>
      rw [List.getElem?_cons_zero, Option.some.injEq] at h
      rw [h, List.set_cons_zero, List.map_cons, List.map_cons, List.sum_cons, List.sum_cons]
      abel
    | succ i =>
      rw [List.getElem?_cons_succ] at h
      rw [List.set_cons_succ, List.map_cons, List.map_cons, List.sum_cons, List.sum_cons, add_assoc, ih h, add_assoc]

end List

namespace Dict

variable {κ α M : Type} [DecidableEq κ] [AddCommMonoid M] {d : Dict κ α} {k : κ} {v : α}

def total (f : α → M) (d : Dict κ α) : M :=
  (d.values.map f).sum

theorem total_erase_of_get (f : α → M) (h : d.get k = some v) : (d.erase k).total f + f v = d.total f := by
  unfold total
  rw [((values_perm_of_get h).map f).sum_eq, List.map_cons, List.sum_cons, add_comm]

theorem total_set_of_get (f : α → M) (h : d.get k = some v) (w : α)
    : (d.set k w).total f + f v = d.total f + f w := by
  have hset : (d.set k w).get k = some w := by
    rw [get_set, if_pos rfl]
  rw [← total_erase_of_get f h, ← total_erase_of_get f hset, erase_set, add_right_comm]

theorem total_set_of_notMem (f : α → M) (h : d.get k = none) (w : α)
    : (d.set k w).total f = d.total f + f w := by
  unfold total
  rw [values_set_of_notMem (get_eq_none.mp h), List.map_append, List.sum_append, List.map_singleton, List.sum_singleton]

omit [DecidableEq κ] in
theorem total_congr {f g : α → M} (h : ∀ v ∈ d.values, f v = g v) : d.total f = d.total g := by
  unfold total
  rw [List.map_congr_left h]

end Dict

namespace Dict

variable {κ ν : Type} [DecidableEq κ]

-- `d.setdefault(k, v)`.
def setDefault (d : Dict κ ν) (k : κ) (v : ν) : Dict κ ν :=
  if (d.get k).isSome then d else d.set k v

-- `d[k] = d.get(k, 0) + 1`.
def bump (d : Dict κ Nat) (k : κ) : Dict κ Nat :=
  d.set k ((d.get k).getD 0 + 1)

@[simp]
theorem get_setDefault (d : Dict κ ν) (k k' : κ) (v : ν)
    : (d.setDefault k v).get k' = if k' = k then some ((d.get k).getD v) else d.get k' := by
  unfold setDefault
  cases hget : d.get k with
  | none => simp
  | some w =>
    by_cases heq : k' = k
    . simp [heq, hget]
    . simp [heq]

@[simp]
theorem get_bump (d : Dict κ Nat) (k k' : κ)
    : (d.bump k).get k' = if k' = k then some ((d.get k).getD 0 + 1) else d.get k' :=
  get_set d k k' _

end Dict

namespace Tally

variable {κ α : Type} [DecidableEq κ]

structure Counts (mentions counted : κ → α → Bool) (past : List α) (d : Dict κ Nat) : Prop where
  get_eq : ∀ k, d.get k = if past.any (mentions k) then some (past.countP (counted k)) else none

variable {mentions counted : κ → α → Bool} {past past' : List α} {a : α} {d d' : Dict κ Nat} {k : κ}

theorem counts_nil : Counts mentions counted [] Dict.empty where
  get_eq := by simp

theorem Counts.getD_eq (h : Counts mentions counted past d) (hmentions : ∀ k a, counted k a → mentions k a)
    : (d.get k).getD 0 = past.countP (counted k) := by
  rw [h.get_eq]
  by_cases hany : past.any (mentions k)
  . rw [if_pos hany, Option.getD_some]
  . rw [if_neg hany, Option.getD_none, eq_comm, List.countP_eq_zero]
    intro b hb hcounted
    exact hany (List.any_eq_true.mpr ⟨b, hb, hmentions k b hcounted⟩)

theorem Counts.concat (h : Counts mentions counted past d) (hmentions : ∀ k a, counted k a → mentions k a)
    (hget : ∀ k, d'.get k =
      if mentions k a then some ((d.get k).getD 0 + if counted k a then 1 else 0) else d.get k)
    : Counts mentions counted (past ++ [a]) d' where
  get_eq := by
    intro k
    rw [hget, h.getD_eq hmentions, h.get_eq]
    by_cases hmention : mentions k a
    . simp [hmention, List.countP_append, List.countP_singleton]
    . have hcounted : ¬ counted k a := fun hcounted => hmention (hmentions k a hcounted)
      simp [hmention, hcounted, List.countP_append]

theorem Counts.of_perm (h : Counts mentions counted past d) (hperm : past.Perm past')
    : Counts mentions counted past' d where
  get_eq := by
    intro k
    rw [h.get_eq, hperm.any_eq, hperm.countP_eq]

theorem Counts.mem_keys_iff (h : Counts mentions counted past d)
    : k ∈ d.keys ↔ ∃ a ∈ past, mentions k a := by
  rw [Dict.mem_keys, h.get_eq, ← List.any_eq_true]
  split
  . next hany => simp [hany]
  . next hany => simp [hany]

end Tally
