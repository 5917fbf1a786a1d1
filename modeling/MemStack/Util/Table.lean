import Mathlib

/-!
This module contains tables of a database. A table is the list of its rows. An update changes the rows that
a condition selects, a query with an order and a limit takes the first rows in that order, and an insert skips the
rows that conflict on one of its keys.
-/

namespace Table

variable {R K : Type}

-- `UPDATE .. SET f WHERE p`.
def update (p : R → Bool) (f : R → R) (rows : List R) : List R :=
  rows.map fun row => if p row then f row else row

def updated (p : R → Bool) (f : R → R) (rows : List R) : List R :=
  (rows.filter p).map f

-- `SELECT .. WHERE p ORDER BY le LIMIT limit`.
def select (p : R → Bool) (le : R → R → Bool) (limit : Nat) (rows : List R) : List R :=
  ((rows.filter p).insertionSort (fun a b => le a b)).take limit

section Update

variable {p : R → Bool} {f : R → R} {rows : List R} {row : R}

theorem mem_update : row ∈ update p f rows ↔ ∃ old ∈ rows, (if p old then f old else old) = row := by
  simp [update]

theorem mem_updated : row ∈ updated p f rows ↔ ∃ old ∈ rows, p old ∧ f old = row := by
  simp [updated, and_assoc]

theorem update_eq_self (h : ∀ row ∈ rows, ¬ p row) : update p f rows = rows := by
  unfold update
  nth_rewrite 2 [← List.map_id rows]
  apply List.map_congr_left
  intro row hrow
  rw [if_neg (h row hrow)]
  rfl

variable {key : R → K}

theorem map_update (h : ∀ row, key (f row) = key row) : (update p f rows).map key = rows.map key := by
  unfold update
  rw [List.map_map]
  apply List.map_congr_left
  intro row _
  dsimp only [Function.comp]
  split
  . apply h
  . rfl

end Update

section Keys

variable {key : R → K} {rows : List R} {a b : R}

theorem eq_of_key (hnodup : (rows.map key).Nodup) (ha : a ∈ rows) (hb : b ∈ rows) (h : key a = key b)
    : a = b :=
  List.inj_on_of_nodup_map hnodup ha hb h

theorem updated_eq_singleton {p : R → Bool} {f : R → R} (hnodup : (rows.map key).Nodup) (ha : a ∈ rows)
    (hp : p a) (honly : ∀ b ∈ rows, p b → key b = key a)
    : updated p f rows = [f a] := by
  have hfilter : rows.filter p = [a] := by
    apply List.perm_singleton.mp
    apply (List.perm_ext_iff_of_nodup ((List.Nodup.of_map key hnodup).filter p) (List.nodup_singleton a)).mpr
    intro b
    rw [List.mem_filter, List.mem_singleton]
    constructor
    . intro h
      exact eq_of_key hnodup h.1 ha (honly b h.1 h.2)
    . rintro rfl
      exact ⟨ha, hp⟩
  rw [updated, hfilter]
  rfl

end Keys

section Select

variable {p : R → Bool} {le : R → R → Bool} {limit : Nat} {rows : List R} {a : R}

theorem mem_of_mem_select (h : a ∈ select p le limit rows) : a ∈ rows ∧ p a := by
  have := List.mem_of_mem_take h
  rwa [List.mem_insertionSort, List.mem_filter] at this

theorem length_select_le : (select p le limit rows).length ≤ limit := by
  unfold select
  rw [List.length_take]
  apply Nat.min_le_left

theorem nodup_select (h : rows.Nodup) : (select p le limit rows).Nodup := by
  apply (List.take_sublist _ _).nodup
  apply (List.perm_insertionSort _ _).nodup_iff.mpr
  apply h.filter

theorem nodup_map_select {key : R → K} (h : (rows.map key).Nodup) : ((select p le limit rows).map key).Nodup := by
  apply List.Nodup.map_on _ (nodup_select (List.Nodup.of_map key h))
  intro a ha b hb hkey
  exact eq_of_key h (mem_of_mem_select ha).1 (mem_of_mem_select hb).1 hkey

theorem mem_select_of_few (ha : a ∈ rows) (hp : p a) (hfew : (rows.filter p).length ≤ limit)
    : a ∈ select p le limit rows := by
  unfold select
  rw [List.take_of_length_le, List.mem_insertionSort, List.mem_filter]
  . exact ⟨ha, hp⟩
  . rw [List.length_insertionSort]
    exact hfew

theorem mem_select_of_ahead [DecidableEq R] (htotal : ∀ a b, le a b ∨ le b a)
    (htrans : ∀ a b c, le a b → le b c → le a c) (hnodup : rows.Nodup) (ha : a ∈ rows) (hp : p a)
    (hahead : (rows.filter fun b => p b && le b a && b ≠ a).length < limit)
    : a ∈ select p le limit rows := by
  have : Std.Total (fun a b => le a b = true) := ⟨htotal⟩
  have : IsTrans R (fun a b => le a b = true) := ⟨htrans⟩
  have hperm := List.perm_insertionSort (fun a b => le a b = true) (rows.filter p)
  have hmem : a ∈ (rows.filter p).insertionSort (fun a b => le a b) := by
    rw [List.mem_insertionSort, List.mem_filter]
    exact ⟨ha, hp⟩
  rcases List.append_of_mem hmem with ⟨before, after, hsplit⟩
  have hsorted := List.pairwise_insertionSort (fun a b => le a b = true) (rows.filter p)
  have hdistinct := hperm.nodup_iff.mpr (hnodup.filter p)
  rw [hsplit] at hsorted hdistinct
  have hlength : before.length < limit := by
    apply Nat.lt_of_le_of_lt _ hahead
    apply (List.subperm_of_subset (List.nodup_append.mp hdistinct).1 _).length_le
    intro b hb
    have hmem' : b ∈ (rows.filter p).insertionSort (fun a b => le a b) := by
      rw [hsplit]
      exact List.mem_append_left _ hb
    rw [List.mem_insertionSort, List.mem_filter] at hmem'
    have hle := (List.pairwise_append.mp hsorted).2.2 b hb a List.mem_cons_self
    have hne := (List.nodup_append.mp hdistinct).2.2 b hb a List.mem_cons_self
    simp [hmem'.1, hmem'.2, hle, hne]
  unfold select
  rw [hsplit, List.take_append, List.mem_append]
  right
  have hpos : 0 < limit - before.length := by omega
  rw [← Nat.succ_pred_eq_of_pos hpos, List.take_succ_cons]
  exact List.mem_cons_self

end Select

-- `INSERT .. ON CONFLICT (target) DO NOTHING RETURNING ..`. A row that has only another conflict fails the statement.
def insertIgnore (target conflicts : R → R → Bool) (rows : List R) : List R → Option (List R)
  | [] => some []
  | row :: news =>
    if rows.any (target row) then insertIgnore target conflicts rows news
    else if rows.any (conflicts row) then none
    else (insertIgnore target conflicts (rows ++ [row]) news).map (row :: ·)

variable {target conflicts : R → R → Bool} {rows news inserted : List R} {row : R}

theorem insertIgnore_of_target (h : rows.any (target row) = true)
    : insertIgnore target conflicts rows (row :: news) = insertIgnore target conflicts rows news := by
  rw [insertIgnore, if_pos h]

theorem insertIgnore_of_conflict (h : rows.any (target row) = false) (hconflict : rows.any (conflicts row) = true)
    : insertIgnore target conflicts rows (row :: news) = none := by
  rw [insertIgnore, if_neg (by simp [h]), if_pos hconflict]

theorem insertIgnore_of_new (h : rows.any (target row) = false) (hconflict : rows.any (conflicts row) = false)
    : insertIgnore target conflicts rows (row :: news)
        = (insertIgnore target conflicts (rows ++ [row]) news).map (row :: ·) := by
  rw [insertIgnore, if_neg (by simp [h]), if_neg (by simp [hconflict])]

theorem mem_of_insertIgnore (h : insertIgnore target conflicts rows news = some inserted)
    : ∀ row ∈ inserted, row ∈ news ∧ rows.any (target row) = false := by
  induction news generalizing rows inserted with
  | nil =>
    cases h
    simp
  | cons new news ih =>
    cases htarget : rows.any (target new) with
    | true =>
      rw [insertIgnore_of_target htarget] at h
      intro row hrow
      exact ⟨List.mem_cons_of_mem _ (ih h row hrow).1, (ih h row hrow).2⟩
    | false =>
      cases hconflict : rows.any (conflicts new) with
      | true =>
        rw [insertIgnore_of_conflict htarget hconflict] at h
        cases h
      | false =>
        rw [insertIgnore_of_new htarget hconflict, Option.map_eq_some_iff] at h
        rcases h with ⟨others, hothers, rfl⟩
        intro row hrow
        rw [List.mem_cons] at hrow
        cases hrow with
        | inl heq =>
          rw [heq]
          exact ⟨List.mem_cons_self, htarget⟩
        | inr hmem =>
          have hrow := ih hothers row hmem
          rw [List.any_append, Bool.or_eq_false_iff] at hrow
          exact ⟨List.mem_cons_of_mem _ hrow.1, hrow.2.1⟩

theorem target_of_insertIgnore (hrefl : ∀ row ∈ news, target row row = true)
    (h : insertIgnore target conflicts rows news = some inserted)
    : ∀ row ∈ news, (rows ++ inserted).any (target row) = true := by
  induction news generalizing rows inserted with
  | nil => simp
  | cons new news ih =>
    rw [List.forall_mem_cons] at hrefl ⊢
    cases htarget : rows.any (target new) with
    | true =>
      rw [insertIgnore_of_target htarget] at h
      refine ⟨?_, ih hrefl.2 h⟩
      rw [List.any_append, htarget, Bool.true_or]
    | false =>
      cases hconflict : rows.any (conflicts new) with
      | true =>
        rw [insertIgnore_of_conflict htarget hconflict] at h
        cases h
      | false =>
        rw [insertIgnore_of_new htarget hconflict, Option.map_eq_some_iff] at h
        rcases h with ⟨others, hothers, rfl⟩
        refine ⟨?_, ?_⟩
        . rw [List.any_append, List.any_cons, hrefl.1, Bool.true_or, Bool.or_true]
        . intro row hrow
          have hany := ih hrefl.2 hothers row hrow
          rwa [List.append_assoc, List.singleton_append] at hany

theorem insertIgnore_isSome
    (hrows : ∀ row ∈ news, rows.any (target row) = false → rows.any (conflicts row) = false)
    (hnews : ∀ a ∈ news, ∀ b ∈ news, conflicts a b = true → target a b = true)
    : (insertIgnore target conflicts rows news).isSome := by
  induction news generalizing rows with
  | nil => rfl
  | cons new news ih =>
    have hfewer : ∀ a ∈ news, ∀ b ∈ news, conflicts a b = true → target a b = true := by
      intro a ha b hb
      exact hnews a (List.mem_cons_of_mem _ ha) b (List.mem_cons_of_mem _ hb)
    cases htarget : rows.any (target new) with
    | true =>
      rw [insertIgnore_of_target htarget]
      apply ih _ hfewer
      intro row hrow
      exact hrows row (List.mem_cons_of_mem _ hrow)
    | false =>
      rw [insertIgnore_of_new htarget (hrows new List.mem_cons_self htarget), Option.isSome_map]
      apply ih _ hfewer
      intro row hrow hfresh
      rw [List.any_append, Bool.or_eq_false_iff] at hfresh ⊢
      refine ⟨hrows row (List.mem_cons_of_mem _ hrow) hfresh.1, ?_⟩
      by_contra hconflict
      have htwice := hnews row (List.mem_cons_of_mem _ hrow) new List.mem_cons_self (by simpa using hconflict)
      simp [htwice] at hfresh

theorem insertIgnore_eq_none (hrow : row ∈ news) (htarget : rows.any (target row) = false)
    (hconflict : rows.any (conflicts row) = true)
    (hsame : ∀ new ∈ news, target row new = true → conflicts new = conflicts row)
    : insertIgnore target conflicts rows news = none := by
  induction news generalizing rows with
  | nil => cases hrow
  | cons new news ih =>
    rw [List.forall_mem_cons] at hsame
    cases hnew : rows.any (target new) with
    | true =>
      rw [insertIgnore_of_target hnew]
      rw [List.mem_cons] at hrow
      cases hrow with
      | inl heq =>
        rw [heq, hnew] at htarget
        cases htarget
      | inr hmem => exact ih hmem htarget hconflict hsame.2
    | false =>
      cases hclash : rows.any (conflicts new) with
      | true => rw [insertIgnore_of_conflict hnew hclash]
      | false =>
        rw [insertIgnore_of_new hnew hclash, Option.map_eq_none_iff]
        have hother : target row new = false := by
          by_contra heq
          rw [hsame.1 (by simpa using heq), hconflict] at hclash
          cases hclash
        rw [List.mem_cons] at hrow
        cases hrow with
        | inl heq =>
          rw [heq, hclash] at hconflict
          cases hconflict
        | inr hmem =>
          apply ih hmem _ _ hsame.2
          . rw [List.any_append, htarget, Bool.false_or, List.any_cons, hother]
            rfl
          . rw [List.any_append, hconflict, Bool.true_or]

end Table
