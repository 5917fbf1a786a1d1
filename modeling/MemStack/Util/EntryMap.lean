import Mathlib

/-!
This module contains maps that are gone through in the order of their keys, with the one operation that changes the
value of a key, where a key that is not there begins with a default.
-/

variable {κ ν : Type} [LinearOrder κ]

structure EntryMap (κ ν : Type) [LinearOrder κ] where
  entries : List (κ × ν)
  sorted : (entries.map Prod.fst).Pairwise (· < ·)

namespace EntryMap

def empty : EntryMap κ ν :=
  { entries := [], sorted := by simp }

-- `*m.entry(k).or_insert(default)`, with the change that is made to it.
def entryIn (k : κ) (default : ν) (change : ν → ν) : List (κ × ν) → List (κ × ν)
  | [] => [(k, change default)]
  | e :: l =>
    if k < e.1 then (k, change default) :: e :: l
    else if k = e.1 then (k, change e.2) :: l
    else e :: entryIn k default change l

theorem mem_map_entryIn {k k' : κ} {default : ν} {change : ν → ν} {l : List (κ × ν)}
    : k' ∈ (entryIn k default change l).map Prod.fst ↔ k' = k ∨ k' ∈ l.map Prod.fst := by
  induction l with
  | nil => simp [entryIn]
  | cons e l ih =>
    unfold entryIn
    split
    . simp
    . split
      . next _ heq => simp [heq]
      . rw [List.map_cons, List.mem_cons, ih, List.map_cons, List.mem_cons]
        tauto

theorem pairwise_entryIn {k : κ} {default : ν} {change : ν → ν} {l : List (κ × ν)}
    (h : (l.map Prod.fst).Pairwise (· < ·))
    : ((entryIn k default change l).map Prod.fst).Pairwise (· < ·) := by
  induction l with
  | nil => simp [entryIn]
  | cons e l ih =>
    rw [List.map_cons, List.pairwise_cons] at h
    unfold entryIn
    split
    . next hlt =>
      rw [List.map_cons, List.map_cons, List.pairwise_cons, List.pairwise_cons]
      refine ⟨?_, h⟩
      intro k' hk'
      rw [List.mem_cons] at hk'
      rcases hk' with rfl | hk'
      . exact hlt
      . exact hlt.trans (h.1 k' hk')
    . next hlt =>
      split
      . next heq =>
        rw [List.map_cons, List.pairwise_cons, heq]
        exact h
      . next hne =>
        rw [List.map_cons, List.pairwise_cons]
        refine ⟨?_, ih h.2⟩
        intro k' hk'
        rw [mem_map_entryIn] at hk'
        rcases hk' with rfl | hk'
        . exact lt_of_le_of_ne (not_lt.mp hlt) (Ne.symm hne)
        . exact h.1 k' hk'

def entry (m : EntryMap κ ν) (k : κ) (default : ν) (change : ν → ν) : EntryMap κ ν where
  entries := entryIn k default change m.entries
  sorted := pairwise_entryIn m.sorted

def keys (m : EntryMap κ ν) : List κ :=
  m.entries.map Prod.fst

def get (m : EntryMap κ ν) (k : κ) : Option ν :=
  (m.entries.find? (·.1 = k)).map Prod.snd

variable {m : EntryMap κ ν} {k k' : κ} {v : ν}

theorem nodup_keys (m : EntryMap κ ν) : m.keys.Nodup :=
  m.sorted.imp ne_of_lt

theorem get_eq_some : m.get k = some v ↔ (k, v) ∈ m.entries := by
  unfold get
  rw [Option.map_eq_some_iff]
  constructor
  . rintro ⟨⟨k', v'⟩, hfind, rfl⟩
    have hkey : k' = k := by
      simpa using List.find?_some hfind
    rw [← hkey]
    exact List.mem_of_find?_eq_some hfind
  . intro hmem
    cases hfind : m.entries.find? (·.1 = k) with
    | none =>
      rw [List.find?_eq_none] at hfind
      simpa using hfind _ hmem
    | some e =>
      have hkey : e.1 = k := by
        simpa using List.find?_some hfind
      have heq := List.inj_on_of_nodup_map m.nodup_keys (List.mem_of_find?_eq_some hfind) hmem hkey
      exact ⟨e, rfl, congrArg Prod.snd heq⟩

theorem mem_keys_entry {default : ν} {change : ν → ν}
    : k' ∈ (m.entry k default change).keys ↔ k' = k ∨ k' ∈ m.keys :=
  mem_map_entryIn

theorem keys_foldl {α : Type} {step : EntryMap κ ν → α → EntryMap κ ν} {P : κ → Prop} {l : List α}
    (hstep : ∀ m, ∀ a ∈ l, (∀ k ∈ m.keys, P k) → ∀ k ∈ (step m a).keys, P k) (hm : ∀ k ∈ m.keys, P k)
    : ∀ k ∈ (l.foldl step m).keys, P k :=
  List.foldlRecOn l step hm fun m hm a ha => hstep m a ha hm

section Sums

variable {M : Type} [AddCommMonoid M]

def sumOf (f : κ → ν → M) (m : EntryMap κ ν) : M :=
  (m.entries.map fun e => f e.1 e.2).sum

@[simp]
theorem sumOf_empty (f : κ → ν → M) : (empty : EntryMap κ ν).sumOf f = 0 :=
  rfl

variable {f : κ → ν → M}

theorem sum_entryIn {default : ν} {change : ν → ν} {d : M} (hdefault : f k (change default) = d)
    (hchange : ∀ v, f k (change v) = f k v + d) (l : List (κ × ν))
    : ((entryIn k default change l).map fun e => f e.1 e.2).sum = (l.map fun e => f e.1 e.2).sum + d := by
  induction l with
  | nil => simp [entryIn, hdefault]
  | cons e l ih =>
    unfold entryIn
    split
    . rw [List.map_cons, List.sum_cons, hdefault, add_comm]
    . split
      . next heq =>
        rw [List.map_cons, List.sum_cons, hchange, List.map_cons, List.sum_cons, heq]
        exact add_right_comm _ _ _
      . rw [List.map_cons, List.sum_cons, ih, List.map_cons, List.sum_cons, add_assoc]

theorem sumOf_entry {default : ν} {change : ν → ν} {d : M} (hdefault : f k (change default) = d)
    (hchange : ∀ v, f k (change v) = f k v + d)
    : (m.entry k default change).sumOf f = m.sumOf f + d :=
  sum_entryIn hdefault hchange m.entries

theorem sumOf_foldl {α : Type} {step : EntryMap κ ν → α → EntryMap κ ν} (worth : α → M) {l : List α}
    (hstep : ∀ m, ∀ a ∈ l, (step m a).sumOf f = m.sumOf f + worth a) (m : EntryMap κ ν)
    : (l.foldl step m).sumOf f = m.sumOf f + (l.map worth).sum := by
  induction l generalizing m with
  | nil => simp
  | cons a l ih =>
    rw [List.foldl_cons, ih fun m b hb => hstep m b (List.mem_cons_of_mem a hb), hstep m a List.mem_cons_self,
      List.map_cons, List.sum_cons, add_assoc]

theorem sumOf_eq_sum {s : Finset κ} (hs : ∀ k ∈ m.keys, k ∈ s)
    : m.sumOf f = ∑ k ∈ s, (m.get k).elim 0 (f k) := by
  have hkeys : m.sumOf f = ∑ k ∈ m.keys.toFinset, (m.get k).elim 0 (f k) := by
    rw [List.sum_toFinset _ m.nodup_keys]
    unfold sumOf keys
    rw [List.map_map]
    apply congrArg
    apply List.map_congr_left
    intro e he
    rw [Function.comp_apply, get_eq_some.mpr he]
    rfl
  rw [hkeys]
  apply Finset.sum_subset
  . intro k hk
    exact hs k (List.mem_toFinset.mp hk)
  . intro k _ hk
    cases hget : m.get k with
    | none => rfl
    | some v =>
      rw [get_eq_some] at hget
      exact absurd (List.mem_toFinset.mpr (List.mem_map_of_mem hget)) hk

end Sums

end EntryMap
