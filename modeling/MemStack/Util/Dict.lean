import Mathlib

/-!
This module contains dictionaries that keep the order of insertion: setting a key that is there
already replaces its value in place, a new key goes to the end.
-/

structure Dict (κ α : Type) where
  entries : List (κ × α)
  nodup : (entries.map Prod.fst).Nodup
  deriving DecidableEq

namespace Dict

variable {κ α β : Type} [DecidableEq κ]

def empty : Dict κ α :=
  { entries := [], nodup := by simp }

def keys (d : Dict κ α) : List κ :=
  d.entries.map Prod.fst

def values (d : Dict κ α) : List α :=
  d.entries.map Prod.snd

def get (d : Dict κ α) (k : κ) : Option α :=
  (d.entries.find? (·.1 = k)).map Prod.snd

theorem map_fst_replace (l : List (κ × α)) (k : κ) (v : α)
    : (l.map fun e => if e.1 = k then (k, v) else e).map Prod.fst = l.map Prod.fst := by
  rw [List.map_map]
  apply List.map_congr_left
  intro e _
  simp only [Function.comp]
  split
  . next h => exact h.symm
  . rfl

def set (d : Dict κ α) (k : κ) (v : α) : Dict κ α where
  entries :=
    if k ∈ d.keys then
      d.entries.map fun e => if e.1 = k then (k, v) else e
    else
      d.entries ++ [(k, v)]
  nodup := by
    split
    . rw [map_fst_replace]
      exact d.nodup
    . next h =>
      rw [List.map_append]
      apply List.Nodup.append d.nodup (by simp)
      intro k' hk' hmem
      simp only [List.map_cons, List.map_nil, List.mem_singleton] at hmem
      rw [hmem] at hk'
      exact h hk'

def erase (d : Dict κ α) (k : κ) : Dict κ α where
  entries := d.entries.filter (·.1 ≠ k)
  nodup := (List.filter_sublist.map _).nodup d.nodup

def mapValues (d : Dict κ α) (f : α → β) : Dict κ β where
  entries := d.entries.map fun e => (e.1, f e.2)
  nodup := by
    rw [List.map_map]
    exact d.nodup

def update (d d' : Dict κ α) : Dict κ α :=
  d'.entries.foldl (fun d e => d.set e.1 e.2) d

def setAll (d : Dict κ α) (l : List (κ × α)) : Dict κ α :=
  l.foldl (fun d e => d.set e.1 e.2) d

def eraseAll (d : Dict κ α) (ks : List κ) : Dict κ α :=
  ks.foldl erase d

theorem get_eq_some {d : Dict κ α} {k : κ} {v : α}
    : d.get k = some v ↔ (k, v) ∈ d.entries := by
  unfold get
  constructor
  . intro h
    rw [Option.map_eq_some_iff] at h
    rcases h with ⟨⟨k', v'⟩, hfind, rfl⟩
    have hkey : k' = k := by
      simpa using List.find?_some hfind
    rw [← hkey]
    apply List.mem_of_find?_eq_some hfind
  . intro h
    cases hfind : d.entries.find? (·.1 = k) with
    | none =>
      rw [List.find?_eq_none] at hfind
      simpa using hfind _ h
    | some e =>
      have hkey : e.1 = k := by
        simpa using List.find?_some hfind
      rw [List.inj_on_of_nodup_map d.nodup (List.mem_of_find?_eq_some hfind) h hkey]
      rfl

theorem mem_keys {d : Dict κ α} {k : κ}
    : k ∈ d.keys ↔ ∃ v, d.get k = some v := by
  simp [keys, get_eq_some]

theorem mem_values {d : Dict κ α} {v : α}
    : v ∈ d.values ↔ ∃ k, d.get k = some v := by
  simp [values, get_eq_some]

theorem get_eq_none {d : Dict κ α} {k : κ}
    : d.get k = none ↔ k ∉ d.keys := by
  rw [mem_keys, Option.eq_none_iff_forall_ne_some]
  simp

@[simp]
theorem get_empty (k : κ) : (empty : Dict κ α).get k = none := by
  simp [empty, get]

@[simp]
theorem get_set (d : Dict κ α) (k k' : κ) (v : α)
    : (d.set k v).get k' = if k' = k then some v else d.get k' := by
  ext w
  rw [get_eq_some]
  simp only [set]
  split
  . next hmem =>
    rw [mem_keys] at hmem
    rcases hmem with ⟨u, hu⟩
    rw [get_eq_some] at hu
    simp only [List.mem_map]
    split
    . grind
    . rw [get_eq_some]
      grind
  . next hmem =>
    simp only [List.mem_append, List.mem_singleton, Prod.mk.injEq]
    split
    . next heq =>
      have : (k', w) ∉ d.entries := by
        intro h
        apply hmem
        rw [← heq]
        apply List.mem_map_of_mem h
      grind
    . rw [get_eq_some]
      grind

@[simp]
theorem get_erase (d : Dict κ α) (k k' : κ)
    : (d.erase k).get k' = if k' = k then none else d.get k' := by
  ext w
  rw [get_eq_some]
  simp only [erase, List.mem_filter, decide_eq_true_eq]
  split
  . grind
  . rw [get_eq_some]
    grind

@[simp]
theorem get_mapValues (d : Dict κ α) (f : α → β) (k : κ)
    : (d.mapValues f).get k = (d.get k).map f := by
  ext w
  rw [get_eq_some]
  simp only [mapValues, List.mem_map, Prod.mk.injEq, Option.map_eq_some_iff, get_eq_some]
  grind

@[simp]
theorem get_update (d d' : Dict κ α) (k : κ)
    : (d.update d').get k = (d'.get k).or (d.get k) := by
  have hfold (l : List (κ × α)) (hl : (l.map Prod.fst).Nodup) (d : Dict κ α)
      : (l.foldl (fun d e => d.set e.1 e.2) d).get k
          =
        ((l.find? (·.1 = k)).map Prod.snd).or (d.get k) := by
    induction l generalizing d with
    | nil => rfl
    | cons e l ih =>
      rw [List.map_cons, List.nodup_cons] at hl
      rw [List.foldl_cons, ih hl.2, get_set, List.find?_cons]
      by_cases hk : e.1 = k
      . have hnone : l.find? (·.1 = k) = none := by
          rw [List.find?_eq_none]
          intro e' he'
          simp only [decide_eq_true_eq]
          intro heq
          apply hl.1
          rw [hk, ← heq]
          apply List.mem_map_of_mem he'
        simp [hk, hnone]
      . simp [hk, Ne.symm hk]
  apply hfold _ d'.nodup

theorem mem_keys_set {d : Dict κ α} {k k' : κ} {v : α}
    : k' ∈ (d.set k v).keys ↔ k' = k ∨ k' ∈ d.keys := by
  rw [mem_keys, mem_keys]
  simp only [get_set]
  split <;> simp_all

omit [DecidableEq κ] in
theorem ext_entries {d d' : Dict κ α} (h : d.entries = d'.entries) : d = d' := by
  cases d
  cases d'
  cases h
  rfl

theorem entries_set_of_notMem {d : Dict κ α} {k : κ} (h : k ∉ d.keys) (v : α)
    : (d.set k v).entries = d.entries ++ [(k, v)] :=
  if_neg h

theorem entries_setAll {d : Dict κ α} {l : List (κ × α)} (hnew : ∀ e ∈ l, e.1 ∉ d.keys)
    (hl : (l.map Prod.fst).Nodup)
    : (d.setAll l).entries = d.entries ++ l := by
  induction l generalizing d with
  | nil => simp [setAll]
  | cons e l ih =>
    rw [List.forall_mem_cons] at hnew
    rw [List.map_cons, List.nodup_cons] at hl
    have hset := entries_set_of_notMem hnew.1 e.2
    have hrest : ((d.set e.1 e.2).setAll l).entries = (d.set e.1 e.2).entries ++ l := by
      apply ih _ hl.2
      intro e' he' hmem
      rw [mem_keys_set] at hmem
      cases hmem with
      | inl heq =>
        apply hl.1
        rw [← heq]
        apply List.mem_map_of_mem he'
      | inr hin => exact hnew.2 e' he' hin
    rw [hset, List.append_assoc] at hrest
    exact hrest

theorem values_set_of_notMem {d : Dict κ α} {k : κ} (h : k ∉ d.keys) (v : α)
    : (d.set k v).values = d.values ++ [v] := by
  unfold values
  rw [entries_set_of_notMem h, List.map_append]
  rfl

theorem length_entries_set_le (d : Dict κ α) (k : κ) (v : α)
    : (d.set k v).entries.length ≤ d.entries.length + 1 := by
  unfold set
  dsimp only
  split <;> simp

theorem length_entries_erase_le (d : Dict κ α) (k : κ)
    : (d.erase k).entries.length ≤ d.entries.length :=
  List.length_filter_le _ _

theorem erase_of_notMem {d : Dict κ α} {k : κ} (h : k ∉ d.keys) : d.erase k = d := by
  apply ext_entries
  apply List.filter_eq_self.mpr
  intro e he
  rw [decide_eq_true_eq]
  intro heq
  apply h
  rw [← heq]
  apply List.mem_map_of_mem he

theorem values_perm_of_get {d : Dict κ α} {k : κ} {v : α} (h : d.get k = some v)
    : d.values.Perm (v :: (d.erase k).values) := by
  rw [get_eq_some] at h
  rcases List.append_of_mem h with ⟨before, after, hsplit⟩
  have hnodup := d.nodup
  rw [hsplit, List.map_append, List.map_cons, List.nodup_append, List.nodup_cons] at hnodup
  have hother (l : List (κ × α)) (hl : k ∉ l.map Prod.fst) : l.filter (·.1 ≠ k) = l := by
    apply List.filter_eq_self.mpr
    intro e he
    rw [decide_eq_true_eq]
    intro heq
    apply hl
    rw [← heq]
    apply List.mem_map_of_mem he
  have herase : (d.erase k).entries = before ++ after := by
    unfold erase
    dsimp only
    rw [hsplit, List.filter_append, List.filter_cons_of_neg (by simp),
      hother before (fun hk => hnodup.2.2 k hk k (by simp) rfl), hother after hnodup.2.1.1]
  unfold values
  rw [herase, hsplit, List.map_append, List.map_cons, List.map_append]
  apply List.perm_middle

theorem setAll_entries (d : Dict κ α) : (empty : Dict κ α).setAll d.entries = d := by
  apply ext_entries
  rw [entries_setAll]
  . rfl
  . intro e _
    simp [empty, keys]
  . exact d.nodup

theorem entries_eraseAll (d : Dict κ α) (ks : List κ)
    : (d.eraseAll ks).entries = d.entries.filter (·.1 ∉ ks) := by
  induction ks generalizing d with
  | nil => simp [eraseAll]
  | cons k ks ih =>
    have hcons : d.eraseAll (k :: ks) = (d.erase k).eraseAll ks := rfl
    rw [hcons, ih, erase, List.filter_filter]
    apply List.filter_congr
    intro e _
    simp [Bool.and_comm]

theorem get_eraseAll (d : Dict κ α) (ks : List κ) (k : κ)
    : (d.eraseAll ks).get k = if k ∈ ks then none else d.get k := by
  induction ks generalizing d with
  | nil => rfl
  | cons k' ks ih =>
    have hcons : d.eraseAll (k' :: ks) = (d.erase k').eraseAll ks := rfl
    rw [hcons, ih, get_erase]
    by_cases hmem : k ∈ ks
    . simp [hmem]
    . simp [hmem]

end Dict
