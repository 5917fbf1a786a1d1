import Mathlib

/-!
This module contains the heap of the module `heapq`, with the smallest item first. Items are compared by a
key. An item moves by swaps, where the source shifts the others and puts it in its place at the end. Heaps of a
bounded size keep the items with the greatest keys, and a list that is sorted after such a selection is compared with
the sorted list that is cut.
-/

namespace Heap

variable {α κ : Type} [LinearOrder κ] (key : α → κ)

-- `_siftdown(heap, 0, pos)`
def siftdown : Nat → Array α → Nat → Array α
  | 0, heap, _ => heap
  | fuel + 1, heap, pos =>
    if pos = 0 then heap
    else
      match heap[pos]?, heap[(pos - 1) / 2]? with
      | some newitem, some parent =>
        if key newitem < key parent then siftdown fuel (heap.swapIfInBounds pos ((pos - 1) / 2)) ((pos - 1) / 2)
        else heap
      | _, _ => heap

def smallerChild (heap : Array α) (pos : Nat) : Nat :=
  match heap[2 * pos + 1]?, heap[2 * pos + 2]? with
  | some left, some right => if key left < key right then 2 * pos + 1 else 2 * pos + 2
  | _, _ => 2 * pos + 1

-- `_siftup(heap, 0)` from when the hole has come to `pos`: down to a leaf, and then up from there.
def siftup : Nat → Array α → Nat → Array α
  | 0, heap, _ => heap
  | fuel + 1, heap, pos =>
    if 2 * pos + 1 < heap.size then
      siftup fuel (heap.swapIfInBounds pos (smallerChild key heap pos)) (smallerChild key heap pos)
    else siftdown key pos heap pos

def heappush (heap : Array α) (item : α) : Array α :=
  siftdown key heap.size (heap.push item) heap.size

def heapreplace (heap : Array α) (item : α) : Array α :=
  siftup key (heap.size + 1) (heap.setIfInBounds 0 item) 0

section Perm

variable {heap : Array α}

theorem swapIfInBounds_perm (heap : Array α) (i j : Nat) : (heap.swapIfInBounds i j).Perm heap := by
  unfold Array.swapIfInBounds
  split
  . split
    . exact Array.swap_perm _ _
    . exact .refl _
  . exact .refl _

theorem siftdown_perm (fuel : Nat) (heap : Array α) (pos : Nat) : (siftdown key fuel heap pos).Perm heap := by
  induction fuel generalizing heap pos with
  | zero => exact .refl _
  | succ fuel ih =>
    unfold siftdown
    split
    . exact .refl _
    . split
      . split
        . exact (ih _ _).trans (swapIfInBounds_perm _ _ _)
        . exact .refl _
      . exact .refl _

theorem siftup_perm (fuel : Nat) (heap : Array α) (pos : Nat) : (siftup key fuel heap pos).Perm heap := by
  induction fuel generalizing heap pos with
  | zero => exact .refl _
  | succ fuel ih =>
    unfold siftup
    split
    . exact (ih _ _).trans (swapIfInBounds_perm _ _ _)
    . exact siftdown_perm key _ _ _

theorem heappush_perm (heap : Array α) (item : α)
    : (heappush key heap item).toList.Perm (item :: heap.toList) := by
  have hperm := (siftdown_perm key heap.size (heap.push item) heap.size).toList
  rw [Array.toList_push] at hperm
  exact hperm.trans (List.perm_append_singleton _ _)

theorem heapreplace_perm {root : α} {rest : List α} (hheap : heap.toList = root :: rest) (item : α)
    : (heapreplace key heap item).toList.Perm (item :: rest) := by
  have hperm := (siftup_perm key (heap.size + 1) (heap.setIfInBounds 0 item) 0).toList
  rw [Array.toList_setIfInBounds, hheap] at hperm
  exact hperm

end Perm

section Order

variable {key} {heap : Array α} {pos : Nat}

def Le (key : α → κ) (heap : Array α) (i j : Nat) : Prop :=
  ∀ a b, heap[i]? = some a → heap[j]? = some b → key a ≤ key b

def IsHeap (key : α → κ) (heap : Array α) : Prop :=
  ∀ j, 0 < j → Le key heap ((j - 1) / 2) j

structure Rising (key : α → κ) (heap : Array α) (pos : Nat) : Prop where
  except : ∀ j, 0 < j → j ≠ pos → Le key heap ((j - 1) / 2) j
  across : ∀ j, 0 < j → (j - 1) / 2 = pos → 0 < pos → Le key heap ((pos - 1) / 2) j

structure Sinking (key : α → κ) (heap : Array α) (pos : Nat) : Prop where
  except : ∀ j, 0 < j → j ≠ pos → (j - 1) / 2 ≠ pos → Le key heap ((j - 1) / 2) j
  across : ∀ j, 0 < j → (j - 1) / 2 = pos → 0 < pos → Le key heap ((pos - 1) / 2) j

theorem Le.trans {i j k : Nat} (h : Le key heap i j) (h' : Le key heap j k) (hj : j < heap.size)
    : Le key heap i k := by
  intro a b ha hb
  have hget := Array.getElem?_eq_getElem hj
  exact (h a _ ha hget).trans (h' _ b hget hb)

theorem getElem?_swapped {i j : Nat} (hi : i < heap.size) (hj : j < heap.size) (k : Nat)
    : (heap.swapIfInBounds i j)[k]? = if k = i then heap[j]? else if k = j then heap[i]? else heap[k]? := by
  unfold Array.swapIfInBounds
  rw [dif_pos hi, dif_pos hj, Array.getElem?_swap, Array.getElem?_eq_getElem hi, Array.getElem?_eq_getElem hj]
  grind

def swapped (i j k : Nat) : Nat :=
  if k = i then j else if k = j then i else k

theorem le_swapped {i j k l : Nat} (hi : i < heap.size) (hj : j < heap.size)
    (h : Le key heap (swapped i j k) (swapped i j l))
    : Le key (heap.swapIfInBounds i j) k l := by
  have hget : ∀ k, (heap.swapIfInBounds i j)[k]? = heap[swapped i j k]? := by
    intro k
    rw [getElem?_swapped hi hj, swapped]
    split
    . rfl
    . split <;> rfl
  intro a b ha hb
  rw [hget] at ha hb
  exact h a b ha hb

theorem Rising.isHeap (h : Rising key heap pos) (hpos : pos = 0 ∨ Le key heap ((pos - 1) / 2) pos)
    : IsHeap key heap := by
  intro j hj
  by_cases heq : j = pos
  . subst heq
    cases hpos with
    | inl hzero => omega
    | inr hle => exact hle
  . exact h.except j hj heq

theorem Rising.swap (h : Rising key heap pos) (hsize : pos < heap.size) (hpos : pos ≠ 0)
    (hle : Le key heap pos ((pos - 1) / 2))
    : Rising key (heap.swapIfInBounds pos ((pos - 1) / 2)) ((pos - 1) / 2) where
  except j hj hne := by
    apply le_swapped hsize (by omega)
    by_cases heq : j = pos
    . have hparent : swapped pos ((pos - 1) / 2) ((j - 1) / 2) = pos := by
        unfold swapped
        rw [heq, if_neg (by omega), if_pos rfl]
      have hchild : swapped pos ((pos - 1) / 2) j = (pos - 1) / 2 := if_pos heq
      rw [hparent, hchild]
      exact hle
    . have hchild : swapped pos ((pos - 1) / 2) j = j := by
        unfold swapped
        rw [if_neg heq, if_neg hne]
      rw [hchild]
      by_cases habove : (j - 1) / 2 = pos
      . have hparent : swapped pos ((pos - 1) / 2) ((j - 1) / 2) = (pos - 1) / 2 := if_pos habove
        rw [hparent]
        exact h.across j hj habove (by omega)
      . by_cases hsibling : (j - 1) / 2 = (pos - 1) / 2
        . have hparent : swapped pos ((pos - 1) / 2) ((j - 1) / 2) = pos := by
            unfold swapped
            rw [if_neg habove, if_pos hsibling]
          have hle' := h.except j hj heq
          rw [hsibling] at hle'
          rw [hparent]
          exact hle.trans hle' (by omega)
        . have hparent : swapped pos ((pos - 1) / 2) ((j - 1) / 2) = (j - 1) / 2 := by
            unfold swapped
            rw [if_neg habove, if_neg hsibling]
          rw [hparent]
          exact h.except j hj heq
  across j hj hparent hpositive := by
    apply le_swapped hsize (by omega)
    have hgrand : swapped pos ((pos - 1) / 2) (((pos - 1) / 2 - 1) / 2) = ((pos - 1) / 2 - 1) / 2 := by
      unfold swapped
      rw [if_neg (by omega), if_neg (by omega)]
    have habove := h.except ((pos - 1) / 2) hpositive (by omega)
    rw [hgrand]
    by_cases heq : j = pos
    . have hchild : swapped pos ((pos - 1) / 2) j = (pos - 1) / 2 := if_pos heq
      rw [hchild]
      exact habove
    . have hchild : swapped pos ((pos - 1) / 2) j = j := by
        unfold swapped
        rw [if_neg heq, if_neg (by omega)]
      have hle' := h.except j hj heq
      rw [hparent] at hle'
      rw [hchild]
      exact habove.trans hle' (by omega)

theorem Rising.siftdown {fuel : Nat} (h : Rising key heap pos) (hfuel : pos ≤ fuel)
    : IsHeap key (siftdown key fuel heap pos) := by
  induction fuel generalizing heap pos with
  | zero => exact h.isHeap (.inl (by omega))
  | succ fuel ih =>
    unfold Heap.siftdown
    split
    . next hzero => exact h.isHeap (.inl hzero)
    . next hpos =>
      split
      . next newitem parent hnew hparent =>
        split
        . next hlt =>
          obtain ⟨hsize, -⟩ := Array.getElem?_eq_some_iff.mp hnew
          apply ih _ (by omega)
          apply h.swap hsize hpos
          intro a b ha hb
          rw [hnew, Option.some_inj] at ha
          rw [hparent, Option.some_inj] at hb
          rw [← ha, ← hb]
          exact hlt.le
        . next hnot =>
          apply h.isHeap
          right
          intro a b ha hb
          rw [hparent, Option.some_inj] at ha
          rw [hnew, Option.some_inj] at hb
          rw [← ha, ← hb]
          exact not_lt.mp hnot
      . next hnone =>
        apply h.isHeap
        right
        intro a b ha hb
        exact absurd ha (hnone b a hb)

theorem smallerChild_spec (key : α → κ) (h : 2 * pos + 1 < heap.size)
    : (smallerChild key heap pos = 2 * pos + 1 ∨ smallerChild key heap pos = 2 * pos + 2) ∧
      smallerChild key heap pos < heap.size ∧
      ∀ j, 0 < j → (j - 1) / 2 = pos → Le key heap (smallerChild key heap pos) j := by
  have hchildren : ∀ j, 0 < j → (j - 1) / 2 = pos → j = 2 * pos + 1 ∨ j = 2 * pos + 2 := by
    intro j hj hparent
    omega
  have hself : ∀ i, Le key heap i i := by
    intro i a b ha hb
    rw [ha, Option.some_inj] at hb
    rw [hb]
  have hleft := Array.getElem?_eq_getElem h
  unfold smallerChild
  split
  . next left right hleft hright =>
    obtain ⟨hsize, -⟩ := Array.getElem?_eq_some_iff.mp hright
    have hle : ∀ {i j : Nat} {a b : α}, heap[i]? = some a → heap[j]? = some b → key a ≤ key b → Le key heap i j := by
      intro i j a b ha hb hle a' b' ha' hb'
      rw [ha, Option.some_inj] at ha'
      rw [hb, Option.some_inj] at hb'
      rw [← ha', ← hb']
      exact hle
    split
    . next hlt =>
      refine ⟨.inl rfl, h, ?_⟩
      intro j hj hparent
      rcases hchildren j hj hparent with rfl | rfl
      . exact hself _
      . exact hle hleft hright hlt.le
    . next hnot =>
      refine ⟨.inr rfl, hsize, ?_⟩
      intro j hj hparent
      rcases hchildren j hj hparent with rfl | rfl
      . exact hle hright hleft (not_lt.mp hnot)
      . exact hself _
  . next hnone =>
    refine ⟨.inl rfl, h, ?_⟩
    intro j hj hparent
    rcases hchildren j hj hparent with rfl | rfl
    . exact hself _
    . intro a b ha hb
      exact absurd hb (hnone a b ha)

theorem Sinking.swap (h : Sinking key heap pos) (hsize : 2 * pos + 1 < heap.size)
    : Sinking key (heap.swapIfInBounds pos (smallerChild key heap pos)) (smallerChild key heap pos) := by
  obtain ⟨hchild, hbound, hsmallest⟩ := smallerChild_spec key hsize
  generalize smallerChild key heap pos = child at hchild hbound hsmallest ⊢
  have hself : swapped pos child pos = child := if_pos rfl
  constructor
  . intro j hj hne hparent
    apply le_swapped (by omega) hbound
    by_cases heq : j = pos
    . have hfixed : swapped pos child ((j - 1) / 2) = (j - 1) / 2 := by
        unfold swapped
        rw [if_neg (by omega), if_neg hparent]
      rw [hfixed, heq, hself]
      exact h.across child (by omega) (by omega) (by omega)
    . have hfixed : swapped pos child j = j := by
        unfold swapped
        rw [if_neg heq, if_neg hne]
      rw [hfixed]
      by_cases hsibling : (j - 1) / 2 = pos
      . rw [hsibling, hself]
        exact hsmallest j hj hsibling
      . have hfixed' : swapped pos child ((j - 1) / 2) = (j - 1) / 2 := by
          unfold swapped
          rw [if_neg hsibling, if_neg hparent]
        rw [hfixed']
        exact h.except j hj heq hsibling
  . intro j hj hparent _
    apply le_swapped (by omega) hbound
    have habove : (child - 1) / 2 = pos := by omega
    have hfixed : swapped pos child j = j := by
      unfold swapped
      rw [if_neg (by omega), if_neg (by omega)]
    have hle := h.except j hj (by omega) (by omega)
    rw [hparent] at hle
    rw [habove, hself, hfixed]
    exact hle

theorem Sinking.rising (h : Sinking key heap pos) (hleaf : ¬2 * pos + 1 < heap.size) : Rising key heap pos where
  except j hj hne := by
    by_cases hparent : (j - 1) / 2 = pos
    . intro a b ha hb
      obtain ⟨hsize, -⟩ := Array.getElem?_eq_some_iff.mp hb
      omega
    . exact h.except j hj hne hparent
  across := h.across

theorem Sinking.siftup {fuel : Nat} (h : Sinking key heap pos) (hfuel : heap.size + 1 ≤ pos + fuel)
    (hpos : pos ≤ heap.size)
    : IsHeap key (siftup key fuel heap pos) := by
  induction fuel generalizing heap pos with
  | zero => omega
  | succ fuel ih =>
    unfold Heap.siftup
    split
    . next hsize =>
      obtain ⟨hchild, hbound, -⟩ := smallerChild_spec key hsize
      apply ih (h.swap hsize)
      . rw [Array.size_swapIfInBounds]
        omega
      . rw [Array.size_swapIfInBounds]
        exact hbound.le
    . next hleaf => exact (h.rising hleaf).siftdown le_rfl

theorem isHeap_empty : IsHeap key #[] := by
  intro j hj a b ha hb
  cases ha

theorem IsHeap.heappush (h : IsHeap key heap) (item : α) : IsHeap key (heappush key heap item) := by
  apply Rising.siftdown _ le_rfl
  constructor
  . intro j hj hne a b ha hb
    rw [Array.getElem?_push] at ha hb
    rw [if_neg hne] at hb
    obtain ⟨hsize, -⟩ := Array.getElem?_eq_some_iff.mp hb
    rw [if_neg (by omega)] at ha
    exact h j hj a b ha hb
  . intro j hj hparent _ a b ha hb
    obtain ⟨hsize, -⟩ := Array.getElem?_eq_some_iff.mp hb
    rw [Array.size_push] at hsize
    omega

theorem IsHeap.heapreplace (h : IsHeap key heap) (item : α) : IsHeap key (heapreplace key heap item) := by
  apply Sinking.siftup
  . constructor
    . intro j hj hne hparent a b ha hb
      rw [Array.getElem?_setIfInBounds_ne (by omega)] at ha hb
      exact h j hj a b ha hb
    . intro j hj hparent hpos
      omega
  . rw [Array.size_setIfInBounds]
    omega
  . omega

theorem IsHeap.root_le (h : IsHeap key heap) {root a : α} (hroot : heap[0]? = some root) (ha : a ∈ heap.toList)
    : key root ≤ key a := by
  have hall : ∀ j, Le key heap 0 j := by
    intro j
    induction j using Nat.strong_induction_on with
    | _ j ih =>
      by_cases hj : j = 0
      . rw [hj]
        intro a b ha hb
        rw [ha, Option.some_inj] at hb
        rw [hb]
      . intro a b ha hb
        obtain ⟨hsize, -⟩ := Array.getElem?_eq_some_iff.mp hb
        exact (ih ((j - 1) / 2) (by omega)).trans (h j (by omega)) (by omega) a b ha hb
  obtain ⟨j, hj, hget⟩ := Array.mem_iff_getElem.mp (Array.mem_toList_iff.mp ha)
  exact hall j root a hroot (Array.getElem?_eq_some_iff.mpr ⟨hj, hget⟩)

end Order

end Heap

namespace Heap

variable {α κ : Type} [LinearOrder κ] {key : α → κ} {capped : Nat} {heap : Array α} {l : List α}

def keep (key : α → κ) (capped : Nat) (heap : Array α) (item : α) : Array α :=
  if heap.size < capped then heappush key heap item
  else
    match heap[0]? with
    | none => heap
    | some root => if key root < key item then heapreplace key heap item else heap

structure Kept (key : α → κ) (capped : Nat) (heap : Array α) (l dropped : List α) : Prop where
  isHeap : IsHeap key heap
  perm : (heap.toList ++ dropped).Perm l
  le : ∀ a ∈ heap.toList, ∀ b ∈ dropped, key b ≤ key a
  size : heap.size ≤ capped
  full : dropped ≠ [] → heap.size = capped

theorem kept_empty (key : α → κ) (capped : Nat) : Kept key capped #[] [] [] where
  isHeap := isHeap_empty
  perm := .refl _
  le := by simp
  size := Nat.zero_le _
  full h := absurd rfl h

theorem Kept.keep {dropped : List α} (h : Kept key capped heap l dropped) (hcapped : 0 < capped) (item : α)
    : ∃ dropped, Kept key capped (keep key capped heap item) (l ++ [item]) dropped := by
  unfold Heap.keep
  split
  . next hsize =>
    have hnone : dropped = [] := by
      by_contra hne
      have := h.full hne
      omega
    have hpush := heappush_perm key heap item
    subst hnone
    refine ⟨[], h.isHeap.heappush item, ?_, by simp, ?_, fun hne => absurd rfl hne⟩
    . have hperm := h.perm
      rw [List.append_nil] at hperm ⊢
      exact hpush.trans ((hperm.cons item).trans (List.perm_append_singleton item l).symm)
    . have hlength := hpush.length_eq
      rw [List.length_cons, Array.length_toList, Array.length_toList] at hlength
      omega
  . next hsize =>
    have hfull : heap.size = capped := by
      have := h.size
      omega
    cases hlist : heap.toList with
    | nil =>
      have hlength := congrArg List.length hlist
      rw [Array.length_toList, List.length_nil] at hlength
      omega
    | cons root rest =>
      have hroot : heap[0]? = some root := by
        rw [← Array.getElem?_toList, hlist]
        rfl
      have hleast : ∀ a ∈ root :: rest, key root ≤ key a := by
        intro a ha
        rw [← hlist] at ha
        exact h.isHeap.root_le hroot ha
      have hle := h.le
      have hperm := h.perm
      rw [hlist] at hle hperm
      rw [hroot]
      dsimp only
      split
      . next hlt =>
        have hreplace := heapreplace_perm key hlist item
        refine ⟨root :: dropped, h.isHeap.heapreplace item, ?_, ?_, ?_, ?_⟩
        . have hmoved : (item :: rest ++ root :: dropped).Perm (item :: (root :: rest ++ dropped)) :=
            List.perm_middle.cons item
          exact (hreplace.append_right _).trans
            (hmoved.trans ((hperm.cons item).trans (List.perm_append_singleton item l).symm))
        . intro a ha b hb
          rw [hreplace.mem_iff] at ha
          rw [List.mem_cons] at ha hb
          have hb' : key b ≤ key root := by
            rcases hb with rfl | hb
            . exact le_rfl
            . exact hle root List.mem_cons_self b hb
          rcases ha with rfl | ha
          . exact hb'.trans hlt.le
          . exact hb'.trans (hleast a (List.mem_cons_of_mem _ ha))
        all_goals
          have hlength := hreplace.length_eq
          rw [List.length_cons, Array.length_toList] at hlength
          have hold := congrArg List.length hlist
          rw [List.length_cons, Array.length_toList] at hold
          omega
      . next hnot =>
        refine ⟨dropped ++ [item], h.isHeap, ?_, ?_, h.size, fun _ => hfull⟩
        . rw [hlist, ← List.append_assoc]
          exact hperm.append_right [item]
        . intro a ha b hb
          rw [hlist] at ha
          rw [List.mem_append, List.mem_singleton] at hb
          rcases hb with hb | rfl
          . exact hle a ha b hb
          . exact (not_lt.mp hnot).trans (hleast a ha)

theorem exists_kept (key : α → κ) (hcapped : 0 < capped) (l : List α)
    : ∃ dropped, Kept key capped (l.foldl (keep key capped) #[]) l dropped := by
  induction l using List.reverseRecOn with
  | nil => exact ⟨[], kept_empty key capped⟩
  | append_singleton l item ih =>
    obtain ⟨dropped, h⟩ := ih
    rw [List.foldl_append, List.foldl_cons, List.foldl_nil]
    exact h.keep hcapped item

section Ranked

variable {ρ : Type} [LinearOrder ρ] {rank : α → ρ}

def sortBy (rank : α → ρ) (l : List α) : List α :=
  l.insertionSort fun a b => rank a ≤ rank b

theorem perm_sortBy (rank : α → ρ) (l : List α) : (sortBy rank l).Perm l :=
  List.perm_insertionSort _ l

theorem pairwise_sortBy (rank : α → ρ) (l : List α) : (sortBy rank l).Pairwise fun a b => rank a ≤ rank b := by
  have htotal : Std.Total fun a b => rank a ≤ rank b := ⟨fun a b => le_total (rank a) (rank b)⟩
  have htrans : IsTrans α fun a b => rank a ≤ rank b := ⟨fun a b c => le_trans⟩
  exact List.pairwise_insertionSort _ l

theorem sublist_sortBy {a b : α} (hsub : [a, b].Sublist l) (hle : rank a ≤ rank b) : [a, b].Sublist (sortBy rank l) :=
  List.sublist_insertionSort (by simpa using hle) hsub

theorem exists_first_tie (hsorted : l.Pairwise fun a b => rank a ≤ rank b)
    (htie : ¬l.Pairwise fun a b => rank a < rank b)
    : ∃ before x y after, l = before ++ x :: y :: after ∧ rank x = rank y ∧ ∀ z ∈ before, rank z < rank x := by
  induction l with
  | nil => exact absurd .nil htie
  | cons x l ih =>
    cases l with
    | nil => exact absurd (List.pairwise_singleton _ x) htie
    | cons y l =>
      rw [List.pairwise_cons] at hsorted
      have hxy := hsorted.1 y List.mem_cons_self
      by_cases heq : rank x = rank y
      . exact ⟨[], x, y, l, rfl, heq, by simp⟩
      . have hlt : ∀ z ∈ y :: l, rank x < rank z := by
          intro z hz
          have hyz : rank y ≤ rank z := by
            rw [List.pairwise_cons] at hsorted
            rcases List.mem_cons.mp hz with rfl | hz
            . exact le_rfl
            . exact hsorted.2.1 z hz
          exact (lt_of_le_of_ne hxy heq).trans_le hyz
        have hrest : ¬(y :: l).Pairwise fun a b => rank a < rank b := by
          intro hpairs
          exact htie (List.pairwise_cons.mpr ⟨hlt, hpairs⟩)
        obtain ⟨before, x', y', after, hsplit, heq', hbefore⟩ := ih hsorted.2 hrest
        refine ⟨x :: before, x', y', after, by rw [hsplit]; rfl, heq', ?_⟩
        rw [List.forall_mem_cons]
        refine ⟨hlt x' ?_, hbefore⟩
        rw [hsplit]
        simp

theorem not_pairwise_of_tie {a b : α} (ha : a ∈ l) (hb : b ∈ l) (hne : a ≠ b) (htie : rank a = rank b)
    : ¬l.Pairwise fun a b => rank a < rank b := by
  intro hpairs
  have hsymm : Std.Symm fun a b => rank a ≠ rank b := ⟨fun _ _ => Ne.symm⟩
  have hdistinct : l.Pairwise fun a b => rank a ≠ rank b := hpairs.imp ne_of_lt
  exact hdistinct.forall ha hb hne htie

variable (hrank : ∀ a b, rank a < rank b → key b < key a)
include hrank

theorem Kept.sortBy_eq_take {dropped : List α} (h : Kept key capped heap l dropped)
    (hdistinct : ∀ a ∈ l, ∀ b ∈ l, rank a = rank b → a = b)
    : sortBy rank heap.toList = (sortBy rank l).take capped := by
  have hsplit : sortBy rank heap.toList ++ sortBy rank dropped = sortBy rank l := by
    have hperm : (sortBy rank heap.toList ++ sortBy rank dropped).Perm (sortBy rank l) :=
      ((perm_sortBy rank _).append (perm_sortBy rank _)).trans (h.perm.trans (perm_sortBy rank l).symm)
    have hantisymm : ∀ a b, a ∈ sortBy rank heap.toList ++ sortBy rank dropped → b ∈ sortBy rank l →
        rank a ≤ rank b → rank b ≤ rank a → a = b := by
      intro a b ha hb hab hba
      rw [hperm.mem_iff, (perm_sortBy rank l).mem_iff] at ha
      rw [(perm_sortBy rank l).mem_iff] at hb
      exact hdistinct a ha b hb (le_antisymm hab hba)
    apply hperm.eq_of_pairwise hantisymm
    . rw [List.pairwise_append]
      refine ⟨pairwise_sortBy rank _, pairwise_sortBy rank _, ?_⟩
      intro a ha b hb
      rw [(perm_sortBy rank _).mem_iff] at ha hb
      by_contra hlt
      exact absurd (h.le a ha b hb) (not_le.mpr (hrank b a (not_le.mp hlt)))
    . exact pairwise_sortBy rank l
  have hlength : (sortBy rank heap.toList).length = heap.size := by
    rw [(perm_sortBy rank _).length_eq, Array.length_toList]
  rw [← hsplit]
  by_cases hdropped : dropped = []
  . rw [hdropped]
    show _ = (sortBy rank heap.toList ++ []).take capped
    rw [List.append_nil, List.take_of_length_le]
    rw [hlength]
    exact h.size
  . rw [List.take_left' (hlength.trans (h.full hdropped))]

theorem not_forall_take {before after : List α} {x y : α} (hl : l.Nodup)
    (hkey : ∀ a ∈ l, ∀ b ∈ l, key a = key b → a = b) (hsplit : sortBy rank l = before ++ x :: y :: after)
    (htie : rank x = rank y) (hbefore : ∀ z ∈ before, rank z < rank x)
    (h : ∀ capped > 0, sortBy rank (l.foldl (keep key capped) #[]).toList = (sortBy rank l).take capped)
    : False := by
  have hsorted := perm_sortBy rank l
  have hmem : ∀ z ∈ before ++ x :: y :: after, z ∈ l := by
    intro z hz
    rw [← hsplit] at hz
    exact hsorted.mem_iff.mp hz
  have hnodup : (before ++ x :: y :: after).Nodup := by
    rw [← hsplit]
    exact hsorted.nodup_iff.mpr hl
  have hperm (capped : Nat) (hcapped : capped > 0)
      : (l.foldl (keep key capped) #[]).toList.Perm ((before ++ x :: y :: after).take capped) := by
    rw [← hsplit, ← h capped hcapped]
    exact (perm_sortBy rank _).symm
  have hless : key y ≤ key x := by
    obtain ⟨dropped, hkept⟩ := exists_kept key (Nat.succ_pos before.length) l
    have hone := hperm (before.length + 1) (Nat.succ_pos _)
    have htake : (before ++ x :: y :: after).take (before.length + 1) = before ++ [x] := by
      rw [List.take_append]
      simp
    rw [htake] at hone
    apply hkept.le x (hone.mem_iff.mpr (by simp)) y
    have hall := hkept.perm.mem_iff.mpr (hmem y (by simp))
    rw [List.mem_append, hone.mem_iff] at hall
    apply hall.resolve_left
    intro hy
    rw [List.nodup_append, List.nodup_cons] at hnodup
    rcases List.mem_append.mp hy with hy | hy
    . exact hnodup.2.2 y hy y (by simp) rfl
    . rw [List.mem_singleton] at hy
      exact hnodup.2.1.1 (by rw [← hy]; simp)
  have hxy : x ≠ y := by
    rintro rfl
    rw [List.nodup_append, List.nodup_cons] at hnodup
    exact hnodup.2.1.1 (by simp)
  obtain ⟨dropped, hkept⟩ := exists_kept key (Nat.succ_pos (before.length + 1)) l
  have htwo := hperm (before.length + 2) (Nat.succ_pos _)
  have hcut := h (before.length + 2) (Nat.succ_pos _)
  have htake : (before ++ x :: y :: after).take (before.length + 2) = before ++ [x, y] := by
    rw [List.take_append]
    simp
  rw [htake] at htwo
  rw [hsplit, htake] at hcut
  cases hlist : (l.foldl (keep key (before.length + 2)) #[]).toList with
  | nil =>
    rw [hlist] at htwo
    have hlength := htwo.length_eq
    simp at hlength
  | cons root rest =>
    have hroot : (l.foldl (keep key (before.length + 2)) #[])[0]? = some root := by
      rw [← Array.getElem?_toList, hlist]
      rfl
    have hleast : ∀ z ∈ before ++ [x, y], key root ≤ key z := by
      intro z hz
      exact hkept.isHeap.root_le hroot (htwo.mem_iff.mpr hz)
    have hrootMem : root ∈ before ++ [x, y] := by
      rw [← htwo.mem_iff, hlist]
      exact List.mem_cons_self
    have hy : root = y := by
      rw [List.mem_append, List.mem_cons, List.mem_singleton] at hrootMem
      rcases hrootMem with hbad | rfl | rfl
      . exact absurd (hleast x (by simp)) (not_le.mpr (hrank _ _ (hbefore root hbad)))
      . exact absurd (hkey _ (hmem root (by simp)) y (hmem y (by simp)) (le_antisymm (hleast y (by simp)) hless)) hxy
      . rfl
    subst hy
    have hx : x ∈ rest := by
      have hmem' := htwo.mem_iff.mpr (show x ∈ before ++ [x, root] by simp)
      rw [hlist, List.mem_cons] at hmem'
      exact hmem'.resolve_left hxy
    have hsub : [root, x].Sublist (root :: rest) := (List.singleton_sublist.mpr hx).cons_cons root
    have hswapped : [root, x].Sublist (sortBy rank (root :: rest)) := sublist_sortBy hsub htie.ge
    rw [← hlist, hcut] at hswapped
    have hpairs : (before ++ [x, root]).Pairwise fun a b => ¬(a = root ∧ b = x) := by
      rw [List.pairwise_append]
      have hnodup' := hnodup
      rw [List.nodup_append] at hnodup'
      refine ⟨?_, ?_, ?_⟩
      . apply List.pairwise_of_forall_mem_list
        rintro a ha b hb ⟨rfl, rfl⟩
        exact hnodup'.2.2 a ha a (by simp) rfl
      . simp [hxy]
      . rintro a ha b hb ⟨rfl, rfl⟩
        exact hnodup'.2.2 a ha a (by simp) rfl
    have hpair := hpairs.sublist hswapped
    rw [List.pairwise_cons] at hpair
    exact hpair.1 x (by simp) ⟨rfl, rfl⟩

theorem forall_take_iff (hl : l.Nodup) (hkey : ∀ a ∈ l, ∀ b ∈ l, key a = key b → a = b)
    : (∀ capped > 0, sortBy rank (l.foldl (keep key capped) #[]).toList = (sortBy rank l).take capped)
        ↔
      ∀ a ∈ l, ∀ b ∈ l, rank a = rank b → a = b := by
  constructor
  . intro h a ha b hb htie
    by_contra hne
    have hperm := perm_sortBy rank l
    have hnot := not_pairwise_of_tie (hperm.mem_iff.mpr ha) (hperm.mem_iff.mpr hb) hne htie
    obtain ⟨before, x, y, after, hsplit, htie', hbefore⟩ := exists_first_tie (pairwise_sortBy rank l) hnot
    exact not_forall_take hrank hl hkey hsplit htie' hbefore h
  . intro hdistinct capped hcapped
    obtain ⟨dropped, hkept⟩ := exists_kept key hcapped l
    exact hkept.sortBy_eq_take hrank hdistinct

end Ranked

end Heap
