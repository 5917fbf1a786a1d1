import Mathlib

/-!
This module contains what a single pass over a list finds stale: an element that is stale on its own, or that uses
an element found stale before.
-/

namespace OnePass

variable {α : Type} (own : α → Prop) (uses : α → α → Prop)

/--
An element is reached by the pass where a chain of uses leads from it to an element that is stale on its
own, every step of which goes back to an earlier place of the list.
-/
inductive Reached (l : List α) : α → Prop where
  | own {a : α} (hmem : a ∈ l) (h : own a) : Reached l a
  | step {a b : α} {before after : List α} (hsplit : l = before ++ a :: after) (hbefore : b ∈ before)
    (huses : uses a b) (h : Reached l b) : Reached l a

variable {own uses} {l : List α} {a x : α}

theorem Reached.mem (h : Reached own uses l x) : x ∈ l := by
  cases h with
  | own hmem _ => exact hmem
  | step hsplit _ _ _ =>
    rw [hsplit]
    simp

theorem Reached.concat (h : Reached own uses l x) : Reached own uses (l ++ [a]) x := by
  induction h with
  | own hmem hown => exact .own (List.mem_append_left _ hmem) hown
  | @step x b before after hsplit hbefore huses _ ih =>
    have hsplit' : l ++ [a] = before ++ x :: (after ++ [a]) := by
      rw [hsplit, List.append_assoc, List.cons_append]
    exact .step hsplit' hbefore huses ih

theorem reached_concat (hnodup : (l ++ [a]).Nodup)
    : Reached own uses (l ++ [a]) x
      ↔ Reached own uses l x ∨ x = a ∧ (own a ∨ ∃ b, Reached own uses l b ∧ uses a b) := by
  have hnew : a ∉ l := by
    rw [List.nodup_append] at hnodup
    intro hmem
    exact hnodup.2.2 a hmem a (List.mem_singleton_self a) rfl
  constructor
  . intro h
    induction h with
    | own hmem hown =>
      rw [List.mem_append, List.mem_singleton] at hmem
      obtain hmem | rfl := hmem
      . exact .inl (.own hmem hown)
      . exact .inr ⟨rfl, .inl hown⟩
    | @step x b before after hsplit hbefore huses _ ih =>
      cases after using List.reverseRecOn with
      | nil =>
        obtain ⟨hl, hx⟩ := List.append_inj' hsplit rfl
        rw [List.cons.injEq] at hx
        rw [← hl] at hbefore
        obtain hb | ⟨rfl, _⟩ := ih
        . rw [← hx.1] at huses
          exact .inr ⟨hx.1.symm, .inr ⟨b, hb, huses⟩⟩
        . contradiction
      | append_singleton after c =>
        rw [← List.cons_append, ← List.append_assoc] at hsplit
        obtain ⟨hl, _⟩ := List.append_inj' hsplit rfl
        obtain hb | ⟨rfl, _⟩ := ih
        . exact .inl (.step hl hbefore huses hb)
        . apply absurd _ hnew
          rw [hl]
          exact List.mem_append_left _ hbefore
  . rintro (h | ⟨rfl, hown | ⟨b, hb, huses⟩⟩)
    . exact h.concat
    . exact .own (by simp) hown
    . exact .step rfl hb.mem huses hb.concat

end OnePass

namespace Until

variable {α : Type}

def visited (ok : α → Bool) : List α → List α
  | [] => []
  | a :: l => a :: if ok a then visited ok l else []

variable {ok : α → Bool} {l l' : List α}

theorem visited_append
    : visited ok (l ++ l') = visited ok l ++ if l.all ok then visited ok l' else [] := by
  induction l with
  | nil => simp [visited]
  | cons a l ih =>
    rw [List.cons_append, visited, visited, ih, List.all_cons]
    cases ok a with
    | true => simp
    | false => simp

theorem visited_eq_self : visited ok l = l ↔ ∀ a ∈ l.dropLast, ok a := by
  induction l with
  | nil => simp [visited]
  | cons a l ih =>
    cases l with
    | nil => simp [visited]
    | cons b l =>
      rw [visited, List.cons_inj_right, List.dropLast_cons_of_ne_nil (List.cons_ne_nil b l), List.forall_mem_cons]
      cases hok : ok a with
      | true => simp [ih]
      | false => simp

end Until
