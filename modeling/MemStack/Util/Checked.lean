import Mathlib

/-!
This module contains computations that go through a series of checks and stop at the first that
fails.
-/

namespace Checked

variable {ε α β : Type}

def ensure (c : Prop) [Decidable c] (error : ε) : Except ε Unit :=
  if c then .ok () else .error error

def distinct [DecidableEq α] (error : α → ε) (seen : List α) : List α → Except ε Unit
  | [] => .ok ()
  | a :: l => if a ∈ seen then .error (error a) else distinct error (a :: seen) l

@[simp]
theorem ensure_eq_ok {c : Prop} [Decidable c] {error : ε} {u : Unit}
    : ensure c error = .ok u ↔ c := by
  unfold ensure
  split <;> simp_all

theorem ensure_pos {c : Prop} [Decidable c] (h : c) (error : ε) : ensure c error = .ok () := by
  rw [ensure_eq_ok]
  exact h

@[simp]
theorem bind_eq_ok {x : Except ε α} {f : α → Except ε β} {b : β}
    : x >>= f = .ok b ↔ ∃ a, x = .ok a ∧ f a = .ok b := by
  cases x <;> simp [bind, Except.bind]

theorem toOption_bind (x : Except ε α) (f : α → Except ε β)
    : (x >>= f).toOption = x.toOption.bind fun a => (f a).toOption := by
  cases x <;> rfl

theorem guarded_eq_ok {c : Prop} [Decidable c] {error : ε} {a b : α}
    : (ensure c error >>= fun _ => pure a) = .ok b ↔ c ∧ b = a := by
  simp only [bind_eq_ok, ensure_eq_ok, exists_const, pure, Except.pure, Except.ok.injEq]
  rw [eq_comm (a := a)]

@[simp]
theorem mapError_eq_ok {ε' : Type} {x : Except ε α} {f : ε → ε'} {a : α}
    : x.mapError f = .ok a ↔ x = .ok a := by
  cases x <;> simp [Except.mapError]

theorem distinct_eq_ok [DecidableEq α] {error : α → ε} {seen l : List α} {u : Unit}
    : distinct error seen l = .ok u ↔ l.Nodup ∧ ∀ a ∈ l, a ∉ seen := by
  induction l generalizing seen with
  | nil => simp [distinct]
  | cons a l ih =>
    unfold distinct
    split
    . next hseen => simp [hseen]
    . next hseen =>
      rw [ih]
      simp only [List.mem_cons, List.nodup_cons]
      grind

end Checked
