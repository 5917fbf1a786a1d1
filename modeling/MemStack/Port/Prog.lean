import MemStack.Util.Machine

/-!
This module contains programs that talk to their surroundings through ports. A program is the tree
of all the port calls it can make. Its semantics is given relative to an environment that says which
answers are possible and how the outside world changes with a call, and a run may end between any
two calls, because the process was killed. What the program keeps in memory is lost then, what the
environment keeps is not. Several programs may also share one environment, a call of one of them at a time.
-/

namespace Port

structure Ports where
  Query : Type
  Answer : Query → Type

/--
Programs over the ports `P` that return an `α` or fail with an `ε`. The program `cut` is a loop that
is not followed any further, it takes part in finite approximations of unbounded loops only.
-/
inductive Prog (P : Ports) (ε : Type) (α : Type) where
  | ret (a : α)
  | fail (e : ε)
  | cut
  | call (q : P.Query) (k : Except ε (P.Answer q) → Prog P ε α)

namespace Prog

variable {P : Ports} {ε α β γ σ : Type}

def bind : Prog P ε α → (α → Prog P ε β) → Prog P ε β
  | .ret a, f => f a
  | .fail e, _ => .fail e
  | .cut, _ => .cut
  | .call q k, f => .call q fun ans => (k ans).bind f

instance : Monad (Prog P ε) where
  pure := .ret
  bind := bind

def attempt (q : P.Query) : Prog P ε (Except ε (P.Answer q)) :=
  .call q .ret

def ask (q : P.Query) : Prog P ε (P.Answer q) :=
  .call q fun
    | .ok a => .ret a
    | .error e => .fail e

def ofExcept : Except ε α → Prog P ε α
  | .ok a => .ret a
  | .error e => .fail e

def iterate (body : α → Prog P ε (α ⊕ β)) : Nat → α → Prog P ε β
  | 0, _ => .cut
  | fuel + 1, a =>
    (body a).bind fun
      | .inl a => iterate body fuel a
      | .inr b => .ret b

@[simp]
theorem bind_eq (p : Prog P ε α) (f : α → Prog P ε β) : p >>= f = p.bind f := by
  rfl

theorem bind_assoc (p : Prog P ε α) (f : α → Prog P ε β) (g : β → Prog P ε γ)
    : (p.bind f).bind g = p.bind fun a => (f a).bind g := by
  induction p with
  | ret a => rfl
  | fail e => rfl
  | cut => rfl
  | call q k ih => simp only [bind, ih]

@[simp]
theorem pure_eq (a : α) : (pure a : Prog P ε α) = .ret a := by
  rfl

end Prog

/--
An environment over the worlds `σ`: the answers that are possible in a world and the world after a
call was answered.
-/
structure Env (P : Ports) (ε : Type) (σ : Type) where
  allows : σ → (q : P.Query) → Except ε (P.Answer q) → Prop
  next : σ → (q : P.Query) → Except ε (P.Answer q) → σ

namespace Prog

variable {P : Ports} {ε α β γ σ : Type}

/--
`Exec E w p w' r` holds if `p` can run from the world `w` to the world `w'`. The outcome `r` is
`none` if the run was killed there.
-/
inductive Exec (E : Env P ε σ) : σ → Prog P ε α → σ → Option (Except ε α) → Prop where
  | crash (w : σ) (p : Prog P ε α) : Exec E w p w none
  | ret (w : σ) (a : α) : Exec E w (.ret a) w (some (.ok a))
  | fail (w : σ) (e : ε) : Exec E w (.fail e) w (some (.error e))
  | call (w : σ) (q : P.Query) (k : Except ε (P.Answer q) → Prog P ε α)
      (ans : Except ε (P.Answer q)) (w' : σ) (r : Option (Except ε α))
      (hans : E.allows w q ans) (hrest : Exec E (E.next w q ans) (k ans) w' r)
      : Exec E w (.call q k) w' r

/--
`Keeps E G Q w p` holds if every call `p` makes from the world `w` on meets the guarantee `G` and
every regular result meets `Q`.
-/
def Keeps (E : Env P ε σ) (G : σ → (q : P.Query) → Except ε (P.Answer q) → Prop)
    (Q : σ → α → Prop)
    : σ → Prog P ε α → Prop
  | w, .ret a => Q w a
  | _, .fail _ => True
  | _, .cut => True
  | w, .call q k => ∀ ans, E.allows w q ans → G w q ans ∧ Keeps E G Q (E.next w q ans) (k ans)

-- Run `p` with the given answers until it is killed, right after the call that is number `n` among
-- those that `counts` selects. A run that gets to its end before hands over what is left of `n`.
def runUntil (next : σ → (q : P.Query) → Except ε (P.Answer q) → σ)
    (answer : σ → (q : P.Query) → Except ε (P.Answer q)) (counts : P.Query → Bool)
    : Nat → σ → Prog P ε α → σ × Option (Except ε α × Nat)
  | n, w, .ret a => (w, some (.ok a, n))
  | n, w, .fail e => (w, some (.error e, n))
  | _, w, .cut => (w, none)
  | n, w, .call q k =>
    let ans := answer w q
    let w' := next w q ans
    if counts q then
      match n with
      | 0 => (w', none)
      | n + 1 => runUntil next answer counts n w' (k ans)
    else
      runUntil next answer counts n w' (k ans)

-- Run `p` to its end with the given answers.
def eval (next : σ → (q : P.Query) → Except ε (P.Answer q) → σ)
    (answer : σ → (q : P.Query) → Except ε (P.Answer q))
    : σ → Prog P ε α → σ × Option (Except ε α)
  | w, .ret a => (w, some (.ok a))
  | w, .fail e => (w, some (.error e))
  | w, .cut => (w, none)
  | w, .call q k => eval next answer (next w q (answer w q)) (k (answer w q))

section Eval

variable (next : σ → (q : P.Query) → Except ε (P.Answer q) → σ)
  (answer : σ → (q : P.Query) → Except ε (P.Answer q))

theorem eval_bind (w : σ) (p : Prog P ε α) (f : α → Prog P ε β)
    : eval next answer w (p.bind f)
        =
      match eval next answer w p with
      | (w', some (.ok a)) => eval next answer w' (f a)
      | (w', some (.error e)) => (w', some (.error e))
      | (w', none) => (w', none) := by
  induction p generalizing w with
  | ret a => rfl
  | fail e => rfl
  | cut => rfl
  | call q k ih => apply ih

theorem eval_ofExcept (w : σ) (x : Except ε α)
    : eval next answer w (ofExcept x) = (w, some x) := by
  cases x <;> rfl

end Eval

section Keeps

variable {E : Env P ε σ} {G : σ → (q : P.Query) → Except ε (P.Answer q) → Prop}

theorem Keeps.sound {I : σ → Prop} {Q : σ → α → Prop}
    (hstep : ∀ w q ans, I w → E.allows w q ans → G w q ans → I (E.next w q ans))
    {w w' : σ} {p : Prog P ε α} {r : Option (Except ε α)}
    (hI : I w) (hkeeps : Keeps E G Q w p) (hexec : Exec E w p w' r)
    : I w' ∧ ∀ a, r = some (.ok a) → Q w' a := by
  induction hexec with
  | crash w p => simp [hI]
  | ret w a =>
    refine ⟨hI, ?_⟩
    intro a' ha'
    simp only [Option.some.injEq, Except.ok.injEq] at ha'
    subst ha'
    apply hkeeps
  | fail w e => simp [hI]
  | call w q k ans w' r hans hrest ih =>
    have := hkeeps ans hans
    apply ih
    . apply hstep w q ans hI hans this.1
    . apply this.2

theorem Keeps.mono {Q Q' : σ → α → Prop} {w : σ} {p : Prog P ε α} (h : Keeps E G Q w p)
    (hQ : ∀ w a, Q w a → Q' w a)
    : Keeps E G Q' w p := by
  induction p generalizing w with
  | ret a => apply hQ _ _ h
  | fail e => trivial
  | cut => trivial
  | call q k ih =>
    intro ans hans
    have := h ans hans
    refine ⟨this.1, ?_⟩
    apply ih
    apply this.2

@[simp]
theorem keeps_ret (Q : σ → α → Prop) (w : σ) (a : α) : Keeps E G Q w (.ret a) ↔ Q w a := by
  rfl

@[simp]
theorem keeps_bind (Q : σ → β → Prop) (w : σ) (p : Prog P ε α) (f : α → Prog P ε β)
    : Keeps E G Q w (p.bind f) ↔ Keeps E G (fun w a => Keeps E G Q w (f a)) w p := by
  induction p generalizing w with
  | ret a => rfl
  | fail e => simp [bind, Keeps]
  | cut => simp [bind, Keeps]
  | call q k ih => simp only [bind, Keeps, ih]

@[simp]
theorem keeps_attempt (q : P.Query) (Q : σ → Except ε (P.Answer q) → Prop) (w : σ)
    : Keeps E G Q w (attempt q)
        ↔
      ∀ ans, E.allows w q ans → G w q ans ∧ Q (E.next w q ans) ans := by
  rfl

@[simp]
theorem keeps_ask (q : P.Query) (Q : σ → P.Answer q → Prop) (w : σ)
    : Keeps E G Q w (ask q)
        ↔
      (∀ a, E.allows w q (.ok a) → G w q (.ok a) ∧ Q (E.next w q (.ok a)) a) ∧
        ∀ e, E.allows w q (.error e) → G w q (.error e) := by
  simp only [ask, Keeps]
  constructor
  . intro h
    constructor
    . intro a ha
      apply h _ ha
    . intro e he
      apply (h _ he).1
  . intro h ans hans
    cases ans with
    | ok a => apply h.1 a hans
    | error e => exact ⟨h.2 e hans, trivial⟩

theorem keeps_ask_bind {q : P.Query} {k : P.Answer q → Prog P ε β} {Q : σ → β → Prop} {w : σ}
    (hG : ∀ ans, E.allows w q ans → G w q ans)
    (hk : ∀ a, E.allows w q (.ok a) → Keeps E G Q (E.next w q (.ok a)) (k a))
    : Keeps E G Q w ((ask q).bind k) := by
  rw [keeps_bind, keeps_ask]
  constructor
  . intro a ha
    exact ⟨hG _ ha, hk a ha⟩
  . intro e he
    apply hG _ he

theorem keeps_iterate {J : σ → α → Prop} {Q : σ → β → Prop} {body : α → Prog P ε (α ⊕ β)}
    (hbody : ∀ w a, J w a → Keeps E G (fun w r => r.elim (J w) (Q w)) w (body a))
    (fuel : Nat) {w : σ} {a : α} (hJ : J w a)
    : Keeps E G Q w (iterate body fuel a) := by
  induction fuel generalizing w a with
  | zero => trivial
  | succ fuel ih =>
    rw [iterate, keeps_bind]
    apply (hbody w a hJ).mono
    intro w' r hr
    cases r with
    | inl a' =>
      apply ih
      apply hr
    | inr b => apply hr

end Keeps

/--
`Returns E Q w p` holds if `p` always gets to its end from the world `w` on, whatever the answers are,
and every regular result meets `Q`.
-/
def Returns (E : Env P ε σ) (Q : σ → α → Prop) : σ → Prog P ε α → Prop
  | w, .ret a => Q w a
  | _, .fail _ => True
  | _, .cut => False
  | w, .call q k => ∀ ans, E.allows w q ans → Returns E Q (E.next w q ans) (k ans)

section Returns

variable {E : Env P ε σ} {G : σ → (q : P.Query) → Except ε (P.Answer q) → Prop}

@[simp]
theorem returns_bind (Q : σ → β → Prop) (w : σ) (p : Prog P ε α) (f : α → Prog P ε β)
    : Returns E Q w (p.bind f) ↔ Returns E (fun w a => Returns E Q w (f a)) w p := by
  induction p generalizing w with
  | ret a => rfl
  | fail e => simp [bind, Returns]
  | cut => simp [bind, Returns]
  | call q k ih => simp only [bind, Returns, ih]

theorem returns_ask {q : P.Query} {Q : σ → P.Answer q → Prop} {w : σ}
    (hQ : ∀ a, E.allows w q (.ok a) → Q (E.next w q (.ok a)) a)
    : Returns E Q w (ask q) := by
  intro ans hans
  cases ans with
  | ok a => apply hQ a hans
  | error e => trivial

theorem Returns.mono {Q Q' : σ → α → Prop} {w : σ} {p : Prog P ε α} (h : Returns E Q w p)
    (hQ : ∀ w a, Q w a → Q' w a)
    : Returns E Q' w p := by
  induction p generalizing w with
  | ret a => apply hQ _ _ h
  | fail e => trivial
  | cut => cases h
  | call q k ih =>
    intro ans hans
    apply ih
    apply h ans hans

theorem Keeps.returns {Q Q' : σ → α → Prop} {w : σ} {p : Prog P ε α} (hkeeps : Keeps E G Q w p)
    (hreturns : Returns E Q' w p)
    : Returns E Q w p := by
  induction p generalizing w with
  | ret a => exact hkeeps
  | fail e => trivial
  | cut => cases hreturns
  | call q k ih =>
    intro ans hans
    apply ih
    . apply (hkeeps ans hans).2
    . apply hreturns ans hans

theorem returns_iterate {J : σ → α → Prop} {Q : σ → β → Prop} {body : α → Prog P ε (α ⊕ β)}
    (measure : α → Nat)
    (hbody : ∀ w a, J w a →
      Returns E (fun w r => r.elim (fun a' => J w a' ∧ measure a' < measure a) (Q w)) w (body a))
    {fuel : Nat} {w : σ} {a : α} (hfuel : measure a < fuel) (hJ : J w a)
    : Returns E Q w (iterate body fuel a) := by
  induction fuel generalizing w a with
  | zero => omega
  | succ fuel ih =>
    rw [iterate, returns_bind]
    apply (hbody w a hJ).mono
    intro w' r hr
    cases r with
    | inl a' =>
      have hless : measure a' < measure a := hr.2
      apply ih
      . omega
      . apply hr.1
    | inr b => apply hr

end Returns

/--
The worlds that are reached from `w` by running programs one after the other, each of them enabled
in the world it starts from and each possibly killed on the way.
-/
inductive Reaches (E : Env P ε σ) (enabled : σ → Prog P ε α → Prop) (w : σ) : σ → Prop where
  | refl : Reaches E enabled w w
  | step (w₁ w₂ : σ) (p : Prog P ε α) (r : Option (Except ε α))
      (hreach : Reaches E enabled w w₁) (hp : enabled w₁ p) (hexec : Exec E w₁ p w₂ r)
      : Reaches E enabled w w₂

theorem Reaches.inv {E : Env P ε σ} {enabled : σ → Prog P ε α → Prop} {I : σ → Prop}
    (hprog : ∀ w p w' r, I w → enabled w p → Exec E w p w' r → I w')
    {w w' : σ} (hI : I w) (hreach : Reaches E enabled w w')
    : I w' := by
  induction hreach with
  | refl => exact hI
  | step w₁ w₂ p r _ hp hexec ih => apply hprog w₁ p w₂ r ih hp hexec

theorem Exec.of_bind {E : Env P ε σ} {w w' : σ} {p : Prog P ε α} {f : α → Prog P ε β}
    {r : Option (Except ε β)} (h : Exec E w (p.bind f) w' r)
    : (∃ r', Exec E w p w' r') ∨ ∃ w₁ a, Exec E w p w₁ (some (.ok a)) ∧ Exec E w₁ (f a) w' r := by
  induction p generalizing w with
  | ret a => exact .inr ⟨w, a, .ret w a, h⟩
  | fail e =>
    cases h with
    | crash => exact .inl ⟨none, .crash _ _⟩
    | fail => exact .inl ⟨some (.error e), .fail _ e⟩
  | cut =>
    cases h with
    | crash => exact .inl ⟨none, .crash _ _⟩
  | call q k ih =>
    cases h with
    | crash => exact .inl ⟨none, .crash _ _⟩
    | call _ _ _ ans _ _ hans hrest =>
      cases ih ans hrest with
      | inl hkilled =>
        rcases hkilled with ⟨r', hkilled⟩
        exact .inl ⟨r', .call w q k ans w' r' hans hkilled⟩
      | inr hdone =>
        rcases hdone with ⟨w₁, a, hdone, hf⟩
        exact .inr ⟨w₁, a, .call w q k ans w₁ _ hans hdone, hf⟩

theorem exec_runUntil {E : Env P ε σ} {answer : σ → (q : P.Query) → Except ε (P.Answer q)}
    (hanswer : ∀ w q, E.allows w q (answer w q)) (counts : P.Query → Bool) (n : Nat) (w : σ)
    (p : Prog P ε α)
    : Exec E w p (runUntil E.next answer counts n w p).1
        ((runUntil E.next answer counts n w p).2.map Prod.fst) := by
  induction p generalizing n w with
  | ret a => apply Exec.ret
  | fail e => apply Exec.fail
  | cut => apply Exec.crash
  | call q k ih =>
    apply Exec.call w q k (answer w q)
    . apply hanswer w q
    . unfold runUntil
      dsimp only
      split
      . cases n with
        | zero => apply Exec.crash
        | succ n => apply ih
      . apply ih

section RunUntil

variable {next : σ → (q : P.Query) → Except ε (P.Answer q) → σ}
  {answer : σ → (q : P.Query) → Except ε (P.Answer q)} {counts : P.Query → Bool}

theorem runUntil_bind (next : σ → (q : P.Query) → Except ε (P.Answer q) → σ)
    (answer : σ → (q : P.Query) → Except ε (P.Answer q)) (counts : P.Query → Bool) (n : Nat) (w : σ)
    (p : Prog P ε α) (f : α → Prog P ε β)
    : runUntil next answer counts n w (p.bind f)
        =
      match runUntil next answer counts n w p with
      | (w', some (.ok a, m)) => runUntil next answer counts m w' (f a)
      | (w', some (.error e, m)) => (w', some (.error e, m))
      | (w', none) => (w', none) := by
  induction p generalizing n w with
  | ret a => rfl
  | fail e => rfl
  | cut => rfl
  | call q k ih =>
    cases hq : counts q with
    | true =>
      cases n with
      | zero => simp [bind, runUntil, hq]
      | succ n => simp [bind, runUntil, hq, ih]
    | false => simp [bind, runUntil, hq, ih]

theorem runUntil_of_some {n m : Nat} {w w' : σ} {p : Prog P ε α} {r : Except ε α}
    (h : runUntil next answer counts n w p = (w', some (r, m))) (k : Nat)
    : runUntil next answer (fun _ => false) k w p = (w', some (r, k)) := by
  induction p generalizing n w with
  | ret a =>
    simp only [runUntil, Prod.mk.injEq, Option.some.injEq] at h ⊢
    exact ⟨h.1, h.2.1, trivial⟩
  | fail e =>
    simp only [runUntil, Prod.mk.injEq, Option.some.injEq] at h ⊢
    exact ⟨h.1, h.2.1, trivial⟩
  | cut => simp [runUntil] at h
  | call q k' ih =>
    unfold runUntil at h ⊢
    dsimp only at h ⊢
    split at h
    . cases n with
      | zero => simp at h
      | succ n => apply ih _ h
    . apply ih _ h

end RunUntil

end Prog

structure Pool (P : Ports) (ε α σ : Type) where
  world : σ
  threads : List (Prog P ε α)

namespace Pool

variable {P : Ports} {ε α σ : Type}

section Step

variable (next : σ → (q : P.Query) → Except ε (P.Answer q) → σ)
  (answer : σ → (q : P.Query) → Except ε (P.Answer q))

def step (pool : Pool P ε α σ) (i : Nat) : Pool P ε α σ × Unit :=
  match pool.threads[i]? with
  | some (.call q k) =>
    ({ world := next pool.world q (answer pool.world q)
       threads := pool.threads.set i (k (answer pool.world q)) }, ())
  | _ => (pool, ())

end Step

def AllReturned (pool : Pool P ε α σ) : Prop :=
  ∀ p ∈ pool.threads, ∃ a, p = .ret a

def SomeFailed (pool : Pool P ε α σ) : Prop :=
  ∃ e, .fail e ∈ pool.threads

theorem AllReturned.not_someFailed {pool : Pool P ε α σ} (h : pool.AllReturned)
    : ¬ pool.SomeFailed := by
  intro hfailed
  rcases hfailed with ⟨e, he⟩
  rcases h _ he with ⟨a, ha⟩
  cases ha

variable {next : σ → (q : P.Query) → Except ε (P.Answer q) → σ}
  {answer : σ → (q : P.Query) → Except ε (P.Answer q)} {pool : Pool P ε α σ} {i : Nat}

theorem step_call {q : P.Query} {k : Except ε (P.Answer q) → Prog P ε α}
    (h : pool.threads[i]? = some (.call q k))
    : (step next answer pool i).1
        =
      { world := next pool.world q (answer pool.world q)
        threads := pool.threads.set i (k (answer pool.world q)) } := by
  unfold step
  rw [h]

theorem step_idle (h : ∀ q k, pool.threads[i]? ≠ some (.call q k))
    : (step next answer pool i).1 = pool := by
  unfold step
  split
  . next q k heq => exact absurd heq (h q k)
  . rfl

theorem SomeFailed.step (h : pool.SomeFailed) : (step next answer pool i).1.SomeFailed := by
  rcases h with ⟨e, he⟩
  by_cases hcall : ∃ q k, pool.threads[i]? = some (.call q k)
  . rcases hcall with ⟨q, k, hcall⟩
    rw [step_call hcall]
    rcases List.mem_iff_getElem?.mp he with ⟨j, hj⟩
    refine ⟨e, List.mem_iff_getElem?.mpr ⟨j, ?_⟩⟩
    rw [List.getElem?_set_ne, hj]
    intro heq
    rw [heq, hj] at hcall
    cases hcall
  . rw [step_idle]
    . exact ⟨e, he⟩
    . intro q k heq
      exact hcall ⟨q, k, heq⟩

end Pool

end Port
