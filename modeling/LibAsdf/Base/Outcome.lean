import Mathlib.Logic.Basic
import Mathlib.Tactic.ByContra

/-!
# Outcomes of imperative code

A run of a piece of imperative code returns a value, faults (it does something
its language leaves undefined, or an assertion fails), or has not returned
within the loop iterations it was given.

* `wp F T Q`: the weakest precondition reading of an outcome, with what faults
  are allowed (`F`), whether running out of iterations is (`T`), and what a
  returned value satisfies (`Q`);
* `loop`: a `while` loop with early exits, run for at most `n` iterations;
* `wp_loop`: the invariant rule; `wp_loop_within`, `wp_loop_total`: the variant
  rule; `wp_loop_first`: the rule for a loop that is to exit at once;
* `loop_stuck`: a loop whose body gives its state back never returns;
* `Counted`: a loop that goes a known number of rounds, with `loop_within` and
  `no_fault_iff`.
-/

/-- What a run yields. -/
inductive Outcome (ε α : Type) where
  | ret (a : α)
  | fault (e : ε)
  | timeout
  deriving DecidableEq, Repr

namespace Outcome

variable {ε α β σ : Type}

protected def bind (x : Outcome ε α) (f : α → Outcome ε β) : Outcome ε β :=
  match x with
  | ret a => f a
  | fault e => fault e
  | timeout => timeout

instance : Monad (Outcome ε) where
  pure := ret
  bind := Outcome.bind

@[simp] theorem pure_eq (a : α) : (pure a : Outcome ε α) = ret a := rfl

@[simp] theorem ret_bind (a : α) (f : α → Outcome ε β) : (ret a >>= f) = f a := rfl

@[simp] theorem fault_bind (e : ε) (f : α → Outcome ε β) : (fault e >>= f) = fault e := rfl

@[simp] theorem timeout_bind (f : α → Outcome ε β) : (timeout >>= f) = timeout := rfl

theorem bind_assoc {γ : Type} (x : Outcome ε α) (f : α → Outcome ε β) (g : β → Outcome ε γ) :
    (x.bind f).bind g = x.bind fun a => (f a).bind g := by
  cases x <;> rfl

theorem bind_eq_ret {x : Outcome ε α} {f : α → Outcome ε β} {b : β} :
    (x >>= f) = ret b ↔ ∃ a, x = ret a ∧ f a = ret b := by
  cases x <;> simp

theorem bind_eq_fault {x : Outcome ε α} {f : α → Outcome ε β} {e : ε} :
    (x >>= f) = fault e ↔ x = fault e ∨ ∃ a, x = ret a ∧ f a = fault e := by
  cases x <;> simp

/-! ## Weakest preconditions -/

def wp (F : ε → Prop) (T : Prop) (Q : α → Prop) : Outcome ε α → Prop
  | ret a => Q a
  | fault e => F e
  | timeout => T

variable {F : ε → Prop} {T : Prop} {Q R : α → Prop}

@[simp] theorem wp_ret (a : α) : wp F T Q (ret a) ↔ Q a := Iff.rfl

@[simp] theorem wp_fault (e : ε) : wp F T Q (fault e) ↔ F e := Iff.rfl

@[simp] theorem wp_timeout : wp F T Q timeout ↔ T := Iff.rfl

theorem wp_bind {x : Outcome ε α} {f : α → Outcome ε β} {P : β → Prop} :
    wp F T P (x >>= f) ↔ wp F T (fun a => wp F T P (f a)) x := by
  cases x <;> simp

theorem wp_mono {x : Outcome ε α} (h : wp F T Q x) (hqr : ∀ a, Q a → R a) : wp F T R x := by
  cases x with
  | ret a => exact hqr a h
  | fault e => exact h
  | timeout => exact h

theorem wp_imp {F' : ε → Prop} {T' : Prop} {x : Outcome ε α} (h : wp F T Q x)
    (hf : ∀ e, F e → F' e) (ht : T → T') : wp F' T' Q x := by
  cases x with
  | ret a => exact h
  | fault e => exact hf e h
  | timeout => exact ht h

/-- Sequencing: what the first part establishes is what the second starts from. -/
theorem wp_seq {x : Outcome ε α} {f : α → Outcome ε β} {P : β → Prop} (hx : wp F T Q x)
    (hf : ∀ a, Q a → wp F T P (f a)) : wp F T P (x >>= f) :=
  wp_bind.mpr (wp_mono hx hf)

theorem wp_and {x : Outcome ε α} (hq : wp F T Q x) (hr : wp F T R x) :
    wp F T (fun a => Q a ∧ R a) x := by
  cases x with
  | ret a => exact ⟨hq, hr⟩
  | fault e => exact hq
  | timeout => exact hq

/-- Two readings of one run: what one of them excludes is excluded. -/
theorem wp_both {F' : ε → Prop} {T' : Prop} {x : Outcome ε α} (hq : wp F T Q x)
    (hr : wp F' T' R x) : wp (fun e => F e ∧ F' e) (T ∧ T') (fun a => Q a ∧ R a) x := by
  cases x with
  | ret a => exact ⟨hq, hr⟩
  | fault e => exact ⟨hq, hr⟩
  | timeout => exact ⟨hq, hr⟩

theorem wp_self {x : Outcome ε α} (h : wp F T Q x) : wp F T (fun a => Q a ∧ x = ret a) x := by
  cases x with
  | ret a => exact ⟨h, rfl⟩
  | fault e => exact h
  | timeout => exact h

theorem wp_of_ret {x : Outcome ε α} {a : α} (h : wp F T Q x) (hx : x = ret a) : Q a := by
  subst hx; exact h

/-- The partial reading: a property of every returned value. -/
theorem wp_partial {x : Outcome ε α} (h : ∀ a, x = ret a → Q a) :
    wp (fun _ => True) True Q x := by
  cases x with
  | ret a => exact h a rfl
  | fault e => trivial
  | timeout => trivial

theorem ne_timeout_of_wp {x : Outcome ε α} (h : wp F False Q x) : x ≠ timeout := by
  rintro rfl; exact h

instance decidableReturns {P : α → Prop} [DecidablePred P] (x : Outcome ε α) :
    Decidable (∃ a, x = ret a ∧ P a) :=
  match x with
  | ret a => decidable_of_iff (P a) ⟨fun h => ⟨a, rfl, h⟩, fun ⟨_, eq, h⟩ => by cases eq; exact h⟩
  | fault _ => isFalse fun ⟨_, eq, _⟩ => nomatch eq
  | timeout => isFalse fun ⟨_, eq, _⟩ => nomatch eq

instance decidableContinues (x : Outcome ε (σ ⊕ β)) : Decidable (∃ s, x = ret (.inl s)) :=
  match x with
  | ret (.inl s) => isTrue ⟨s, rfl⟩
  | ret (.inr _) => isFalse fun ⟨_, eq⟩ => nomatch eq
  | fault _ => isFalse fun ⟨_, eq⟩ => nomatch eq
  | timeout => isFalse fun ⟨_, eq⟩ => nomatch eq

/-! ## Loops -/

/-- Run `body` until it gives a result (`inr`), for at most `n` iterations. -/
def loop (body : σ → Outcome ε (σ ⊕ β)) : Nat → σ → Outcome ε β
  | 0, _ => timeout
  | n + 1, s => body s >>= fun
    | .inl s' => loop body n s'
    | .inr b => ret b

/-- The postcondition of one iteration under an invariant for the next one. -/
def Round (I : σ → Prop) (P : β → Prop) : σ ⊕ β → Prop
  | .inl s => I s
  | .inr b => P b

theorem wp_loop {body : σ → Outcome ε (σ ⊕ β)} {I : σ → Prop} {P : β → Prop}
    (step : ∀ s, I s → wp F True (Round I P) (body s)) :
    ∀ n s, I s → wp F True P (loop body n s) := by
  intro n
  induction n with
  | zero => intro s _; trivial
  | succ n ih =>
    intro s hs
    refine wp_seq (step s hs) fun r hr => ?_
    cases r with
    | inl s' => exact ih s' hr
    | inr b => exact hr

/-- A variant that every repeated iteration lowers: the loop runs out of
iterations only if there are no more of them than the variant. -/
theorem wp_loop_within {body : σ → Outcome ε (σ ⊕ β)} {I : σ → Prop} {P : β → Prop}
    (variant : σ → Nat)
    (step : ∀ s, I s → wp F T (Round (fun s' => I s' ∧ variant s' < variant s) P) (body s)) :
    ∀ n s, I s → wp F (T ∨ n ≤ variant s) P (loop body n s) := by
  intro n
  induction n with
  | zero => exact fun s _ => .inr (Nat.zero_le _)
  | succ n ih =>
    intro s hs
    refine wp_seq (wp_imp (step s hs) (fun _ => id) .inl) fun r hr => ?_
    cases r with
    | inl s' => exact wp_imp (ih s' hr.1) (fun _ => id) (.imp_right fun le => by
        have := hr.2
        omega)
    | inr b => exact hr

theorem wp_loop_total {body : σ → Outcome ε (σ ⊕ β)} {I : σ → Prop} {P : β → Prop}
    (variant : σ → Nat)
    (step : ∀ s, I s → wp F T (Round (fun s' => I s' ∧ variant s' < variant s) P) (body s))
    (n : Nat) (s : σ) (h : I s) (enough : variant s < n) : wp F T P (loop body n s) :=
  wp_imp (wp_loop_within variant step n s h) (fun _ => id)
    (Or.elim · id fun le => absurd le (Nat.not_le_of_lt enough))

/-- A loop that is to exit in its first iteration: it runs out of iterations
only if it has none, or if that iteration goes on. -/
theorem wp_loop_first {body : σ → Outcome ε (σ ⊕ β)} {I : σ → Prop} {P : β → Prop}
    (step : ∀ s, I s → wp F False (Round I P) (body s)) (n : Nat) (s : σ) (h : I s) :
    wp F (n = 0 ∨ ∃ s', body s = ret (.inl s')) P (loop body n s) := by
  cases n with
  | zero => exact .inl rfl
  | succ n =>
    cases eq : body s with
    | ret r =>
      have hr := wp_of_ret (step s h) eq
      rw [loop, eq]
      cases r with
      | inl s' =>
        exact wp_imp (wp_loop (fun s hs => wp_imp (step s hs) (fun _ => id) False.elim) n s' hr)
          (fun _ => id) fun _ => .inr ⟨s', rfl⟩
      | inr b => exact hr
    | fault e =>
      have := step s h
      rw [loop, eq]
      rwa [eq] at this
    | timeout =>
      have := step s h
      rw [eq] at this
      exact this.elim

/-- A loop that exits in its first iteration. -/
theorem wp_loop_once {body : σ → Outcome ε (σ ⊕ β)} {s : σ} {P : β → Prop}
    (exits : ∀ s', body s ≠ ret (.inl s')) (step : wp F True (Round (fun _ => True) P) (body s))
    (n : Nat) : wp F True P (loop body n s) := by
  cases n with
  | zero => trivial
  | succ n =>
    refine wp_seq (wp_self step) fun r hr => ?_
    cases r with
    | inl s' => exact absurd hr.2 (exits s')
    | inr b => exact hr.1

theorem loop_succ (body : σ → Outcome ε (σ ⊕ β)) (n : Nat) (s : σ) :
    loop body (n + 1) s = body s >>= fun
      | .inl s' => loop body n s'
      | .inr b => ret b := rfl

theorem loop_of_continue {body : σ → Outcome ε (σ ⊕ β)} {s s' : σ} (h : body s = ret (.inl s'))
    (n : Nat) : loop body (n + 1) s = loop body n s' := by
  rw [loop_succ, h]; rfl

theorem loop_of_exit {body : σ → Outcome ε (σ ⊕ β)} {s : σ} {b : β} (h : body s = ret (.inr b))
    (n : Nat) : loop body (n + 1) s = ret b := by
  rw [loop_succ, h]; rfl

/-- A body that gives its state back goes round for ever. -/
theorem loop_stuck {body : σ → Outcome ε (σ ⊕ β)} {s : σ} (h : body s = ret (.inl s)) :
    ∀ n, loop body n s = timeout := by
  intro n
  induction n with
  | zero => rfl
  | succ n ih => rw [loop_of_continue h, ih]

/-- The states that iterations lead to. -/
inductive Turns (body : σ → Outcome ε (σ ⊕ β)) (s : σ) : σ → Prop
  | refl : Turns body s s
  | next {t u : σ} : Turns body s t → body t = ret (.inl u) → Turns body s u

theorem Turns.head {body : σ → Outcome ε (σ ⊕ β)} {s t u : σ} (h : body s = ret (.inl t))
    (turns : Turns body t u) : Turns body s u := by
  induction turns with
  | refl => exact .next .refl h
  | next _ step ih => exact .next ih step

/-- A loop that returns has an iteration that exits. -/
theorem exists_exit_of_loop {body : σ → Outcome ε (σ ⊕ β)} {b : β} :
    ∀ {n s}, loop body n s = ret b → ∃ t, Turns body s t ∧ body t = ret (.inr b) := by
  intro n
  induction n with
  | zero => intro s h; cases h
  | succ n ih =>
    intro s h
    rw [loop_succ] at h
    obtain ⟨r, hr, h⟩ := bind_eq_ret.mp h
    cases r with
    | inl s' =>
      obtain ⟨t, turns, exit⟩ := ih h
      exact ⟨t, turns.head hr, exit⟩
    | inr b' =>
      cases h
      exact ⟨s, .refl, hr⟩

/-- A loop that faults has an iteration that does. -/
theorem exists_fault_of_loop {body : σ → Outcome ε (σ ⊕ β)} {e : ε} :
    ∀ {n s}, loop body n s = fault e → ∃ t, Turns body s t ∧ body t = fault e := by
  intro n
  induction n with
  | zero => intro s h; cases h
  | succ n ih =>
    intro s h
    rw [loop_succ] at h
    rcases bind_eq_fault.mp h with h | ⟨r, hr, h⟩
    · exact ⟨s, .refl, h⟩
    · cases r with
      | inl s' =>
        obtain ⟨t, turns, faults⟩ := ih h
        exact ⟨t, turns.head hr, faults⟩
      | inr b => cases h

/-- What every iteration keeps holds wherever iterations lead. -/
theorem Turns.invariant {body : σ → Outcome ε (σ ⊕ β)} {I : σ → Prop}
    (step : ∀ s s', I s → body s = ret (.inl s') → I s') {s t : σ} (turns : Turns body s t)
    (h : I s) : I t := by
  induction turns with
  | refl => exact h
  | next _ eq ih => exact step _ _ ih eq

/-! ## Counted loops -/

/-- A loop that goes `total` rounds: `I j` holds before round `j`, and the round
goes through if `ok j` says so. -/
structure Counted (body : σ → Outcome ε (σ ⊕ β)) (total : Nat) (I : Nat → σ → Prop)
    (ok : Nat → Prop) (P : β → Prop) : Prop where
  next : ∀ j s, j + 1 < total → I j s → ok j → ∃ s', body s = ret (.inl s') ∧ I (j + 1) s'
  last : ∀ j s, j + 1 = total → I j s → ok j → ∃ b, body s = ret (.inr b) ∧ P b
  bad : ∀ j s, j < total → I j s → ¬ ok j → ∃ e, body s = fault e

namespace Counted

variable {body : σ → Outcome ε (σ ⊕ β)} {total : Nat} {I : Nat → σ → Prop} {ok : Nat → Prop}
  {P : β → Prop}

/-- If every round goes through, the loop needs exactly `total` of them. -/
theorem loop_within (h : Counted body total I ok P) (good : ∀ j < total, ok j) :
    ∀ n j s, j < total → I j s →
      if n < total - j then loop body n s = timeout else ∃ b, loop body n s = ret b ∧ P b := by
  intro n
  induction n with
  | zero =>
    intro j s lt _
    rw [if_pos (by omega)]
    rfl
  | succ n ih =>
    intro j s lt inv
    by_cases more : j + 1 < total
    · obtain ⟨s', step, inv'⟩ := h.next j s more inv (good j lt)
      have rest := ih (j + 1) s' more inv'
      rw [loop_of_continue step]
      by_cases few : n + 1 < total - j
      · rw [if_pos (by omega)] at rest
        rwa [if_pos few]
      · rw [if_neg (by omega)] at rest
        rwa [if_neg few]
    · obtain ⟨b, step, post⟩ := h.last j s (by omega) inv (good j lt)
      rw [if_neg (by omega)]
      exact ⟨b, loop_of_exit step n, post⟩

/-- The first round that does not go through is reached, and ends the loop. -/
theorem loop_bad (h : Counted body total I ok P) :
    ∀ k j s, j + k < total → I j s → (∀ i < k, ok (j + i)) → ¬ ok (j + k) →
      ∃ e, loop body (k + 1) s = fault e := by
  intro k
  induction k with
  | zero =>
    intro j s lt inv _ stop
    obtain ⟨e, step⟩ := h.bad j s lt inv stop
    exact ⟨e, by rw [loop_succ, step]; rfl⟩
  | succ k ih =>
    intro j s lt inv good stop
    obtain ⟨s', step, inv'⟩ := h.next j s (by omega) inv (good 0 (Nat.succ_pos k))
    rw [loop_of_continue step]
    apply ih (j + 1) s' (by omega) inv'
    · intro i less
      rw [Nat.add_right_comm]
      exact good (i + 1) (by omega)
    · rwa [Nat.add_right_comm]

/-- The loop faults for no number of rounds just if every round goes through. -/
theorem no_fault_iff (h : Counted body total I ok P) {s : σ} (pos : 0 < total) (inv : I 0 s) :
    (∀ n e, loop body n s ≠ fault e) ↔ ∀ j < total, ok j := by
  constructor
  · intro none j
    induction j using Nat.strongRecOn with
    | ind j ih =>
      intro lt
      by_contra stop
      obtain ⟨e, eq⟩ := h.loop_bad j 0 s (by omega) inv
        (fun i less => by rw [Nat.zero_add]; exact ih i less (by omega))
        (by rwa [Nat.zero_add])
      exact none _ e eq
  · intro good n e eq
    have run := h.loop_within good n 0 s pos inv
    rw [eq] at run
    split at run
    · cases run
    · obtain ⟨b, ret, _⟩ := run
      cases ret

end Counted

end Outcome
