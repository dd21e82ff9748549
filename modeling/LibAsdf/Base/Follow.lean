import LibAsdf.Base.Outcome

/-!
# Runs that follow a run whose calls do not fail

A run makes calls, and records them. The same run, where some of the calls
fail, ends alike if none of them does, and otherwise gives up.

* `Clear`: none of the calls fails;
* `Grows`: a run adds to the record;
* `Follows`: the two runs;
* `Follows.bind`: what follows them.
-/

namespace Outcome

variable {ε α β γ δ κ : Type}

/-- None of the calls fails, if they are made after `before`. -/
def Clear (fails : List κ → κ → Prop) : List κ → List κ → Prop
  | _, [] => True
  | before, call :: more => ¬ fails before call ∧ Clear fails (before ++ [call]) more

section Clear

variable {fails : List κ → κ → Prop}

theorem clear_append {before calls more : List κ} : Clear fails before (calls ++ more) ↔
    Clear fails before calls ∧ Clear fails (before ++ calls) more := by
  induction calls generalizing before with
  | nil =>
    rw [List.nil_append, List.append_nil]
    exact (and_iff_right trivial).symm
  | cons call calls ih =>
    have rest : Clear fails (before ++ [call]) (calls ++ more) ↔
        Clear fails (before ++ [call]) calls ∧ Clear fails (before ++ [call] ++ calls) more := ih
    rw [List.append_assoc before, List.singleton_append] at rest
    change ¬ _ ∧ Clear fails (before ++ [call]) (calls ++ more) ↔ _
    rw [rest, ← and_assoc]
    rfl

end Clear

/-- The record that a run leaves begins with `before`. -/
def Grows (before : List κ) (calls : α → List κ) (x : Outcome ε α) : Prop :=
  ∀ a, x = .ret a → ∃ more, calls a = before ++ more

theorem grows_ret {before : List κ} {calls : α → List κ} {a : α} (eq : calls a = before) :
    Grows before calls (.ret a : Outcome ε α) := by
  rintro b ⟨⟩
  exact ⟨[], by rw [eq, List.append_nil]⟩

/-- Two steps that add to the record. -/
theorem Grows.bind {before : List κ} {calls : α → List κ} {calls' : β → List κ} {x : Outcome ε α}
    {f : α → Outcome ε β} (h : Grows before calls x)
    (next : ∀ a, x = .ret a → Grows (calls a) calls' (f a)) : Grows before calls' (x >>= f) := by
  intro b run
  obtain ⟨a, first, second⟩ := bind_eq_ret.mp run
  obtain ⟨more, eq⟩ := h a first
  obtain ⟨more', eq'⟩ := next a first b second
  exact ⟨more ++ more', by rw [eq', eq, List.append_assoc]⟩

/-- `y` ends as `x` does, whose calls are recorded, if none of them fails; else it
has `Failed`. -/
def Follows (fails : List κ → κ → Prop) (before : List κ) (calls : α → List κ)
    (Same : α → β → Prop) (Failed : β → Prop) (x : Outcome ε α) (y : Outcome ε β) : Prop :=
  match x with
  | ret a => ∃ more, calls a = before ++ more ∧
      (Clear fails before more → ∃ b, y = .ret b ∧ Same a b) ∧
      (¬ Clear fails before more → ∃ b, y = .ret b ∧ Failed b)
  | fault e => y = .fault e ∨ ∃ b, y = .ret b ∧ Failed b
  | timeout => y = .timeout ∨ ∃ b, y = .ret b ∧ Failed b

namespace Follows

variable {fails : List κ → κ → Prop} {before : List κ} {calls : α → List κ}
  {Same : α → β → Prop} {Failed : β → Prop} {x : Outcome ε α} {y : Outcome ε β}

theorem grows (h : Follows fails before calls Same Failed x y) : Grows before calls x := by
  rintro a rfl
  obtain ⟨more, eq, -⟩ := h
  exact ⟨more, eq⟩

/-- What a run that returns says of the one that it follows. -/
theorem of_ret {b : β} (h : Follows fails before calls Same Failed x (.ret b)) :
    (∃ a more, x = .ret a ∧ calls a = before ++ more ∧ Clear fails before more ∧ Same a b) ∨
      Failed b ∧ ∀ a more, x = .ret a → calls a = before ++ more → ¬ Clear fails before more := by
  cases x with
  | ret a =>
    obtain ⟨more, eq, clear, not⟩ := h
    by_cases all : Clear fails before more
    · obtain ⟨_, ⟨⟩, same⟩ := clear all
      exact .inl ⟨a, more, rfl, eq, all, same⟩
    · obtain ⟨_, ⟨⟩, failed⟩ := not all
      refine .inr ⟨failed, ?_⟩
      rintro a' more' ⟨⟩ eq'
      rw [List.append_cancel_left (eq.symm.trans eq')] at all
      exact all
  | fault e =>
    obtain ⟨⟨⟩⟩ | ⟨_, ⟨⟩, failed⟩ := h
    exact .inr ⟨failed, nofun⟩
  | timeout =>
    obtain ⟨⟨⟩⟩ | ⟨_, ⟨⟩, failed⟩ := h
    exact .inr ⟨failed, nofun⟩

/-- Nothing is called. -/
theorem ret {a : α} {b : β} (same : Same a b) (eq : calls a = before) :
    Follows fails before calls Same Failed (.ret a : Outcome ε α) (.ret b) := by
  refine ⟨[], by rw [eq, List.append_nil], fun _ => ⟨b, rfl, same⟩, ?_⟩
  intro not
  exact absurd trivial not

theorem mono {calls' : α → List κ} {Same' : α → β → Prop} {Failed' : β → Prop}
    (h : Follows fails before calls Same Failed x y) (eq : ∀ a, calls' a = calls a)
    (same : ∀ a b, Same a b → Same' a b) (failed : ∀ b, Failed b → Failed' b) :
    Follows fails before calls' Same' Failed' x y := by
  have give_up (h : ∃ b, y = .ret b ∧ Failed b) : ∃ b, y = .ret b ∧ Failed' b := by
    obtain ⟨b, eq, h⟩ := h
    exact ⟨b, eq, failed b h⟩
  cases x with
  | ret a =>
    obtain ⟨more, eq', clear, not⟩ := h
    refine ⟨more, (eq a).trans eq', ?_, fun h => give_up (not h)⟩
    intro h
    obtain ⟨b, eq, h⟩ := clear h
    exact ⟨b, eq, same a b h⟩
  | fault e => exact h.imp id give_up
  | timeout => exact h.imp id give_up

/-- What is known of the results of the two runs. -/
theorem with_runs (h : Follows fails before calls Same Failed x y) :
    Follows fails before calls (fun a b => Same a b ∧ x = .ret a ∧ y = .ret b) Failed x y := by
  cases x with
  | ret a =>
    obtain ⟨more, eq, clear, not⟩ := h
    refine ⟨more, eq, ?_, not⟩
    intro all
    obtain ⟨b, rfl, same⟩ := clear all
    exact ⟨b, rfl, same, rfl, rfl⟩
  | fault e => exact h
  | timeout => exact h

/-- Two steps: the second adds to the record, and goes no further where the first
has failed. -/
theorem bind {calls' : γ → List κ} {Same' : γ → δ → Prop} {Failed' : δ → Prop}
    {f : α → Outcome ε γ} {g : β → Outcome ε δ}
    (h : Follows fails before calls Same Failed x y)
    (grows : ∀ a, x = .ret a → Grows (calls a) calls' (f a))
    (next : ∀ a b, Same a b → Follows fails (calls a) calls' Same' Failed' (f a) (g b))
    (stop : ∀ b, Failed b → ∃ c, g b = .ret c ∧ Failed' c) :
    Follows fails before calls' Same' Failed' (x >>= f) (y >>= g) := by
  have give_up (h : ∃ b, y = .ret b ∧ Failed b) : ∃ c, (y >>= g) = .ret c ∧ Failed' c := by
    obtain ⟨b, rfl, failed⟩ := h
    exact stop b failed
  cases x with
  | ret a =>
    obtain ⟨more, eq, clear, not⟩ := h
    rw [ret_bind]
    by_cases first : Clear fails before more
    · obtain ⟨b, rfl, same⟩ := clear first
      have again := next a b same
      rw [ret_bind]
      cases run : f a with
      | ret c =>
        rw [run] at again
        obtain ⟨more', eq', clear', not'⟩ := again
        rw [eq] at clear' not'
        refine ⟨more ++ more', by rw [eq', eq, List.append_assoc], ?_, ?_⟩
        · intro all
          exact clear' (clear_append.mp all).2
        · intro some
          exact not' fun second => some (clear_append.mpr ⟨first, second⟩)
      | fault e =>
        rw [run] at again
        exact again
      | timeout =>
        rw [run] at again
        exact again
    · have failed := give_up (not first)
      cases run : f a with
      | ret c =>
        obtain ⟨more', eq'⟩ := grows a rfl c run
        refine ⟨more ++ more', by rw [eq', eq, List.append_assoc], ?_, fun _ => failed⟩
        intro all
        exact absurd (clear_append.mp all).1 first
      | fault e => exact .inr failed
      | timeout => exact .inr failed
  | fault e =>
    obtain rfl | failed := h
    · exact .inl rfl
    · exact .inr (give_up failed)
  | timeout =>
    obtain rfl | failed := h
    · exact .inl rfl
    · exact .inr (give_up failed)

/-- A step that makes no calls, and is the same in both. -/
theorem seq_same {calls' : γ → List κ} {Same' : γ → δ → Prop} {Failed' : δ → Prop} {z : Outcome ε α}
    {f : α → Outcome ε γ} {g : α → Outcome ε δ}
    (next : ∀ a, Follows fails before calls' Same' Failed' (f a) (g a)) :
    Follows fails before calls' Same' Failed' (z >>= f) (z >>= g) := by
  cases z with
  | ret a => exact next a
  | fault e => exact .inl rfl
  | timeout => exact .inl rfl

end Follows

end Outcome
