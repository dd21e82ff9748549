import LibAsdf.Base.Outcome

/-!
# Machines that produce values step by step

A machine whose step gives the next state, with a value or without one, until
it is exhausted, and the two loops that are run on top of one.

* `Yields`: the values that a machine produces, until it is exhausted;
* `search`: steps up to the first value that passes a test;
* `drain`: searches until one finds nothing;
* `Yields.drain`: a machine that yields a list is drained, every value is tested
  in turn, and the ones found are those that pass.
-/

namespace Outcome

variable {ε σ α : Type}

/-- From a state the machine yields these values and then is exhausted. -/
inductive Yields (step : σ → Option (σ × Option α)) : σ → List α → Prop
  | exhausted {s} (h : step s = none) : Yields step s []
  | silent {s s' l} (h : step s = some (s', none)) (rest : Yields step s' l) : Yields step s l
  | value {s s' a l} (h : step s = some (s', some a)) (rest : Yields step s' l) :
      Yields step s (a :: l)

variable (step : σ → Option (σ × Option α)) (p : α → Bool)

/-- One round: a step, and the test of its value. The values tested are kept. -/
def searchRound (s : List α × σ) : Outcome ε ((List α × σ) ⊕ (List α × Option α × σ)) :=
  match step s.2 with
  | none => ret (.inr (s.1, none, s.2))
  | some (next, none) => ret (.inl (s.1, next))
  | some (next, some a) =>
    if p a then ret (.inr (s.1 ++ [a], some a, next)) else ret (.inl (s.1 ++ [a], next))

/-- The values tested, the first that passes, and the state it leaves. -/
def search (fuel : Nat) (s : σ) : Outcome ε (List α × Option α × σ) :=
  loop (searchRound step p) fuel ([], s)

/-- One search, after the values tested and the values found before. -/
def drainRound (fuel : Nat) (s : (List α × List α) × σ) :
    Outcome ε (((List α × List α) × σ) ⊕ (List α × List α)) := do
  match ← search step p fuel s.2 with
  | (tested, none, _) => ret (.inr (s.1.1 ++ tested, s.1.2))
  | (tested, some a, next) => ret (.inl ((s.1.1 ++ tested, s.1.2 ++ [a]), next))

/-- Every value tested and every value found, in order. -/
def drain (fuel : Nat) (s : σ) : Outcome ε (List α × List α) :=
  loop (drainRound step p fuel) fuel (([], []), s)

variable {step p} {s : σ} {l : List α}

/-- How a search goes on a machine that yields `l`. -/
inductive Searched (step : σ → Option (σ × Option α)) (p : α → Bool) (l : List α) :
    List α × Option α × σ → Prop
  | nothing (none : ∀ a ∈ l, p a = false) (s' : σ) : Searched step p l (l, .none, s')
  | found (before : List α) (a : α) (after : List α) (s' : σ) (split : l = before ++ a :: after)
      (failed : ∀ b ∈ before, p b = false) (passed : p a = true) (rest : Yields step s' after) :
      Searched step p l (before ++ [a], some a, s')

theorem Searched.cons {a : α} {tested : List α} {r : Option α × σ} (failed : p a = false)
    (h : Searched step p l (tested, r)) : Searched step p (a :: l) (a :: tested, r) := by
  cases h with
  | nothing none s' =>
    apply Searched.nothing
    intro b hb
    rcases List.mem_cons.mp hb with rfl | hb
    · exact failed
    · exact none b hb
  | found before c after s' split fails passed rest =>
    apply Searched.found (a :: before) c after s' _ _ passed rest
    · rw [split, List.cons_append]
    · intro b hb
      rcases List.mem_cons.mp hb with rfl | hb
      · exact failed
      · exact fails b hb

theorem Yields.searches (h : Yields step s l) : ∃ tested r, Searched step p l (tested, r) ∧
    ∃ n, ∀ fuel ≥ n, ∀ before,
      (loop (searchRound step p) fuel (before, s) : Outcome ε _) = ret (before ++ tested, r) := by
  induction h with
  | @exhausted s stop =>
    refine ⟨[], (none, s), .nothing (by simp) s, 1, ?_⟩
    intro fuel enough before
    obtain ⟨k, rfl⟩ := Nat.exists_eq_add_of_le' enough
    have round : (searchRound step p (before, s) : Outcome ε _) = ret (.inr (before, none, s)) := by
      simp only [searchRound, stop]
    rw [loop_of_exit round, List.append_nil]
  | @silent s s' l go _ ih =>
    obtain ⟨tested, r, result, n, run⟩ := ih
    refine ⟨tested, r, result, n + 1, ?_⟩
    intro fuel enough before
    obtain ⟨k, rfl⟩ := Nat.exists_eq_add_of_le' enough
    have round : (searchRound step p (before, s) : Outcome ε _) = ret (.inl (before, s')) := by
      simp only [searchRound, go]
    rw [← Nat.add_assoc, loop_of_continue round]
    exact run (k + n) (Nat.le_add_left n k) before
  | @value s s' a l go rest ih =>
    cases test : p a with
    | true =>
      refine ⟨[a], (some a, s'), .found [] a l s' rfl (by simp) test rest, 1, ?_⟩
      intro fuel enough before
      obtain ⟨k, rfl⟩ := Nat.exists_eq_add_of_le' enough
      have round : (searchRound step p (before, s) : Outcome ε _) =
          ret (.inr (before ++ [a], some a, s')) := by
        simp only [searchRound, go, test, ↓reduceIte]
      rw [loop_of_exit round]
    | false =>
      obtain ⟨tested, r, result, n, run⟩ := ih
      refine ⟨a :: tested, r, result.cons test, n + 1, ?_⟩
      intro fuel enough before
      obtain ⟨k, rfl⟩ := Nat.exists_eq_add_of_le' enough
      have round : (searchRound step p (before, s) : Outcome ε _) =
          ret (.inl (before ++ [a], s')) := by
        simp [searchRound, go, test]
      rw [← Nat.add_assoc, loop_of_continue round, run (k + n) (Nat.le_add_left n k)]
      simp

/-- With enough iterations the searches test every value in turn, and find the
ones that pass. -/
theorem Yields.drain (h : Yields step s l) : ∃ n, ∀ fuel ≥ n,
    (drain step p fuel s : Outcome ε _) = ret (l, l.filter p) := by
  suffices runs : ∃ n, ∀ fuel ≥ n, ∀ rounds ≥ n, ∀ tested found,
      (loop (drainRound step p fuel) rounds ((tested, found), s) : Outcome ε _) =
        ret (tested ++ l, found ++ l.filter p) by
    obtain ⟨n, run⟩ := runs
    exact ⟨n, fun fuel enough => run fuel enough fuel enough [] []⟩
  induction len : l.length using Nat.strongRecOn generalizing l s with
  | ind len ih =>
    obtain ⟨tested', r, result, n, run⟩ := h.searches (p := p) (ε := ε)
    cases result with
    | nothing none s' =>
      refine ⟨n + 1, ?_⟩
      intro fuel enough rounds enough' tested found
      obtain ⟨k, rfl⟩ := Nat.exists_eq_add_of_le' enough'
      have none' : l.filter p = [] := by simpa [List.filter_eq_nil_iff] using none
      have round : (drainRound step p fuel ((tested, found), s) : Outcome ε _) =
          ret (.inr (tested ++ l, found)) := by
        simp only [drainRound, search, run fuel (by omega), ret_bind, List.nil_append]
      rw [← Nat.add_assoc, loop_of_exit round, none', List.append_nil]
    | found before a after s' split failed passed rest =>
      subst split
      obtain ⟨m, later⟩ := ih after.length (by rw [← len]; simp; omega) rest rfl
      refine ⟨n + m + 1, ?_⟩
      intro fuel enough rounds enough' tested found
      obtain ⟨k, rfl⟩ := Nat.exists_eq_add_of_le' enough'
      have failed' : before.filter p = [] := by simpa [List.filter_eq_nil_iff] using failed
      have round : (drainRound step p fuel ((tested, found), s) : Outcome ε _) =
          ret (.inl ((tested ++ (before ++ [a]), found ++ [a]), s')) := by
        simp only [drainRound, search, run fuel (by omega), ret_bind, List.nil_append]
      rw [← Nat.add_assoc, loop_of_continue round, later fuel (by omega) _ (by omega)]
      simp [failed', passed]

end Outcome
