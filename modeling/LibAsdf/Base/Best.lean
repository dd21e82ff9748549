import Mathlib.Data.List.Basic

/-!
# The first of the best

A scan over a list that keeps the entry of the highest rank, and among those
the first.

* `outrank`: one step of the scan;
* `FirstBest`: what it is to find;
* `scan_eq_some`, `scan_eq_none`: that it finds it.
-/

variable {α : Type}

/-- Keep the entry found so far unless the next one outranks it. An entry of
rank zero is never taken. -/
def outrank (rank : α → Nat) (best : Option α) (x : α) : Option α :=
  if best.elim 0 rank < rank x then some x else best

/-- `x` is the first among the entries of the highest rank, which is not zero. -/
structure FirstBest (rank : α → Nat) (l : List α) (x : α) : Prop where
  ranked : 0 < rank x
  first : ∃ before after, l = before ++ x :: after ∧ (∀ y ∈ before, rank y < rank x) ∧
    ∀ y ∈ after, rank y ≤ rank x

variable {rank : α → Nat} {l : List α} {x : α}

theorem FirstBest.mem (h : FirstBest rank l x) : x ∈ l := by
  obtain ⟨before, after, rfl, -, -⟩ := h.first
  simp

theorem FirstBest.le (h : FirstBest rank l x) {y : α} (hy : y ∈ l) : rank y ≤ rank x := by
  obtain ⟨before, after, rfl, lower, upper⟩ := h.first
  simp only [List.mem_append, List.mem_cons] at hy
  rcases hy with hy | rfl | hy
  · exact Nat.le_of_lt (lower y hy)
  · exact Nat.le_refl _
  · exact upper y hy

/-- What a scan from the left has kept: nothing while every entry has rank
zero, else the first of the best. -/
def Kept (rank : α → Nat) (l : List α) : Option α → Prop
  | none => ∀ y ∈ l, rank y = 0
  | some x => FirstBest rank l x

theorem kept_concat {best : Option α} (h : Kept rank l best) (y : α) :
    Kept rank (l ++ [y]) (outrank rank best y) := by
  unfold outrank
  cases best with
  | none =>
    by_cases positive : 0 < rank y
    · simp only [Option.elim_none, positive, ↓reduceIte]
      refine ⟨positive, l, [], rfl, ?_, by simp⟩
      intro z hz
      have zero : rank z = 0 := h z hz
      omega
    · simp only [Option.elim_none, positive, ↓reduceIte]
      intro z hz
      rcases List.mem_append.mp hz with hz | hz
      · exact h z hz
      · cases List.mem_singleton.mp hz
        omega
  | some x =>
    have best : FirstBest rank l x := h
    by_cases above : rank x < rank y
    · simp only [Option.elim_some, above, ↓reduceIte]
      refine ⟨by omega, l, [], rfl, ?_, by simp⟩
      intro z hz
      exact Nat.lt_of_le_of_lt (best.le hz) above
    · simp only [Option.elim_some, above, ↓reduceIte]
      obtain ⟨before, after, rfl, lower, upper⟩ := best.first
      refine ⟨best.ranked, before, after ++ [y], by simp, lower, ?_⟩
      intro z hz
      rcases List.mem_append.mp hz with hz | hz
      · exact upper z hz
      · cases List.mem_singleton.mp hz
        omega

theorem kept_foldl {best : Option α} (h : Kept rank l best) (rest : List α) :
    Kept rank (l ++ rest) (rest.foldl (outrank rank) best) := by
  induction rest generalizing l best with
  | nil => simpa using h
  | cons y rest ih =>
    have next := ih (kept_concat h y)
    rw [List.append_assoc] at next
    exact next

theorem kept_scan (rank : α → Nat) (l : List α) : Kept rank l (l.foldl (outrank rank) none) :=
  have empty : Kept rank [] none := by
    intro y hy
    simp at hy
  kept_foldl empty l

theorem FirstBest.unique {z : α} (h : FirstBest rank l x) (h' : FirstBest rank l z) : x = z := by
  obtain ⟨before, after, eq, lower, -⟩ := h.first
  obtain ⟨before', after', eq', lower', -⟩ := h'.first
  have same := eq.symm.trans eq'
  rcases List.append_eq_append_iff.mp same with ⟨mid, rfl, tail⟩ | ⟨mid, rfl, tail⟩
  · cases mid with
    | nil => simp at tail; exact tail.1
    | cons y mid =>
      simp only [List.cons_append, List.cons.injEq] at tail
      have := lower' x (by simp [tail.1])
      have := h.le h'.mem
      omega
  · cases mid with
    | nil => simp at tail; exact tail.1.symm
    | cons y mid =>
      simp only [List.cons_append, List.cons.injEq] at tail
      have := lower z (by simp [tail.1])
      have := h'.le h.mem
      omega

/-- The scan finds the first of the best, and nothing else. -/
theorem scan_eq_some : l.foldl (outrank rank) none = some x ↔ FirstBest rank l x := by
  have kept := kept_scan rank l
  constructor
  · intro eq
    rwa [eq] at kept
  · intro best
    cases eq : l.foldl (outrank rank) none with
    | none =>
      rw [eq] at kept
      have zero : rank x = 0 := kept x best.mem
      have positive := best.ranked
      omega
    | some z =>
      rw [eq] at kept
      exact congrArg some (FirstBest.unique kept best)

theorem scan_eq_none : l.foldl (outrank rank) none = none ↔ ∀ y ∈ l, rank y = 0 := by
  have kept := kept_scan rank l
  constructor
  · intro eq
    rwa [eq] at kept
  · intro zero
    cases eq : l.foldl (outrank rank) none with
    | none => rfl
    | some z =>
      have positive := (scan_eq_some.mp eq).ranked
      have := zero z (scan_eq_some.mp eq).mem
      omega
