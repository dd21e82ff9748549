import Mathlib.Algebra.BigOperators.Ring.Finset
import Mathlib.Algebra.Order.BigOperators.Group.Finset
import Mathlib.Tactic.Ring

/-!
# Row-major positions

A box of `n` dimensions with `shape d` places in dimension `d`, its places
numbered with the last dimension varying fastest, and the odometer that visits
them in this order.

* `volume`, `position`, `Inside`: the numbering; `position_lt`, `exists_index`
  and `position_inj` say that it is one;
* `stride`, `position_eq_sum`: the position as a sum over the dimensions;
* `advance`: one step of the odometer; `advance_position`: it is the next
  position, until the last one.
-/

namespace RowMajor

variable {shape idx idx' : ℕ → ℕ} {n : ℕ}

def volume (shape : ℕ → ℕ) : ℕ → ℕ
  | 0 => 1
  | n + 1 => volume shape n * shape n

/-- The number of a place among those of the first `n` dimensions. -/
def position (shape idx : ℕ → ℕ) : ℕ → ℕ
  | 0 => 0
  | n + 1 => position shape idx n * shape n + idx n

def Inside (shape idx : ℕ → ℕ) (n : ℕ) : Prop := ∀ d < n, idx d < shape d

theorem Inside.init (h : Inside shape idx (n + 1)) : Inside shape idx n :=
  fun d lt => h d (Nat.lt_succ_of_lt lt)

theorem Inside.last (h : Inside shape idx (n + 1)) : idx n < shape n := h n (Nat.lt_succ_self n)

@[simp] theorem volume_zero (shape : ℕ → ℕ) : volume shape 0 = 1 := rfl

@[simp] theorem position_zero (shape idx : ℕ → ℕ) : position shape idx 0 = 0 := rfl

theorem volume_succ (shape : ℕ → ℕ) (n : ℕ) :
    volume shape (n + 1) = volume shape n * shape n := rfl

theorem position_succ (shape idx : ℕ → ℕ) (n : ℕ) :
    position shape idx (n + 1) = position shape idx n * shape n + idx n := rfl

theorem volume_congr {shape shape' : ℕ → ℕ} (h : ∀ d < n, shape d = shape' d) :
    volume shape n = volume shape' n := by
  induction n with
  | zero => rfl
  | succ n ih =>
    rw [volume_succ, volume_succ, ih fun d lt => h d (Nat.lt_succ_of_lt lt),
      h n (Nat.lt_succ_self n)]

theorem position_congr {idx idx' : ℕ → ℕ} (h : ∀ d < n, idx d = idx' d) :
    position shape idx n = position shape idx' n := by
  induction n with
  | zero => rfl
  | succ n ih =>
    rw [position_succ, position_succ, ih fun d lt => h d (Nat.lt_succ_of_lt lt),
      h n (Nat.lt_succ_self n)]

theorem volume_pos (h : ∀ d < n, 0 < shape d) : 0 < volume shape n := by
  induction n with
  | zero => exact Nat.one_pos
  | succ n ih =>
    exact Nat.mul_pos (ih fun d lt => h d (Nat.lt_succ_of_lt lt)) (h n (Nat.lt_succ_self n))

theorem pos_of_volume_pos (h : 0 < volume shape n) : ∀ d < n, 0 < shape d := by
  induction n with
  | zero => exact fun d lt => absurd lt (Nat.not_lt_zero d)
  | succ n ih =>
    rw [volume_succ] at h
    intro d lt
    rcases Nat.lt_succ_iff_lt_or_eq.mp lt with lt | rfl
    · exact ih (Nat.pos_of_mul_pos_right h) d lt
    · exact Nat.pos_of_mul_pos_left h

theorem volume_mono {shape' : ℕ → ℕ} (h : ∀ d < n, shape d ≤ shape' d) :
    volume shape n ≤ volume shape' n := by
  induction n with
  | zero => exact Nat.le_refl _
  | succ n ih =>
    exact Nat.mul_le_mul (ih fun d lt => h d (Nat.lt_succ_of_lt lt)) (h n (Nat.lt_succ_self n))

theorem position_lt (h : Inside shape idx n) : position shape idx n < volume shape n := by
  induction n with
  | zero => exact Nat.one_pos
  | succ n ih =>
    have lt := ih h.init
    calc position shape idx n * shape n + idx n
        < position shape idx n * shape n + shape n := Nat.add_lt_add_left h.last _
      _ = (position shape idx n + 1) * shape n := (Nat.succ_mul _ _).symm
      _ ≤ volume shape n * shape n := Nat.mul_le_mul_right _ lt

theorem position_add (shape idx idx' : ℕ → ℕ) (n : ℕ) :
    position shape (fun d => idx d + idx' d) n = position shape idx n + position shape idx' n := by
  induction n with
  | zero => rfl
  | succ n ih =>
    simp only [position_succ, ih]
    ring

/-- The place with all indices zero. -/
theorem position_const_zero (shape : ℕ → ℕ) (n : ℕ) : position shape (fun _ => 0) n = 0 := by
  induction n with
  | zero => rfl
  | succ n ih => rw [position_succ, ih, Nat.zero_mul]

theorem position_inj (h : Inside shape idx n) (h' : Inside shape idx' n)
    (eq : position shape idx n = position shape idx' n) : ∀ d < n, idx d = idx' d := by
  induction n with
  | zero => exact fun d lt => absurd lt (Nat.not_lt_zero d)
  | succ n ih =>
    rw [position_succ, position_succ] at eq
    have pos : 0 < shape n := Nat.zero_lt_of_lt h.last
    have last : idx n = idx' n := by
      have := congrArg (· % shape n) eq
      simpa only [Nat.mul_add_mod_of_lt, Nat.mul_comm _ (shape n), Nat.mul_add_mod,
        Nat.mod_eq_of_lt h.last, Nat.mod_eq_of_lt h'.last] using this
    have high : position shape idx n = position shape idx' n := by
      rw [last] at eq
      exact Nat.eq_of_mul_eq_mul_right pos (Nat.add_right_cancel eq)
    intro d lt
    rcases Nat.lt_succ_iff_lt_or_eq.mp lt with lt | rfl
    · exact ih h.init h'.init high d lt
    · exact last

/-- The first dimension split off. -/
theorem volume_front (shape : ℕ → ℕ) (n : ℕ) :
    volume shape (n + 1) = shape 0 * volume (fun d => shape (d + 1)) n := by
  induction n with
  | zero => rw [volume_succ, volume_zero, volume_zero, Nat.mul_comm]
  | succ n ih => rw [volume_succ, ih, volume_succ, Nat.mul_assoc]

theorem position_front (shape idx : ℕ → ℕ) (n : ℕ) :
    position shape idx (n + 1) = idx 0 * volume (fun d => shape (d + 1)) n +
      position (fun d => shape (d + 1)) (fun d => idx (d + 1)) n := by
  induction n with
  | zero => simp [position_succ]
  | succ n ih =>
    rw [position_succ, ih, volume_succ, position_succ]
    ring

/-- The last place. -/
theorem position_last_iff (h : Inside shape idx n) :
    position shape idx n + 1 = volume shape n ↔ ∀ d < n, idx d + 1 = shape d := by
  induction n with
  | zero => exact ⟨fun _ d lt => absurd lt (Nat.not_lt_zero d), fun _ => rfl⟩
  | succ n ih =>
    have high := position_lt h.init
    have low := h.last
    have split : position shape idx n * shape n + shape n ≤ volume shape n * shape n := by
      rw [← Nat.succ_mul]
      exact Nat.mul_le_mul_right _ high
    rw [position_succ, volume_succ]
    constructor
    · intro eq
      have last : idx n + 1 = shape n := by omega
      have rest : position shape idx n + 1 = volume shape n := by
        apply Nat.eq_of_mul_eq_mul_right (Nat.zero_lt_of_lt low)
        rw [Nat.succ_mul]
        omega
      intro d lt
      rcases Nat.lt_succ_iff_lt_or_eq.mp lt with lt | rfl
      · exact (ih h.init).mp rest d lt
      · exact last
    · intro all
      have rest := (ih h.init).mpr fun d lt => all d (Nat.lt_succ_of_lt lt)
      have last := all n (Nat.lt_succ_self n)
      rw [← rest, Nat.succ_mul]
      omega

/-- The places of a row in the last dimension, for a box inside a box. -/
theorem position_row_le {box origin : ℕ → ℕ}
    (bounds : ∀ d < n + 1, origin d + shape d ≤ box d) (h : Inside shape idx n) (zero : idx n = 0) :
    position box (fun d => origin d + idx d) (n + 1) + shape n ≤ volume box (n + 1) := by
  have below : Inside box (fun d => origin d + idx d) n := by
    intro d lt
    have := bounds d (Nat.lt_succ_of_lt lt)
    have := h d lt
    simp only
    omega
  have high := Nat.mul_le_mul_right (box n) (position_lt below)
  have last := bounds n (Nat.lt_succ_self n)
  rw [Nat.succ_mul] at high
  rw [position_succ, volume_succ, zero]
  omega

/-! ## Strides -/

/-- The places that one step in dimension `d` skips. -/
def stride (shape : ℕ → ℕ) (d : ℕ) : ℕ → ℕ
  | 0 => 1
  | n + 1 => if d < n then stride shape d n * shape n else 1

theorem stride_last (shape : ℕ → ℕ) (d : ℕ) : stride shape d (d + 1) = 1 :=
  if_neg (Nat.lt_irrefl d)

theorem stride_succ (shape : ℕ → ℕ) {d n : ℕ} (lt : d < n) :
    stride shape d (n + 1) = stride shape d n * shape n := if_pos lt

/-- The strides from the last dimension down. -/
theorem stride_down (shape : ℕ → ℕ) {d n : ℕ} (lt : d + 1 < n) :
    stride shape d n = stride shape (d + 1) n * shape (d + 1) := by
  induction n with
  | zero => exact absurd lt (Nat.not_lt_zero _)
  | succ n ih =>
    rw [stride_succ shape (Nat.lt_of_succ_lt_succ lt)]
    rcases Nat.lt_succ_iff_lt_or_eq.mp lt with inner | rfl
    · rw [ih inner, stride_succ shape inner]
      ring
    · rw [stride_last, stride_last]

/-- A stride and the dimensions up to its own make the whole box. -/
theorem volume_mul_stride (shape : ℕ → ℕ) {d n : ℕ} (lt : d < n) :
    volume shape (d + 1) * stride shape d n = volume shape n := by
  induction n with
  | zero => exact absurd lt (Nat.not_lt_zero _)
  | succ n ih =>
    rcases Nat.lt_succ_iff_lt_or_eq.mp lt with inner | rfl
    · rw [stride_succ shape inner, ← Nat.mul_assoc, ih inner, volume_succ]
    · rw [stride_last, Nat.mul_one]

theorem stride_pos {d : ℕ} (lt : d < n) (pos : ∀ e < n, d < e → 0 < shape e) :
    0 < stride shape d n := by
  induction n with
  | zero => exact absurd lt (Nat.not_lt_zero d)
  | succ n ih =>
    rcases Nat.lt_succ_iff_lt_or_eq.mp lt with inner | rfl
    · rw [stride_succ shape inner]
      exact Nat.mul_pos (ih inner fun e less => pos e (Nat.lt_succ_of_lt less))
        (pos n (Nat.lt_succ_self n) inner)
    · rw [stride_last]
      exact Nat.one_pos

theorem stride_le_volume {d : ℕ} (lt : d < n) (pos : ∀ e < n, 0 < shape e) :
    stride shape d n ≤ volume shape n := by
  rw [← volume_mul_stride shape lt]
  exact Nat.le_mul_of_pos_left _ (volume_pos fun e le => pos e (by omega))

theorem position_eq_sum (shape idx : ℕ → ℕ) (n : ℕ) :
    position shape idx n = ∑ d ∈ Finset.range n, idx d * stride shape d n := by
  induction n with
  | zero => rfl
  | succ n ih =>
    rw [Finset.sum_range_succ, stride_last, Nat.mul_one, position_succ, ih, Finset.sum_mul]
    congr 1
    apply Finset.sum_congr rfl
    intro d member
    rw [stride_succ shape (Finset.mem_range.mp member), Nat.mul_assoc]

theorem mul_stride_le_position (shape idx : ℕ → ℕ) {d : ℕ} (lt : d < n) :
    idx d * stride shape d n ≤ position shape idx n := by
  rw [position_eq_sum]
  exact Finset.single_le_sum (f := fun d => idx d * stride shape d n) (fun _ _ => Nat.zero_le _)
    (Finset.mem_range.mpr lt)

/-- The part of a position that one dimension contributes. -/
theorem position_update (shape idx : ℕ → ℕ) {d n : ℕ} (lt : d < n) (a : ℕ) :
    position shape (Function.update idx d a) n =
      position shape (Function.update idx d 0) n + a * stride shape d n := by
  induction n with
  | zero => exact absurd lt (Nat.not_lt_zero _)
  | succ n ih =>
    rw [position_succ, position_succ]
    rcases Nat.lt_succ_iff_lt_or_eq.mp lt with inner | rfl
    · have other : n ≠ d := (Nat.ne_of_lt inner).symm
      rw [ih inner, stride_succ shape inner, Function.update_of_ne other,
        Function.update_of_ne other]
      ring
    · have below : ∀ b, ∀ e < d, Function.update idx d b e = idx e := fun b e le =>
        Function.update_of_ne (Nat.ne_of_lt le) _ _
      rw [position_congr (below a), position_congr (below 0), stride_last, Function.update_self,
        Function.update_self, Nat.mul_one, Nat.add_zero]

/-! ## The odometer -/

/-- The next place of the first `n` dimensions, in row-major order. -/
def advance (shape : ℕ → ℕ) : ℕ → (ℕ → ℕ) → Option (ℕ → ℕ)
  | 0, _ => none
  | n + 1, idx =>
    if idx n + 1 < shape n then some (Function.update idx n (idx n + 1))
    else advance shape n (Function.update idx n 0)

/-- An odometer step leaves the other dimensions alone. -/
theorem advance_frame {d : ℕ} (le : n ≤ d) (h : advance shape n idx = some idx') :
    idx' d = idx d := by
  induction n generalizing idx with
  | zero => cases h
  | succ n ih =>
    have other : d ≠ n := by omega
    rw [advance] at h
    split at h
    · cases h
      exact Function.update_of_ne other _ _
    · rw [ih (by omega) h, Function.update_of_ne other]

theorem advance_position (h : Inside shape idx n) :
    match advance shape n idx with
    | some idx' => Inside shape idx' n ∧ position shape idx' n = position shape idx n + 1
    | none => position shape idx n + 1 = volume shape n := by
  induction n generalizing idx with
  | zero => rfl
  | succ n ih =>
    have init : ∀ a, ∀ d < n, Function.update idx n a d = idx d := fun a d lt =>
      Function.update_of_ne (Nat.ne_of_lt lt) _ _
    rw [advance]
    by_cases room : idx n + 1 < shape n
    · rw [if_pos room]
      constructor
      · intro d lt
        rcases Nat.lt_succ_iff_lt_or_eq.mp lt with lt | rfl
        · rw [init _ d lt]
          exact h.init d lt
        · rwa [Function.update_self]
      · rw [position_succ, position_succ, position_congr (init _), Function.update_self]
        rfl
    · rw [if_neg room]
      have last : idx n + 1 = shape n := by
        have := h.last
        omega
      have reset : Inside shape (Function.update idx n 0) n := by
        intro d lt
        rw [init _ d lt]
        exact h.init d lt
      have carried := ih reset
      rw [position_congr (init _)] at carried
      have value : position shape idx (n + 1) + 1 = (position shape idx n + 1) * shape n := by
        rw [position_succ, Nat.add_assoc, last, Nat.succ_mul]
      cases step : advance shape n (Function.update idx n 0) with
      | none =>
        rw [step] at carried
        simp only at carried ⊢
        rw [value, carried, volume_succ]
      | some idx' =>
        rw [step] at carried
        obtain ⟨inside, next⟩ := carried
        have zero : idx' n = 0 := by
          rw [advance_frame (Nat.le_refl n) step, Function.update_self]
        constructor
        · intro d lt
          rcases Nat.lt_succ_iff_lt_or_eq.mp lt with lt | rfl
          · exact inside d lt
          · rw [zero]
            exact Nat.zero_lt_of_lt h.last
        · rw [value, position_succ, next, zero, Nat.add_zero]

end RowMajor
