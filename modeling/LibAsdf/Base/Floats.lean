import Mathlib.Tactic.Linarith
import Mathlib.Data.Rat.Cast.Order

/-!
# Binary floating-point values

A float as the dyadic rational that it is, or as what else it is.

* `truncate`: a dyadic number without its fraction;
* `FloatValue`, `FloatValue.lt`: values, and how they compare;
* `FloatFormat`: the values in memory, and what an integer is rounded to.
-/

namespace LibAsdf

/-! ## Truncation -/

/-- The number without its fraction. -/
def truncate (x : Dyadic) : Int := if 0 ≤ x then x.toRat.floor else x.toRat.ceil

section Truncation

variable {x : Dyadic} {z : Int}

theorem dyadic_lt_int_iff : x < (z : Dyadic) ↔ x.toRat < z := by
  rw [← Dyadic.toRat_lt_toRat_iff, Dyadic.toRat_intCast]

theorem int_lt_dyadic_iff : (z : Dyadic) < x ↔ z < x.toRat := by
  rw [← Dyadic.toRat_lt_toRat_iff, Dyadic.toRat_intCast]

theorem int_lt_int_iff {y : Int} : (y : Dyadic) < (z : Dyadic) ↔ y < z := by
  rw [int_lt_dyadic_iff, Dyadic.toRat_intCast]
  exact Int.cast_lt

theorem dyadic_nonneg_iff : 0 ≤ x ↔ 0 ≤ x.toRat := by
  rw [← Dyadic.toRat_le_toRat_iff, Dyadic.toRat_zero]

/-- A truncation is below a bound that is not positive when the number is not
above the integer before it. -/
theorem truncate_lt_iff (bound : z ≤ 0) : truncate x < z ↔ ¬ ((z - 1 : Int) : Dyadic) < x := by
  have whole : (z : Rat) ≤ 0 := by exact_mod_cast bound
  rw [int_lt_dyadic_iff]
  push_cast
  unfold truncate
  by_cases nonneg : 0 ≤ x
  · rw [if_pos nonneg]
    have nonneg := dyadic_nonneg_iff.mp nonneg
    constructor
    · intro less
      have less := Rat.floor_lt_iff.mp less
      linarith
    · intro least
      exact (least (by linarith)).elim
  · rw [if_neg nonneg, not_lt]
    constructor
    · intro less
      have upper := Rat.ceil_le_iff.mp (Int.le_sub_one_of_lt less)
      push_cast at upper
      exact upper
    · intro upper
      apply Int.lt_of_le_sub_one
      apply Rat.ceil_le_iff.mpr
      push_cast
      exact upper

/-- A truncation is above a bound that is not negative when the number is not below
the integer after it. -/
theorem lt_truncate_iff (bound : 0 ≤ z) : z < truncate x ↔ ¬ x < ((z + 1 : Int) : Dyadic) := by
  have whole : (0 : Rat) ≤ z := by exact_mod_cast bound
  rw [dyadic_lt_int_iff]
  push_cast
  unfold truncate
  by_cases nonneg : 0 ≤ x
  · rw [if_pos nonneg, not_lt]
    constructor
    · intro more
      have lower := Rat.le_floor_iff.mp (Int.add_one_le_of_lt more)
      push_cast at lower
      exact lower
    · intro lower
      apply Int.lt_of_add_one_le
      apply Rat.le_floor_iff.mpr
      push_cast
      exact lower
  · rw [if_neg nonneg]
    have negative := not_le.mp fun le => nonneg (dyadic_nonneg_iff.mpr le)
    constructor
    · intro more
      have lower := Rat.lt_ceil_iff.mp more
      linarith
    · intro most
      exact (most (by linarith)).elim

end Truncation

/-! ## Values -/

inductive FloatValue where
  | nan
  | inf (negative : Bool)
  | finite (x : Dyadic)
  deriving DecidableEq

/-- The comparison with `<`. -/
def FloatValue.lt : FloatValue → FloatValue → Bool
  | .nan, _ | _, .nan => false
  | .inf negative, .inf negative' => negative && !negative'
  | .inf negative, .finite _ => negative
  | .finite _, .inf negative => !negative
  | .finite x, .finite y => decide (x < y)

/-! ## Formats -/

/-- A binary interchange format: a sign, an exponent and a fraction. -/
structure FloatFormat where
  exponentBits : Nat
  fractionBits : Nat
  deriving DecidableEq

/-- The integer of `digits` binary digits and zeros that is nearest, the even one at
a tie. -/
def roundDigits (digits n : Nat) : Nat :=
  let unit := 2 ^ (n.log2 + 1 - digits)
  let rest := 2 * (n % unit)
  if unit < rest ∨ unit = rest ∧ n / unit % 2 = 1 then (n / unit + 1) * unit else n / unit * unit

namespace FloatFormat

def binary32 : FloatFormat := ⟨8, 23⟩

def binary64 : FloatFormat := ⟨11, 52⟩

def bias (f : FloatFormat) : Nat := 2 ^ (f.exponentBits - 1) - 1

/-- The value of a bit pattern. -/
def decode (f : FloatFormat) (bits : Nat) : FloatValue :=
  let fraction := bits % 2 ^ f.fractionBits
  let exponent := bits / 2 ^ f.fractionBits % 2 ^ f.exponentBits
  let negative := decide (bits / 2 ^ (f.exponentBits + f.fractionBits) % 2 = 1)
  if exponent = 2 ^ f.exponentBits - 1 then
    if fraction = 0 then .inf negative else .nan
  else
    let significand : Int := if exponent = 0 then fraction else fraction + 2 ^ f.fractionBits
    let scale : Int := max exponent 1 - f.bias - f.fractionBits
    .finite (.ofIntWithPrec (if negative then -significand else significand) (-scale))

/-- An integer in the format, rounded to nearest. -/
def ofInt (f : FloatFormat) (n : Int) : FloatValue :=
  let magnitude := roundDigits (f.fractionBits + 1) n.natAbs
  if magnitude < 2 ^ (f.bias + 1) then
    .finite ((if n < 0 then -(magnitude : Int) else magnitude : Int) : Dyadic)
  else .inf (decide (n < 0))

end FloatFormat

end LibAsdf
