import LibAsdf.Base.Floats
import LibAsdf.Base.Rounding

/-!
# Floating-point formats as scales

The values of a format, in the order of their bits: a scale whose steps grow with
the values.

* `FloatFormat.magnitude`, `FloatFormat.scale`: the values without their sign;
* `FloatFormat.nearest`: rounding to the format, up to infinity;
* `nearest_scientific`: so many decimal digits are enough to tell the value;
* `Standard.exists_wider`, `Standard.middles_wider`: a format with more digits has the
  values of another, and the numbers halfway between them;
* `nearest_integer`: and of an integer all of its digits.
-/

namespace LibAsdf

namespace FloatFormat

/-- The significand of the bits without the sign, as an integer. -/
def significand (f : FloatFormat) (m : Nat) : Nat :=
  if m / 2 ^ f.fractionBits = 0 then m else 2 ^ f.fractionBits + m % 2 ^ f.fractionBits

/-- The exponent of its last place. -/
def lastPlace (f : FloatFormat) (m : Nat) : Int :=
  ((m / 2 ^ f.fractionBits - 1 : Nat) : Int) + 1 - f.bias - f.fractionBits

/-- The value of the bits without the sign. -/
def magnitude (f : FloatFormat) (m : Nat) : ℚ := f.significand m * 2 ^ f.lastPlace m

/-- The bits of infinity without the sign. -/
def infinity (f : FloatFormat) : Nat := (2 ^ f.exponentBits - 1) * 2 ^ f.fractionBits

section Magnitude

variable {f : FloatFormat} {m n : Nat}

theorem significand_lt (f : FloatFormat) (m : Nat) :
    f.significand m < 2 * 2 ^ f.fractionBits := by
  have pos : 0 < 2 ^ f.fractionBits := Nat.two_pow_pos _
  rw [significand]
  split
  · rename_i zero
    have := (Nat.div_eq_zero_iff_lt pos).mp zero
    omega
  · have := Nat.mod_lt m pos
    omega

/-- The next value is one unit of the last place further. -/
theorem magnitude_succ (f : FloatFormat) (m : Nat) :
    f.magnitude (m + 1) = (f.significand m + 1) * 2 ^ f.lastPlace m := by
  rw [magnitude, significand, significand, lastPlace, lastPlace]
  have pos : 0 < 2 ^ f.fractionBits := Nat.two_pow_pos _
  generalize 2 ^ f.fractionBits = base at *
  have split := Nat.div_add_mod m base
  have rest := Nat.mod_lt m pos
  by_cases last : m % base + 1 = base
  · -- The fraction is used up: the next value is a power of two
    have eq : m + 1 = base * (m / base + 1) := by
      rw [Nat.mul_add]
      omega
    have quotient : (m + 1) / base = m / base + 1 := by
      rw [eq, Nat.mul_div_cancel_left _ pos]
    have remainder : (m + 1) % base = 0 := by rw [eq, Nat.mul_mod_right]
    rw [quotient, remainder, if_neg (Nat.succ_ne_zero _), Nat.add_zero, Nat.add_sub_cancel]
    cases quotient' : m / base with
    | zero =>
      have digits : (base : ℚ) = m + 1 := by
        rw [quotient', Nat.mul_zero, Nat.zero_add] at split
        rw [split] at last
        exact_mod_cast last.symm
      rw [if_pos rfl, digits, Nat.zero_sub]
    | succ e =>
      have power : ((e + 1 : Nat) : Int) + 1 - f.bias - f.fractionBits =
          (e : Int) + 1 - f.bias - f.fractionBits + 1 := by omega
      have digits : ((base + m % base : Nat) : ℚ) + 1 = base * 2 := by
        have : base + m % base + 1 = base * 2 := by omega
        exact_mod_cast this
      rw [if_neg (Nat.succ_ne_zero e), Nat.add_sub_cancel, power, zpow_add_one₀ (by norm_num),
        digits]
      ring
  · have eq : m + 1 = base * (m / base) + (m % base + 1) := by rw [← Nat.add_assoc, split]
    have less : m % base + 1 < base := Nat.lt_of_le_of_ne rest last
    have quotient : (m + 1) / base = m / base := by
      conv_lhs => rw [eq]
      rw [Nat.mul_add_div pos, Nat.div_eq_of_lt less, Nat.add_zero]
    have remainder : (m + 1) % base = m % base + 1 := by
      conv_lhs => rw [eq]
      rw [Nat.mul_add_mod, Nat.mod_eq_of_lt less]
    rw [quotient, remainder]
    split <;> push_cast <;> ring

theorem magnitude_zero (f : FloatFormat) : f.magnitude 0 = 0 := by
  rw [magnitude, significand, Nat.zero_div, if_pos rfl, Nat.cast_zero, zero_mul]

theorem magnitude_lt_succ (f : FloatFormat) (m : Nat) : f.magnitude m < f.magnitude (m + 1) := by
  have unit : (0 : ℚ) < 2 ^ f.lastPlace m := by positivity
  rw [magnitude_succ, magnitude]
  exact mul_lt_mul_of_pos_right (by linarith) unit

/-- The values of a format in the order of their bits. -/
def scale (f : FloatFormat) : Scale := ⟨f.magnitude, f.magnitude_zero, f.magnitude_lt_succ⟩

/-- The bits, without the sign, of the nearest value of the format, the even bits at
a tie; infinity counts as the value that would come next. -/
def nearest (f : FloatFormat) (q : ℚ) : Nat := f.scale.nearest f.infinity q

theorem nearest_le (f : FloatFormat) {q : ℚ} (nonneg : 0 ≤ q) : f.nearest q ≤ f.infinity :=
  Scale.nearest_le nonneg

theorem nearest_magnitude (le : m ≤ f.infinity) : f.nearest (f.magnitude m) = m :=
  Scale.nearest_value (s := f.scale) le

/-- A number that is off by less than the part of a value that a unit of the last
place is at least. -/
theorem nearest_close {q : ℚ} (pos : 0 < m) (lt : m < f.infinity)
    (near : |q - f.magnitude m| * (4 * 2 ^ f.fractionBits) < f.magnitude m) :
    f.nearest q = m := by
  obtain ⟨k, rfl⟩ := Nat.exists_eq_succ_of_ne_zero pos.ne'
  have digits (n : Nat) : (f.significand n : ℚ) + 1 ≤ 2 * 2 ^ f.fractionBits := by
    exact_mod_cast f.significand_lt n
  have unit (n : Nat) : (0 : ℚ) < 2 ^ f.lastPlace n := by positivity
  have base : (0 : ℚ) < 2 ^ f.fractionBits := by positivity
  -- Both steps next to the value are at least this part of it
  have below : f.magnitude (k + 1) ≤ 2 * 2 ^ f.fractionBits * 2 ^ f.lastPlace k := by
    rw [magnitude_succ]
    exact mul_le_mul_of_nonneg_right (digits k) (unit k).le
  have above : f.magnitude (k + 1) ≤ 2 * 2 ^ f.fractionBits * 2 ^ f.lastPlace (k + 1) := by
    rw [magnitude]
    exact mul_le_mul_of_nonneg_right (by linarith [digits (k + 1)]) (unit (k + 1)).le
  have step : f.magnitude (k + 1) - f.magnitude k = 2 ^ f.lastPlace k := by
    rw [magnitude_succ, magnitude]
    ring
  have step' : f.magnitude (k + 2) - f.magnitude (k + 1) = 2 ^ f.lastPlace (k + 1) := by
    rw [magnitude_succ, magnitude]
    ring
  have near' (u : ℚ) (le : f.magnitude (k + 1) ≤ 2 * 2 ^ f.fractionBits * u) :
      |q - f.magnitude (k + 1)| < u / 2 := by
    by_contra far
    have far := mul_le_mul_of_nonneg_right (not_lt.mp far)
      (by positivity : (0 : ℚ) ≤ 4 * 2 ^ f.fractionBits)
    linarith
  have lower := (abs_lt.mp (near' _ below)).1
  have upper := (abs_lt.mp (near' _ above)).2
  refine Scale.nearest_succ (s := f.scale) lt ?_ ?_
  · change f.magnitude k + f.magnitude (k + 1) < 2 * q
    linarith
  · change 2 * q < f.magnitude (k + 1) + f.magnitude (k + 2)
    linarith

end Magnitude

/-! ## Decimal digits -/

section Digits

variable {f : FloatFormat} {m n prec : Nat}

/-- Digits that tell all values of the format apart are enough to find the value
they were taken from. -/
theorem nearest_scientific (digits : 0 < prec)
    (enough : 2 * 2 ^ f.fractionBits < 10 ^ (prec - 1)) (lt : m < f.infinity) :
    f.nearest (scientificValue prec (scientific prec (f.magnitude m))) = m := by
  rcases Nat.eq_zero_or_pos m with rfl | pos
  · have zero : scientificValue prec (scientific prec (f.magnitude 0)) = f.magnitude 0 := by
      rw [magnitude_zero, scientific, if_pos rfl, scientificValue, Nat.cast_zero, zero_mul]
    rw [zero]
    exact nearest_magnitude lt.le
  have value : 0 < f.magnitude m := by
    rw [← f.magnitude_zero]
    exact f.scale.strictMono pos
  have near := scientific_near value digits
  refine nearest_close pos lt ?_
  have enough : (2 * 2 ^ f.fractionBits : ℚ) < 10 ^ (prec - 1) := by exact_mod_cast enough
  generalize scientificValue prec (scientific prec (f.magnitude m)) - f.magnitude m = off at near ⊢
  rcases (abs_nonneg off).eq_or_lt with none | more
  · rw [← none, zero_mul]
    exact value
  · have := mul_lt_mul_of_pos_left enough more
    linarith

/-- There are exponents enough for the integers that the significands are. -/
structure Standard (f : FloatFormat) : Prop where
  exponents : 1 < f.exponentBits
  wide : f.fractionBits ≤ f.bias

theorem log2_le_of_lt {bits : Nat} (lt : n < 2 * 2 ^ bits) : n.log2 ≤ bits := by
  rcases Nat.eq_zero_or_pos n with rfl | pos
  · exact Nat.zero_le bits
  · rw [← Nat.lt_succ_iff, Nat.log2_lt pos.ne', Nat.pow_succ, Nat.mul_comm]
    exact lt

theorem Standard.exponents_eq (h : f.Standard) :
    2 ^ f.exponentBits = 2 * (f.bias + 1) ∧ 0 < f.bias := by
  obtain ⟨bits, eq⟩ := Nat.exists_eq_add_of_lt h.exponents
  have pos := Nat.two_pow_pos bits
  have bias : f.bias + 1 = 2 * 2 ^ bits := by
    rw [FloatFormat.bias, eq, show 1 + bits + 1 - 1 = bits + 1 by omega, Nat.pow_succ]
    omega
  refine ⟨?_, by omega⟩
  rw [bias, eq, show 1 + bits + 1 = bits + 1 + 1 by omega, Nat.pow_succ, Nat.pow_succ]
  ring

/-- A number of few binary digits is a value if its first digit is in range. -/
theorem Standard.exists_magnitude (h : f.Standard) {k : Int} (lt : n < 2 * 2 ^ f.fractionBits)
    (low : -(f.bias : Int) < n.log2 + k) (high : n.log2 + k ≤ f.bias) :
    ∃ m < f.infinity, f.magnitude m = n * 2 ^ k := by
  have base : 0 < 2 ^ f.fractionBits := Nat.two_pow_pos _
  obtain ⟨exponents, -⟩ := h.exponents_eq
  rcases Nat.eq_zero_or_pos n with rfl | pos
  · refine ⟨0, Nat.mul_pos ?_ base, by rw [magnitude_zero, Nat.cast_zero, zero_mul]⟩
    omega
  -- The exponent of the first digit, and the digits moved up to the first place
  have le := log2_le_of_lt lt
  have first := Nat.log2_self_le pos.ne'
  have after : n < 2 ^ n.log2 * 2 := by
    rw [← Nat.pow_succ]
    exact Nat.lt_log2_self
  have moved : 2 ^ n.log2 * 2 ^ (f.fractionBits - n.log2) = 2 ^ f.fractionBits := by
    rw [← Nat.pow_add, Nat.add_sub_cancel' le]
  have least := Nat.mul_le_mul_right (2 ^ (f.fractionBits - n.log2)) first
  have most := Nat.mul_lt_mul_of_pos_right after (Nat.two_pow_pos (f.fractionBits - n.log2))
  rw [moved] at least
  rw [Nat.mul_right_comm, moved] at most
  obtain ⟨rest, digits⟩ := Nat.exists_eq_add_of_le least
  have less : rest < 2 ^ f.fractionBits := by omega
  obtain ⟨exponent, field⟩ := Int.eq_ofNat_of_zero_le
    (show 0 ≤ (n.log2 : Int) + k + f.bias by omega)
  refine ⟨2 ^ f.fractionBits * exponent + rest, ?_, ?_⟩
  · rw [infinity, Nat.mul_comm _ (2 ^ f.fractionBits), exponents]
    have places := Nat.mul_le_mul_left (2 ^ f.fractionBits)
      (show exponent + 1 ≤ 2 * (f.bias + 1) - 1 by omega)
    rw [Nat.mul_add, Nat.mul_one] at places
    omega
  · have quotient : (2 ^ f.fractionBits * exponent + rest) / 2 ^ f.fractionBits = exponent := by
      rw [Nat.mul_add_div base, Nat.div_eq_of_lt less, Nat.add_zero]
    have place : ((exponent - 1 : Nat) : Int) + 1 - f.bias - f.fractionBits =
        k - ((f.fractionBits - n.log2 : Nat) : Int) := by omega
    rw [magnitude, significand, lastPlace, quotient, if_neg (by omega), Nat.mul_add_mod,
      Nat.mod_eq_of_lt less, place, ← digits, zpow_sub₀ (by norm_num), zpow_natCast]
    push_cast
    field_simp

theorem Standard.exists_magnitude_natCast (h : f.Standard) (lt : n < 2 * 2 ^ f.fractionBits) :
    ∃ m < f.infinity, f.magnitude m = n := by
  have wide := h.wide
  have le := log2_le_of_lt lt
  obtain ⟨-, bias⟩ := h.exponents_eq
  obtain ⟨m, lt', eq⟩ := h.exists_magnitude (k := 0) lt (by omega) (by omega)
  exact ⟨m, lt', by rw [eq, zpow_zero, mul_one]⟩

/-- The values of a format are values of one with more digits and more exponents. -/
theorem Standard.exists_wider {g : FloatFormat} (h : f.Standard) (h' : g.Standard)
    (digits : f.fractionBits ≤ g.fractionBits) (range : f.bias + f.fractionBits ≤ g.bias)
    (lt : m < f.infinity) : ∃ n < g.infinity, g.magnitude n = f.magnitude m := by
  obtain ⟨exponents, bias⟩ := h.exponents_eq
  have small := f.significand_lt m
  have base := Nat.two_pow_pos f.fractionBits
  have first := log2_le_of_lt small
  have field : m / 2 ^ f.fractionBits < 2 ^ f.exponentBits - 1 :=
    (Nat.div_lt_iff_lt_mul base).mpr lt
  rw [magnitude]
  refine h'.exists_magnitude (small.trans_le ?_) ?_ ?_
  · exact Nat.mul_le_mul_left 2 (Nat.pow_le_pow_right (by decide) digits)
  · rw [lastPlace]
    omega
  · rw [lastPlace]
    omega

/-- A value halfway between two of a format has one digit more. -/
theorem Standard.middles_wider {g : FloatFormat} (h : f.Standard) (h' : g.Standard)
    (digits : f.fractionBits < g.fractionBits) (range : f.bias + f.fractionBits < g.bias) :
    f.scale.Middles g.scale f.infinity g.infinity := by
  intro m lt
  obtain ⟨exponents, bias⟩ := h.exponents_eq
  have small := f.significand_lt m
  have base := Nat.two_pow_pos f.fractionBits
  have double : 2 * f.significand m + 1 < 2 * 2 ^ (f.fractionBits + 1) := by
    rw [Nat.pow_succ]
    omega
  have first := log2_le_of_lt double
  have field : m / 2 ^ f.fractionBits < 2 ^ f.exponentBits - 1 :=
    (Nat.div_lt_iff_lt_mul base).mpr lt
  have place : f.lastPlace m = ((m / 2 ^ f.fractionBits - 1 : Nat) : Int) + 1 - f.bias -
      f.fractionBits := rfl
  obtain ⟨k, inside, eq⟩ := h'.exists_magnitude (n := 2 * f.significand m + 1)
    (k := f.lastPlace m - 1)
    (double.trans_le (Nat.mul_le_mul_left 2 (Nat.pow_le_pow_right (by decide) digits)))
    (by omega) (by omega)
  refine ⟨k, inside, ?_⟩
  change 2 * g.magnitude k = f.magnitude m + f.magnitude (m + 1)
  rw [eq, magnitude_succ, magnitude, zpow_sub_one₀ (by norm_num)]
  push_cast
  ring

/-- A value that is as large as the significands with all their digits is an integer. -/
theorem natCast_of_large (large : (2 : ℚ) ^ f.fractionBits ≤ f.magnitude m) :
    ∃ n : Nat, f.magnitude m = n := by
  have digits : (f.significand m : ℚ) + 1 ≤ 2 * 2 ^ f.fractionBits := by
    exact_mod_cast f.significand_lt m
  have base : (0 : ℚ) < 2 ^ f.fractionBits := by positivity
  have unit : (0 : ℚ) < 2 ^ f.lastPlace m := by positivity
  have whole : 0 ≤ f.lastPlace m := by
    by_contra negative
    have half : (2 : ℚ) ^ f.lastPlace m ≤ 2 ^ (-1 : Int) :=
      zpow_le_zpow_right₀ (by norm_num) (by omega)
    rw [magnitude] at large
    have bound := mul_le_mul_of_nonneg_left half (Nat.cast_nonneg (α := ℚ) (f.significand m))
    norm_num at bound
    linarith
  obtain ⟨e, eq⟩ := Int.eq_ofNat_of_zero_le whole
  refine ⟨f.significand m * 2 ^ e, ?_⟩
  rw [magnitude, eq]
  push_cast
  rw [zpow_natCast]

/-- Digits that stand before the point and are enough: the value is an integer. -/
theorem Standard.natCast_of_digits (h : f.Standard) (digits : 0 < prec) (lt : m < f.infinity)
    (found : f.nearest (scientificValue prec (scientific prec (f.magnitude m))) = m)
    (before : (prec : Int) - 1 ≤ (scientific prec (f.magnitude m)).2) :
    ∃ n : Nat, f.magnitude m = n := by
  by_cases large : (2 : ℚ) ^ f.fractionBits ≤ f.magnitude m
  · exact natCast_of_large large
  obtain ⟨e, exponent⟩ := Int.eq_ofNat_of_zero_le (Int.sub_nonneg_of_le before)
  have value : scientificValue prec (scientific prec (f.magnitude m)) =
      ((scientific prec (f.magnitude m)).1 * 10 ^ e : Nat) := by
    have place : (scientific prec (f.magnitude m)).2 + 1 - (prec : Int) = (e : Int) := by omega
    rw [scientificValue, place, zpow_natCast]
    push_cast
    rfl
  rcases Nat.eq_zero_or_pos m with rfl | pos
  · exact ⟨0, by rw [magnitude_zero, Nat.cast_zero]⟩
  have some' : 0 < f.magnitude m := by
    rw [← f.magnitude_zero]
    exact f.scale.strictMono pos
  have near := scientific_near some' digits
  have power : (1 : ℚ) ≤ 10 ^ (prec - 1) := one_le_pow₀ (by norm_num)
  have off := (abs_lt.mp (lt_of_le_of_lt (le_mul_of_one_le_right (abs_nonneg _) power)
    (lt_of_le_of_lt near (half_lt_self some')))).2
  rw [value] at off found
  -- An integer below twice the significands is a value, and the value found is this one
  have small : (scientific prec (f.magnitude m)).1 * 10 ^ e < 2 * 2 ^ f.fractionBits := by
    have : (((scientific prec (f.magnitude m)).1 * 10 ^ e : Nat) : ℚ) < 2 * 2 ^ f.fractionBits := by
      linarith
    exact_mod_cast this
  obtain ⟨k, lt', eq⟩ := h.exists_magnitude_natCast small
  rw [← eq, nearest_magnitude lt'.le] at found
  exact ⟨_, found ▸ eq⟩

end Digits

/-! ## Bits with a sign -/

/-- `signbit`. -/
def negative (f : FloatFormat) (bits : Nat) : Bool :=
  decide (bits / 2 ^ (f.exponentBits + f.fractionBits) % 2 = 1)

def unsigned (f : FloatFormat) (bits : Nat) : Nat :=
  bits % 2 ^ (f.exponentBits + f.fractionBits)

def signed (f : FloatFormat) (negative : Bool) (m : Nat) : Nat :=
  if negative then 2 ^ (f.exponentBits + f.fractionBits) + m else m

def isNaN (f : FloatFormat) (bits : Nat) : Bool := decide (f.infinity < f.unsigned bits)

def isInf (f : FloatFormat) (bits : Nat) : Bool := decide (f.unsigned bits = f.infinity)

/-- The comparison with `==`, to which the zeros are equal and no NaN is. -/
def equal (f : FloatFormat) (a b : Nat) : Bool :=
  !f.isNaN a && !f.isNaN b && (decide (a = b) || decide (f.unsigned a = 0 ∧ f.unsigned b = 0))

/-- The conversion of a value to another format, rounded to nearest. -/
def convert (f g : FloatFormat) (bits : Nat) : Nat :=
  if f.isNaN bits then g.signed (f.negative bits) (g.infinity + 2 ^ (g.fractionBits - 1))
  else if f.isInf bits then g.signed (f.negative bits) g.infinity
  else g.signed (f.negative bits) (g.nearest (f.magnitude (f.unsigned bits)))

section Bits

variable {f g : FloatFormat} {bits m n : Nat} {s : Bool}

theorem signed_split (small : bits < 2 * 2 ^ (f.exponentBits + f.fractionBits)) :
    f.signed (f.negative bits) (f.unsigned bits) = bits := by
  rw [signed, negative, unsigned]
  have pos := Nat.two_pow_pos (f.exponentBits + f.fractionBits)
  generalize 2 ^ (f.exponentBits + f.fractionBits) = base at *
  have split := Nat.div_add_mod bits base
  have lt : bits / base < 2 := (Nat.div_lt_iff_lt_mul pos).mpr small
  have either : bits / base = 0 ∨ bits / base = 1 := by
    generalize bits / base = quotient at lt
    omega
  rcases either with zero | one
  · rw [zero, Nat.mul_zero, Nat.zero_add] at split
    rw [zero, if_neg (by decide)]
    exact split
  · rw [one, Nat.mul_one] at split
    rw [one, if_pos (by decide)]
    exact split

theorem infinity_lt (f : FloatFormat) :
    f.infinity < 2 ^ (f.exponentBits + f.fractionBits) := by
  have base := Nat.two_pow_pos f.fractionBits
  have pos := Nat.two_pow_pos f.exponentBits
  rw [infinity, Nat.pow_add]
  exact Nat.mul_lt_mul_of_pos_right (by omega) base

theorem unsigned_signed (lt : m < 2 ^ (f.exponentBits + f.fractionBits)) :
    f.unsigned (f.signed s m) = m := by
  rw [unsigned, signed]
  split
  · rw [Nat.add_mod_left, Nat.mod_eq_of_lt lt]
  · exact Nat.mod_eq_of_lt lt

theorem negative_signed (lt : m < 2 ^ (f.exponentBits + f.fractionBits)) :
    f.negative (f.signed s m) = s := by
  have pos := Nat.two_pow_pos (f.exponentBits + f.fractionBits)
  rw [negative, signed]
  cases s with
  | true => rw [if_pos rfl, Nat.add_div_left _ pos, Nat.div_eq_of_lt lt]; rfl
  | false => rw [if_neg Bool.false_ne_true, Nat.div_eq_of_lt lt]; rfl

/-- Values of one sign are equal where their bits are. -/
theorem equal_signed (lt : m ≤ f.infinity) (lt' : n ≤ f.infinity) :
    f.equal (f.signed s m) (f.signed s n) = decide (m = n) := by
  have inside := f.infinity_lt
  have um : f.unsigned (f.signed s m) = m := unsigned_signed (lt.trans_lt inside)
  have un : f.unsigned (f.signed s n) = n := unsigned_signed (lt'.trans_lt inside)
  have same : f.signed s m = f.signed s n ↔ m = n := by
    rw [signed, signed]
    split <;> omega
  rw [equal, isNaN, isNaN, um, un, decide_eq_false (Nat.not_lt.mpr lt),
    decide_eq_false (Nat.not_lt.mpr lt')]
  simp only [Bool.not_false, Bool.true_and, same]
  by_cases eq : m = n
  · simp [eq]
  · simp only [eq, decide_false, Bool.false_or, decide_eq_false_iff_not]
    omega

end Bits

end FloatFormat

end LibAsdf
