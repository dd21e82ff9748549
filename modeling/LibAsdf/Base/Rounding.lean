import Mathlib.Data.Int.Log
import Mathlib.Data.Nat.Find
import Mathlib.Data.Rat.Floor
import Mathlib.Algebra.Order.Field.Power
import Mathlib.Tactic.Linarith
import Mathlib.Tactic.Positivity
import Mathlib.Tactic.Ring
import Mathlib.Tactic.FieldSimp

/-!
# Rounding to nearest

Numbers rounded to the nearest of a scale of numbers, to an even place at a tie.

* `greatest`: the greatest number with a property that goes down, found digit by
  digit;
* `Scale`, `Scale.nearest`: increasing values, and the place of the nearest;
  `Scale.nearest_nearest`: when rounding to a finer scale first does not matter;
* `roundEven`: the nearest natural number;
* `scientific`, `fixedPoint`: so many decimal digits, and so many behind the
  point; `fixedPoint_eq`: where both round at one place they round alike.
-/

namespace LibAsdf

/-! ## Search -/

/-- The greatest number that has the property, from `found` on and `bits` binary
digits above it. -/
def greatest (p : Nat → Bool) : Nat → Nat → Nat
  | 0, found => found
  | bits + 1, found =>
    if p (found + 2 ^ bits) then greatest p bits (found + 2 ^ bits) else greatest p bits found

theorem greatest_eq {p : Nat → Bool} (down : ∀ m n, m ≤ n → p n = true → p m = true)
    {bits found last : Nat} (has : p last = true) (above : p (last + 1) = false)
    (le : found ≤ last) (lt : last < found + 2 ^ bits) : greatest p bits found = last := by
  induction bits generalizing found with
  | zero =>
    rw [Nat.pow_zero] at lt
    exact Nat.le_antisymm le (Nat.le_of_lt_succ lt)
  | succ bits ih =>
    rw [Nat.pow_succ] at lt
    rw [greatest]
    split
    · rename_i yes
      refine ih ?_ (by omega)
      by_contra less
      have next := down (last + 1) _ (by omega) yes
      rw [above] at next
      cases next
    · rename_i no
      refine ih le ?_
      by_contra more
      exact no (down _ last (by omega) has)

theorem greatest_has {p : Nat → Bool} {bits found : Nat} (has : p found = true) :
    p (greatest p bits found) = true := by
  induction bits generalizing found with
  | zero => exact has
  | succ bits ih =>
    rw [greatest]
    split
    · exact ih ‹_›
    · exact ih has

/-! ## Scales -/

/-- Values from zero on, in increasing order. -/
structure Scale where
  value : Nat → ℚ
  value_zero : value 0 = 0
  value_lt_succ : ∀ n, value n < value (n + 1)

namespace Scale

/-- The last place up to `top` whose value is not above the number. -/
def below (s : Scale) (top : Nat) (q : ℚ) : Nat :=
  greatest (fun n => decide (n ≤ top ∧ s.value n ≤ q)) (top.log2 + 1) 0

/-- The place up to `top` whose value is nearest, the even one at a tie. -/
def nearest (s : Scale) (top : Nat) (q : ℚ) : Nat :=
  let n := s.below top q
  let low := q - s.value n
  let high := s.value (n + 1) - q
  if top ≤ n ∨ low < high ∨ low = high ∧ n % 2 = 0 then n else n + 1

variable {s : Scale} {top n : Nat} {q : ℚ}

theorem strictMono (s : Scale) : StrictMono s.value := strictMono_nat_of_lt_succ s.value_lt_succ

theorem below_eq (le : n ≤ top) (lower : s.value n ≤ q) (upper : n = top ∨ q < s.value (n + 1)) :
    s.below top q = n := by
  have bound : n < 0 + 2 ^ (top.log2 + 1) := by
    rw [Nat.zero_add]
    exact Nat.lt_of_le_of_lt le (Nat.lt_log2_self)
  refine greatest_eq ?_ (decide_eq_true ⟨le, lower⟩) (decide_eq_false ?_) (Nat.zero_le n) bound
  · intro a b le' has
    obtain ⟨inside, value⟩ := of_decide_eq_true has
    exact decide_eq_true ⟨le'.trans inside, (s.strictMono.monotone le').trans value⟩
  · rintro ⟨inside, value⟩
    rcases upper with rfl | upper
    · omega
    · exact absurd value (not_le.mpr upper)

theorem nearest_le (nonneg : 0 ≤ q) : s.nearest top q ≤ top := by
  have start : decide (0 ≤ top ∧ s.value 0 ≤ q) = true :=
    decide_eq_true ⟨Nat.zero_le top, s.value_zero.le.trans nonneg⟩
  have inside : s.below top q ≤ top :=
    (of_decide_eq_true (greatest_has (p := fun n => decide (n ≤ top ∧ s.value n ≤ q)) start)).1
  rw [nearest]
  split
  · exact inside
  · rename_i less
    by_contra more
    exact less (.inl (by omega))

theorem nearest_value (le : n ≤ top) : s.nearest top (s.value n) = n := by
  have step := s.value_lt_succ n
  have found : s.below top (s.value n) = n := below_eq le le_rfl (.inr step)
  rw [nearest, found]
  exact if_pos (.inr (.inl (by linarith)))

/-- A number between the middles of the steps on both sides of a value. -/
theorem nearest_succ (lt : n + 1 < top) (lower : s.value n + s.value (n + 1) < 2 * q)
    (upper : 2 * q < s.value (n + 1) + s.value (n + 2)) : s.nearest top q = n + 1 := by
  have step := s.value_lt_succ n
  have step' : s.value (n + 1) < s.value (n + 2) := s.value_lt_succ (n + 1)
  by_cases le : s.value (n + 1) ≤ q
  · have found : s.below top q = n + 1 := below_eq (by omega) le (.inr (by linarith))
    rw [nearest, found]
    exact if_pos (.inr (.inl (by linarith)))
  · have less := not_le.mp le
    have found : s.below top q = n := below_eq (by omega) (by linarith) (.inr less)
    rw [nearest, found]
    refine if_neg ?_
    rintro (reached | near | ⟨tie, -⟩)
    · omega
    · linarith
    · linarith

/-! ### Rounding twice -/

variable {t : Scale} {top' : Nat}

theorem below_spec (nonneg : 0 ≤ q) : s.below top q ≤ top ∧ s.value (s.below top q) ≤ q ∧
    ∀ n ≤ top, s.value n ≤ q → n ≤ s.below top q := by
  have zero : s.value 0 ≤ q := s.value_zero.le.trans nonneg
  have le : Nat.findGreatest (fun n => s.value n ≤ q) top ≤ top := Nat.findGreatest_le top
  have lower : s.value (Nat.findGreatest (fun n => s.value n ≤ q) top) ≤ q :=
    Nat.findGreatest_spec (P := fun n => s.value n ≤ q) (Nat.zero_le top) zero
  have found : s.below top q = Nat.findGreatest (fun n => s.value n ≤ q) top := by
    refine below_eq le lower ?_
    by_contra next
    obtain ⟨other, more⟩ := not_or.mp next
    exact Nat.findGreatest_is_greatest (P := fun n => s.value n ≤ q) (Nat.lt_succ_self _)
      (by omega) (not_lt.mp more)
  rw [found]
  exact ⟨le, lower, fun n inside value => Nat.le_findGreatest inside value⟩

/-- A number that is not below a value is not rounded to a place before it. -/
theorem le_nearest (nonneg : 0 ≤ q) (le : n ≤ top) (value : s.value n ≤ q) :
    n ≤ s.nearest top q := by
  have least := (@below_spec s top q nonneg).2.2 n le value
  rw [nearest]
  split <;> omega

/-- A number that is below the middle of a step is not rounded to its end. -/
theorem nearest_le_of_lt (nonneg : 0 ≤ q) (less : 2 * q < s.value n + s.value (n + 1)) :
    s.nearest top q ≤ n := by
  obtain ⟨inside, lower, -⟩ := @below_spec s top q nonneg
  have step := s.value_lt_succ n
  have before : s.below top q ≤ n := by
    by_contra after
    have bound := s.strictMono.monotone (show n + 1 ≤ s.below top q by omega)
    linarith
  rw [nearest]
  split
  · exact before
  · rename_i up
    by_contra more
    have same : s.below top q = n := by omega
    rw [same] at up
    exact up (.inr (.inl (by linarith)))

theorem lt_nearest (nonneg : 0 ≤ q) (lt : n < top) (more : s.value n + s.value (n + 1) < 2 * q) :
    n < s.nearest top q := by
  have step := s.value_lt_succ n
  by_cases reached : s.value (n + 1) ≤ q
  · exact le_nearest nonneg lt reached
  · have found : s.below top q = n := below_eq lt.le (by linarith) (.inr (not_le.mp reached))
    rw [nearest, found, if_neg]
    · exact Nat.lt_succ_self n
    · rintro (all | near | ⟨tie, -⟩)
      · omega
      · linarith
      · linarith

theorem nearest_middle (lt : n < top) (tie : 2 * q = s.value n + s.value (n + 1)) :
    s.nearest top q = if n % 2 = 0 then n else n + 1 := by
  have step := s.value_lt_succ n
  have found : s.below top q = n := below_eq lt.le (by linarith) (.inr (by linarith))
  rw [nearest, found]
  by_cases even : n % 2 = 0
  · rw [if_pos even]
    exact if_pos (.inr (.inr ⟨by linarith, even⟩))
  · rw [if_neg even]
    refine if_neg ?_
    rintro (all | near | ⟨-, zero⟩)
    · omega
    · linarith
    · exact even zero

/-- Rounding goes past no value. -/
theorem value_nearest_le (nonneg : 0 ≤ q) (le : q ≤ s.value n) :
    s.value (s.nearest top q) ≤ s.value n := by
  apply s.strictMono.monotone
  have step := s.value_lt_succ n
  by_cases same : q = s.value n
  · rcases Nat.lt_or_ge top n with past | inside
    · exact (nearest_le nonneg).trans past.le
    · rw [same, nearest_value inside]
  · exact nearest_le_of_lt nonneg (by linarith [lt_of_le_of_ne le same])

theorem le_value_nearest (nonneg : 0 ≤ q) (inside : n ≤ top) (le : s.value n ≤ q) :
    s.value n ≤ s.value (s.nearest top q) :=
  s.strictMono.monotone (le_nearest nonneg inside le)

/-- The middles of the steps of `s` are values of `t`. -/
def Middles (s t : Scale) (top top' : Nat) : Prop :=
  ∀ n < top, ∃ k < top', 2 * t.value k = s.value n + s.value (n + 1)

/-- The number is the middle of a step next to a place. -/
def Halfway (s : Scale) (n : Nat) (q : ℚ) : Prop :=
  2 * q = s.value n + s.value (n + 1) ∨ 0 < n ∧ 2 * q = s.value (n - 1) + s.value n

instance (s : Scale) (n : Nat) (q : ℚ) : Decidable (s.Halfway n q) := by
  unfold Halfway
  infer_instance

/-- A number is rounded between the middles of the steps next to its place. -/
theorem nearest_between (nonneg : 0 ≤ q) (lt : s.nearest top q < top) :
    2 * q ≤ s.value (s.nearest top q) + s.value (s.nearest top q + 1) ∧
      (0 < s.nearest top q →
        s.value (s.nearest top q - 1) + s.value (s.nearest top q) ≤ 2 * q) := by
  constructor
  · by_contra more
    exact absurd (lt_nearest nonneg lt (not_le.mp more)) (Nat.lt_irrefl _)
  · intro pos
    by_contra less
    have step : s.nearest top q - 1 + 1 = s.nearest top q := by omega
    have before := @nearest_le_of_lt s top (s.nearest top q - 1) q nonneg
      (by rw [step]; exact not_le.mp less)
    omega

/-- Rounding to a scale that has the middles of the steps before: the place is the
same, unless it is an odd one and the number is rounded to a middle next to it. -/
theorem nearest_nearest (nonneg : 0 ≤ q) (middles : s.Middles t top top')
    (lt : s.nearest top q < top) :
    s.nearest top (t.value (t.nearest top' q)) = s.nearest top q ↔
      (s.nearest top q % 2 = 1 →
        ¬ s.Halfway (s.nearest top q) (t.value (t.nearest top' q))) := by
  obtain ⟨upper, lower⟩ := nearest_between nonneg lt
  have nonneg' : 0 ≤ t.value (t.nearest top' q) := by
    rw [← t.value_zero]
    exact t.strictMono.monotone (Nat.zero_le _)
  have upper' : 2 * t.value (t.nearest top' q) ≤
      s.value (s.nearest top q) + s.value (s.nearest top q + 1) := by
    obtain ⟨k, -, middle⟩ := middles _ lt
    have := @value_nearest_le t top' k q nonneg (by linarith)
    linarith
  have lower' : 0 < s.nearest top q → s.value (s.nearest top q - 1) + s.value (s.nearest top q) ≤
      2 * t.value (t.nearest top' q) := by
    intro pos
    have step : s.nearest top q - 1 + 1 = s.nearest top q := by omega
    obtain ⟨k, inside, middle⟩ := middles (s.nearest top q - 1) (by omega)
    rw [step] at middle
    have := @le_value_nearest t top' k q nonneg inside.le (by linarith [lower pos])
    linarith
  generalize t.value (t.nearest top' q) = y at *
  generalize s.nearest top q = a at *
  rcases eq_or_ne (2 * y) (s.value a + s.value (a + 1)) with tie | apart
  · rw [nearest_middle lt tie]
    have halfway : s.Halfway a y := .inl tie
    by_cases even : a % 2 = 0
    · rw [if_pos even]
      exact ⟨fun _ odd => by omega, fun _ => rfl⟩
    · rw [if_neg even]
      exact ⟨fun same => by omega, fun away => absurd halfway (away (by omega))⟩
  by_cases tie' : 0 < a ∧ 2 * y = s.value (a - 1) + s.value a
  · obtain ⟨pos, tie'⟩ := tie'
    have halfway : s.Halfway a y := .inr ⟨pos, tie'⟩
    have step : a - 1 + 1 = a := by omega
    rw [nearest_middle (n := a - 1) (by omega) (by rw [step]; exact tie'), step]
    by_cases even : a % 2 = 0
    · rw [if_neg (by omega)]
      exact ⟨fun _ odd => by omega, fun _ => rfl⟩
    · rw [if_pos (by omega)]
      exact ⟨fun same => by omega, fun away => absurd halfway (away (by omega))⟩
  · refine iff_of_true ?_ fun _ halfway => halfway.elim apart tie'
    have le : s.nearest top y ≤ a := nearest_le_of_lt nonneg' (lt_of_le_of_ne upper' apart)
    refine le_antisymm le ?_
    rcases Nat.eq_zero_or_pos a with rfl | pos
    · exact Nat.zero_le _
    · have step : a - 1 + 1 = a := by omega
      have more := lt_of_le_of_ne (lower' pos) fun eq => tie' ⟨pos, eq.symm⟩
      have := @lt_nearest s top (a - 1) y nonneg' (by omega) (by rw [step]; exact more)
      omega

/-- A number of one scale is one of the other. -/
theorem Middles.nearest_lt (middles : s.Middles t top top') (nonneg : 0 ≤ q)
    (lt : s.nearest top q < top) : t.nearest top' q < top' := by
  obtain ⟨k, inside, middle⟩ := middles _ lt
  have upper := (nearest_between nonneg lt).1
  have le := @value_nearest_le t top' k q nonneg (by linarith)
  exact (t.strictMono.le_iff_le.mp le).trans_lt inside

end Scale

/-! ## Natural numbers -/

/-- The nearest natural number, the even one at a tie. -/
def roundEven (q : ℚ) : Nat :=
  let n := ⌊q⌋₊
  let rest := 2 * (q - n)
  if 1 < rest ∨ rest = 1 ∧ n % 2 = 1 then n + 1 else n

section RoundEven

variable {q : ℚ} {n : Nat}

theorem roundEven_near (nonneg : 0 ≤ q) : |(roundEven q : ℚ) - q| ≤ 1 / 2 := by
  have lower := Nat.floor_le nonneg
  have upper := Nat.lt_floor_add_one q
  rw [roundEven, abs_le]
  split
  · rename_i up
    push_cast
    rcases up with up | ⟨up, -⟩
    · constructor <;> linarith
    · constructor <;> linarith
  · rename_i down
    have low : 2 * (q - ⌊q⌋₊) ≤ 1 := not_lt.mp fun lt => down (.inl lt)
    constructor <;> linarith

/-- A number less than one half away. -/
theorem roundEven_eq (nonneg : 0 ≤ q) (near : |(n : ℚ) - q| < 1 / 2) : roundEven q = n := by
  have close := roundEven_near nonneg
  rw [abs_lt] at near
  rw [abs_le] at close
  have above : (roundEven q : ℚ) < n + 1 := by linarith
  have below : (n : ℚ) < roundEven q + 1 := by linarith
  have above : roundEven q < n + 1 := by exact_mod_cast above
  have below : n < roundEven q + 1 := by exact_mod_cast below
  omega

theorem roundEven_natCast (n : Nat) : roundEven n = n :=
  roundEven_eq (Nat.cast_nonneg n) (by rw [sub_self, abs_zero]; norm_num)

end RoundEven

/-! ## Decimal digits -/

/-- A number with `prec` decimal digits, and the exponent of the first. -/
def scientific (prec : Nat) (x : ℚ) : Nat × Int :=
  if x = 0 then (0, 0)
  else
    let exponent := Int.log 10 x
    let n := roundEven (x * 10 ^ ((prec : Int) - 1 - exponent))
    -- Rounding can carry into a further digit
    if n = 10 ^ prec then (10 ^ (prec - 1), exponent + 1) else (n, exponent)

/-- A number with `frac` digits behind the point, without the point. -/
def fixedPoint (frac : Nat) (x : ℚ) : Nat := roundEven (x * 10 ^ frac)

/-- The value of what `scientific` yields. -/
def scientificValue (prec : Nat) (d : Nat × Int) : ℚ := d.1 * 10 ^ (d.2 + 1 - prec)

section Digits

variable {prec frac : Nat} {x : ℚ}

theorem log_bounds (pos : 0 < x) :
    (10 : ℚ) ^ Int.log 10 x ≤ x ∧ x < 10 ^ (Int.log 10 x + 1) := by
  have lower := Int.zpow_log_le_self (b := 10) (by decide) pos
  have upper := Int.lt_zpow_succ_log_self (b := 10) (by decide) x
  push_cast at lower upper
  exact ⟨lower, upper⟩

/-- A number moved so that its digits stand before the point. -/
theorem scaled_bounds (pos : 0 < x) (digits : 0 < prec) :
    (10 : ℚ) ^ (prec - 1) ≤ x * 10 ^ ((prec : Int) - 1 - Int.log 10 x) ∧
      x * 10 ^ ((prec : Int) - 1 - Int.log 10 x) < 10 ^ prec := by
  obtain ⟨lower, upper⟩ := log_bounds pos
  have unit : (0 : ℚ) < 10 ^ ((prec : Int) - 1 - Int.log 10 x) := by positivity
  constructor
  · have bound := mul_le_mul_of_nonneg_right lower unit.le
    rw [← zpow_add₀ (by norm_num)] at bound
    refine le_trans (le_of_eq ?_) bound
    rw [← zpow_natCast]
    congr 1
    omega
  · have bound := mul_lt_mul_of_pos_right upper unit
    rw [← zpow_add₀ (by norm_num)] at bound
    refine lt_of_lt_of_eq bound ?_
    rw [← zpow_natCast]
    congr 1
    omega

theorem scientificValue_eq (n : Nat) (e : Int) :
    scientificValue prec (n, e) = n * (10 ^ ((prec : Int) - 1 - e))⁻¹ := by
  rw [scientificValue, ← zpow_neg]
  congr 2
  omega

/-- How near the digits are: half of a unit at their last place, which is not more
than the first digit's. -/
theorem scientific_near (pos : 0 < x) (digits : 0 < prec) :
    |scientificValue prec (scientific prec x) - x| * 10 ^ (prec - 1) ≤ x / 2 := by
  obtain ⟨lower, upper⟩ := log_bounds pos
  have unit : (0 : ℚ) < 10 ^ ((prec : Int) - 1 - Int.log 10 x) := by positivity
  have near := roundEven_near (mul_pos pos unit).le
  have carried : scientificValue prec (scientific prec x) =
      roundEven (x * 10 ^ ((prec : Int) - 1 - Int.log 10 x)) *
        (10 ^ ((prec : Int) - 1 - Int.log 10 x))⁻¹ := by
    rw [scientific, if_neg pos.ne']
    dsimp only
    split
    · rename_i carry
      rw [carry, scientificValue, ← zpow_neg]
      push_cast
      rw [← zpow_natCast, ← zpow_natCast, ← zpow_add₀ (by norm_num), ← zpow_add₀ (by norm_num)]
      congr 1
      omega
    · exact scientificValue_eq _ _
  have first : (10 : ℚ) ^ (prec - 1) * (10 ^ ((prec : Int) - 1 - Int.log 10 x))⁻¹ ≤ x := by
    refine le_trans (le_of_eq ?_) lower
    rw [← zpow_neg, ← zpow_natCast, ← zpow_add₀ (by norm_num)]
    congr 1
    omega
  generalize (10 : ℚ) ^ ((prec : Int) - 1 - Int.log 10 x) = u at *
  have apart : (roundEven (x * u) : ℚ) * u⁻¹ - x = (roundEven (x * u) - x * u) * u⁻¹ := by
    field_simp
  rw [carried, apart, abs_mul, abs_of_pos (inv_pos.mpr unit)]
  have power : (0 : ℚ) < 10 ^ (prec - 1) := by positivity
  calc
    |(roundEven (x * u) : ℚ) - x * u| * u⁻¹ * 10 ^ (prec - 1)
      ≤ 1 / 2 * u⁻¹ * 10 ^ (prec - 1) := by gcongr
    _ = 10 ^ (prec - 1) * u⁻¹ / 2 := by ring
    _ ≤ x / 2 := by linarith

/-- The digits are as many as asked for, unless the number is zero. -/
theorem scientific_digits (pos : 0 < x) (digits : 0 < prec) :
    10 ^ (prec - 1) ≤ (scientific prec x).1 ∧ (scientific prec x).1 < 10 ^ prec := by
  obtain ⟨lower, upper⟩ := scaled_bounds pos digits
  have unit : (0 : ℚ) < 10 ^ ((prec : Int) - 1 - Int.log 10 x) := by positivity
  have near := abs_le.mp (roundEven_near (mul_pos pos unit).le)
  rw [scientific, if_neg pos.ne']
  dsimp only
  generalize x * 10 ^ ((prec : Int) - 1 - Int.log 10 x) = y at *
  split
  · exact ⟨le_rfl, Nat.pow_lt_pow_right (by decide) (by omega)⟩
  · rename_i other
    have least : (10 : ℚ) ^ (prec - 1) < roundEven y + 1 := by linarith
    have most : (roundEven y : ℚ) < 10 ^ prec + 1 := by linarith
    have least : 10 ^ (prec - 1) < roundEven y + 1 := by exact_mod_cast least
    have most : roundEven y < 10 ^ prec + 1 := by exact_mod_cast most
    exact ⟨by omega, by omega⟩

/-- Where as many digits stand behind the point as are left of the first, rounding
there gives the same digits. -/
theorem fixedPoint_eq (nonneg : 0 ≤ x) (digits : 0 < prec)
    (place : (prec : Int) - 1 - (scientific prec x).2 = frac) :
    fixedPoint frac x = (scientific prec x).1 := by
  rcases nonneg.eq_or_lt with rfl | pos
  · rw [fixedPoint, zero_mul, scientific, if_pos rfl]
    exact_mod_cast roundEven_natCast 0
  have lower := (scaled_bounds pos digits).1
  have upper := (scaled_bounds pos digits).2
  have unit : (0 : ℚ) < 10 ^ ((prec : Int) - 1 - Int.log 10 x) := by positivity
  have near := abs_le.mp (roundEven_near (mul_pos pos unit).le)
  rw [scientific, if_neg pos.ne'] at place ⊢
  dsimp only at place ⊢
  split at place
  · rename_i carry
    rw [if_pos carry]
    -- One place less: the number is less than one twentieth below the power of ten
    have scale : x * 10 ^ ((prec : Int) - 1 - Int.log 10 x) = x * 10 ^ frac * 10 := by
      rw [mul_assoc, ← zpow_natCast, ← zpow_add_one₀ (by norm_num)]
      congr 2
      omega
    rw [carry] at near
    rw [scale] at near upper
    have power : ((10 ^ prec : Nat) : ℚ) = (10 ^ (prec - 1) : Nat) * 10 := by
      have split : prec = prec - 1 + 1 := by omega
      rw [split, pow_succ]
      push_cast
      rfl
    have power' : (10 : ℚ) ^ prec = (10 ^ (prec - 1) : Nat) * 10 := by
      rw [← power]
      push_cast
      rfl
    rw [power] at near
    rw [power'] at upper
    refine roundEven_eq (by positivity) ?_
    rw [abs_lt]
    constructor <;> linarith
  · rename_i whole
    rw [if_neg whole, fixedPoint]
    congr 2
    rw [← zpow_natCast]
    congr 1
    omega

end Digits

end LibAsdf
