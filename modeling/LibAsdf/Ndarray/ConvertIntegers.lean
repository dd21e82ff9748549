import LibAsdf.Ndarray.Convert

/-!
# Conversions of integers

What the functions of the table make of an array of integers, for any two of the
eight integer types.

* `IntType.Has`, `IntType.clamp`: the range of a type, and the nearest value in it;
* `loadInt_has`, `loadInt_storeInt`: integers in memory;
* `Suits`, `conversionMacro_suits`: what a pair must be like for its macro, and that
  each is;
* `convertInt_clamps`: one element;
* `integer_conversion`: a call.
-/

namespace LibAsdf

namespace IntType

variable {t : IntType} {x : Int}

/-- A value in the range of the type. -/
def Has (t : IntType) (x : Int) : Prop := t.minval ≤ x ∧ x ≤ t.maxval

/-- The nearest value in the range. -/
def clamp (t : IntType) (x : Int) : Int := max t.minval (min t.maxval x)

theorem clamp_of_has (h : t.Has x) : t.clamp x = x := by
  obtain ⟨lower, upper⟩ := h
  unfold clamp
  omega

theorem clamp_of_lt (h : x < t.minval) : t.clamp x = t.minval := by
  unfold clamp
  omega

theorem clamp_of_gt (h : t.maxval < x) (range : t.minval ≤ t.maxval) : t.clamp x = t.maxval := by
  unfold clamp
  omega

theorem clamp_has (range : t.minval ≤ t.maxval) (x : Int) : t.Has (t.clamp x) := by
  unfold Has clamp
  omega

theorem clamp_ne_iff (range : t.minval ≤ t.maxval) : t.clamp x ≠ x ↔ ¬ t.Has x := by
  unfold Has clamp
  omega

/-- The bit patterns of a signed type, half of them below zero. -/
theorem pow_split (some : 0 < t.bytes) :
    (2 : Int) ^ (8 * t.bytes) = 2 * 2 ^ (8 * t.bytes - 1) := by
  rw [← Int.pow_succ']
  congr 1
  omega

theorem cast_of_has (some : 0 < t.bytes) (h : t.Has x) : t.cast x = x := by
  obtain ⟨lower, upper⟩ := h
  have split := pow_split some
  have pos : (0 : Int) < 2 ^ (8 * t.bytes - 1) := Int.pow_pos (by decide)
  unfold minval at lower
  unfold maxval at upper
  unfold cast
  cases signed : t.signed with
  | true =>
    rw [signed] at lower upper
    simp only [if_true] at lower upper ⊢
    apply Int.bmod_eq_of_le
    · push_cast
      omega
    · push_cast
      omega
  | false =>
    rw [signed] at lower upper
    simp only [Bool.false_eq_true, if_false] at lower upper ⊢
    exact Int.emod_eq_of_lt lower (by omega)

theorem cast_has (some : 0 < t.bytes) (x : Int) : t.Has (t.cast x) := by
  have split := pow_split some
  have pos : (0 : Int) < 2 ^ (8 * t.bytes - 1) := Int.pow_pos (by decide)
  unfold Has minval maxval cast
  cases t.signed with
  | true =>
    simp only [if_true]
    have lower := @Int.le_bmod x (2 ^ (8 * t.bytes)) (Nat.two_pow_pos _)
    have upper := @Int.bmod_lt x (2 ^ (8 * t.bytes)) (Nat.two_pow_pos _)
    push_cast at lower upper
    omega
  | false =>
    simp only [Bool.false_eq_true, if_false]
    have lower := Int.emod_nonneg x (b := 2 ^ (8 * t.bytes)) (by omega)
    have upper := Int.emod_lt_of_pos x (b := 2 ^ (8 * t.bytes)) (by omega)
    omega

/-- A cast sees a value only up to the bit patterns. -/
theorem cast_emod (t : IntType) (x : Int) : t.cast (x % 2 ^ (8 * t.bytes)) = t.cast x := by
  unfold cast
  cases t.signed with
  | true =>
    simp only [if_true]
    have same := Int.emod_bmod x (2 ^ (8 * t.bytes))
    push_cast at same
    exact same
  | false =>
    simp only [Bool.false_eq_true, if_false]
    exact Int.emod_emod_of_dvd x (Int.dvd_refl _)

end IntType

/-! ## In memory -/

section Memory

variable {host : Byteorder} {t : IntType}

theorem loadInt_has (some : 0 < t.bytes) (bytes : Bytes) : t.Has (loadInt host t bytes) :=
  t.cast_has some _

/-- What is stored is loaded again. -/
theorem loadInt_storeInt {x : Int} (some : 0 < t.bytes) (h : t.Has x) :
    loadInt host t (storeInt host t x) = x := by
  have pos : (0 : Int) < 2 ^ (8 * t.bytes) := Int.pow_pos (by decide)
  have width : 256 ^ t.bytes = 2 ^ (8 * t.bytes) := by
    rw [Nat.pow_mul]
  have lower := Int.emod_nonneg x (Int.ne_of_gt pos)
  have small : (x % 2 ^ (8 * t.bytes)).toNat % 256 ^ t.bytes = (x % 2 ^ (8 * t.bytes)).toNat := by
    apply Nat.mod_eq_of_lt
    rw [width, Int.toNat_lt lower]
    push_cast
    exact Int.emod_lt_of_pos x pos
  have bits : (((x % 2 ^ (8 * t.bytes)).toNat : Nat) : Int) = x % 2 ^ (8 * t.bytes) :=
    Int.toNat_of_nonneg lower
  unfold loadInt storeInt
  by_cases big : host = .big
  · simp only [big, if_true]
    rw [Endian.beNat_beBytes, small, bits, t.cast_emod, t.cast_of_has some h]
  · simp only [big, if_false]
    rw [Endian.leNat_leBytes, small, bits, t.cast_emod, t.cast_of_has some h]

/-- The integer that is read from the bytes of an element. -/
def sourceInt (host : Byteorder) (t : IntType) (byteswap : Bool) (bytes : Bytes) : Int :=
  loadInt host t (if byteswap then bytes.reverse else bytes)

end Memory

/-! ## One element -/

/-- What a pair of types must be like for a macro to do what it is to do. -/
def Suits (m : ConversionMacro) (s d : IntType) : Prop :=
  match m with
  | .generic => d.minval ≤ s.minval ∧ s.maxval ≤ d.maxval
  | .clamp => s.cast d.minval = d.minval ∧ s.cast d.maxval = d.maxval
  | .clampMax => s.cast d.maxval = d.maxval ∧ d.minval ≤ s.minval
  | .truncate => s.cast 0 = 0 ∧ d.minval = 0 ∧ s.maxval ≤ d.maxval
  | .identity => s = d
  | .clampFloat | .intToHalf | .uintToHalf | .halfToInt => False

instance (m : ConversionMacro) (s d : IntType) : Decidable (Suits m s d) := by
  unfold Suits
  cases m <;> infer_instance

/-- Each pair of integer types has a macro that suits it. -/
theorem conversionMacro_suits {src dst : ScalarDatatype} {s d : IntType}
    (hs : src.intType = some s) (hd : dst.intType = some d) :
    ∃ m, conversionMacro src dst = some m ∧ Suits m s d := by
  cases src <;> cases hs <;> cases dst <;> cases hd <;> exact ⟨_, rfl, by decide⟩

theorem intType_range {t : ScalarDatatype} {i : IntType} (h : t.intType = some i) :
    0 < i.bytes ∧ i.minval ≤ 0 ∧ 0 ≤ i.maxval := by
  cases t <;> cases h <;> decide

section Element

variable {s d : IntType} {x : Int}

/-- The nearest value of the destination type, and whether it is another one. -/
theorem convertInt_clamps {m : ConversionMacro} (suits : Suits m s d) (bytes : 0 < d.bytes)
    (range : d.minval ≤ 0 ∧ 0 ≤ d.maxval) (has : s.Has x) :
    (convertInt m s d x).1 = d.clamp x ∧ ((convertInt m s d x).2 = true ↔ d.clamp x ≠ x) := by
  obtain ⟨lower, upper⟩ := has
  obtain ⟨zero_low, zero_high⟩ := range
  -- Where the value is in range, each of the macros keeps it.
  have keeps : d.Has x → (d.cast x = d.clamp x ∧ (false = true ↔ d.clamp x ≠ x)) := by
    intro h
    rw [d.cast_of_has bytes h, d.clamp_of_has h]
    exact ⟨rfl, nofun, fun differs => (differs rfl).elim⟩
  have below : x < d.minval → (d.minval = d.clamp x ∧ (true = true ↔ d.clamp x ≠ x)) := by
    intro h
    rw [d.clamp_of_lt h]
    exact ⟨rfl, fun _ => Int.ne_of_gt h, fun _ => rfl⟩
  have above : d.maxval < x → (d.maxval = d.clamp x ∧ (true = true ↔ d.clamp x ≠ x)) := by
    intro h
    rw [d.clamp_of_gt h (by omega)]
    exact ⟨rfl, fun _ => Int.ne_of_lt h, fun _ => rfl⟩
  cases m with
  | identity =>
    have same : s = d := suits
    subst same
    exact keeps ⟨lower, upper⟩
  | generic =>
    obtain ⟨wide_low, wide_high⟩ := suits
    apply keeps
    exact ⟨by omega, by omega⟩
  | clamp =>
    obtain ⟨min_kept, max_kept⟩ := suits
    simp only [convertInt, min_kept, max_kept]
    split
    case isTrue less => exact below less
    case isFalse least =>
      split
      case isTrue more => exact above more
      case isFalse most => exact keeps ⟨by omega, by omega⟩
  | clampMax =>
    obtain ⟨max_kept, wide_low⟩ := suits
    simp only [convertInt, max_kept]
    split
    case isTrue more => exact above more
    case isFalse most => exact keeps ⟨by omega, by omega⟩
  | truncate =>
    obtain ⟨zero_kept, min_zero, wide_high⟩ := suits
    simp only [convertInt, zero_kept]
    split
    case isTrue less =>
      have zero : d.cast 0 = d.minval := by
        rw [d.cast_of_has bytes ⟨zero_low, zero_high⟩, min_zero]
      rw [zero]
      exact below (by omega)
    case isFalse least => exact keeps ⟨by omega, by omega⟩
  | clampFloat | intToHalf | uintToHalf | halfToInt => exact suits.elim

end Element

/-! ## A call -/

section Call

variable {pf : Platform} {src dst : ScalarDatatype} {s d : IntType} {byteswap : Bool}

theorem supported_of_intType (hs : src.intType = some s) (hd : dst.intType = some d) :
    Supported pf src dst := by
  refine ⟨?_, ?_, .inr ⟨?_, ?_⟩⟩
  · cases src <;> first | rfl | cases hs
  · cases dst <;> first | rfl | cases hd
  · rintro rfl
    cases hs
  · rintro rfl
    cases hd

/-- One element of an array, as the function of the table stores it. -/
theorem convertFn_clamps {f : ConvertFn} (hs : src.intType = some s) (hd : dst.intType = some d)
    (found : getConvertFn pf src dst byteswap = some f) (bytes : Bytes) :
    loadInt pf.host d (f.elem bytes).1 = d.clamp (sourceInt pf.host s byteswap bytes) ∧
      ((f.elem bytes).2 = true ↔
        d.clamp (sourceInt pf.host s byteswap bytes) ≠ sourceInt pf.host s byteswap bytes) := by
  obtain ⟨m, hm, suits⟩ := conversionMacro_suits hs hd
  obtain ⟨some_s, -, -⟩ := intType_range hs
  obtain ⟨some_d, range⟩ := intType_range hd
  have has : s.Has (sourceInt pf.host s byteswap bytes) := loadInt_has some_s _
  rw [getConvertFn_elem found]
  simp only [convertValue, hm, convertElem]
  split
  case isTrue same =>
    subst same
    cases hs.symm.trans hd
    change sourceInt pf.host s byteswap bytes = _ ∧ _
    rw [s.clamp_of_has has]
    exact ⟨rfl, fun overflow => absurd overflow Bool.false_ne_true,
      fun differs => absurd rfl differs⟩
  case isFalse differ =>
    rw [hs, hd]
    obtain ⟨value, overflow⟩ := convertInt_clamps suits some_d range has
    constructor
    · change loadInt pf.host d
        (storeInt pf.host d (convertInt m s d (sourceInt pf.host s byteswap bytes)).1) = _
      rw [value]
      exact loadInt_storeInt some_d (d.clamp_has (by omega) _)
    · exact overflow

/-- What a call leaves: every element converted on its own, and whether one of them
overflowed. -/
theorem getConvertFn_run {pf : Platform} {src dst : ScalarDatatype} {byteswap : Bool}
    {fn : ConvertFn} (found : getConvertFn pf src dst byteswap = some fn) {mem out : Bytes}
    {count : Nat} (source : mem.length = count * src.size) (room : count * dst.size ≤ out.length)
    (object : out.length < 2 ^ 64) :
    ∃ overflow out', fn.run out 0 mem 0 count = .ret (overflow, out') ∧ out'.length = out.length ∧
      (∀ i < count, elementAt out' 0 dst.size i = (fn.elem (elementAt mem 0 src.size i)).1) ∧
      (overflow = true ↔ ∃ i < count, (fn.elem (elementAt mem 0 src.size i)).2 = true) := by
  obtain ⟨src_size, dst_size⟩ := getConvertFn_sizes found
  have inside : 0 + count * fn.srcSize ≤ mem.length := by
    rw [src_size]
    omega
  have fits : 0 + count * fn.dstSize ≤ out.length := by
    rw [dst_size]
    omega
  obtain ⟨overflow, out', ran, converted⟩ :=
    (getConvertFn_regular found).run_ret (by omega) inside fits
  refine ⟨overflow, out', ran, converted.length, ?_, ?_⟩
  · intro i lt
    have stored := converted.elem i lt
    rwa [dst_size, src_size] at stored
  · rw [converted.overflow, src_size]

/-- Every function of the table for two integer types stores the source's integers
clamped to the destination's range, and tells whether one of them was outside it. -/
theorem integer_conversion (pf : Platform) (src dst : ScalarDatatype) (s d : IntType)
    (hs : src.intType = some s) (hd : dst.intType = some d) (byteswap : Bool) (count : Nat)
    (mem out : Bytes) (source : mem.length = count * src.size)
    (room : count * dst.size ≤ out.length) (object : out.length < 2 ^ 64) :
    ∃ f, getConvertFn pf src dst byteswap = some f ∧
      ∃ overflow out', f.run out 0 mem 0 count = .ret (overflow, out') ∧
        out'.length = out.length ∧
        (∀ i < count, loadInt pf.host d (elementAt out' 0 dst.size i) =
          d.clamp (sourceInt pf.host s byteswap (elementAt mem 0 src.size i))) ∧
        (overflow = true ↔
          ∃ i < count, ¬ d.Has (sourceInt pf.host s byteswap (elementAt mem 0 src.size i))) := by
  have supported : (getConvertFn pf src dst byteswap).isSome = true :=
    getConvertFn_isSome.mpr (supported_of_intType hs hd)
  obtain ⟨f, found⟩ := Option.isSome_iff_exists.mp supported
  obtain ⟨-, range⟩ := intType_range hd
  obtain ⟨overflow, out', ran, length, elems, told⟩ := getConvertFn_run found source room object
  refine ⟨f, found, overflow, out', ran, length, ?_, ?_⟩
  · intro i lt
    rw [elems i lt]
    exact (convertFn_clamps hs hd found _).1
  · rw [told]
    apply exists_congr
    intro i
    apply and_congr_right
    intro lt
    rw [(convertFn_clamps hs hd found _).2, d.clamp_ne_iff (by omega)]

/-- Three values of which a byte holds one. -/
theorem integer_conversion_clamped :
    ∃ f, getConvertFn x86 .int16 .uint8 true = some f ∧
      ∃ overflow out', f.run [0, 0, 0] 0 [0, 7, 1, 44, 255, 255] 0 3 = .ret (overflow, out') ∧
        out'.length = 3 ∧
        (∀ i < 3, loadInt .little ⟨false, 1⟩ (elementAt out' 0 1 i) =
          IntType.clamp ⟨false, 1⟩ (sourceInt .little ⟨true, 2⟩ true
            (elementAt [0, 7, 1, 44, 255, 255] 0 2 i))) ∧
        (overflow = true ↔
          ∃ i < 3, ¬ IntType.Has ⟨false, 1⟩ (sourceInt .little ⟨true, 2⟩ true
            (elementAt [0, 7, 1, 44, 255, 255] 0 2 i))) :=
  integer_conversion x86 .int16 .uint8 ⟨true, 2⟩ ⟨false, 1⟩ rfl rfl true 3
    [0, 7, 1, 44, 255, 255] [0, 0, 0] rfl (by decide) (by decide)

end Call

end LibAsdf
