import LibAsdf.Base.Scanning
import LibAsdf.Core.Time

/-!
# Instants of ISO times

`asdf_time_parse_std` on the texts that the ISO pattern takes, with a zone behind
them.

* `timeParseStd`: the function;
* `IsoTime`: the texts, and the instants that they stand for;
* `zoneSeconds_clock`: when the zone is read;
* `iso_time_iff`: when the function finds the instant.
-/

namespace LibAsdf

/-! ## Parsing -/

/-- What is computed of a time. -/
structure TimeInfo where
  tm : BrokenTime
  sec : Int
  nsec : Int
  deriving DecidableEq, Repr

/-- `gmtime`, the nanoseconds that `sscanf` reads as a fraction with its point, and
`check_format_strptime` with the formats that are not those of ISO. -/
structure TimeLib where
  gmtime : Int → BrokenTime
  nanoseconds : Bytes → Int
  otherFormats : Nat → Bytes → Option (BrokenTime × Bytes)

/-- `datetime`, `iso`, `isot`, `ymdhms`, `datetime64` -/
def isoFormats : List Nat := [16, 0, 18, 21, 22]

/-- `ASDF_TIME_SFMT_ISO` -/
def timeSfmtIso : List (List FormatItem) :=
  let date := [.number .year, .literal minus, .number .month, .literal minus, .number .day]
  let time := [.number .hour, .literal colon, .number .minute, .literal colon, .number .second]
  [date ++ .space :: time, date]

/-- `check_format_strptime`, from a format on. -/
def checkFormatStrptime (formats : List (List FormatItem)) (buf : Bytes) (tm : BrokenTime)
    (idx : Nat) : Option (BrokenTime × Bytes) :=
  match formats[idx]?.bind fun format => strptime format buf tm with
  | some status => some status
  | none =>
    -- `idx++` is tested before it is counted up
    if _more : idx ≠ 0 ∧ idx + 1 < formats.length then
      checkFormatStrptime formats buf tm (idx + 1)
    else none
termination_by formats.length - idx

/-- `T` and `t` become spaces. -/
def normalizeSeparator (chr : Byte) : Byte := if chr = 84 ∨ chr = 116 then 32 else chr

def isZoneSign (chr : Byte) : Bool := chr = plus || chr = minus

/-- `sscanf` with `%2d:%2d`. Where it reads nothing, the second `sscanf` does not
either. -/
def scanZone (text : Bytes) : Int × Int :=
  match scanInt 2 text with
  | none => (0, 0)
  | some (hour, []) => (hour, 0)
  | some (hour, chr :: rest) =>
    if chr = colon then
      match scanInt 2 rest with
      | some (minute, _) => (hour, minute)
      | none => (hour, 0)
    else (hour, 0)

/-- The seconds that the first sign names, which are taken off. -/
def zoneSeconds (rest : Bytes) : Int :=
  match rest.dropWhile fun chr => !isZoneSign chr with
  | [] => 0
  | sign :: text =>
    let (hour, minute) := scanZone text
    (if sign = minus then -1 else 1) * (hour * 3600 + minute * 60)

/-- `asdf_time_parse_std`, with `none` for -1. -/
def timeParseStd (lib : TimeLib) (format : Nat) (value : Bytes) : Option TimeInfo :=
  let buf := value.map normalizeSeparator
  match
    if isoFormats.contains format then checkFormatStrptime timeSfmtIso buf ⟨0, 0, 0, 0, 0, 0⟩ 0
    else lib.otherFormats format buf
  with
  | none => none
  | some (tm, rest) =>
    let nsec := match rest.dropWhile fun chr => chr ≠ dot with
      | [] => 0
      | frac => lib.nanoseconds frac
    let t := timegm tm
    if t = -1 then none
    else
      let t := t - zoneSeconds rest
      some ⟨lib.gmtime t, t, nsec⟩

/-! ## ISO times -/

/-- `(.\d+)`, whose point is any character. -/
structure Fraction where
  mark : Bytes
  digits : Bytes
  marked : (∃ chr ≠ 0, mark = [chr]) ∨ mark ≠ [] ∧ ∀ chr ∈ mark, 128 ≤ chr
  some : digits ≠ []
  all : ∀ chr ∈ digits, (asDigit chr).isSome = true

/-- `[T ](\d\d):(\d\d):(\d\d)`, and a fraction. -/
structure ClockTime where
  separator : Byte
  hour : Nat
  minute : Nat
  second : Nat
  fraction : Option Fraction
  separated : separator = 84 ∨ separator = 32
  hour_le : hour ≤ 23
  minute_le : minute ≤ 59
  second_le : second ≤ 60

inductive ZoneMinutes where
  | none
  | compact (minute : Fin 100)
  | colon (minute : Fin 100)

/-- Nothing, `Z`, `+hh`, `+hhmm` or `+hh:mm`. -/
inductive Zone where
  | none
  | utc
  | offset (negative : Bool) (hour : Fin 100) (minutes : ZoneMinutes)

/-- A text of the ISO pattern whose fields are in their ranges, and a zone. -/
structure IsoTime where
  year : Nat
  month : Nat
  day : Nat
  clock : Option ClockTime
  zone : Zone
  year_le : year ≤ 9999
  month_pos : 1 ≤ month
  month_le : month ≤ 12
  day_pos : 1 ≤ day
  day_le : day ≤ 31

def Fraction.text (f : Fraction) : Bytes := f.mark ++ f.digits

/-- What comes behind the seconds. -/
def ClockTime.fractionText (clock : ClockTime) : Bytes := (clock.fraction.map Fraction.text).getD []

def ClockTime.text (clock : ClockTime) : Bytes :=
  clock.separator :: (paddedDigits 2 clock.hour ++ colon :: (paddedDigits 2 clock.minute ++
    colon :: (paddedDigits 2 clock.second ++ clock.fractionText)))

def ZoneMinutes.text : ZoneMinutes → Bytes
  | none => []
  | compact minute => paddedDigits 2 minute
  | colon minute => LibAsdf.colon :: paddedDigits 2 minute

def Zone.text : Zone → Bytes
  | none => []
  | utc => [90]
  | offset negative hour minutes =>
    (if negative then minus else plus) :: (paddedDigits 2 hour ++ minutes.text)

def IsoTime.text (t : IsoTime) : Bytes :=
  paddedDigits 4 t.year ++ minus :: (paddedDigits 2 t.month ++ minus :: (paddedDigits 2 t.day ++
    ((t.clock.map ClockTime.text).getD [] ++ t.zone.text)))

def ClockTime.seconds (clock : ClockTime) : Int :=
  3600 * clock.hour + 60 * clock.minute + clock.second

/-- The seconds since 1970 of the date and the time, in UTC. -/
def IsoTime.epoch (t : IsoTime) : Int :=
  86400 * (daysBeforeYear t.year + daysBeforeMonth t.year t.month + t.day - 719163) +
    (t.clock.map ClockTime.seconds).getD 0

def ZoneMinutes.minutes : ZoneMinutes → Int
  | none => 0
  | compact minute | colon minute => minute.val

/-- The offset of a zone. -/
def Zone.seconds : Zone → Int
  | none | utc => 0
  | offset negative hour minutes =>
    (if negative then -1 else 1) * (hour.val * 3600 + minutes.minutes * 60)

/-- The instant is found. -/
def IsoTime.Found (lib : TimeLib) (format : Nat) (t : IsoTime) : Prop :=
  ∃ info, timeParseStd lib format t.text = some info ∧ info.sec = t.epoch - t.zone.seconds

/-- Minutes behind the hours without a colon are not read. -/
def Zone.Kept : Zone → Prop
  | offset _ _ (.compact minute) => minute.val = 0
  | _ => True

/-- A fraction that begins with a sign is taken for the zone. -/
def ClockTime.ZoneKept (clock : ClockTime) (zone : Zone) : Prop :=
  match clock.fraction with
  | none => zone.Kept
  | some f =>
    if f.mark = [plus] then (readDigits 2 0 f.digits).1 * 3600 = zone.seconds
    else if f.mark = [minus] then -((readDigits 2 0 f.digits).1 * 3600) = zone.seconds
    else zone.Kept

/-- What a text must be for its instant to be found: it has a time, is not the second
before 1970, and has its zone written so that it is read. -/
def IsoTime.Exact (t : IsoTime) : Prop :=
  ∃ clock, t.clock = some clock ∧ t.epoch ≠ -1 ∧ clock.ZoneKept t.zone

/-! ## Characters -/

section Characters

variable {chr : Byte} {text rest : Bytes} {width n : Nat}

theorem digit_range (digit : (asDigit chr).isSome = true) : 48 ≤ chr.toNat ∧ chr.toNat ≤ 57 := by
  rw [asDigit] at digit
  split at digit
  · rename_i range
    exact range
  · cases digit

theorem normalizeSeparator_of_digit (digit : (asDigit chr).isSome = true) :
    normalizeSeparator chr = chr := by
  obtain ⟨_, high⟩ := digit_range digit
  refine if_neg ?_
  rintro (rfl | rfl) <;> revert high <;> decide

theorem isZoneSign_of_digit (digit : (asDigit chr).isSome = true) : isZoneSign chr = false := by
  obtain ⟨_, noPlus, noMinus⟩ := not_isWhiteSpace_of_digit digit
  exact Bool.or_eq_false_iff.mpr ⟨decide_eq_false noPlus, decide_eq_false noMinus⟩

theorem ne_colon_of_digit (digit : (asDigit chr).isSome = true) : chr ≠ colon := by
  rintro rfl
  revert digit
  decide

@[simp] theorem isZoneSign_normalize (chr : Byte) :
    isZoneSign (normalizeSeparator chr) = isZoneSign chr := by
  rw [normalizeSeparator]
  split
  · rename_i separator
    rcases separator with rfl | rfl <;> decide
  · rfl

theorem digits_paddedDigits (width n : Nat) :
    ∀ chr ∈ paddedDigits width n, (asDigit chr).isSome = true := by
  induction width generalizing n with
  | zero => nofun
  | succ width ih =>
    intro chr mem
    rw [paddedDigits, List.mem_append, List.mem_singleton] at mem
    rcases mem with mem | rfl
    · exact ih (n / 10) chr mem
    · rw [asDigit_digitByte]
      rfl

theorem map_normalize_digits (digits : ∀ chr ∈ text, (asDigit chr).isSome = true) :
    text.map normalizeSeparator = text := by
  induction text with
  | nil => rfl
  | cons chr text ih =>
    obtain ⟨digit, digits⟩ := List.forall_mem_cons.mp digits
    rw [List.map_cons, normalizeSeparator_of_digit digit, ih digits]

@[simp] theorem map_normalize_padded (width n : Nat) :
    (paddedDigits width n).map normalizeSeparator = paddedDigits width n :=
  map_normalize_digits (digits_paddedDigits width n)

end Characters

/-! ## Zones -/

section Zones

variable {text rest : Bytes} {width acc n : Nat}

theorem readDigits_suffix (width acc : Nat) (text : Bytes) :
    (readDigits width acc text).2 <:+ text := by
  fun_induction readDigits width acc text with
  | case1 acc text => exact List.suffix_rfl
  | case2 acc width => exact List.suffix_rfl
  | case3 acc width b text d digit ih => exact ih.trans (List.suffix_cons b text)
  | case4 acc width b text digit => exact List.suffix_rfl

/-- What comes behind a number does not change it. -/
theorem readDigits_append (stop : ∀ chr ∈ rest.head?, asDigit chr = none) :
    readDigits width acc (text ++ rest) =
      ((readDigits width acc text).1, (readDigits width acc text).2 ++ rest) := by
  induction width generalizing acc text with
  | zero => rfl
  | succ width ih =>
    cases text with
    | nil =>
      cases rest with
      | nil => rfl
      | cons chr rest =>
        have last : readDigits (width + 1) acc (chr :: rest) = (acc, chr :: rest) := by
          rw [readDigits, stop chr rfl]
        exact last
    | cons chr text =>
      rw [List.cons_append, readDigits, readDigits]
      cases asDigit chr with
      | none => rfl
      | some d => exact ih

theorem Zone.head_text (zone : Zone) : ∀ chr ∈ zone.text.head?,
    asDigit chr = Option.none ∧ isWhiteSpace chr = false ∧ chr ≠ LibAsdf.colon := by
  cases zone with
  | none => nofun
  | utc =>
    rintro chr ⟨⟩
    decide
  | offset negative hour minutes =>
    rintro chr ⟨⟩
    cases negative <;> decide

theorem Zone.map_text (zone : Zone) : zone.text.map normalizeSeparator = zone.text := by
  cases zone with
  | none => rfl
  | utc => rfl
  | offset negative hour minutes =>
    have sign : normalizeSeparator (if negative then minus else plus) =
        if negative then minus else plus := by
      cases negative <;> decide
    have rest : minutes.text.map normalizeSeparator = minutes.text := by
      cases minutes with
      | none => rfl
      | compact minute => exact map_normalize_padded 2 minute
      | colon minute => exact congrArg (LibAsdf.colon :: ·) (map_normalize_padded 2 minute)
    rw [Zone.text, List.map_cons, List.map_append, sign, map_normalize_padded, rest]

theorem scanInt_padded (fits : n < 100) (rest : Bytes) :
    scanInt 2 (paddedDigits 2 n ++ rest) = some ((n : Int), rest) := by
  have read := @readNumber_paddedDigits 2 n (by decide) fits rest
  obtain ⟨b, text, eq, digit⟩ := paddedDigits_cons 1 n
  rw [eq, List.cons_append] at read ⊢
  rw [scanInt_digits digit, read]
  rfl

/-- Hours without a colon behind them. -/
theorem scanZone_hour {hour : Int} (scan : scanInt 2 text = some (hour, rest))
    (stop : ∀ chr ∈ rest.head?, chr ≠ colon) : scanZone text = (hour, 0) := by
  rw [scanZone, scan]
  cases rest with
  | nil => rfl
  | cons chr rest => exact if_neg (stop chr rfl)

theorem zoneSeconds_append (unsigned : ∀ chr ∈ text, isZoneSign chr = false) :
    zoneSeconds (text ++ rest) = zoneSeconds rest := by
  have passed : ∀ chr ∈ text, (!isZoneSign chr) = true := fun chr mem => by
    rw [unsigned chr mem]
    rfl
  rw [zoneSeconds, zoneSeconds, List.dropWhile_append_of_pos passed]

theorem zoneSeconds_sign (negative : Bool) (text : Bytes) :
    zoneSeconds ((if negative then minus else plus) :: text) =
      (if negative then -1 else 1) * ((scanZone text).1 * 3600 + (scanZone text).2 * 60) := by
  cases negative <;> rfl

/-- A zone is read, but for minutes that no colon precedes. -/
theorem zoneSeconds_text (zone : Zone) : zoneSeconds zone.text = zone.seconds ↔ zone.Kept := by
  cases zone with
  | none => exact iff_of_true rfl trivial
  | utc => exact iff_of_true rfl trivial
  | offset negative hour minutes =>
    rw [Zone.text, zoneSeconds_sign, Zone.seconds]
    have scan := scanInt_padded hour.isLt minutes.text
    cases minutes with
    | none =>
      rw [scanZone_hour scan nofun]
      exact iff_of_true rfl trivial
    | compact minute =>
      have stop : ∀ chr ∈ (ZoneMinutes.compact minute).text.head?, chr ≠ colon := by
        obtain ⟨b, text, eq, digit⟩ := paddedDigits_cons 1 minute
        rw [ZoneMinutes.text, eq]
        rintro chr ⟨⟩
        exact ne_colon_of_digit digit
      rw [scanZone_hour scan stop, Zone.Kept, ZoneMinutes.minutes]
      cases negative <;> simp only [Bool.false_eq_true, ↓reduceIte] <;> omega
    | colon minute =>
      have second := scanInt_padded minute.isLt []
      rw [List.append_nil] at second
      rw [scanZone, scan, ZoneMinutes.text]
      dsimp only
      rw [if_pos rfl, second]
      exact iff_of_true rfl trivial

end Zones

/-! ## Fractions -/

section Fractions

variable {f : Fraction}

theorem scanZone_fraction (f : Fraction) (zone : Zone) :
    scanZone (f.digits ++ zone.text) = (((readDigits 2 0 f.digits).1 : Int), 0) := by
  have stop := zone.head_text
  have scan : scanInt 2 (f.digits ++ zone.text) = some
      (((readDigits 2 0 f.digits).1 : Int), (readDigits 2 0 f.digits).2 ++ zone.text) := by
    have digits := f.all
    have append := @readDigits_append f.digits zone.text 2 0 fun chr mem => (stop chr mem).1
    cases eq : f.digits with
    | nil => exact absurd eq f.some
    | cons b text =>
      rw [eq] at digits append
      have digit := digits b List.mem_cons_self
      rw [List.cons_append] at append ⊢
      rw [scanInt_digits digit, readNumber, if_pos digit, append]
      rfl
  refine scanZone_hour scan ?_
  have digits : ∀ chr ∈ (readDigits 2 0 f.digits).2, (asDigit chr).isSome = true :=
    fun chr mem => f.all chr ((readDigits_suffix 2 0 f.digits).subset mem)
  cases eq : (readDigits 2 0 f.digits).2 with
  | nil => exact fun chr mem => (stop chr mem).2.2
  | cons b text =>
    rw [eq] at digits
    rintro chr ⟨⟩
    exact ne_colon_of_digit (digits b List.mem_cons_self)

theorem Fraction.unsigned (noPlus : f.mark ≠ [plus]) (noMinus : f.mark ≠ [minus]) :
    ∀ chr ∈ f.text.map normalizeSeparator, isZoneSign chr = false := by
  intro _ mapped
  obtain ⟨chr, mem, rfl⟩ := List.mem_map.mp mapped
  rw [isZoneSign_normalize]
  rcases List.mem_append.mp mem with mem | mem
  · rcases f.marked with ⟨b, _, eq⟩ | ⟨_, high⟩
    · rw [eq, List.mem_singleton] at mem
      subst mem
      rw [eq] at noPlus noMinus
      exact Bool.or_eq_false_iff.mpr ⟨decide_eq_false fun eq => noPlus (congrArg ([·]) eq),
        decide_eq_false fun eq => noMinus (congrArg ([·]) eq)⟩
    · have high := high chr mem
      refine Bool.or_eq_false_iff.mpr ⟨decide_eq_false ?_, decide_eq_false ?_⟩ <;>
      · rintro rfl
        revert high
        decide
  · exact isZoneSign_of_digit (f.all chr mem)

theorem Fraction.signed {negative : Bool} (mark : f.mark = [if negative then minus else plus])
    (zone : Zone) : zoneSeconds (f.text.map normalizeSeparator ++ zone.text) =
      (if negative then -1 else 1) * ((readDigits 2 0 f.digits).1 * 3600) := by
  have sign : normalizeSeparator (if negative then minus else plus) =
      if negative then minus else plus := by
    cases negative <;> decide
  rw [Fraction.text, mark, List.singleton_append, List.map_cons, sign, map_normalize_digits f.all,
    List.cons_append, zoneSeconds_sign, scanZone_fraction, Int.zero_mul, Int.add_zero]

theorem zoneSeconds_clock (clock : ClockTime) (zone : Zone) :
    zoneSeconds (clock.fractionText.map normalizeSeparator ++ zone.text) = zone.seconds ↔
      clock.ZoneKept zone := by
  rw [ClockTime.fractionText, ClockTime.ZoneKept]
  cases clock.fraction with
  | none => exact zoneSeconds_text zone
  | some f =>
    change zoneSeconds (f.text.map normalizeSeparator ++ zone.text) = _ ↔ _
    dsimp only
    split
    · rename_i mark
      rw [@Fraction.signed f false mark, if_neg Bool.false_ne_true, Int.one_mul]
    · split
      · rename_i mark
        rw [@Fraction.signed f true mark, if_pos rfl, Int.neg_one_mul]
      · rename_i noPlus noMinus
        rw [zoneSeconds_append (Fraction.unsigned noPlus noMinus)]
        exact zoneSeconds_text zone

end Fractions

/-! ## Dates -/

section Dates

/-- A text behind its date. -/
def IsoTime.dated (t : IsoTime) (rest : Bytes) : Bytes :=
  paddedDigits 4 t.year ++ minus :: (paddedDigits 2 t.month ++ minus ::
    (paddedDigits 2 t.day ++ rest))

theorem IsoTime.map_dated (t : IsoTime) (rest : Bytes) :
    (t.dated rest).map normalizeSeparator = t.dated (rest.map normalizeSeparator) := by
  have sign : normalizeSeparator minus = minus := by decide
  simp only [IsoTime.dated, List.map_append, List.map_cons, map_normalize_padded, sign]

theorem ClockTime.map_text (clock : ClockTime) : clock.text.map normalizeSeparator =
    32 :: (paddedDigits 2 clock.hour ++ colon :: (paddedDigits 2 clock.minute ++
      colon :: (paddedDigits 2 clock.second ++ clock.fractionText.map normalizeSeparator))) := by
  have mark : normalizeSeparator colon = colon := by decide
  have blank : normalizeSeparator clock.separator = 32 := by
    rcases clock.separated with eq | eq <;> rw [eq] <;> decide
  simp only [ClockTime.text, List.map_append, List.map_cons, map_normalize_padded, mark, blank]

theorem strptime_dated (t : IsoTime) (format : List FormatItem) (rest : Bytes) (tm : BrokenTime) :
    strptime (.number .year :: .literal minus :: .number .month :: .literal minus ::
      .number .day :: format) (t.dated rest) tm =
    strptime format rest { tm with year := t.year - 1900, month := t.month - 1, day := t.day } := by
  refine (@strptime_number _ _ .year t.year _ (Nat.zero_le _) t.year_le).trans ?_
  refine (strptime_literal minus).trans ?_
  refine (@strptime_number _ _ .month t.month _ t.month_pos t.month_le).trans ?_
  refine (strptime_literal minus).trans ?_
  exact @strptime_number _ _ .day t.day _ t.day_pos t.day_le

theorem dropWhile_padded (n : Nat) (rest : Bytes) :
    (paddedDigits 2 n ++ rest).dropWhile isWhiteSpace = paddedDigits 2 n ++ rest := by
  obtain ⟨b, text, eq, digit⟩ := paddedDigits_cons 1 n
  rw [eq, List.cons_append]
  refine List.dropWhile_cons_of_neg ?_
  rw [(not_isWhiteSpace_of_digit digit).1]
  exact Bool.false_ne_true

theorem strptime_clock (clock : ClockTime) (rest : Bytes) (tm : BrokenTime) :
    strptime [.space, .number .hour, .literal colon, .number .minute, .literal colon,
      .number .second] (clock.text.map normalizeSeparator ++ rest) tm =
    some ({ tm with hour := clock.hour, minute := clock.minute, second := clock.second },
      clock.fractionText.map normalizeSeparator ++ rest) := by
  have blank : isWhiteSpace 32 = true := by decide
  rw [ClockTime.map_text]
  simp only [List.cons_append, List.append_assoc]
  rw [strptime, List.dropWhile_cons_of_pos blank, dropWhile_padded]
  refine (@strptime_number _ _ .hour clock.hour _ (Nat.zero_le _) clock.hour_le).trans ?_
  refine (strptime_literal colon).trans ?_
  refine (@strptime_number _ _ .minute clock.minute _ (Nat.zero_le _) clock.minute_le).trans ?_
  refine (strptime_literal colon).trans ?_
  refine (@strptime_number _ _ .second clock.second _ (Nat.zero_le _) clock.second_le).trans ?_
  rfl

/-- Behind a zone there is no hour. -/
theorem strptime_zone (format : List FormatItem) (zone : Zone) (tm : BrokenTime) :
    strptime (.space :: .number .hour :: format) zone.text tm = none := by
  have head := zone.head_text
  cases eq : zone.text with
  | nil => rfl
  | cons chr text =>
    rw [eq] at head
    obtain ⟨noDigit, noBlank, _⟩ := head chr rfl
    have here : (chr :: text).dropWhile isWhiteSpace = chr :: text :=
      List.dropWhile_cons_of_neg (by rw [noBlank]; exact Bool.false_ne_true)
    have nothing : readNumber Conversion.hour.width (chr :: text) = none := by
      rw [readNumber, noDigit]
      rfl
    rw [strptime, here, strptime, nothing]

/-- The fields of a time, as `strptime` stores them. -/
theorem timegm_stored (t : IsoTime) (clock : ClockTime) (timed : t.clock = some clock) :
    timegm ⟨t.year - 1900, t.month - 1, t.day, clock.hour, clock.minute, clock.second⟩ =
      t.epoch := by
  have pos := t.month_pos
  have le := t.month_le
  have quotient : ((t.month : Int) - 1) / 12 = 0 := by omega
  have month : (((t.month : Int) - 1) % 12).toNat + 1 = t.month := by omega
  have year : (t.year : Int) - 1900 + 1900 + 0 = t.year := by omega
  rw [IsoTime.epoch, timed, timegm]
  dsimp only
  rw [quotient, month, year, Option.map_some, Option.getD_some, ClockTime.seconds]
  ring

end Dates

/-! ## Instants -/

section Instants

variable {lib : TimeLib} {format : Nat} {t : IsoTime} {clock : ClockTime} {sec : Int}

/-- The loop ends behind the first format. -/
theorem checkFormatStrptime_first (sfmt : List FormatItem) (formats : List (List FormatItem))
    (buf : Bytes) (tm : BrokenTime) :
    checkFormatStrptime (sfmt :: formats) buf tm 0 = strptime sfmt buf tm := by
  have last : ¬ (0 ≠ 0 ∧ 0 + 1 < (sfmt :: formats).length) := fun more => more.1 rfl
  rw [checkFormatStrptime, dif_neg last]
  change (match strptime sfmt buf tm with | some status => some status | none => none) = _
  cases strptime sfmt buf tm <;> rfl

theorem IsoTime.map_text (t : IsoTime) : t.text.map normalizeSeparator =
    t.dated ((t.clock.map ClockTime.text |>.getD []).map normalizeSeparator ++ t.zone.text) := by
  have text : t.text = t.dated ((t.clock.map ClockTime.text).getD [] ++ t.zone.text) := rfl
  rw [text, t.map_dated, List.map_append, Zone.map_text]

theorem timeParseStd_date (iso : format ∈ isoFormats) (untimed : t.clock = none) :
    timeParseStd lib format t.text = none := by
  have read : checkFormatStrptime timeSfmtIso (t.text.map normalizeSeparator) ⟨0, 0, 0, 0, 0, 0⟩ 0 =
      none := by
    rw [t.map_text, untimed]
    refine (checkFormatStrptime_first _ _ _ _).trans ((strptime_dated t _ _ _).trans ?_)
    exact strptime_zone _ t.zone _
  rw [timeParseStd]
  dsimp only
  rw [if_pos (List.elem_eq_true_of_mem iso), read]

theorem timeParseStd_clock (iso : format ∈ isoFormats) (timed : t.clock = some clock) :
    (∃ info, timeParseStd lib format t.text = some info ∧ info.sec = sec) ↔
      t.epoch ≠ -1 ∧
        t.epoch - zoneSeconds (clock.fractionText.map normalizeSeparator ++ t.zone.text) = sec := by
  have read : checkFormatStrptime timeSfmtIso (t.text.map normalizeSeparator) ⟨0, 0, 0, 0, 0, 0⟩ 0 =
      some (⟨t.year - 1900, t.month - 1, t.day, clock.hour, clock.minute, clock.second⟩,
        clock.fractionText.map normalizeSeparator ++ t.zone.text) := by
    rw [t.map_text, timed]
    refine (checkFormatStrptime_first _ _ _ _).trans ((strptime_dated t _ _ _).trans ?_)
    exact strptime_clock clock t.zone.text _
  rw [timeParseStd]
  dsimp only
  rw [if_pos (List.elem_eq_true_of_mem iso), read]
  dsimp only
  rw [timegm_stored t clock timed]
  constructor
  · rintro ⟨info, found, eq⟩
    split at found
    · cases found
    · rename_i other
      cases found
      exact ⟨other, eq⟩
  · rintro ⟨other, eq⟩
    rw [if_neg other]
    exact ⟨_, rfl, eq⟩

/-- A text without a time is not read; of the others, the instant is found but for one
second, where the zone is read. -/
theorem iso_time_iff (lib : TimeLib) {format : Nat} (iso : format ∈ isoFormats) (t : IsoTime) :
    t.Found lib format ↔ t.Exact := by
  cases timed : t.clock with
  | none =>
    refine iff_of_false ?_ ?_
    · rintro ⟨info, found, _⟩
      rw [timeParseStd_date iso timed] at found
      cases found
    · rintro ⟨clock, some, _⟩
      rw [timed] at some
      cases some
  | some clock =>
    have zone := zoneSeconds_clock clock t.zone
    refine (timeParseStd_clock iso timed).trans ?_
    constructor
    · rintro ⟨other, sec⟩
      exact ⟨clock, timed, other, zone.mp (by omega)⟩
    · rintro ⟨_, same, other, kept⟩
      rw [timed] at same
      cases same
      have read := zone.mpr kept
      exact ⟨other, by omega⟩

/-- `2020-02-29`, a time on it and a zone. -/
def leapDay (clock : Option ClockTime) (zone : Zone) : IsoTime where
  year := 2020
  month := 2
  day := 29
  clock := clock
  zone := zone
  year_le := by decide
  month_pos := by decide
  month_le := by decide
  day_pos := by decide
  day_le := by decide

/-- `T12:30:00` -/
def halfPastNoon : ClockTime where
  separator := 84
  hour := 12
  minute := 30
  second := 0
  fraction := none
  separated := .inl rfl
  hour_le := by decide
  minute_le := by decide
  second_le := by decide

/-- Nothing but the seconds. -/
def plainTimeLib : TimeLib := ⟨fun _ => ⟨0, 0, 0, 0, 0, 0⟩, fun _ => 0, fun _ _ => none⟩

theorem iso_time_iff_noon :
    0 ∈ isoFormats ∧
      (leapDay (some halfPastNoon) (.offset false 5 (.colon 30))).Found plainTimeLib 0 :=
  ⟨by decide, (iso_time_iff plainTimeLib (by decide) _).mpr
    ⟨halfPastNoon, rfl, by decide, trivial⟩⟩

/-- Neither a date alone nor minutes without a colon. -/
theorem iso_times_missed :
    timeParseStd plainTimeLib 0 (leapDay none .none).text = none ∧
      ¬ (leapDay none .none).Found plainTimeLib 0 ∧
      ¬ (leapDay (some halfPastNoon) (.offset false 5 (.compact 30))).Found plainTimeLib 0 := by
  have iso : 0 ∈ isoFormats := by decide
  have date : timeParseStd plainTimeLib 0 (leapDay none .none).text = none :=
    timeParseStd_date iso rfl
  refine ⟨date, ?_, ?_⟩
  · rintro ⟨info, found, _⟩
    rw [date] at found
    cases found
  · intro found
    have read := sub_right_inj.mp ((timeParseStd_clock iso rfl).mp found).2
    cases (zoneSeconds_clock halfPastNoon (.offset false 5 (.compact 30))).mp read

end Instants

end LibAsdf
