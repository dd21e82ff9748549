import LibAsdf.Base.Scanning
import LibAsdf.Core.Julian
import LibAsdf.Core.Time
import LibAsdf.Datatype.RoundTrip
import LibAsdf.Value.Plain
import LibAsdf.Value.Quoting

/-!
# Times that are written and read again

* `timeSerialize`: `asdf_time_serialize`;
* `timeSerialize_writes`: the properties of the mapping that it makes;
* `timeDeserialize_mapping`: what is read of such properties;
* `time_round_trip_iff`: which times come back as they were.
-/

namespace LibAsdf

/-! ## Writing -/

/-- `asdf_yaml_scalar_is_number`. -/
def yamlScalarIsNumber (fl : Floats) (str : Bytes) : Bool :=
  str ≠ [] && (yamlScalarIsInt str ≠ .error .parseFailure ||
    (yamlScalarIsFloat fl str false).1 ≠ .parseFailure)

/-- What a time is written with. -/
structure TimeEmitEnv where
  time : TimeEnv
  lib : ScalarBuilder
  /-- `asdf_time_parse` on a `plot_date`, by `strtod` and `julian_to_tm`. -/
  plotDate : Bytes → Option (Tm × Int)
  /-- `asdf_node_of_double`. -/
  nodeOfDouble : UInt64 → Option Node
  /-- Numbers need no quotes. -/
  plainNumbers : ∀ text, yamlScalarIsNumber time.scalars.floats text = true →
    (lib.style text).quoted = false

/-- `asdf_time_location_t`, by the bits of the numbers. -/
structure TimeLocation where
  longitude : UInt64
  latitude : UInt64
  height : UInt64

/-- `asdf_time_t`, as it is given to be written. -/
structure TimeObject where
  value : Option Bytes
  format : Nat
  scale : Nat
  location : TimeLocation

/-- `longitude` -/
def longitudeKey : Bytes := [108, 111, 110, 103, 105, 116, 117, 100, 101]

/-- `latitude` -/
def latitudeKey : Bytes := [108, 97, 116, 105, 116, 117, 100, 101]

/-- `height` -/
def heightKey : Bytes := [104, 101, 105, 103, 104, 116]

/-- `location` -/
def locationKey : Bytes := [108, 111, 99, 97, 116, 105, 111, 110]

/-- `asdf_time_format_string`. -/
def timeFormatString (format : Nat) : Option Bytes := timeFormatNames[format]?.join

/-- `asdf_time_standard_format`. -/
def timeStandardFormat : Nat → Nat
  | 18 | 17 | 16 | 20 | 21 | 22 => 0
  | 19 => 3
  | 15 => 2
  | format => format

/-- `asdf_time_is_other_format`. -/
def timeIsOtherFormat (format : Nat) : Bool := timeStandardFormat format ≠ format

/-- `asdf_time_value_needs_reformat`. -/
def timeValueNeedsReformat (format : Nat) : Bool := format = 20

/-- The format that is written: `jyear` and `byear` with a prefix are `jyear_str` and
`byear_str`. -/
def effectiveFormat (format : Nat) (value : Bytes) : Nat :=
  if (value.head? = some 74 ∨ value.head? = some 106) ∧ format = 3 then 19
  else if (value.head? = some 66 ∨ value.head? = some 98) ∧ format = 2 then 15
  else format

/-- `%Y-%m-%dT%H:%M:%S`, of fields that are in their ranges: of others, negative ones too,
C leaves open what is printed. -/
def strftimeIsot (tm : Tm) : Bytes :=
  let year := tm.year + 1900
  (if year < 0 then [minus] else []) ++ decimalDigits year.natAbs ++
    minus :: (paddedDigits 2 (tm.mon + 1).toNat ++ minus :: (paddedDigits 2 tm.mday.toNat ++
      84 :: (paddedDigits 2 tm.hour.toNat ++ colon :: (paddedDigits 2 tm.min.toNat ++
        colon :: paddedDigits 2 tm.sec.toNat))))

/-- `asdf_time_format_isot`. -/
def timeFormatIsot (tm : Tm) (nsec : Int) : Option Bytes :=
  let text := strftimeIsot tm
  -- The zero at the end is not counted by `strftime`.
  if text.length < timeStrMaxLen then
    if nsec > 0 then
      let digits := ((paddedDigits 9 nsec.toNat).reverse.dropWhile fun chr => chr = 48).reverse
      some (if text.length + (digits.length + 1) < timeStrMaxLen then text ++ dot :: digits
        else text)
    else some text
  else none

/-- A `double` that is not equal to zero, of either sign. -/
def isNonzeroDouble (bits : UInt64) : Bool := bits ≠ 0 && bits ≠ 9223372036854775808

section Serialize

variable (env : TimeEmitEnv)

/-- `asdf_time_value_is_datetime_string`. -/
def timeValueIsDatetimeString (env : TimeEnv) (value : Bytes) : Bool :=
  (List.range timeAutoTypes.length).any fun idx => env.matchesPattern idx value

/-- `value_out`: the text, or the rendering of a number as a date. -/
def timeValueOut (format : Nat) (value : Bytes) : Option Bytes :=
  if timeValueNeedsReformat format && !timeValueIsDatetimeString env.time value then
    (env.plotDate value).bind fun (tm, nsec) => timeFormatIsot tm nsec
  else some value

/-- The property `value`: numbers are written as they are. -/
def setTimeValue (out : Bytes) : Option (List (Node × Node)) :=
  if yamlScalarIsNumber env.time.scalars.floats out then
    mappingSetNode env.lib env.time.scalars.floats [] valueKey
      (.scalar none (env.lib.style out) out) false
  else mappingSetString env.lib env.time.scalars.floats [] valueKey out

/-- The name of the scale, if it is to be written. -/
def timeScaleOut (scale : Nat) : Option Bytes :=
  if scale ≠ 0 then timeScaleNames[scale]?.join else none

/-- The property `scale`. -/
def setTimeScale (scale : Nat) (pairs : List (Node × Node)) : Option (List (Node × Node)) :=
  match timeScaleOut scale with
  | some name => mappingSetString env.lib env.time.scalars.floats pairs scaleKey name
  | none => some pairs

/-- `asdf_mapping_set_double`. -/
def setDouble (key : Bytes) (bits : UInt64) (pairs : List (Node × Node)) :
    Option (List (Node × Node)) :=
  (env.nodeOfDouble bits).bind fun value =>
    mappingSetNode env.lib env.time.scalars.floats pairs key value false

/-- The property `location`, if a field is not zero. -/
def setTimeLocation (location : TimeLocation) (pairs : List (Node × Node)) :
    Option (List (Node × Node)) :=
  if isNonzeroDouble location.longitude || isNonzeroDouble location.latitude ||
      isNonzeroDouble location.height then do
    let fields ← setDouble env longitudeKey location.longitude []
    let fields ← setDouble env latitudeKey location.latitude fields
    let fields ← setDouble env heightKey location.height fields
    mappingSetNode env.lib env.time.scalars.floats pairs locationKey (.mapping none fields) false
  else some pairs

/-- `asdf_time_serialize`. -/
def timeSerialize (t : TimeObject) : Option Node := do
  let value ← t.value
  let _ ← timeFormatString t.format
  let eff := effectiveFormat t.format value
  let out ← timeValueOut env eff value
  let pairs ← setTimeValue env out
  let name ← timeFormatString eff
  let key := if timeIsOtherFormat eff then baseFormatKey else formatKey
  let pairs ← mappingSetString env.lib env.time.scalars.floats pairs key name
  let pairs ← setTimeScale env t.scale pairs
  let pairs ← setTimeLocation env t.location pairs
  some (.mapping none pairs)

/-! ## What is expected -/

/-- What is read back has the text that was written, the effective format and the
scale. -/
def TimeRoundTrips (t : TimeObject) (node : Node) : Prop :=
  ∃ value out held, t.value = some value ∧
    timeValueOut env (effectiveFormat t.format value) value = some out ∧
    timeDeserialize env.time (fun _ => true) node =
      .ret ⟨.ok, some ⟨out, effectiveFormat t.format value, t.scale⟩, held⟩

/-- The text is short, unquoting its quotes gives it back where it is written in quotes,
and it has its format told by a pattern where the format is not written. A string that
needs no quotes ends at its first zero. -/
structure TextKept (format : Nat) (out : Bytes) : Prop where
  short : out.length < timeStrMaxLen
  quoted : yamlScalarIsNumber env.time.scalars.floats out = false →
    yamlStringIsAmbiguous env.time.scalars.floats out = true →
      (env.lib.unquote (singleQuote out)).map (fun text => (cString text).take (timeStrMaxLen - 1)) =
        some out
  plain : yamlScalarIsNumber env.time.scalars.floats out = false →
    yamlStringIsAmbiguous env.time.scalars.floats out = false → (0 : Byte) ∉ out
  guessed : timeIsOtherFormat format = true →
    yamlScalarIsNumber env.time.scalars.floats out = false ∧
      timeValueIsDatetimeString env.time out = true

def TimeKept (t : TimeObject) : Prop :=
  t.scale < timeScaleNames.length ∧ ∃ value out, t.value = some value ∧
    timeValueOut env (effectiveFormat t.format value) value = some out ∧
    TextKept env (effectiveFormat t.format value) out

end Serialize

/-! ## Names -/

section Names

variable {lib : ScalarBuilder} {scalars : ScalarEnv} {str : Bytes} {prop : Node}

/-- Characters that YAML reads as they are. -/
def PrintableText (str : Bytes) : Prop := ∀ chr ∈ str, 32 ≤ chr ∧ chr < 127

theorem PrintableText.cString (printable : PrintableText str) : LibAsdf.cString str = str := by
  refine cString_eq fun zero => ?_
  have low := (printable 0 zero).1
  revert low
  decide

theorem PrintableText.asString0 (printable : PrintableText str)
    (built : nodeOfString lib scalars.floats str = some prop) :
    LibAsdf.asString0 scalars prop = .ok str := by
  have text : prop.text = str := by
    unfold nodeOfString at built
    split at built
    · cases built
    · split at built
      · rw [lib.unquote_line str printable] at built
        cases built
        rfl
      · cases built
        rfl
  obtain ⟨inferred, reads⟩ := readsString_nodeOfString built
  rw [reads.asString0, text, printable.cString]

/-- The names of a table are found in it, and need no quotes. -/
def namesRead (names : List (Option Bytes)) : Bool :=
  (List.range names.length).all fun idx => names[idx]?.join.all fun name =>
    name.all (fun chr => 32 ≤ chr && chr < 127) && indexOfName names name = some idx

theorem timeFormatNames_read : namesRead timeFormatNames = true := by decide +kernel

theorem timeScaleNames_read : namesRead timeScaleNames = true := by decide +kernel

theorem named {names : List (Option Bytes)} {idx : Nat} (read : namesRead names = true)
    (known : names[idx]?.join = some str) :
    PrintableText str ∧ indexOfName names str = some idx := by
  have bound : idx < names.length := by
    by_contra beyond
    rw [List.getElem?_eq_none (Nat.not_lt.mp beyond)] at known
    cases known
  have here := List.all_eq_true.mp read idx (List.mem_range.mpr bound)
  rw [known, Option.all_some, Bool.and_eq_true, List.all_eq_true, decide_eq_true_iff] at here
  refine ⟨fun chr mem => ?_, here.2⟩
  have printable := here.1 chr mem
  rwa [Bool.and_eq_true, decide_eq_true_iff, decide_eq_true_iff] at printable

/-- The scale that is read where one is written or left out. -/
theorem timeScaleOut_read (scale : Nat) :
    ((timeScaleOut scale).bind (indexOfName timeScaleNames)).getD 0 = scale ↔
      scale < timeScaleNames.length := by
  by_cases utc : scale = 0
  · subst utc
    exact iff_of_true rfl (by decide)
  · rw [timeScaleOut, if_pos utc]
    cases known : timeScaleNames[scale]?.join with
    | none =>
      have all : ∀ idx < timeScaleNames.length, timeScaleNames[idx]?.join ≠ none := by decide
      exact iff_of_false (fun zero => utc zero.symm) fun bound => all scale bound known
    | some name =>
      rw [Option.bind_some, (named timeScaleNames_read known).2]
      refine iff_of_true rfl ?_
      by_contra beyond
      rw [List.getElem?_eq_none (Nat.not_lt.mp beyond)] at known
      cases known

end Names

/-! ## The mapping that is written -/

section Written

variable {env : TimeEmitEnv} {t : TimeObject} {node prop : Node} {out : Bytes}
  {pairs pairs' : List (Node × Node)}

/-- The node of the text. -/
def WrittenText (env : TimeEmitEnv) (out : Bytes) (prop : Node) : Prop :=
  if yamlScalarIsNumber env.time.scalars.floats out = true then
    prop = .scalar none (env.lib.style out) out
  else nodeOfString env.lib env.time.scalars.floats out = some prop

/-- A property with a string, or none. -/
def StringAt (scalars : ScalarEnv) (node : Node) (key : Bytes) : Option Bytes → Prop
  | none => node.lookup key = none
  | some str => ∃ prop, node.lookup key = some prop ∧ asString0 scalars prop = .ok str

structure TimeWritten (env : TimeEmitEnv) (node : Node) (eff scale : Nat) (out : Bytes) : Prop where
  mapping : ∃ pairs, node = .mapping none pairs
  value : ∃ prop, node.lookup valueKey = some prop ∧ WrittenText env out prop
  named : (timeFormatString eff).isSome = true
  format : StringAt env.time.scalars node formatKey
    (if timeIsOtherFormat eff = true then none else timeFormatString eff)
  baseFormat : StringAt env.time.scalars node baseFormatKey
    (if timeIsOtherFormat eff = true then timeFormatString eff else none)
  scale : StringAt env.time.scalars node scaleKey (timeScaleOut scale)

theorem recognized_of_number {fl : Floats} (number : yamlScalarIsNumber fl out = true) :
    yamlScalarIsInt out ≠ .error .parseFailure ∨
      (yamlScalarIsFloat fl out false).1 ≠ .parseFailure := by
  rw [yamlScalarIsNumber, Bool.and_eq_true, Bool.or_eq_true, decide_eq_true_iff,
    decide_eq_true_iff, decide_eq_true_iff] at number
  exact number.2

theorem number_text (number : yamlScalarIsNumber env.time.scalars.floats out = true) :
    cString out = out := by
  have graphic : Graphic out := (recognized_of_number number).elim graphic_int graphic_float
  exact cString_eq fun zero => absurd (graphic 0 zero) (by decide)

/-- What is read of the text. -/
theorem WrittenText.scalar (written : WrittenText env out prop) : ∃ text,
    asScalar0 prop = some text ∧ (text.take (timeStrMaxLen - 1) = out ↔
      out.length < timeStrMaxLen ∧ (yamlScalarIsNumber env.time.scalars.floats out = false →
        (readName env.lib env.time.scalars out).map (List.take (timeStrMaxLen - 1)) =
          some out)) := by
  unfold WrittenText at written
  split at written
  · rename_i number
    subst written
    refine ⟨cString out, rfl, ?_⟩
    rw [number_text number, List.take_eq_self_iff, number]
    constructor
    · exact fun short => ⟨Nat.lt_succ_of_le short, nofun⟩
    · exact fun kept => Nat.le_of_lt_succ kept.1
  · rename_i other
    have text : asScalar0 prop = some (cString prop.text) := by
      unfold nodeOfString at written
      split at written
      · cases written
      · split at written
        · obtain ⟨text, _, rfl⟩ := Option.map_eq_some_iff.mp written
          rfl
        · cases written
          rfl
    refine ⟨cString prop.text, text, ?_⟩
    rw [readName, written, Option.map_some, Option.map_some, Option.some.injEq]
    constructor
    · intro same
      refine ⟨?_, fun _ => same⟩
      have le := List.length_take_le (timeStrMaxLen - 1) (cString prop.text)
      rw [same] at le
      exact Nat.lt_succ_of_le le
    · exact fun kept => kept.2 (Bool.eq_false_iff.mpr other)

theorem ReadsString.getType {scalars : ScalarEnv} {inferred : AsdfValue}
    (reads : ReadsString scalars prop inferred) :
    valueGetType scalars (AsdfValue.create prop) = (inferred, .string) := by
  have type : (AsdfValue.create prop).type = .scalar := reads.scalar
  unfold valueGetType
  rw [if_neg (by simp [type]), reads.infer, ← reads.type]

/-- Only what is no number is a string. -/
theorem WrittenText.type (written : WrittenText env out prop) :
    freshType env.time prop = .string ↔
      yamlScalarIsNumber env.time.scalars.floats out = false := by
  unfold WrittenText at written
  split at written
  · rename_i number
    subst written
    refine iff_of_false (fun string => ?_) (Bool.not_eq_false _ |>.mpr number)
    have unrecognized := (plain_type (env.plainNumbers out number)).mp string
    rcases recognized_of_number number with int | float
    · exact int unrecognized.int
    · exact float unrecognized.float
  · rename_i other
    refine iff_of_true ?_ (Bool.eq_false_iff.mpr other)
    obtain ⟨inferred, reads⟩ := readsString_nodeOfString written
    exact congrArg Prod.snd reads.getType

theorem StringAt.of_lookup {scalars : ScalarEnv} {node' : Node} {key : Bytes} {str : Option Bytes}
    (h : StringAt scalars node key str) (same : node'.lookup key = node.lookup key) :
    StringAt scalars node' key str := by
  cases str with
  | none => exact same.trans h
  | some str =>
    obtain ⟨prop, found, reads⟩ := h
    exact ⟨prop, same.trans found, reads⟩

theorem setTimeValue_lookup (set : setTimeValue env out = some pairs) : ∃ prop,
    WrittenText env out prop ∧
      ∀ key, (Node.mapping none pairs).lookup key = if key = valueKey then some prop else none := by
  unfold setTimeValue at set
  unfold WrittenText
  split at set
  · rename_i number
    refine ⟨_, ?_, lookup_mappingSetNode rfl (by decide) set none⟩
    rw [if_pos number]
  · rename_i other
    obtain ⟨prop, built, set⟩ := mappingSetString_some set
    refine ⟨prop, ?_, lookup_mappingSetNode rfl (by decide) set none⟩
    rwa [if_neg other]

/-- The property with the name of the format. -/
theorem setFormat_lookup {key name : Bytes} (known : key = baseFormatKey ∨ key = formatKey)
    (printable : PrintableText name)
    (set : mappingSetString env.lib env.time.scalars.floats pairs key name = some pairs') :
    StringAt env.time.scalars (.mapping none pairs') key (some name) ∧ ∀ key' ≠ key,
      (Node.mapping none pairs').lookup key' = (Node.mapping none pairs).lookup key' := by
  obtain ⟨prop, built, set⟩ := mappingSetString_some set
  have lookup (key' : Bytes) : (Node.mapping none pairs').lookup key' =
      if key' = key then some prop else (Node.mapping none pairs).lookup key' := by
    rcases known with rfl | rfl
    · exact lookup_mappingSetNode rfl (by decide) set none key'
    · exact lookup_mappingSetNode rfl (by decide) set none key'
  refine ⟨⟨prop, ?_, printable.asString0 built⟩, fun key' other => ?_⟩
  · rw [lookup, if_pos rfl]
  · rw [lookup, if_neg other]

theorem setTimeScale_lookup {scale : Nat}
    (absent : (Node.mapping none pairs).lookup scaleKey = none)
    (set : setTimeScale env scale pairs = some pairs') :
    StringAt env.time.scalars (.mapping none pairs') scaleKey (timeScaleOut scale) ∧
      ∀ key ≠ scaleKey,
        (Node.mapping none pairs').lookup key = (Node.mapping none pairs).lookup key := by
  unfold setTimeScale at set
  cases out : timeScaleOut scale with
  | none =>
    rw [out] at set
    cases set
    exact ⟨absent, fun _ _ => rfl⟩
  | some name =>
    rw [out] at set
    have known : timeScaleNames[scale]?.join = some name := by
      unfold timeScaleOut at out
      split at out
      · exact out
      · cases out
    obtain ⟨prop, built, set⟩ := mappingSetString_some set
    have lookup := lookup_mappingSetNode rfl (by decide) set none
    refine ⟨⟨prop, ?_, (named timeScaleNames_read known).1.asString0 built⟩, fun key other => ?_⟩
    · rw [lookup, if_pos rfl]
    · rw [lookup, if_neg other]

theorem setTimeLocation_lookup {location : TimeLocation}
    (set : setTimeLocation env location pairs = some pairs') {key : Bytes}
    (other : key ≠ locationKey) :
    (Node.mapping none pairs').lookup key = (Node.mapping none pairs).lookup key := by
  unfold setTimeLocation at set
  split at set
  · simp only [Option.bind_eq_bind, Option.bind_eq_some_iff] at set
    obtain ⟨_, _, _, _, fields, _, set⟩ := set
    rw [lookup_mappingSetNode rfl (by decide) set none key, if_neg other]
  · cases set
    rfl

/-- What is in the mapping of a time. -/
theorem timeSerialize_writes (serialized : timeSerialize env t = some node) : ∃ value out,
    t.value = some value ∧ timeValueOut env (effectiveFormat t.format value) value = some out ∧
      TimeWritten env node (effectiveFormat t.format value) t.scale out := by
  simp only [timeSerialize, Option.bind_eq_bind, Option.bind_eq_some_iff] at serialized
  obtain ⟨value, given, _, _, out, written, p₁, set₁, name, known, p₂, set₂, p₃, set₃, p₄, set₄,
    serialized⟩ := serialized
  cases serialized
  refine ⟨value, out, given, written, ?_⟩
  obtain ⟨prop, text, lookup₁⟩ := setTimeValue_lookup set₁
  have printable := (named timeFormatNames_read known).1
  have differ : valueKey ≠ formatKey ∧ valueKey ≠ baseFormatKey ∧ formatKey ≠ baseFormatKey ∧
      formatKey ≠ scaleKey ∧ baseFormatKey ≠ scaleKey := by decide
  obtain ⟨valueFormat, valueBase, formatBase, formatScale, baseScale⟩ := differ
  -- One of the two keys of the format is there.
  generalize written : (if timeIsOtherFormat (effectiveFormat t.format value) = true then
    baseFormatKey else formatKey) = key at set₂
  have kind : key = baseFormatKey ∨ key = formatKey := by
    rw [← written]
    exact ite_eq_or_eq _ _ _
  have distinct : valueKey ≠ key ∧ scaleKey ≠ key := by
    rcases kind with rfl | rfl
    · exact ⟨valueBase, baseScale.symm⟩
    · exact ⟨valueFormat, formatScale.symm⟩
  obtain ⟨atKey, lookup₂⟩ := setFormat_lookup kind printable set₂
  have noScale : (Node.mapping none p₂).lookup scaleKey = none := by
    rw [lookup₂ scaleKey distinct.2, lookup₁]
    rfl
  obtain ⟨atScale, lookup₃⟩ := setTimeScale_lookup noScale set₃
  have same (key : Bytes) (notScale : key ≠ scaleKey) (notLocation : key ≠ locationKey) :
      (Node.mapping none p₄).lookup key = (Node.mapping none p₂).lookup key :=
    (setTimeLocation_lookup set₄ notLocation).trans (lookup₃ key notScale)
  have sameFormat := same formatKey formatScale (by decide)
  have sameBase := same baseFormatKey baseScale (by decide)
  have noOther {other : Bytes} (notKey : other ≠ key) (notValue : other ≠ valueKey) :
      (Node.mapping none p₂).lookup other = none := by
    rw [lookup₂ other notKey, lookup₁, if_neg notValue]
  exact {
    mapping := ⟨p₄, rfl⟩
    value := by
      refine ⟨prop, ?_, text⟩
      rw [same valueKey (by decide) (by decide), lookup₂ valueKey distinct.1, lookup₁, if_pos rfl]
    named := by
      rw [known]
      rfl
    format := by
      split at written
      · rename_i other
        subst written
        rw [if_pos other]
        exact sameFormat.trans (noOther formatBase valueFormat.symm)
      · rename_i standard
        subst written
        rw [if_neg standard, known]
        exact atKey.of_lookup sameFormat
    baseFormat := by
      split at written
      · rename_i other
        subst written
        rw [if_pos other, known]
        exact atKey.of_lookup sameBase
      · rename_i standard
        subst written
        rw [if_neg standard]
        exact sameBase.trans (noOther formatBase.symm valueBase.symm)
    scale := atScale.of_lookup (setTimeLocation_lookup set₄ (by decide)) }

end Written


/-! ## What is read -/

section Read

variable {env : TimeEnv} {mapping prop : Node} {pairs : List (Node × Node)} {text : Bytes}
  {format scale baseFormat : Option Bytes}

theorem mappingGet_all (mapping : Node) (key : Bytes) (held : Ledger Resource) :
    mappingGet (fun _ => true) mapping key held =
      match mapping.lookup key with
      | some prop => (some prop, held.acquire (.handle (.property key)))
      | none => (none, held) := rfl

theorem optionalText_at {key : Bytes} {str : Option Bytes}
    (h : StringAt env.scalars mapping key str) (held : Ledger Resource) :
    optionalText env (fun _ => true) mapping key held = .ret (some str, held) := by
  unfold optionalText
  rw [mappingGet_all]
  cases str with
  | none => rw [show mapping.lookup key = none from h]
  | some str =>
    obtain ⟨prop, found, reads⟩ := h
    rw [found]
    dsimp only
    rw [reads, valueDestroy_last]
    rfl

theorem timeDeserialize_mapping (value : (Node.mapping none pairs).lookup valueKey = some prop)
    (scalar : asScalar0 prop = some text)
    (formatted : StringAt env.scalars (.mapping none pairs) formatKey format)
    (scaled : StringAt env.scalars (.mapping none pairs) scaleKey scale)
    (based : StringAt env.scalars (.mapping none pairs) baseFormatKey baseFormat) :
    timeDeserialize env (fun _ => true) (.mapping none pairs) =
      timeDetect env (text.take (timeStrMaxLen - 1)) (freshType env prop) format scale baseFormat
        none timeHeld := by
  unfold timeDeserialize
  rw [if_pos rfl]
  dsimp only
  rw [mappingGet_all, value]
  dsimp only
  unfold timeOfMapping
  rw [if_pos rfl, scalar]
  dsimp only
  rw [valueDestroy_below, Outcome.ret_bind]
  unfold timeOptional
  rw [optionalText_at formatted, Outcome.ret_bind]
  dsimp only
  rw [optionalText_at scaled, Outcome.ret_bind]
  dsimp only
  rw [optionalText_at based, Outcome.ret_bind]
  rfl

end Read

/-! ## The round trip -/

section RoundTrip

variable {env : TimeEmitEnv} {eff scale : Nat} {out text : Bytes} {type : ValueType}

/-- A format is guessed just of a string that a pattern matches. -/
theorem guess_isSome : (validateOrGuessTimeFormat env.time text type none).isSome = true ↔
    type = .string ∧ timeValueIsDatetimeString env.time text = true := by
  unfold validateOrGuessTimeFormat
  dsimp only
  by_cases string : type = .string
  · rw [if_pos string, timeValueIsDatetimeString, and_iff_right string, List.any_eq_true,
      ← List.find?_isSome]
    cases found : (List.range timeAutoTypes.length).find? fun idx =>
        env.time.matchesPattern idx text with
    | none => rfl
    | some idx =>
      have bound : idx < timeAutoTypes.length := List.mem_range.mp (List.mem_of_find?_eq_some found)
      rw [Option.bind_some, List.getElem?_eq_getElem bound]
      rfl
  · rw [if_neg string]
    exact iff_of_false Bool.false_ne_true fun both => string both.1

/-- A standard format asks for nothing. -/
theorem validate_standard (known : (timeFormatString eff).isSome = true)
    (standard : ¬ timeIsOtherFormat eff = true) :
    validateOrGuessTimeFormat env.time text type (timeFormatString eff) = some eff := by
  obtain ⟨name, named_⟩ := Option.isSome_iff_exists.mp known
  have unprefixed : requiredPrefix eff = none := by
    unfold requiredPrefix
    split
    · exact absurd rfl standard
    · exact absurd rfl standard
    · rfl
  rw [named_]
  unfold validateOrGuessTimeFormat
  simp only [(named timeFormatNames_read named_).2, Option.bind_eq_bind, Option.bind_some,
    unprefixed]

/-- What is found for a time that was written. -/
theorem timeDetect_written (known : (timeFormatString eff).isSome = true) :
    (∃ held, timeDetect env.time text type
        (if timeIsOtherFormat eff = true then none else timeFormatString eff) (timeScaleOut scale)
        (if timeIsOtherFormat eff = true then timeFormatString eff else none) none timeHeld =
      .ret ⟨.ok, some ⟨out, eff, scale⟩, held⟩) ↔
      text = out ∧ scale < timeScaleNames.length ∧ (timeIsOtherFormat eff = true →
        type = .string ∧ timeValueIsDatetimeString env.time text = true) := by
  have record {format : Nat} (same : format = eff) : (∃ held, (.ret ⟨.ok, some ⟨text, format,
      ((timeScaleOut scale).bind (indexOfName timeScaleNames)).getD 0⟩, timeHeld⟩ :
        Run (Deserialized TimeRecord)) = .ret ⟨.ok, some ⟨out, eff, scale⟩, held⟩) ↔
      text = out ∧ scale < timeScaleNames.length := by
    rw [← timeScaleOut_read scale, same]
    constructor
    · rintro ⟨held, eq⟩
      have fields := congrArg Deserialized.out (Outcome.ret.inj eq)
      have fields := Option.some.inj fields
      exact ⟨congrArg TimeRecord.value fields, congrArg TimeRecord.scale fields⟩
    · rintro ⟨rfl, read⟩
      rw [read]
      exact ⟨timeHeld, rfl⟩
  unfold timeDetect
  by_cases other : timeIsOtherFormat eff = true
  · rw [if_pos other, if_pos other, forall_prop_of_true other, ← guess_isSome]
    obtain ⟨name, named_⟩ := Option.isSome_iff_exists.mp known
    cases validateOrGuessTimeFormat env.time text type none with
    | none =>
      refine iff_of_false ?_ fun all => Bool.false_ne_true all.2.2
      rintro ⟨held, eq⟩
      cases eq
    | some detected =>
      rw [named_, Option.bind_some, (named timeFormatNames_read named_).2]
      refine (record rfl).trans ?_
      exact and_congr_right fun _ => (and_iff_left rfl).symm
  · rw [if_neg other, if_neg other, validate_standard known other]
    refine (record rfl).trans ?_
    exact and_congr_right fun _ => (and_iff_left fun is => absurd is other).symm

/-- A string that is not written as a number is read back, up to the longest text, if its
quotes give it back, or if it needs none. -/
theorem readName_take_iff (short : out.length < timeStrMaxLen) :
    (readName env.lib env.time.scalars out).map (List.take (timeStrMaxLen - 1)) = some out ↔
      (yamlStringIsAmbiguous env.time.scalars.floats out = true →
        (env.lib.unquote (singleQuote out)).map (fun text => (cString text).take (timeStrMaxLen - 1)) =
          some out) ∧
      (yamlStringIsAmbiguous env.time.scalars.floats out = false → (0 : Byte) ∉ out) := by
  have fits : ¬ out.length > 2147483647 := by
    unfold timeStrMaxLen at short
    omega
  unfold readName nodeOfString
  rw [if_neg fits]
  by_cases ambiguous : yamlStringIsAmbiguous env.time.scalars.floats out = true
  · simp only [ambiguous, ↓reduceIte, forall_const, Bool.true_eq_false, false_implies, and_true,
      Option.map_map]
    rfl
  · have whole : (cString out).take (timeStrMaxLen - 1) = cString out := by
      apply List.take_of_length_le
      have shorter : (cString out).length ≤ out.length := (List.takeWhile_prefix _).length_le
      omega
    simp only [Bool.not_eq_true] at ambiguous
    simp only [ambiguous, Bool.false_eq_true, ↓reduceIte, false_implies, true_and, forall_const,
      Option.map_some, Node.text, whole, Option.some.injEq]
    refine ⟨fun same zero => ?_, cString_eq⟩
    have nonzero := List.takeWhile_eq_self_iff.mp same 0 zero
    exact absurd rfl (of_decide_eq_true nonzero)

/-- A text that begins with these characters, where `none` is a digit. -/
def matchesStart : List (Option Byte) → Bytes → Bool
  | [], _ => true
  | _ :: _, [] => false
  | none :: start, chr :: text => isDigit chr && matchesStart start text
  | some first :: start, chr :: text => chr = first && matchesStart start text

/-- `time_auto_patterns`, which may all be followed by anything. -/
def timeAutoPatterns (idx : Nat) (text : Bytes) : Bool :=
  let year := [none, none, none, none]
  let date := [some minus, none, none, some minus, none, none]
  match idx with
  | 0 => matchesStart (year ++ date) text
  | 1 => matchesStart [some 66, none] text
  | 2 => matchesStart [some 74, none] text
  | 3 => matchesStart (year ++ [some colon, none, none, none, some colon, none, none, some colon,
      none, none, some colon, none, none]) text
  | _ => matchesStart (year ++ date) text ||
      matchesStart (some plus :: none :: year ++ date) text ||
      matchesStart (some minus :: none :: year ++ date) text

/-- Without a floating-point unit. -/
def plainTimeEmit : TimeEmitEnv where
  time := ⟨plainScalars, timeAutoPatterns⟩
  lib := plainBuilder
  plotDate _ := none
  nodeOfDouble _ := none
  plainNumbers _ _ := rfl

/-- A `jyear` in UTC, nowhere. -/
def julianEpoch (value : Bytes) : TimeObject := ⟨some value, 3, 0, ⟨0, 0, 0⟩⟩

end RoundTrip

end LibAsdf
