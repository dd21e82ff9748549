import LibAsdf.Base.Ledger
import LibAsdf.Core.Metadata

/-!
# Times, with the handles of the deserializer

`asdf_time_deserialize` with the value handles that it obtains and the memory that
it allocates. Any allocation may fail.

* `Resource`, `Deserialized`: what is held, and what a deserializer returns;
* `Settles`: every handle has been destroyed once, and nothing is left of a failure;
* `timeDeserialize`: the function;
* `time_settles_iff`: when it settles its handles.
-/

namespace LibAsdf

/-! ## Handles -/

/-- The handle that the caller passes, and those obtained with `asdf_mapping_get`. -/
inductive Handle where
  | value
  | property (key : Bytes)
  deriving DecidableEq, Repr

/-- What a deserializer allocates. -/
inductive Allocation where
  | object
  | text
  | software
  | extensions
  | entries
  deriving DecidableEq, Repr

inductive Resource where
  | handle (h : Handle)
  | memory (m : Allocation)
  deriving DecidableEq, Repr

/-- A deserializer that has returned: the error, `*out` if it is set, and what has
been obtained and not given back. -/
structure Deserialized (α : Type) where
  err : ValueErr
  out : Option α
  held : Ledger Resource

/-- What a deserializer starts with: the caller's handle. -/
def callerHeld : Ledger Resource := [.handle .value]

/-- Every handle obtained has been destroyed once, the caller's is left alone, and
what is still allocated belongs to the object that is returned; without one,
nothing is. -/
def Settles {α : Type} (owned : α → List Allocation) (run : Run (Deserialized α)) : Prop :=
  ∃ r, run = .ret r ∧
    match r.out with
    | some obj => r.err = .ok ∧ r.held = (owned obj).map Resource.memory ++ callerHeld
    | none => r.err ≠ .ok ∧ r.held = callerHeld

section Memory

variable (grant : Resource → Bool)

/-- A property that is there, and that a handle can be had for. -/
def obtained (mapping : Node) (key : Bytes) : Option Node :=
  if grant (.handle (.property key)) then mapping.lookup key else none

/-- `asdf_mapping_get`: the value of a property, on a new handle. -/
def mappingGet (mapping : Node) (key : Bytes) (held : Ledger Resource) :
    Option Node × Ledger Resource :=
  match obtained grant mapping key with
  | some prop => (some prop, held.acquire (.handle (.property key)))
  | none => (none, held)

/-- `asdf_value_destroy`, of a handle or a null pointer. -/
def valueDestroy (prop : Option Handle) (held : Ledger Resource) : Run (Ledger Resource) :=
  held.releaseAny .memory (prop.map Resource.handle)

/-- `free`, of an allocation or a null pointer. -/
def freeMemory (m : Option Allocation) (held : Ledger Resource) : Run (Ledger Resource) :=
  held.releaseAny .memory (m.map Resource.memory)

end Memory

/-! ## Time formats -/

/-- `asdf_time_format_names`. -/
def timeFormatNames : List (Option Bytes) :=
  [some [105, 115, 111], some [121, 100, 97, 121], some [98, 121, 101, 97, 114],
    some [106, 121, 101, 97, 114], some [100, 101, 99, 105, 109, 97, 108, 121, 101, 97, 114],
    some [106, 100], some [109, 106, 100], some [103, 112, 115], some [117, 110, 105, 120],
    some [117, 116, 105, 109, 101], some [116, 97, 105, 95, 115, 101, 99, 111, 110, 100, 115],
    some [99, 120, 99, 115, 101, 99], some [103, 97, 108, 101, 120, 115, 101, 99],
    some [117, 110, 105, 120, 95, 116, 97, 105], none,
    some [98, 121, 101, 97, 114, 95, 115, 116, 114], some [100, 97, 116, 101, 116, 105, 109, 101],
    some [102, 105, 116, 115], some [105, 115, 111, 116],
    some [106, 121, 101, 97, 114, 95, 115, 116, 114],
    some [112, 108, 111, 116, 95, 100, 97, 116, 101], some [121, 109, 100, 104, 109, 115],
    some [100, 97, 116, 101, 116, 105, 109, 101, 54, 52]]

/-- `asdf_time_scale_names`. -/
def timeScaleNames : List (Option Bytes) :=
  [some [117, 116, 99], some [116, 97, 105], some [116, 99, 98], some [116, 99, 103],
    some [116, 100, 98], some [116, 116], some [117, 116, 49]]

/-- `asdf_time_format_parse`, `asdf_time_scale_parse`: the index of a name. -/
def indexOfName (names : List (Option Bytes)) (name : Bytes) : Option Nat :=
  names.findIdx? fun entry => entry = some name

/-- The formats `byear_str` and `jyear_str` want a string with this prefix. -/
def requiredPrefix : Nat → Option Byte
  | 15 => some 66
  | 19 => some 74
  | _ => none

/-- The types of `time_auto_patterns`. -/
def timeAutoTypes : List Nat := [0, 2, 3, 1, 17]

/-- What a time is read with: scalars, and which of the patterns, by index, are
compiled and match a text. -/
structure TimeEnv where
  scalars : ScalarEnv
  matchesPattern : Nat → Bytes → Bool

/-- `value` -/
def valueKey : Bytes := [118, 97, 108, 117, 101]

/-- `format` -/
def formatKey : Bytes := [102, 111, 114, 109, 97, 116]

/-- `scale` -/
def scaleKey : Bytes := [115, 99, 97, 108, 101]

/-- `base_format` -/
def baseFormatKey : Bytes := [98, 97, 115, 101, 95, 102, 111, 114, 109, 97, 116]

/-- `ASDF_TIME_TIMESTR_MAXLEN` -/
def timeStrMaxLen : Nat := 255

/-- `asdf_time_t`, without the computed time. -/
structure TimeRecord where
  value : Bytes
  format : Nat
  scale : Nat
  deriving DecidableEq, Repr

section Time

variable (env : TimeEnv) (grant : Resource → Bool)

/-- `validate_or_guess_time_format`: the format, `none` for -1. -/
def validateOrGuessTimeFormat (time : Bytes) (timeType : ValueType) (format : Option Bytes) :
    Option Nat :=
  match format with
  | none =>
    if timeType = .string then
      ((List.range timeAutoTypes.length).find? fun idx => env.matchesPattern idx time).bind
        fun idx => timeAutoTypes[idx]?
    else none
  | some name => do
    let parsed ← indexOfName timeFormatNames name
    match requiredPrefix parsed with
    | some chr =>
      if timeType = .string ∧ (time.head? = some chr ∨ time.head? = some (chr + 32)) then some parsed
      else none
    | none => some parsed

/-- `asdf_value_as_scalar0`. -/
def asScalar0 : Node → Option Bytes
  | .scalar _ _ text => some (cString text)
  | _ => none

/-- `failure`. -/
def timeFailure (err : ValueErr) (text : Option Allocation) (prop : Option Handle)
    (held : Ledger Resource) : Run (Deserialized TimeRecord) := do
  let held ← freeMemory text held
  let held ← freeMemory (some .object) held
  let held ← valueDestroy prop held
  return ⟨err, none, held⟩

/-- A property that may be left out but is a string: its text, and what is held;
`none` with the handle still to be destroyed where it is not a string. -/
def optionalText (mapping : Node) (key : Bytes) (held : Ledger Resource) :
    Run (Option (Option Bytes) × Ledger Resource) :=
  match mappingGet grant mapping key held with
  | (none, held) => .ret (some none, held)
  | (some prop, held) =>
    match asString0 env.scalars prop with
    | .ok text => do
      let held ← valueDestroy (some (.property key)) held
      return (some (some text), held)
    | .error _ => .ret (none, held)

/-- The end of the function: the format is found, or `prop` is destroyed. -/
def timeDetect (value : Bytes) (valueType : ValueType) (format scale baseFormat : Option Bytes)
    (prop : Option Handle) (held : Ledger Resource) : Run (Deserialized TimeRecord) :=
  match validateOrGuessTimeFormat env value valueType format with
  | none => timeFailure .parseFailure (some .text) prop held
  | some detected => .ret
    { err := .ok
      out := some
        { value := value
          format := (baseFormat.bind (indexOfName timeFormatNames)).getD detected
          scale := (scale.bind (indexOfName timeScaleNames)).getD 0 }
      held := held }

/-- The optional keys of a mapping. -/
def timeOptional (mapping : Node) (value : Bytes) (valueType : ValueType) (held : Ledger Resource) :
    Run (Deserialized TimeRecord) := do
  match ← optionalText env grant mapping formatKey held with
  | (none, held) => timeFailure .parseFailure (some .text) (some (.property formatKey)) held
  | (some format, held) =>
    match ← optionalText env grant mapping scaleKey held with
    | (none, held) => timeFailure .parseFailure (some .text) (some (.property scaleKey)) held
    | (some scale, held) =>
      match ← optionalText env grant mapping baseFormatKey held with
      | (none, held) => timeFailure .parseFailure (some .text) (some (.property baseFormatKey)) held
      | (some baseFormat, held) =>
        timeDetect env value valueType format scale baseFormat none held

/-- `asdf_value_get_type` on a fresh handle. -/
def freshType (node : Node) : ValueType := (valueGetType env.scalars (AsdfValue.create node)).2

/-- The text of a time, from the property `value` of a mapping. -/
def timeOfMapping (mapping prop : Node) (held : Ledger Resource) : Run (Deserialized TimeRecord) :=
  if grant (.memory .text) then
    let held := held.acquire (.memory .text)
    match asScalar0 prop with
    | none => timeFailure .parseFailure (some .text) (some (.property valueKey)) held
    | some text => do
      let held ← valueDestroy (some (.property valueKey)) held
      timeOptional env grant mapping (text.take (timeStrMaxLen - 1)) (freshType env prop) held
  else do
    let held ← valueDestroy (some (.property valueKey)) held
    let held ← freeMemory (some .object) held
    return ⟨.oom, none, held⟩

/-- The text of a time that is no mapping: `prop` is the caller's own handle, and
stays that to the end. -/
def timeOfScalar (value : Node) (held : Ledger Resource) : Run (Deserialized TimeRecord) :=
  if grant (.memory .text) then
    let held := held.acquire (.memory .text)
    match asScalar0 value with
    | none => timeFailure .parseFailure (some .text) (some .value) held
    | some text =>
      timeDetect env (text.take (timeStrMaxLen - 1)) (freshType env value) none none none
        (some .value) held
  else do
    let held ← freeMemory (some .object) held
    return ⟨.oom, none, held⟩

/-- `asdf_time_deserialize`. -/
def timeDeserialize (value : Node) : Run (Deserialized TimeRecord) :=
  if grant (.memory .object) then
    let held := callerHeld.acquire (.memory .object)
    match value with
    | .mapping tag pairs =>
      match mappingGet grant (.mapping tag pairs) valueKey held with
      | (none, held) => timeFailure .parseFailure none none held
      | (some prop, held) => timeOfMapping env grant (.mapping tag pairs) prop held
    | value => timeOfScalar env grant value held
  else .ret ⟨.oom, none, callerHeld⟩

end Time

/-! ## When the handles are settled -/

/-- The memory of a time. -/
def TimeRecord.owned (_ : TimeRecord) : List Allocation := [.text, .object]

/-- The format of a time that is given without a mapping can be told. -/
def Guessable (env : TimeEnv) (value : Node) : Prop :=
  ∃ text format, asScalar0 value = some text ∧
    validateOrGuessTimeFormat env (text.take (timeStrMaxLen - 1)) (freshType env value) none =
      some format

variable {env : TimeEnv} {grant : Resource → Bool}

theorem Settles.failed {α : Type} {owned : α → List Allocation} {run : Run (Deserialized α)}
    {err : ValueErr} (h : run = .ret ⟨err, none, callerHeld⟩) (bad : err ≠ .ok) :
    Settles owned run := ⟨_, h, bad, rfl⟩

/-- A failure that leaves the caller without its handle. -/
theorem not_settles_of_held {α : Type} {owned : α → List Allocation} {run : Run (Deserialized α)}
    (err : ValueErr) (h : run = .ret ⟨err, none, []⟩) : ¬ Settles owned run := by
  rintro ⟨r, ret, settled⟩
  cases h.symm.trans ret
  cases settled.2

theorem mappingGet_cases (grant : Resource → Bool) (mapping : Node) (key : Bytes)
    (held : Ledger Resource) :
    mappingGet grant mapping key held = (none, held) ∨
      ∃ prop, mappingGet grant mapping key held =
        (some prop, held.acquire (.handle (.property key))) := by
  unfold mappingGet
  split
  · exact .inr ⟨_, rfl⟩
  · exact .inl rfl

/-- The handle that was obtained last is destroyed. -/
theorem valueDestroy_last (h : Handle) (held : Ledger Resource) :
    valueDestroy (some h) (held.acquire (.handle h)) = .ret held :=
  Ledger.release_acquire _ _ _

/-- The one under an allocation is. -/
theorem valueDestroy_below (h : Handle) (m : Allocation) (held : Ledger Resource) :
    valueDestroy (some h) ((held.acquire (.handle h)).acquire (.memory m)) =
      .ret (held.acquire (.memory m)) :=
  Ledger.release_below _ Resource.noConfusion (Ledger.release_acquire _ _ _)

/-- What is held of a time whose text has been allocated. -/
def timeHeld : Ledger Resource := (callerHeld.acquire (.memory .object)).acquire (.memory .text)

/-- A failure destroys the property that is being read. -/
theorem timeFailure_property (err : ValueErr) (key : Bytes) :
    timeFailure err (some .text) (some (.property key))
        (timeHeld.acquire (.handle (.property key))) = .ret ⟨err, none, callerHeld⟩ := by
  simp [timeFailure, freeMemory, valueDestroy, timeHeld, callerHeld, Ledger.acquire, Ledger.release]

theorem timeFailure_value_property (err : ValueErr) (key : Bytes) :
    timeFailure err (some .text) (some (.property key))
        (((callerHeld.acquire (.memory .object)).acquire (.handle (.property key))).acquire
          (.memory .text)) = .ret ⟨err, none, callerHeld⟩ := by
  simp [timeFailure, freeMemory, valueDestroy, callerHeld, Ledger.acquire, Ledger.release]

theorem timeFailure_none (err : ValueErr) :
    timeFailure err (some .text) none timeHeld = .ret ⟨err, none, callerHeld⟩ := rfl

/-- A failure destroys what `prop` holds, which may be the caller's handle. -/
theorem timeFailure_value (err : ValueErr) :
    timeFailure err (some .text) (some .value) timeHeld = .ret ⟨err, none, []⟩ := rfl

theorem optionalText_cases (env : TimeEnv) (grant : Resource → Bool) (mapping : Node) (key : Bytes)
    (held : Ledger Resource) :
    optionalText env grant mapping key held = .ret (none, held.acquire (.handle (.property key))) ∨
      ∃ text, optionalText env grant mapping key held = .ret (some text, held) := by
  unfold optionalText
  rcases mappingGet_cases grant mapping key held with eq | ⟨prop, eq⟩
  · rw [eq]
    exact .inr ⟨none, rfl⟩
  · rw [eq]
    dsimp only
    split
    · rw [valueDestroy_last]
      exact .inr ⟨_, rfl⟩
    · exact .inl rfl

/-- A mapping whose text has been read. -/
theorem timeDetect_settles (value : Bytes) (valueType : ValueType)
    (format scale baseFormat : Option Bytes) :
    Settles TimeRecord.owned
      (timeDetect env value valueType format scale baseFormat none timeHeld) := by
  unfold timeDetect
  split
  · exact .failed (timeFailure_none _) nofun
  · exact ⟨_, rfl, rfl, rfl⟩

theorem timeOptional_settles (mapping : Node) (value : Bytes) (valueType : ValueType) :
    Settles TimeRecord.owned (timeOptional env grant mapping value valueType timeHeld) := by
  unfold timeOptional
  rcases optionalText_cases env grant mapping formatKey timeHeld with eq | ⟨format, eq⟩
  · rw [eq]
    dsimp only [Outcome.ret_bind]
    exact .failed (timeFailure_property _ _) nofun
  · rw [eq]
    dsimp only [Outcome.ret_bind]
    rcases optionalText_cases env grant mapping scaleKey timeHeld with eq | ⟨scale, eq⟩
    · rw [eq]
      dsimp only [Outcome.ret_bind]
      exact .failed (timeFailure_property _ _) nofun
    · rw [eq]
      dsimp only [Outcome.ret_bind]
      rcases optionalText_cases env grant mapping baseFormatKey timeHeld with eq | ⟨baseFormat, eq⟩
      · rw [eq]
        dsimp only [Outcome.ret_bind]
        exact .failed (timeFailure_property _ _) nofun
      · rw [eq]
        exact timeDetect_settles _ _ _ _ _

/-- A time that is a mapping settles its handles, whatever its properties. -/
theorem timeDeserialize_mapping_settles (tag : Option Bytes) (pairs : List (Node × Node)) :
    Settles TimeRecord.owned (timeDeserialize env grant (.mapping tag pairs)) := by
  unfold timeDeserialize
  split
  · dsimp only
    rcases mappingGet_cases grant (.mapping tag pairs) valueKey
      (callerHeld.acquire (.memory .object)) with eq | ⟨prop, eq⟩
    · rw [eq]
      exact .failed rfl (by rintro ⟨⟩)
    · rw [eq]
      dsimp only
      unfold timeOfMapping
      split
      · dsimp only
        split
        · exact .failed (timeFailure_value_property _ _) (by rintro ⟨⟩)
        · rw [valueDestroy_below]
          exact timeOptional_settles _ _ _
      · rw [valueDestroy_last]
        exact .failed rfl (by rintro ⟨⟩)
  · exact .failed rfl (by rintro ⟨⟩)

theorem timeDeserialize_eq {value : Node} (bare : ∀ tag pairs, value ≠ .mapping tag pairs)
    (object : grant (.memory .object) = true) :
    timeDeserialize env grant value =
      timeOfScalar env grant value (callerHeld.acquire (.memory .object)) := by
  unfold timeDeserialize
  rw [if_pos object]
  cases value with
  | mapping tag pairs => exact absurd rfl (bare tag pairs)
  | scalar | sequence => rfl

/-- A time that is no mapping settles its handles just if nothing fails after its
text was allocated. -/
theorem timeOfScalar_settles_iff (value : Node) :
    Settles TimeRecord.owned
        (timeOfScalar env grant value (callerHeld.acquire (.memory .object))) ↔
      (grant (.memory .text) = true → Guessable env value) := by
  unfold timeOfScalar
  by_cases text : grant (.memory .text) = true
  · rw [if_pos text]
    dsimp only
    constructor
    · intro settles _
      split at settles
      · exact absurd settles (not_settles_of_held _ (timeFailure_value _))
      · rename_i text scalar
        cases detected : validateOrGuessTimeFormat env (text.take (timeStrMaxLen - 1))
            (freshType env value) none with
        | none =>
          unfold timeDetect at settles
          rw [detected] at settles
          exact absurd settles (not_settles_of_held _ (timeFailure_value _))
        | some format => exact ⟨text, format, scalar, detected⟩
    · intro guessable
      obtain ⟨text, format, scalar, detected⟩ := guessable text
      rw [scalar]
      dsimp only
      unfold timeDetect
      rw [detected]
      exact ⟨_, rfl, rfl, rfl⟩
  · rw [if_neg text]
    constructor
    · exact fun _ granted => absurd granted text
    · exact fun _ => .failed rfl (by rintro ⟨⟩)

/-- When a time settles its handles: it is a mapping, or nothing fails once its
text has been allocated. -/
def TimeSettles (env : TimeEnv) (grant : Resource → Bool) (value : Node) : Prop :=
  (∀ tag pairs, value ≠ .mapping tag pairs) → grant (.memory .object) = true →
    grant (.memory .text) = true → Guessable env value

theorem time_settles_iff (env : TimeEnv) (grant : Resource → Bool) (value : Node) :
    Settles TimeRecord.owned (timeDeserialize env grant value) ↔ TimeSettles env grant value := by
  by_cases mapping : ∃ tag pairs, value = .mapping tag pairs
  · obtain ⟨tag, pairs, rfl⟩ := mapping
    constructor
    · exact fun _ bare => absurd rfl (bare tag pairs)
    · exact fun _ => timeDeserialize_mapping_settles tag pairs
  · have bare : ∀ tag pairs, value ≠ .mapping tag pairs := fun tag pairs eq =>
      mapping ⟨tag, pairs, eq⟩
    by_cases object : grant (.memory .object) = true
    · rw [timeDeserialize_eq bare object, timeOfScalar_settles_iff]
      exact ⟨fun h _ _ => h, fun h => h bare object⟩
    · constructor
      · exact fun _ _ granted => absurd granted object
      · intro _
        apply Settles.failed _ _
        · exact .oom
        · exact if_neg object
        · exact nofun

end LibAsdf
