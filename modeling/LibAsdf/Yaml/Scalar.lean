import LibAsdf.Parser.Text

/-!
# Scalar resolution

The recognizers of plain scalars in `yaml.c`, on the characters of a scalar.
What C gets from its floating-point unit and its locale is a parameter.

* `yamlScalarIsNull`, `yamlScalarIsBool`, `yamlScalarIsInt`,
  `yamlScalarIsFloat`: the four recognizers;
* `Floats`: conversions and arithmetic of `double`, on its bits.
-/

namespace LibAsdf

/-- `asdf_value_err_t`. -/
inductive ValueErr where
  | unknown
  | notFound
  | ok
  | typeMismatch
  | parseFailure
  | emitFailure
  | overflow
  | oom
  | readOnly
  deriving DecidableEq, Repr

/-- Doubles by their bits, floats by theirs. -/
structure Floats where
  /-- The value of `strtod`, and whether it sets `errno` to `ERANGE`. -/
  strtod : Bytes → UInt64 × Bool
  decimalPoint : Bytes
  mul : UInt64 → UInt64 → UInt64
  add : UInt64 → UInt64 → UInt64
  neg : UInt64 → UInt64
  isInf : UInt64 → Bool
  isFinite : UInt64 → Bool
  infinity : UInt64
  nan : UInt64
  zero : UInt64
  ofInt : Int → UInt64
  toFloat : UInt64 → UInt32
  floatIsFinite : UInt32 → Bool

def minus : Byte := 45

def plus : Byte := 43

def colon : Byte := 58

def underscore : Byte := 95

/-- `0` -/
def zeroDigit : Byte := 48

def uint64Max : Nat := 18446744073709551615

/-! ## Null and bool -/

/-- `null`, `Null`, `NULL`, `~` -/
def yamlNullStrs : List Bytes :=
  [[110, 117, 108, 108], [78, 117, 108, 108], [78, 85, 76, 76], [126]]

/-- `true`, `True`, `TRUE`, `yes`, `Yes`, `YES`, `on`, `On`, `ON` -/
def yamlTrueStrs : List Bytes :=
  [[116, 114, 117, 101], [84, 114, 117, 101], [84, 82, 85, 69], [121, 101, 115], [89, 101, 115],
    [89, 69, 83], [111, 110], [79, 110], [79, 78]]

/-- `false`, `False`, `FALSE`, `no`, `No`, `NO`, `off`, `Off`, `OFF` -/
def yamlFalseStrs : List Bytes :=
  [[102, 97, 108, 115, 101], [70, 97, 108, 115, 101], [70, 65, 76, 83, 69], [110, 111], [78, 111],
    [78, 79], [111, 102, 102], [79, 102, 102], [79, 70, 70]]

/-- `asdf_yaml_scalar_is_null`. -/
def yamlScalarIsNull (scalar : Bytes) : Bool := scalar.isEmpty || yamlNullStrs.contains scalar

/-- `asdf_yaml_scalar_is_bool`, with the value if it is one. -/
def yamlScalarIsBool (scalar : Bytes) : Option Bool :=
  if scalar = [zeroDigit] then some false
  else if scalar = [zeroDigit + 1] then some true
  else if yamlTrueStrs.contains scalar then some true
  else if yamlFalseStrs.contains scalar then some false
  else none

/-! ## Integers -/

inductive Radix where
  | bin
  | oct
  | dec
  | hex
  deriving DecidableEq, Repr

def Radix.base : Radix → Nat
  | bin => 2
  | oct => 8
  | dec => 10
  | hex => 16

def radixSexagesimal : Nat := 60

/-- `isxdigit`. -/
def isXDigit (chr : Byte) : Bool :=
  isDigit chr || (97 ≤ chr && chr ≤ 102) || (65 ≤ chr && chr ≤ 70)

def isDigitInBase (chr : Byte) : Radix → Bool
  | .bin => chr == 48 || chr == 49
  | .oct => 48 ≤ chr && chr ≤ 55
  | .dec => isDigit chr
  | .hex => isXDigit chr

/-- The value of a digit to `strtoull`. -/
def digitValue (chr : Byte) : Nat :=
  if isDigit chr then chr.toNat - 48
  else if 97 ≤ chr then chr.toNat - 87
  else chr.toNat - 55

def spanDigits (text : Bytes) (base : Radix) : Nat :=
  (text.takeWhile fun chr => chr == underscore || isDigitInBase chr base).length

/-- The length of the match for `(:[0-5]?[0-9])*`. -/
def spanBase60 : Bytes → Nat
  | colon' :: tens :: rest =>
    if colon' = colon ∧ isDigit tens = true then
      match rest with
      | ones :: rest' =>
        if isDigit ones then
          if tens > 53 then 0 else 3 + spanBase60 rest'
        else 2 + spanBase60 (ones :: rest')
      | [] => 2
    else 0
  | _ => 0

/-- `copy_digits`; a decimal point is only given for floats. -/
def copyDigits (text : Bytes) (decimalPoint : Option Bytes) : Bytes :=
  text.flatMap fun chr =>
    if chr = underscore then []
    else if chr = dot then decimalPoint.getD [dot]
    else [chr]

/-- The number that `strtoull` reads from digits of its base. -/
def digitsValue (digits : Bytes) (base : Radix) : Nat :=
  digits.foldl (fun value chr => value * base.base + digitValue chr) 0

/-- `parse_uint_digits`. -/
def parseUintDigits (text : Bytes) (base : Radix) : Except ValueErr Nat :=
  let digits := copyDigits text none
  if digits = [] then .error .parseFailure
  else if digitsValue digits base > uint64Max then .error .overflow
  else .ok (digitsValue digits base)

/-- The loop over the base 60 components, each a colon and one or two digits. -/
def base60Components : Bytes → Nat → Except ValueErr Nat
  | _ :: tens :: ones :: rest, magnitude =>
    if ones ≠ colon then
      let component := (tens.toNat - 48) * 10 + (ones.toNat - 48)
      if magnitude > (uint64Max - component) / radixSexagesimal then .error .overflow
      else base60Components rest (magnitude * radixSexagesimal + component)
    else
      let component := tens.toNat - 48
      if magnitude > (uint64Max - component) / radixSexagesimal then .error .overflow
      else base60Components (ones :: rest) (magnitude * radixSexagesimal + component)
  | [_, tens], magnitude =>
    let component := tens.toNat - 48
    if magnitude > (uint64Max - component) / radixSexagesimal then .error .overflow
    else .ok (magnitude * radixSexagesimal + component)
  | _, magnitude => .ok magnitude

/-- The magnitude of an integer without its sign. -/
def parseMagnitude (text : Bytes) : Except ValueErr Nat :=
  match text with
  | [] => .error .parseFailure
  | first :: rest =>
    if isDigit first = false then .error .parseFailure
    else if first = zeroDigit ∧ rest ≠ [] then
      -- The leading 0 is kept as an octal digit.
      let base := if rest.head? = some 98 then .bin else if rest.head? = some 120 then .hex else .oct
      let digits := if base = .oct then text else rest.drop 1
      if spanDigits digits base = digits.length then parseUintDigits digits base
      else .error .parseFailure
    else
      let span := spanDigits text .dec
      if span = text.length then parseUintDigits text .dec
      else if first = zeroDigit ∨ span + spanBase60 (text.drop span) ≠ text.length then
        .error .parseFailure
      else do
        let magnitude ← parseUintDigits (text.take span) .dec
        base60Components (text.drop span) magnitude

def hasSign : Bytes → Bool
  | chr :: _ => chr == minus || chr == plus
  | [] => false

/-- `skip_sign`. -/
def skipSign (text : Bytes) : Bytes := if hasSign text then text.drop 1 else text

/-- `asdf_yaml_scalar_is_int`: whether it is negative, and the magnitude. -/
def yamlScalarIsInt (scalar : Bytes) : Except ValueErr (Bool × Nat) :=
  (parseMagnitude (skipSign scalar)).map fun magnitude => (scalar.head? = some minus, magnitude)

/-! ## Floats -/

/-- `.inf`, `.Inf`, `.INF` -/
def infStrs : List Bytes := [[46, 105, 110, 102], [46, 73, 110, 102], [46, 73, 78, 70]]

/-- `.nan`, `.NaN`, `.NAN` -/
def nanStrs : List Bytes := [[46, 110, 97, 110], [46, 78, 97, 78], [46, 78, 65, 78]]

/-- `is_yaml_special_float`. -/
def yamlSpecialFloat (fl : Floats) (scalar : Bytes) : Option UInt64 :=
  let signed := scalar.length = 5 && hasSign scalar
  let rest := if signed then scalar.drop 1 else scalar
  if infStrs.contains rest then
    some (if signed && scalar.head? = some minus then fl.neg fl.infinity else fl.infinity)
  else if signed then none
  else if nanStrs.contains rest then some fl.nan
  else none

/-- `parse_float_digits`: the error code and the value. -/
def parseFloatDigits (fl : Floats) (text : Bytes) : ValueErr × UInt64 :=
  let (value, erange) := fl.strtod (copyDigits text (some fl.decimalPoint))
  (if erange && fl.isInf value then .overflow else .ok, value)

def spanDecimalInt (text : Bytes) : Nat :=
  match text with
  | first :: _ => if isDigit first then spanDigits text .dec else 0
  | [] => 0

/-- `span_exponent`: the length of the match for `[eE][-+]?[0-9]+`. -/
def spanExponent (text : Bytes) : Nat :=
  match text with
  | first :: rest =>
    if first = 101 ∨ first = 69 then
      let digits := ((skipSign rest).takeWhile isDigit).length
      if digits = 0 then 0 else 1 + (rest.length - (skipSign rest).length) + digits
    else 0
  | [] => 0

/-- `is_decimal_float`. -/
def isDecimalFloat (scalar : Bytes) (allowInt : Bool) : Bool :=
  let text := skipSign scalar
  let intLen := spanDecimalInt text
  let rest := text.drop intLen
  let hasDecimal : Bool := rest.head? = some dot
  if hasDecimal then
    if intLen = 0 ∧ spanDecimalInt (rest.drop 1) = 0 then false
    else
      let rest := rest.drop (1 + spanDigits (rest.drop 1) .dec)
      spanExponent rest = rest.length
  else if intLen = 0 then false
  else spanExponent rest = rest.length && (0 < spanExponent rest || allowInt)

/-- `is_base60_float`. -/
def isBase60Float (scalar : Bytes) : Bool :=
  let text := skipSign scalar
  let intLen := spanDecimalInt text
  let rest := text.drop intLen
  let base60Len := spanBase60 rest
  let rest := rest.drop base60Len
  intLen ≠ 0 && base60Len ≠ 0 && rest.head? = some dot &&
    spanDigits (rest.drop 1) .dec = rest.length - 1

/-- The loop over the components of a base 60 float. -/
def base60FloatComponents (fl : Floats) : List Bytes → UInt64 → ValueErr × UInt64
  | [], value => (.ok, value)
  | text :: rest, value =>
    match parseFloatDigits fl text with
    | (.ok, component) =>
      base60FloatComponents fl rest (fl.add (fl.mul value (fl.ofInt radixSexagesimal)) component)
    | (err, _) => (err, value)

/-- `parse_base60_float`, on the parts between the colons. -/
def parseBase60Float (fl : Floats) (scalar : Bytes) : ValueErr × UInt64 :=
  match base60FloatComponents fl ((skipSign scalar).splitOn colon) fl.zero with
  | (.ok, value) =>
    let value := if scalar.head? = some minus then fl.neg value else value
    (if fl.isInf value then .overflow else .ok, value)
  | (err, value) => (err, value)

/-- `asdf_yaml_scalar_is_float`. The value is left as it was, zero, unless one
of the three forms matches. -/
def yamlScalarIsFloat (fl : Floats) (scalar : Bytes) (allowInt : Bool) : ValueErr × UInt64 :=
  if isDecimalFloat scalar allowInt then parseFloatDigits fl scalar
  else
    match yamlSpecialFloat fl scalar with
    | some value => (.ok, value)
    | none =>
      if isBase60Float scalar then parseBase60Float fl scalar else (.parseFailure, fl.zero)

end LibAsdf
