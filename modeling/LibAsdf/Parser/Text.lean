import LibAsdf.Stream.Basic

/-!
# Texts that the parser looks for

C strings inside an allocation, the tokens of the parser, the predicates on
what follows a token, and version strings.
-/

namespace LibAsdf

/-! ## C strings -/

/-- `strncmp(buf, str, len) == 0` for a `str` of `len` bytes without a zero:
the comparison stops at the first difference. -/
def strncmp : Bytes → Bytes → Run Bool
  | _, [] => .ret true
  | [], _ :: _ => .fault .memory
  | b :: mem, c :: str => if b = c then strncmp mem str else .ret false

/-- What is long enough is compared without a fault. -/
theorem strncmp_eq {mem str : Bytes} (le : str.length ≤ mem.length) :
    strncmp mem str = .ret (decide (str <+: mem)) := by
  induction str generalizing mem with
  | nil => simp [strncmp]
  | cons c str ih =>
    cases mem with
    | nil => cases le
    | cons d mem =>
      rw [strncmp]
      by_cases same : d = c
      · subst same
        rw [if_pos rfl, ih (Nat.le_of_succ_le_succ le)]
        simp
      · rw [if_neg same]
        simp [Ne.symm same]

/-- `strndup(buf, n)`: up to the first zero among the first `n` bytes. -/
def strndup (mem : Bytes) (n : Nat) : Run Bytes :=
  match (mem.take n).idxOf? 0 with
  | some len => .ret (mem.take len)
  | none => if n ≤ mem.length then .ret (mem.take n) else .fault .memory

/-- A byte that the code reads without a check. -/
def peekByte (mem : Bytes) (idx : Nat) : Run Byte :=
  match mem[idx]? with
  | some b => .ret b
  | none => .fault .memory

def isDigit (b : Byte) : Bool := 48 ≤ b && b ≤ 57

def dot : Byte := 46

def carriageReturn : Byte := 13

/-! ## Tokens -/

inductive ParseToken where
  | yamlDirective
  | yamlDocumentEnd
  | blockMagic
  | blockIndexHeader
  deriving DecidableEq, Repr

def yamlDirectivePrefix : Bytes := [37, 89, 65, 77, 76, 32]

/-- `%YAML 1.1` -/
def yamlDirective : Bytes := yamlDirectivePrefix ++ [49, 46, 49]

/-- A newline and three dots. -/
def yamlDocumentEndMarker : Bytes := [10, 46, 46, 46]

def blockMagic : Bytes := [0xd3, 66, 76, 75]

/-- `#ASDF BLOCK INDEX` -/
def blockIndexHeader : Bytes :=
  [35, 65, 83, 68, 70, 32, 66, 76, 79, 67, 75, 32, 73, 78, 68, 69, 88]

/-- `#ASDF ` -/
def asdfVersionComment : Bytes := [35, 65, 83, 68, 70, 32]

/-- `#ASDF_STANDARD ` -/
def asdfStandardComment : Bytes :=
  [35, 65, 83, 68, 70, 95, 83, 84, 65, 78, 68, 65, 82, 68, 32]

def commentChar : Byte := 35

/-- The two version comments, then `rest`. -/
def withVersions (rest : Bytes) : Bytes :=
  asdfVersionComment ++ [49, newline] ++ asdfStandardComment ++ [49, newline] ++ rest

/-- `asdf_parse_tokens`. -/
def ParseToken.tok : ParseToken → Bytes
  | yamlDirective => yamlDirectivePrefix
  | yamlDocumentEnd => yamlDocumentEndMarker
  | blockMagic => LibAsdf.blockMagic
  | blockIndexHeader => LibAsdf.blockIndexHeader

theorem ParseToken.tok_le (t : ParseToken) : t.tok.length ≤ blockIndexHeader.tok.length := by
  cases t <;> decide

/-! ## What follows a token -/

def endsWithNewline (mem : Bytes) (bufSize len : Nat) : Run Bool :=
  if len = 0 ∨ bufSize = 0 ∨ bufSize < len + 1 then return false
  else do
    let b ← peekByte mem len
    if b = newline then
      return true
    if b = carriageReturn ∧ bufSize ≥ len + 2 then
      let c ← peekByte mem (len + 1)
      return c = newline
    return false

/-- The null pointer comes with the count 0, which is shorter than `str`. -/
def isStringWithNewline (v : Option View) (str : Bytes) : Run Bool :=
  match v with
  | none => return false
  | some v =>
    if v.len < str.length + 1 then return false
    else do
      if !(← strncmp v.mem str) then
        return false
      endsWithNewline v.mem v.len str.length

/-- The end of a run of digits from `idx`, at most `n` further: the byte is
read before the bound is checked. -/
def skipDigits (mem : Bytes) : Nat → Nat → Run Nat
  | 0, idx => do
    let _ ← peekByte mem idx
    return idx
  | n + 1, idx => do
    let b ← peekByte mem idx
    if isDigit b then skipDigits mem n (idx + 1) else return idx

/-- The second number of a version, and the end of the line. -/
def isYamlMinorVersion (v : View) (idx : Nat) : Run Bool := do
  if !isDigit (← peekByte v.mem idx) then
    return false
  let idx ← skipDigits v.mem (v.len - idx) idx
  let idx := if (← peekByte v.mem idx) = carriageReturn ∧ idx < v.len then idx + 1 else idx
  return (← peekByte v.mem idx) = newline

def isGenericYamlDirective (v : Option View) : Run Bool :=
  match v with
  | none => return false
  | some v =>
    if v.len < yamlDirective.length + 1 then return false
    else do
      if !(← strncmp v.mem yamlDirectivePrefix) then
        return false
      let idx := yamlDirectivePrefix.length
      if !isDigit (← peekByte v.mem idx) then
        return false
      let idx ← skipDigits v.mem (v.len - idx) idx
      -- The dot is only asked for inside the buffer
      if idx < v.len then
        if (← peekByte v.mem idx) ≠ dot then
          return false
        isYamlMinorVersion v (idx + 1)
      else isYamlMinorVersion v idx

def isYamlDirective (v : Option View) : Run Bool := do
  if ← isStringWithNewline v yamlDirective then
    return true
  isGenericYamlDirective v

def isYamlDocumentEndMarker (v : Option View) : Run Bool :=
  isStringWithNewline v yamlDocumentEndMarker

def isBlockMagic (v : Option View) : Run Bool :=
  match v with
  | none => return false
  | some v =>
    if v.len < blockMagic.length then return false
    else do
      let bytes ← load v.mem 0 blockMagic.length
      return bytes = blockMagic

/-! ## Versions -/

structure Version where
  version : Bytes
  major : Nat
  minor : Nat
  patch : Nat
  extra : Option Bytes
  deriving DecidableEq, Repr

/-- `strtoul` of leading digits: the value, which saturates, as the
`unsigned int` it is stored in, and what follows. -/
def strtoul (str : Bytes) : Nat × Bytes :=
  let digits := str.takeWhile isDigit
  let value := digits.foldl (fun acc b => acc * 10 + (b.toNat - 48)) 0
  (min value sizeMax % 2 ^ 32, str.drop digits.length)

/-- One `X` or `X.` of a version: the number, and what the parsing does next:
stop with some extra text, or go on after the dot. -/
def versionNumber (str : Bytes) : Nat × (Option Bytes ⊕ Bytes) :=
  let (value, rest) := strtoul str
  match rest with
  | [] => (value, .inl none)
  | b :: chr =>
    if b ≠ dot then (value, .inl (some rest))
    else if (chr.head?.map isDigit).getD false then (value, .inr chr)
    else (value, .inl (some chr))

/-- `asdf_version_parse` of a string without its terminating zero. -/
def versionParse (version : Bytes) : Version :=
  let ver : Version := ⟨version, 0, 0, 0, none⟩
  if !(version.head?.map isDigit).getD false then ver
  else
    match versionNumber version with
    | (major, .inl extra) => { ver with major := major, extra := extra }
    | (major, .inr chr) =>
      match versionNumber chr with
      | (minor, .inl extra) => { ver with major := major, minor := minor, extra := extra }
      | (minor, .inr chr) =>
        let (patch, rest) := strtoul chr
        let chr := match rest with
          | b :: chr => if b = dot ∨ b = 45 then chr else rest
          | [] => rest
        { ver with
          major := major
          minor := minor
          patch := patch
          extra := if chr = [] then none else some chr }

example : versionParse [49, 46, 54, 46, 48] = ⟨[49, 46, 54, 46, 48], 1, 6, 0, none⟩ := by decide

end LibAsdf
