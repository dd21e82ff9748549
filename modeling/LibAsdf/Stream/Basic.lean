import LibAsdf.Base.Outcome
import LibAsdf.Base.Search
import Mathlib.Algebra.Order.Ring.Nat

/-!
# The stream interface

What the file streams and the memory streams share: raw memory, the stream
record, the table of operations, and what is built on the table alone.

* `View`: a pointer that a stream hands out, with the count it reports;
* `StreamOps`: the operations of a stream;
* `streamSeek`: seeking, also forward on streams that cannot seek.
-/

namespace LibAsdf

abbrev Byte := UInt8

abbrev Bytes := List Byte

/-- The error codes that the modelled functions set. -/
inductive ErrorCode where
  | unknownState
  | streamReadOnly
  | invalidAsdfHeader
  | unexpectedEof
  | invalidBlockHeader
  | yamlParserInitFailed
  | yamlParseFailed
  | outOfMemory
  | system
  deriving DecidableEq, Repr

/-- What C leaves undefined, or an `assert` stops. -/
inductive Fault where
  /-- an access outside an allocation -/
  | memory
  /-- an access outside a vector's size -/
  | vector
  | assertion
  /-- a division by zero -/
  | division
  deriving DecidableEq, Repr

abbrev Run := Outcome Fault

/-! ## Machine integers -/

def sizeMax : Nat := 2 ^ 64 - 1

/-- `PTRDIFF_MAX`, `SSIZE_MAX` and `ASDF_OFF_MAX`. -/
def offMax : Nat := 2 ^ 63 - 1

/-- A difference of two `size_t`. -/
def sizeSub (a b : Nat) : Nat := if b ≤ a then a - b else a + 2 ^ 64 - b

@[simp] theorem sizeSub_of_le {a b : Nat} (h : b ≤ a) : sizeSub a b = a - b := if_pos h

/-- The sum of a `size_t` and an `off_t`, as the `size_t` it is converted to. -/
def sizeAdd (a : Nat) (offset : Int) : Nat := ((a + offset) % 2 ^ 64).toNat

/-! ## Memory -/

def assert (b : Bool) : Run Unit := if b then .ret () else .fault .assertion

/-- The `n` bytes from offset `off` of an allocation. -/
def load (mem : Bytes) (off n : Nat) : Run Bytes :=
  if off + n ≤ mem.length then .ret ((mem.drop off).take n) else .fault .memory

/-- The allocation with `bytes` written from offset `off`. -/
def store (mem : Bytes) (off : Nat) (bytes : Bytes) : Run Bytes :=
  if off + bytes.length ≤ mem.length then
    .ret (mem.take off ++ bytes ++ mem.drop (off + bytes.length))
  else .fault .memory

/-- A pointer into an allocation: the bytes from it to the allocation's end,
and the count reported with it. -/
structure View where
  mem : Bytes
  len : Nat
  deriving DecidableEq, Repr

/-- The bytes a pointer and its count promise. -/
def View.Shows (v : View) (bytes : Bytes) : Prop :=
  v.len = bytes.length ∧ v.mem.take v.len = bytes

theorem View.Shows.len_le {v : View} {bytes : Bytes} (h : v.Shows bytes) :
    v.len ≤ v.mem.length := by
  have := congrArg List.length h.2
  rw [List.length_take, ← h.1] at this
  omega

/-- What a pointer and a count show, with nothing for the null pointer. -/
def Shown : Option View → Bytes → Prop
  | none, bytes => bytes = []
  | some v, bytes => v.Shows bytes

def View.get (v : View) (idx : Nat) : Run Byte :=
  match v.mem[idx]? with
  | some b => .ret b
  | none => .fault .memory

theorem load_of_le {mem : Bytes} {off n : Nat} (h : off + n ≤ mem.length) :
    load mem off n = .ret ((mem.drop off).take n) := if_pos h

/-- A store inside the allocation: the part before it stays. -/
theorem store_of_le (mem : Bytes) (off : Nat) (bytes : Bytes)
    (h : off + bytes.length ≤ mem.length) :
    ∃ mem', store mem off bytes = .ret mem' ∧ mem'.length = mem.length ∧
      mem'.take (off + bytes.length) = mem.take off ++ bytes := by
  refine ⟨_, if_pos h, ?_, ?_⟩
  · simp only [List.length_append, List.length_take, List.length_drop]
    omega
  · have hlen : (mem.take off ++ bytes).length = off + bytes.length := by
      rw [List.length_append, List.length_take]
      omega
    rw [← hlen, List.take_left]

theorem length_of_store {mem mem' bytes : Bytes} {off : Nat}
    (h : store mem off bytes = .ret mem') : mem'.length = mem.length := by
  unfold store at h
  by_cases fits : off + bytes.length ≤ mem.length
  · rw [if_pos fits] at h
    cases h
    simp only [List.length_append, List.length_take, List.length_drop]
    omega
  · rw [if_neg fits] at h
    cases h

/-! ## Lines -/

def newline : Byte := 10

/-- The length of the first line, its newline included. -/
def lineLength : Bytes → Nat
  | [] => 0
  | b :: bytes => if b = newline then 1 else lineLength bytes + 1

def newlineIndex (bytes : Bytes) : Option Nat := bytes.findIdx? (· == newline)

theorem newlineIndex_cons (b : Byte) (bytes : Bytes) :
    newlineIndex (b :: bytes) =
      if b = newline then some 0 else (newlineIndex bytes).map (· + 1) := by
  rw [newlineIndex, List.findIdx?_cons]
  by_cases h : b = newline
  · simp [h]
  · simp [h, newlineIndex]

theorem lineLength_of_some {bytes : Bytes} {idx : Nat} (h : newlineIndex bytes = some idx) :
    lineLength bytes = idx + 1 ∧ idx < bytes.length := by
  induction bytes generalizing idx with
  | nil => cases h
  | cons b bytes ih =>
    rw [newlineIndex_cons] at h
    rw [lineLength]
    split at h
    · cases h
      rename_i hb
      simp [hb]
    · rename_i hb
      rw [Option.map_eq_some_iff] at h
      obtain ⟨i, hi, rfl⟩ := h
      obtain ⟨len, lt⟩ := ih hi
      rw [if_neg hb, len]
      exact ⟨rfl, Nat.succ_lt_succ lt⟩

theorem lineLength_of_none {bytes : Bytes} (h : newlineIndex bytes = none) (rest : Bytes) :
    lineLength (bytes ++ rest) = bytes.length + lineLength rest := by
  induction bytes with
  | nil => simp
  | cons b bytes ih =>
    rw [newlineIndex_cons] at h
    split at h
    · cases h
    · rename_i hb
      rw [Option.map_eq_none_iff] at h
      rw [List.cons_append, lineLength, if_neg hb, ih h, List.length_cons]
      omega

theorem lineLength_append_of_some {bytes : Bytes} {idx : Nat}
    (h : newlineIndex bytes = some idx) (rest : Bytes) :
    lineLength (bytes ++ rest) = idx + 1 := by
  induction bytes generalizing idx with
  | nil => cases h
  | cons b bytes ih =>
    rw [newlineIndex_cons] at h
    rw [List.cons_append, lineLength]
    split at h
    · cases h
      rename_i hb
      rw [if_pos hb]
    · rename_i hb
      rw [Option.map_eq_some_iff] at h
      obtain ⟨i, hi, rfl⟩ := h
      rw [if_neg hb, ih hi]

theorem lineLength_le (bytes : Bytes) : lineLength bytes ≤ bytes.length := by
  induction bytes with
  | nil => exact Nat.le_refl _
  | cons b bytes ih =>
    rw [lineLength, List.length_cons]
    split <;> omega

/-- The position of the first newline among the bytes shown, read in order. -/
def View.findNewline (v : View) : Run (Option Nat) :=
  match newlineIndex (v.mem.take v.len) with
  | some idx => .ret (some idx)
  | none => if v.len ≤ v.mem.length then .ret none else .fault .memory

/-! ## Tokens -/

/-- The two loops of `asdf_scan_tokens`: over the positions of the buffer, and
at each of them over the tokens. -/
def scanTokens (buf : Bytes) (tokens : List Bytes) : Option (Nat × Nat) :=
  firstMatch tokens buf

/-- `asdf_scan_tokens` over the bytes shown. -/
def View.scanTokens (v : View) (tokens : List Bytes) : Run (Option (Nat × Nat)) :=
  if v.len ≤ v.mem.length ∨ tokens = [] then
    .ret (LibAsdf.scanTokens (v.mem.take v.len) tokens)
  else .fault .memory

theorem View.Shows.scanTokens {v : View} {bytes : Bytes} (h : v.Shows bytes)
    (tokens : List Bytes) : v.scanTokens tokens = .ret (LibAsdf.scanTokens bytes tokens) := by
  rw [View.scanTokens, if_pos (.inl h.len_le), h.2]

theorem View.Shows.findNewline {v : View} {bytes : Bytes} (h : v.Shows bytes) :
    v.findNewline = .ret (newlineIndex bytes) := by
  rw [View.findNewline, h.2, if_pos h.len_le]
  cases newlineIndex bytes <;> rfl

def maxTokenLen (tokens : List Bytes) : Nat := (tokens.map List.length).foldl max 0

theorem foldl_max_le {ns : List Nat} {a m : Nat} :
    ns.foldl max a ≤ m ↔ a ≤ m ∧ ∀ n ∈ ns, n ≤ m := by
  induction ns generalizing a with
  | nil => simp
  | cons n ns ih =>
    rw [List.foldl_cons, ih, Nat.max_le, List.forall_mem_cons, and_assoc]

theorem maxTokenLen_le {tokens : List Bytes} {m : Nat} :
    maxTokenLen tokens ≤ m ↔ ∀ t ∈ tokens, t.length ≤ m := by
  simp [maxTokenLen, foldl_max_le]

theorem length_le_maxTokenLen {tokens : List Bytes} {t : Bytes} (h : t ∈ tokens) :
    t.length ≤ maxTokenLen tokens :=
  maxTokenLen_le.mp (Nat.le_refl _) t h

/-! ## Streams -/

inductive Whence where
  | set
  | cur
  | «end»
  deriving DecidableEq, Repr

/-- The fields of `asdf_stream_t` itself. The error is the one of the context,
which the stream shares with the parser; `capture` is the capture buffer. -/
structure StreamBase where
  isSeekable : Bool
  isWriteable : Bool
  capture : Option Bytes
  error : Option ErrorCode
  deriving DecidableEq, Repr

def StreamBase.setError (b : StreamBase) (code : ErrorCode) : StreamBase :=
  { b with error := some code }

/-- `asdf_stream_set_capture`, with a fresh buffer or none. -/
def StreamBase.setCapture (b : StreamBase) (buf : Option Bytes) : StreamBase :=
  { b with capture := buf }

/-- `stream_capture` of the bytes `size` from `off` of a stream's buffer. -/
def StreamBase.streamCapture (b : StreamBase) (mem : Bytes) (off size : Nat) : Run StreamBase :=
  match b.capture with
  | none => .ret b
  | some captured => do
    let bytes ← load mem off size
    return { b with capture := some (captured ++ bytes) }

@[simp] theorem StreamBase.setError_error (b : StreamBase) (code : ErrorCode) :
    (b.setError code).error = some code := rfl

@[simp] theorem StreamBase.setError_isSeekable (b : StreamBase) (code : ErrorCode) :
    (b.setError code).isSeekable = b.isSeekable := rfl

/-- What `stream_capture` leaves as it is. -/
theorem StreamBase.streamCapture_frame {b b' : StreamBase} {mem : Bytes} {off size : Nat}
    (h : b.streamCapture mem off size = .ret b') :
    b'.isSeekable = b.isSeekable ∧ b'.isWriteable = b.isWriteable ∧ b'.error = b.error ∧
      (b.capture = none → b' = b) := by
  unfold streamCapture at h
  cases hc : b.capture with
  | none =>
    rw [hc] at h
    cases h
    exact ⟨rfl, rfl, rfl, fun _ => rfl⟩
  | some captured =>
    rw [hc] at h
    obtain ⟨bytes, -, h⟩ := Outcome.bind_eq_ret.mp h
    cases h
    exact ⟨rfl, rfl, rfl, fun h => by cases h⟩

theorem StreamBase.streamCapture_of_le (b : StreamBase) (mem : Bytes) (off size : Nat)
    (h : off + size ≤ mem.length) : ∃ b', b.streamCapture mem off size = .ret b' := by
  unfold streamCapture
  cases b.capture with
  | none => exact ⟨b, rfl⟩
  | some captured =>
    rw [load_of_le h]
    exact ⟨_, rfl⟩

/-- The operations of a stream. A null pointer comes with the count 0. -/
class StreamOps (σ : Type) where
  base : σ → StreamBase
  withBase : σ → StreamBase → σ
  next : σ → Nat → Run (Option View × σ)
  consume : σ → Nat → Run σ
  readline : σ → Run (Option View × σ)
  scan : σ → List Bytes → Run (Option (Nat × Nat) × σ)
  seek : σ → Int → Whence → Run (Bool × σ)
  tell : σ → Int

section Generic

variable {σ : Type} [StreamOps σ]

open StreamOps

def errorGet (s : σ) : Option ErrorCode := (base s).error

def setError (s : σ) (code : ErrorCode) : σ := withBase s ((base s).setError code)

def streamSetCapture (s : σ) (buf : Option Bytes) : σ := withBase s ((base s).setCapture buf)

/-- `asdf_stream_peek`. -/
def streamPeek (s : σ) (count : Nat) : Run (Option View × σ) := do
  let (v, s) ← next s count
  let s ← consume s 0
  return (v, s)

/-- One round of the reading loop of `asdf_stream_seek`. -/
def skipRound : Nat × σ → Run ((Nat × σ) ⊕ (Bool × σ))
  | (0, s) => return .inr (true, s)
  | (toConsume, s) => do
    let (v, s) ← next s 1
    if (errorGet s).isSome then
      return .inr (false, s)
    match v with
    | none => return .inr (true, s)
    | some v =>
      let count := if v.len ≥ toConsume then toConsume else v.len
      let s ← consume s count
      return .inl (toConsume - count, s)

/-- `asdf_stream_seek`; `true` stands for its result 0. Every round consumes,
so one round for each byte and a last one are enough. -/
def streamSeek (s : σ) (offset : Int) (whence : Whence) : Run (Bool × σ) :=
  if !(base s).isSeekable && offset < 0 && whence != .cur then
    return (false, setError s .system)
  else if (base s).isSeekable then
    seek s offset whence
  else do
    assert (0 ≤ offset)
    Outcome.loop skipRound (offset.toNat + 1) (offset.toNat, s)

end Generic

end LibAsdf
