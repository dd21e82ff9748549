import LibAsdf.Stream.Basic

/-!
# Memory streams

The stream over a buffer in memory; its length is `size`. A resizeable
stream's `out_buf` and `out_size` repeat the buffer and are left out.
-/

namespace LibAsdf

structure MemStream extends StreamBase where
  buf : Bytes
  pos : Nat
  isResizeable : Bool
  deriving DecidableEq, Repr

namespace MemStream

def size (s : MemStream) : Nat := s.buf.length

/-- The pointer at the current position, with `len` bytes reported. -/
def view (s : MemStream) (len : Nat) : View := ⟨s.buf.drop s.pos, len⟩

/-- The bytes that are still to come. -/
def remaining (s : MemStream) : Bytes := s.buf.drop s.pos

end MemStream

def streamFromMemory (buf : Bytes) : MemStream where
  isSeekable := true
  isWriteable := true
  capture := none
  error := none
  buf := buf
  pos := 0
  isResizeable := false

def streamFromMalloc (buf : Bytes) : MemStream :=
  { streamFromMemory buf with isResizeable := true }

def memNext (s : MemStream) (_count : Nat) : Run (Option View × MemStream) :=
  if s.pos ≥ s.size then return (none, s)
  else return (some (s.view (s.size - s.pos)), s)

def memConsume (s : MemStream) (nbytes : Nat) : Run MemStream := do
  let base ← s.toStreamBase.streamCapture s.buf s.pos nbytes
  return { s with toStreamBase := base, pos := s.pos + nbytes }

def memReadline (s : MemStream) : Run (Option View × MemStream) :=
  let remaining := sizeSub s.size s.pos
  if remaining = 0 then return (none, s)
  else do
    let idx := (← (s.view remaining).findNewline).getD remaining
    let s' ← memConsume s (idx + 1)
    return (some (s.view (idx + 1)), s')

def memScan (s : MemStream) (tokens : List Bytes) : Run (Option (Nat × Nat) × MemStream) := do
  let avail := sizeSub s.size s.pos
  match ← (s.view avail).scanTokens tokens with
  | some (offset, tokenIdx) =>
    let s' ← memConsume s offset
    return (some (offset + s.pos, tokenIdx), s')
  | none =>
    let s' ← memConsume s avail
    return (none, s')

/-- `new_pos` of `mem_seek`, a `size_t`. -/
def MemStream.newPos (s : MemStream) (offset : Int) : Whence → Nat
  | .set => sizeAdd 0 offset
  | .cur => sizeAdd s.pos offset
  | .end => sizeAdd s.size offset

def memSeek (s : MemStream) (offset : Int) (whence : Whence) : Bool × MemStream :=
  let newPos := s.newPos offset whence
  (true, { s with pos := if newPos > s.size then s.size else newPos })

def memTell (s : MemStream) : Int := s.pos

/-- The copy of `mem_write`, after the buffer has been given its size. -/
def memWriteInto (s : MemStream) (bytes : Bytes) : Run (Nat × MemStream) := do
  let avail := sizeSub s.size s.pos
  let toCopy := if avail < bytes.length then avail else bytes.length
  let buf ← store s.buf s.pos (bytes.take toCopy)
  let base := if toCopy < bytes.length then s.toStreamBase.setError .unexpectedEof
    else s.toStreamBase
  return (toCopy, { s with toStreamBase := base, buf := buf, pos := s.pos + toCopy })

/-- `mem_write`; `realloc` leaves new bytes indeterminate, zero here, and
refuses only more than `PTRDIFF_MAX`. -/
def memWrite (s : MemStream) (bytes : Bytes) : Run (Nat × MemStream) :=
  let count := bytes.length
  if s.pos + count ≥ s.size ∧ s.isResizeable then
    if s.size + count > offMax then
      return (0, { s with toStreamBase := s.toStreamBase.setError .outOfMemory })
    else memWriteInto { s with buf := s.buf ++ List.replicate count 0 } bytes
  else memWriteInto s bytes

instance : StreamOps MemStream where
  base s := s.toStreamBase
  withBase s b := { s with toStreamBase := b }
  next := memNext
  consume := memConsume
  readline := memReadline
  scan := memScan
  seek s offset whence := .ret (memSeek s offset whence)
  tell := memTell

end LibAsdf
