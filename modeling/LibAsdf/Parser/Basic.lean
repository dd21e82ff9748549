import LibAsdf.Parser.Block
import LibAsdf.Stream.File
import LibAsdf.Stream.Mem

/-!
# The parser's state

What the parser keeps between two calls, the vectors of its block table, and
the library code it calls into: libfyaml and the vectors are parameters of the
model (`Env`), the streams are any instance of `ParserStream`.
-/

namespace LibAsdf

/-! ## libfyaml -/

/-- What libfyaml is given to parse. -/
inductive FyInput where
  | string (v : View)
  | file (f : FileHandle)
  deriving DecidableEq, Repr

inductive FyEvent where
  | streamStart
  | streamEnd
  | documentStart
  | documentEnd (endMark : Option Nat)
  | other
  deriving DecidableEq, Repr

/-- The result of one `fy_parser_parse`: the event, `fy_parser_get_stream_error`
after it, the parser, and where it left the `FILE`. -/
structure FyParsed (φ : Type) where
  event : Option FyEvent
  streamError : Bool
  parser : φ
  filePos : Nat

/-- libfyaml. `buildSequence` reads a document: nothing unless it is a
sequence, else each item as `%lld` reads it, where it does. -/
structure Fyaml (φ : Type) where
  buildSequence : Bytes → Option (List (Option Int64))
  setInput : FyInput → Option φ
  parse : φ → Nat → FyParsed φ

/-- A libfyaml for texts that all read as `items`, and for no input. -/
def fyamlOf (items : Option (List (Option Int64))) : Fyaml Unit where
  buildSequence _ := items
  setInput _ := none
  parse _ _ := ⟨none, true, (), 0⟩

/-! ## Vectors -/

/-- How the vector library chooses capacities. -/
structure VecPolicy where
  reserve : Nat → Nat → Nat
  grow : Nat → Nat
  shrink : Nat → Nat → Nat

/-- A reservation gives exactly the capacity asked for, if it was smaller. -/
def VecPolicy.Exact (policy : VecPolicy) : Prop :=
  ∀ capacity n, policy.reserve capacity n = max capacity n

/-- The choices of the vectors that the source is built with. -/
def VecPolicy.stc : VecPolicy where
  reserve := max
  grow capacity := 2 * capacity + 4
  shrink _ size := size

structure Vec (α : Type) where
  items : List α
  capacity : Nat
  deriving DecidableEq, Repr

namespace Vec

variable {α : Type} (policy : VecPolicy)

def empty : Vec α := ⟨[], 0⟩

def size (v : Vec α) : Nat := v.items.length

def reserve (v : Vec α) (n : Nat) : Vec α := { v with capacity := policy.reserve v.capacity n }

def push (v : Vec α) (a : α) : Vec α where
  items := v.items ++ [a]
  capacity := if v.size < v.capacity then v.capacity else policy.grow v.capacity

def resize (v : Vec α) (n : Nat) (fill : α) : Vec α where
  items := v.items.take n ++ List.replicate (n - v.size) fill
  capacity := policy.reserve v.capacity n

def shrinkToFit (v : Vec α) : Vec α := { v with capacity := policy.shrink v.capacity v.size }

def «at» (v : Vec α) (idx : Nat) : Run α :=
  match v.items[idx]? with
  | some a => .ret a
  | none => .fault .vector

/-- A write through `at_mut`. -/
def setAt (v : Vec α) (idx : Nat) (a : α) : Run (Vec α) :=
  if idx < v.size then .ret { v with items := v.items.set idx a } else .fault .vector

end Vec

structure Env (φ : Type) where
  fy : Fyaml φ
  vec : VecPolicy
  pageSize : Int

/-! ## Streams under a parser -/

/-- A stream and its hooks for libfyaml, which reads on from the stream's
`FILE` and moves it, where there is one. -/
class ParserStream (σ : Type) extends StreamOps σ where
  fyParserSetInput : σ → Run (Option FyInput × σ)
  fyFilePos : σ → Nat
  fyMoved : σ → Nat → σ

/-- `file_fy_parser_set_input` gives the buffered bytes back to the `FILE`. -/
def fileFyParserSetInput (s : FileStream) : Run (Option FyInput × FileStream) := do
  assert s.isSeekable
  if sizeSub s.bufAvail s.bufPos > offMax then
    return (none, s)
  let file := (s.file.fseeko ((s.bufPos : Int) - s.bufAvail) .cur).getD s.file
  return (some (.file file), { s with file := file })

/-- `mem_fy_parser_set_input`; the count is the whole size, as the source has
it. -/
def memFyParserSetInput (s : MemStream) : Run (Option FyInput × MemStream) :=
  return (some (.string (s.view s.size)), s)

instance : ParserStream FileStream where
  fyParserSetInput := fileFyParserSetInput
  fyFilePos s := s.file.pos
  fyMoved s pos := { s with file := { s.file with pos := pos } }

instance : ParserStream MemStream where
  fyParserSetInput := memFyParserSetInput
  fyFilePos _ := 0
  fyMoved s _ := s

/-! ## Events -/

/-- `asdf_tree_info_t`. -/
structure TreeInfo where
  start : Int
  «end» : Int
  buf : Option Bytes
  deriving DecidableEq, Repr

/-- An event with its payload; `none` is an event that nothing filled in. -/
inductive Event where
  | none
  | asdfVersion (version : Version)
  | standardVersion (version : Version)
  | comment (text : Bytes)
  | treeStart (tree : TreeInfo)
  | yaml (event : Option FyEvent)
  | treeEnd (tree : TreeInfo)
  | block (info : BlockInfo)
  | blockIndex (entries : List Int64)
  | «end»
  deriving DecidableEq, Repr

/-- `parse_result_t`, with the event that `ASDF_PARSE_EVENT` returns. -/
inductive ParseResult where
  | error
  | «continue»
  | event (e : Event)
  deriving DecidableEq, Repr

/-! ## The parser -/

inductive ParserState where
  | initial
  | asdfVersion
  | standardVersion
  | comment
  | treeOrBlock
  | tree
  | yaml
  | block
  | padding
  | blockIndex
  | «end»
  | error
  deriving DecidableEq, Repr

/-- `asdf_parser_tree_info_t`; `buf` holds `size` bytes. -/
structure ParserTree where
  start : Int
  «end» : Int
  buf : Option Bytes
  found : Bool
  done : Bool
  hasTree : Int
  deriving DecidableEq, Repr

/-- `asdf_parser_block_info_t`; an `off_t` of the index is an `Int64`. -/
structure BlockTable where
  infos : Vec BlockInfo
  index : Vec Int64
  hasIndex : Bool
  count : Nat
  found : Nat
  deriving DecidableEq, Repr

structure Parser (σ φ : Type) where
  flags : UInt64
  state : ParserState
  stream : σ
  asdfVersion : Option Version
  standardVersion : Option Version
  yamlParser : Option φ
  tree : ParserTree
  block : BlockTable
  done : Bool
  deriving DecidableEq

/-- `asdf_parser_create` and `asdf_parser_set_input_stream`. -/
def parserCreate {σ φ : Type} (flags : UInt64) (stream : σ) : Parser σ φ where
  flags := flags
  state := .asdfVersion
  stream := stream
  asdfVersion := none
  standardVersion := none
  yamlParser := none
  tree := ⟨0, 0, none, false, false, -1⟩
  block := ⟨Vec.empty, Vec.empty, false, 0, 0⟩
  done := false

namespace Parser

variable {σ φ : Type} [ParserStream σ]

/-- `ASDF_PARSER_OPT_EMIT_YAML_EVENTS`. -/
def emitYamlEvents (p : Parser σ φ) : Bool := p.flags &&& 1 = 1

/-- `ASDF_PARSER_OPT_BUFFER_TREE`. -/
def bufferTree (p : Parser σ φ) : Bool := p.flags &&& 2 = 2

def isSeekable (p : Parser σ φ) : Bool := (StreamOps.base p.stream).isSeekable

def setError (p : Parser σ φ) (code : ErrorCode) : Parser σ φ :=
  { p with stream := LibAsdf.setError p.stream code }

/-- `TRY_SEEK`, up to its return: whether the seek went well. -/
def trySeek (p : Parser σ φ) (offset : Int) (whence : Whence) : Run (Bool × Parser σ φ) := do
  let (ok, stream) ← streamSeek p.stream offset whence
  let p := { p with stream := stream }
  return (ok, if ok then p else p.setError .unexpectedEof)

/-- `asdf_parser_scan_tokens`. -/
def scanTokens (p : Parser σ φ) (tokens : List ParseToken) :
    Run (Option ParseToken × Parser σ φ) := do
  let (found, stream) ← StreamOps.scan p.stream (tokens.map ParseToken.tok)
  let p := { p with stream := stream }
  match found with
  | none => return (none, p)
  | some (_, idx) =>
    match tokens[idx]? with
    | some token => return (some token, p)
    | none => .fault .memory

end Parser

end LibAsdf
