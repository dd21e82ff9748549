import LibAsdf.Parser.Basic

/-!
# The handlers of the parser's states

One definition for each `parse_*` function, in the order of the source. A loop
of the source is `Outcome.loop` of its round, for at most `fuel` rounds. Logging
and the diagnostics of libfyaml are left out; small allocations succeed.
-/

namespace LibAsdf

open StreamOps ParserStream

variable {σ φ : Type} [ParserStream σ]

/-! ## Header and comments -/

/-- `parse_version_comment`, with `none` for its result 1. -/
def parseVersionComment (p : Parser σ φ) (expected : Bytes) :
    Run (Option Version × Parser σ φ) := do
  let (line, stream) ← readline p.stream
  let p := { p with stream := stream }
  match line with
  | none => return (none, p.setError .unexpectedEof)
  | some v =>
    if v.len < expected.length then
      return (none, p.setError .invalidAsdfHeader)
    if !(← strncmp v.mem expected) then
      return (none, p.setError .invalidAsdfHeader)
    let toCopy := sizeSub (v.len - expected.length) 1
    let versionStr ← strndup (v.mem.drop expected.length) toCopy
    return (some (versionParse versionStr), p)

def parseAsdfVersion (p : Parser σ φ) : Run (ParseResult × Parser σ φ) := do
  match ← parseVersionComment p asdfVersionComment with
  | (none, p) => return (.error, p)
  | (some version, p) =>
    return (.event (.asdfVersion version),
      { p with asdfVersion := some version, state := .standardVersion })

def parseStandardVersion (p : Parser σ φ) : Run (ParseResult × Parser σ φ) := do
  match ← parseVersionComment p asdfStandardComment with
  | (none, p) => return (.error, p)
  | (some version, p) =>
    return (.event (.standardVersion version),
      { p with standardVersion := some version, state := .comment })

/-- One round of the loop of `parse_comment`. -/
def parseCommentRound (p : Parser σ φ) : Run (Parser σ φ ⊕ (ParseResult × Parser σ φ)) := do
  let (buf, stream) ← streamPeek p.stream 1
  let p := { p with stream := stream }
  match buf with
  | none => return .inr (.continue, { p with state := .blockIndex })
  | some v =>
    if v.len = 0 then
      return .inr (.continue, { p with state := .end })
    let chr ← v.get 0
    if chr = carriageReturn ∨ chr = newline then
      let stream ← consume p.stream 1
      let p := { p with stream := stream }
      if (errorGet p.stream).isSome then
        return .inr (.error, p)
      return .inl p
    if chr = commentChar then
      let (line, stream) ← readline p.stream
      let p := { p with stream := stream }
      match line with
      | none => return .inr (.event .none, p.setError .unexpectedEof)
      | some v =>
        let comment ← strndup (v.mem.drop 1) (sizeSub v.len 1)
        let text := comment.takeWhile fun b => b ≠ carriageReturn ∧ b ≠ newline
        return .inr (.event (.comment text), p)
    return .inr (.continue, { p with state := .blockIndex })

def parseComment (fuel : Nat) (p : Parser σ φ) : Run (ParseResult × Parser σ φ) :=
  Outcome.loop parseCommentRound fuel p

/-! ## The tree -/

def emitTreeStartEvent (p : Parser σ φ) : ParseResult × Parser σ φ :=
  let offset := tell p.stream
  (.event (.treeStart ⟨offset, 0, none⟩),
    { p with tree := { p.tree with start := offset, hasTree := 1 }, state := .tree })

/-- One round of the scanning loop of `parse_tree_or_block`. -/
def parseTreeOrBlockRound (p : Parser σ φ) :
    Run (Parser σ φ ⊕ (ParseResult × Parser σ φ)) := do
  match ← p.scanTokens [.yamlDirective, .blockMagic] with
  | (none, p) => return .inr (.continue, { p with state := .end })
  | (some .yamlDirective, p) =>
    let (buf, stream) ← next p.stream 0
    let p := { p with stream := stream }
    if ← isYamlDirective buf then
      return .inr (emitTreeStartEvent p)
    return .inl p
  | (some .blockMagic, p) =>
    return .inr (.continue, { p with tree := { p.tree with hasTree := 0 }, state := .block })
  | (some _, p) => return .inr (.event .none, p.setError .unknownState)

def parseTreeOrBlock (fuel : Nat) (p : Parser σ φ) : Run (ParseResult × Parser σ φ) := do
  let (buf, stream) ← streamPeek p.stream 0
  let p := { p with stream := stream }
  if buf = none then
    return (.continue, { p with state := .end })
  if ← isYamlDirective buf then
    return emitTreeStartEvent p
  if ← isBlockMagic buf then
    return (.continue, { p with tree := { p.tree with hasTree := 0 }, state := .block })
  Outcome.loop parseTreeOrBlockRound fuel p

def emitTreeEndEvent (p : Parser σ φ) : ParseResult × Parser σ φ :=
  (.event (.treeEnd ⟨p.tree.start, p.tree.end, p.tree.buf⟩), p)

/-- One round of the scanning loop of `parse_tree_fast`: it ends with the
tree's end, or with `none` for the result 1. -/
def parseTreeFastRound (p : Parser σ φ) :
    Run (Parser σ φ ⊕ (Option Int × Parser σ φ)) := do
  match ← p.scanTokens [.yamlDocumentEnd, .blockMagic] with
  | (none, p) => return .inr (some 0, p)
  | (some .yamlDocumentEnd, p) =>
    let (buf, stream) ← next p.stream 0
    let p := { p with stream := stream }
    if ← isYamlDocumentEndMarker buf then
      let stream ← consume p.stream 1
      let p := { p with stream := stream }
      if (errorGet p.stream).isSome then
        return .inr (none, p)
      let (_, stream) ← readline p.stream
      let p := { p with stream := stream }
      return .inr (some (tell p.stream), p)
    -- Looked like a document end marker: keep parsing
    return .inl p
  | (some .blockMagic, p) => return .inr (some (tell p.stream), p)
  | (some _, p) => return .inr (none, p.setError .unknownState)

def parseTreeFast (fuel : Nat) (p : Parser σ φ) : Run (Bool × Parser σ φ) := do
  match ← Outcome.loop parseTreeFastRound fuel p with
  | (none, p) => return (false, p)
  | (some treeEnd, p) =>
    return (true, { p with tree := { p.tree with «end» := treeEnd, found := true } })

/-- What libfyaml is to read: the captured tree, or what the stream gives. -/
def yamlInput (p : Parser σ φ) : Run (Option FyInput × Parser σ φ) :=
  if p.bufferTree then
    let buf := p.tree.buf.getD []
    return (some (.string ⟨buf, buf.length⟩), p)
  else do
    let (input, stream) ← fyParserSetInput p.stream
    return (input, { p with stream := stream })

def initializeYamlParser (env : Env φ) (p : Parser σ φ) : Run (Bool × Parser σ φ) := do
  assert (p.isSeekable || (p.tree.found && p.tree.buf.isSome))
  let (input, p) ← yamlInput p
  match input.bind env.fy.setInput with
  | some yaml => return (true, { p with yamlParser := some yaml })
  | none => return (false, p.setError .yamlParserInitFailed)

/-- Whether `parse_tree` captures the tree that it skips. -/
def capturesTree (p : Parser σ φ) : Bool := p.bufferTree || (p.emitYamlEvents && !p.isSeekable)

/-- The capture of the tree by `parse_tree_fast`, if there is to be one. -/
def parseTreeCaptured (fuel : Nat) (bufferTree : Bool) (p : Parser σ φ) :
    Run (Bool × Parser σ φ) := do
  let p := if bufferTree then
      { p with stream := streamSetCapture p.stream (some []) }
    else p
  let (ok, p) ← parseTreeFast fuel p
  let p := if bufferTree then
      { p with tree := { p.tree with buf := (base p.stream).capture } }
    else p
  return (ok, { p with stream := streamSetCapture p.stream none })

/-- The skip over the tree, where it is captured or no YAML events are asked
for. -/
def skipTree (fuel : Nat) (p : Parser σ φ) : Run (Bool × Parser σ φ) :=
  if capturesTree p || !p.emitYamlEvents then parseTreeCaptured fuel (capturesTree p) p
  else return (true, p)

def parseTree (env : Env φ) (fuel : Nat) (p : Parser σ φ) :
    Run (ParseResult × Parser σ φ) := do
  let (ok, p) ← skipTree fuel p
  if !ok then
    return (.error, p)
  if p.emitYamlEvents then
    let (ok, p) ← initializeYamlParser env p
    if !ok then
      return (.error, p)
    return (.continue, { p with state := .yaml, tree := { p.tree with found := false } })
  return emitTreeEndEvent { p with state := .padding }

/-- What `parse_yaml` does with the event at the end of the document. -/
def parseYamlDocumentEnd (endMark : Option Nat) (p : Parser σ φ) : Run (Bool × Parser σ φ) :=
  let treeEnd : Int := match endMark with
    | some inputPos => if inputPos < offMax then p.tree.start + inputPos + 1 else p.tree.start
    | none => p.tree.start
  -- Rewind the stream, which libfyaml has likely read past the end
  { p with tree := { p.tree with «end» := treeEnd, found := true } }.trySeek treeEnd .set

/-- What `parse_yaml` does with an event of libfyaml. -/
def emitYamlEvent (yaml : Option FyEvent) (p : Parser σ φ) : Run (ParseResult × Parser σ φ) :=
  match yaml with
  | none | some .streamEnd =>
    return (.event (.yaml yaml), { p with tree := { p.tree with done := true } })
  | some (.documentEnd endMark) => do
    let (ok, p) ← parseYamlDocumentEnd endMark p
    return (if ok then .event (.yaml yaml) else .error, p)
  | some _ => return (.event (.yaml yaml), p)

def parseYaml (env : Env φ) (p : Parser σ φ) : Run (ParseResult × Parser σ φ) := do
  assert (p.emitYamlEvents && (p.bufferTree || p.isSeekable))
  if p.tree.done then
    return emitTreeEndEvent { p with state := .padding }
  match p.yamlParser with
  | none => .fault .memory
  | some yamlParser =>
    let parsed := env.fy.parse yamlParser (fyFilePos p.stream)
    let p := { p with
      yamlParser := some parsed.parser
      stream := fyMoved p.stream parsed.filePos }
    -- An error after the end of the document stands for the end of the stream
    let yaml := if parsed.streamError && p.tree.found then some .streamEnd else parsed.event
    if parsed.streamError && yaml.isNone then
      return (.error, p.setError .yamlParseFailed)
    emitYamlEvent yaml p

/-! ## The block index -/

def scanForBlock (p : Parser σ φ) : Run (Bool × Parser σ φ) := do
  let (token, p) ← p.scanTokens [.blockMagic]
  return (token.isSome, p)

def parsePadding (p : Parser σ φ) : ParseResult × Parser σ φ :=
  (.continue, { p with state := .block })

/-- `validate_block`: whether it succeeded, and `block_out`. -/
def validateBlock (p : Parser σ φ) (idx : Nat) (blockOut : BlockInfo) :
    Run (Bool × BlockInfo × Parser σ φ) := do
  if idx ≥ p.block.index.size ∨ idx > offMax then
    return (false, blockOut, p)
  let offset ← p.block.index.at idx
  let (ok, p) ← p.trySeek offset.toInt .set
  if !ok then
    return (false, blockOut, p)
  let (buf, stream) ← streamPeek p.stream blockMagic.length
  let p := { p with stream := stream }
  if !(← isBlockMagic buf) then
    return (false, blockOut, p)
  let (ok, blockOut, stream) ← blockInfoRead blockOut p.stream
  return (ok, blockOut, { p with stream := stream })

/-- The entries increase by at least a block header each. -/
def entriesSpaced : List Int64 → Bool
  | a :: b :: entries =>
    !(b ≤ a || b.toInt - a.toInt < blockHeaderFullSize) && entriesSpaced (b :: entries)
  | _ => true

/-- The vector that `validate_block_index` fills: the first and the last block,
with blank infos in between. -/
def indexInfos (nBlocks : Nat) (first last : BlockInfo) : List BlockInfo :=
  first :: if nBlocks > 1 then
    (List.range' 1 (nBlocks - 2)).map BlockInfo.blank ++ [last] else []

def pushInfos (policy : VecPolicy) (infos : Vec BlockInfo) (blocks : List BlockInfo) :
    Vec BlockInfo :=
  blocks.foldl (Vec.push policy) infos

/-- The last block of the index, where it is not the first one too. -/
def validateLastBlock (p : Parser σ φ) (nBlocks : Nat) : Run (Bool × BlockInfo × Parser σ φ) :=
  if nBlocks > 1 then validateBlock p (nBlocks - 1) (.blank (nBlocks - 1))
  else return (true, .blank (nBlocks - 1), p)

def validateBlockIndex (env : Env φ) (p : Parser σ φ) : Run (Bool × Parser σ φ) := do
  assert p.isSeekable
  let nBlocks := p.block.index.size
  if nBlocks < 1 then
    return (true, p)
  if !entriesSpaced p.block.index.items then
    return (false, p)
  let (ok, first, p) ← validateBlock p 0 (.blank 0)
  if !ok then
    return (false, p)
  let (ok, last, p) ← validateLastBlock p nBlocks
  if !ok then
    return (false, p)
  let infos := p.block.infos.reserve env.vec nBlocks
  return (true, { p with block := { p.block with
    infos := pushInfos env.vec infos (indexInfos nBlocks first last)
    count := nBlocks } })

/-- One round of the scanning loop of `parse_find_block_index`: it ends with
whether a header was found. `seen` is whether an earlier round saw one. -/
def parseFindBlockIndexRound (s : Bool × Parser σ φ) :
    Run ((Bool × Parser σ φ) ⊕ (ParseResult × Parser σ φ)) := do
  let (seen, p) := s
  match ← p.scanTokens [.blockIndexHeader] with
  | (none, p) => return .inr (if seen then .event .none else .continue, p)
  | (some _, p) =>
    let (buf, stream) ← streamPeek p.stream (blockIndexHeader.length + 1)
    let p := { p with stream := stream }
    match buf with
    | none => return .inr (.continue, p)
    | some v =>
      if v.len < blockIndexHeader.length + 1 then
        return .inr (.continue, p)
      if ← endsWithNewline v.mem v.len blockIndexHeader.length then
        return .inr (.event .none, p)
      return .inl (true, p)

/-- The page that the search for the block index begins with. -/
def alignedOffset (env : Env φ) (fileSize : Int) : Int :=
  if fileSize > env.pageSize then fileSize - env.pageSize - fileSize % env.pageSize else 0

/-- `parse_find_block_index`; its event is not filled in yet. -/
def parseFindBlockIndex (env : Env φ) (fuel : Nat) (p : Parser σ φ) (fileSize : Int) :
    Run (ParseResult × Parser σ φ) := do
  if env.pageSize ≤ 0 then
    return (.continue, p)
  if fileSize < 0 then
    return (.error, p.setError .unexpectedEof)
  let (ok, p) ← p.trySeek (alignedOffset env fileSize) .set
  if !ok then
    return (.error, p)
  Outcome.loop parseFindBlockIndexRound fuel (false, p)

/-- The entries up to the first that does not read as an integer, and whether
all of them did. -/
def readEntries : List (Option Int64) → List Int64 × Bool
  | [] => ([], true)
  | none :: _ => ([], false)
  | some offset :: items =>
    let (entries, ok) := readEntries items
    (offset :: entries, ok)

/-- The document that `fy_document_build_from_string` gets. -/
def buildBlockIndex (env : Env φ) (v : View) (len : Nat) :
    Run (Option (List (Option Int64))) := do
  let text ← load v.mem 0 len
  return env.fy.buildSequence text

/-- `parse_block_index` from the header found on, up to its cleanup. -/
def parseBlockIndexDocument (env : Env φ) (fileSize : Int) (p : Parser σ φ) :
    Run (ParseResult × Parser σ φ) := do
  let blockIndexLen := sizeAdd 0 (fileSize - tell p.stream)
  let (buf, stream) ← next p.stream blockIndexLen
  let p := { p with stream := stream }
  match buf with
  | none => return (.error, p.setError .unexpectedEof)
  | some v =>
    match ← buildBlockIndex env v blockIndexLen with
    | none => return (.event .none, p)
    | some items =>
      let index := p.block.index.reserve env.vec items.length
      let (entries, ok) := readEntries items
      let p := { p with block := { p.block with
        index := entries.foldl (Vec.push env.vec) index } }
      if !ok then
        return (.event .none, p)
      match ← validateBlockIndex env p with
      | (false, p) => return (.continue, p)
      | (true, p) =>
        return (.event (.blockIndex p.block.index.items),
          { p with block := { p.block with hasIndex := true } })

/-- The part of `parse_block_index` between its two seeks. -/
def parseFoundBlockIndex (env : Env φ) (fuel : Nat) (p : Parser σ φ) (fileSize : Int) :
    Run (ParseResult × Parser σ φ) := do
  match ← parseFindBlockIndex env fuel p fileSize with
  | (.event _, p) => parseBlockIndexDocument env fileSize p
  | (res, p) => return (res, p)

def parseBlockIndex (env : Env φ) (fuel : Nat) (p : Parser σ φ) :
    Run (ParseResult × Parser σ φ) := do
  if !p.isSeekable then
    return (.continue, { p with state := .treeOrBlock })
  let curOffset := tell p.stream
  let (ok, p) ← p.trySeek 0 .end
  if !ok then
    return (.error, p)
  let fileSize := tell p.stream
  let (res, p) ← parseFoundBlockIndex env fuel p fileSize
  -- cleanup
  let (ok, p) ← p.trySeek curOffset .set
  if !ok then
    return (.error, p)
  return (res, { p with state := .treeOrBlock })

/-! ## Blocks -/

/-- `block_from_index`, with the block info it points to. -/
def blockFromIndex (p : Parser σ φ) (blockIdx : Nat) :
    Run (Option BlockInfo × Parser σ φ) := do
  if blockIdx > offMax then
    return (none, p)
  let maybeInfo ← p.block.infos.at blockIdx
  if blockIdx < p.block.count then
    if maybeInfo.dataPos = 0 then
      return (none, p)
    let (ok, p) ← p.trySeek maybeInfo.dataPos .set
    return (if ok then some maybeInfo else none, p)
  else
    let (ok, info, p) ← validateBlock p blockIdx maybeInfo
    let infos ← p.block.infos.setAt blockIdx info
    return (if ok then some info else none, { p with block := { p.block with infos := infos } })

/-- A block read at the stream's position, pushed onto the block infos. -/
def readNewBlock (env : Env φ) (p : Parser σ φ) (info : BlockInfo) :
    Run (Bool × BlockInfo × Parser σ φ) := do
  let (ok, info, stream) ← blockInfoRead info p.stream
  let p := { p with stream := stream }
  if ok then
    return (true, info, { p with block := { p.block with
      infos := p.block.infos.push env.vec info } })
  return (false, info, p)

/-- A block that begins where the stream is. -/
def readBlockHere (env : Env φ) (p : Parser σ φ) (buf : Option View) :
    Run (Bool × BlockInfo × Parser σ φ) := do
  if ← isBlockMagic buf then readNewBlock env p (.blank p.block.found)
  else return (false, .blank p.block.found, p)

def parseNewBlock (env : Env φ) (p : Parser σ φ) : Run (Option BlockInfo × Parser σ φ) := do
  let (buf, stream) ← streamPeek p.stream blockMagic.length
  let p := { p with stream := stream }
  let (ok, info, p) ← readBlockHere env p buf
  if ok then
    return (some info, p)
  match ← scanForBlock p with
  | (false, p) => return (none, p)
  | (true, p) =>
    let (ok, info, p) ← readNewBlock env p info
    return (if ok then some info else none, p)

/-- The part of `parse_block` that looks the next block up: in the block index,
where it has an entry, else in the stream. -/
def parseBlockInfo (env : Env φ) (p : Parser σ φ) : Run (Option BlockInfo × Parser σ φ) := do
  let blockIdx := p.block.found
  if p.block.hasIndex && blockIdx < p.block.index.size then
    match ← blockFromIndex p blockIdx with
    | (some info, p) => return (some info, p)
    | (none, p) =>
      -- No valid block where the index says: mark the entry
      let index ← p.block.index.setAt blockIdx (-1)
      parseNewBlock env { p with block := { p.block with index := index } }
  else parseNewBlock env p

/-- The index as `parse_block` makes room in it for one more block. -/
def BlockTable.grownIndex (policy : VecPolicy) (b : BlockTable) : Vec Int64 :=
  let cap := b.index.capacity
  if cap < b.found + 1 then b.index.resize policy (if cap = 0 then 8 else cap * 2) (-1)
  else b.index

/-- The part of `parse_block` that counts a block and updates the index. -/
def countBlock (env : Env φ) (p : Parser σ φ) (info : BlockInfo) : Run (Parser σ φ) := do
  let blockIdx := p.block.found
  let found := p.block.found + 1
  let index := p.block.grownIndex env.vec
  let index ← if info.headerPos ≤ offMax then index.setAt blockIdx (.ofInt info.headerPos)
    else pure index
  return { p with block := { p.block with index := index, found := found, count := found } }

/-- The seek past a block's data, to the end if the block is streamed. -/
def seekPastBlock (s : σ) (info : BlockInfo) : Run (Bool × σ) :=
  if info.header.streamed then streamSeek s 0 .end
  else streamSeek s info.header.allocatedSize .cur

/-- The part of `parse_block` that moves past a block's data. -/
def skipBlock (p : Parser σ φ) (info : BlockInfo) : Run (ParseResult × Parser σ φ) := do
  if !info.header.streamed && info.header.allocatedSize > offMax then
    return (.error, p.setError .invalidBlockHeader)
  let (ok, stream) ← seekPastBlock p.stream info
  let p := { p with stream := stream }
  if !ok then
    return (.error, p.setError .invalidBlockHeader)
  return (.event (.block info), p)

def parseBlock (env : Env φ) (p : Parser σ φ) : Run (ParseResult × Parser σ φ) := do
  if p.block.found ≥ offMax then
    return (.error, p)
  match ← parseBlockInfo env p with
  | (none, p) =>
    return (.continue, { p with
      state := .end
      block := { p.block with index := p.block.index.shrinkToFit env.vec } })
  | (some info, p) =>
    let p ← countBlock env p info
    skipBlock p info

/-! ## The parser -/

/-- What `asdf_parser_parse` does with the result of a handler: it goes round
again, or returns the event or, with `none`, the null pointer. -/
def afterHandler : ParseResult × Parser σ φ → Run (Parser σ φ ⊕ (Option Event × Parser σ φ))
  | (.continue, p) => return .inl p
  | (.event e, p) => return .inr (some e, p)
  | (.error, p) => return .inr (none, { p with state := .error })

/-- One turn of the loop of `asdf_parser_parse`. -/
def parserStep (env : Env φ) (fuel : Nat) (p : Parser σ φ) :
    Run (Parser σ φ ⊕ (Option Event × Parser σ φ)) :=
  match p.state with
  | .asdfVersion => parseAsdfVersion p >>= afterHandler
  | .standardVersion => parseStandardVersion p >>= afterHandler
  | .comment => parseComment fuel p >>= afterHandler
  | .treeOrBlock => parseTreeOrBlock fuel p >>= afterHandler
  | .tree => parseTree env fuel p >>= afterHandler
  | .yaml => parseYaml env p >>= afterHandler
  | .block => parseBlock env p >>= afterHandler
  | .padding => afterHandler (parsePadding p)
  | .blockIndex => parseBlockIndex env fuel p >>= afterHandler
  | .end =>
    if !p.done then return .inr (some .end, { p with done := true }) else return .inr (none, p)
  | .error => return .inr (none, { p with done := true })
  | .initial => return .inl (p.setError .unknownState)

/-- `asdf_parser_parse`. -/
def parserParse (env : Env φ) (fuel : Nat) (p : Parser σ φ) :
    Run (Option Event × Parser σ φ) :=
  Outcome.loop (parserStep env fuel) fuel p

end LibAsdf
