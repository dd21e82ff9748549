import LibAsdf.Block.RoundTrip
import LibAsdf.Parser.Directive
import LibAsdf.Parser.Handlers

/-!
# The layout of a file

What a file that is well formed consists of, its bytes, and the events that a
reader of it should see.

* `Remark`, `TreeSection`, `BlockSection`: the parts;
* `Layout`, `Layout.bytes`: the file;
* `Layout.events`: what is in it;
* `IndexFound`: what a search for its block index comes to.
-/

namespace LibAsdf

/-! ## The parts -/

/-- What may stand between the version comments and the tree. -/
inductive Remark where
  | blank (chr : Byte)
  | comment (text : Bytes)
  deriving DecidableEq, Repr

namespace Remark

def bytes : Remark → Bytes
  | blank chr => [chr]
  | comment text => commentChar :: (text ++ [newline])

def Fits : Remark → Prop
  | blank chr => chr = carriageReturn ∨ chr = newline
  | comment text => ∀ b ∈ text, b ≠ newline ∧ b ≠ 0

def events : Remark → List Event
  | blank _ => []
  | comment text => [.comment (text.takeWhile (· ≠ carriageReturn))]

end Remark

/-- A tree from its directive to the end of the line that ends it. -/
def treeText (body lineEnd : Bytes) : Bytes := body ++ (yamlDocumentEndMarker ++ lineEnd)

/-- A tree, after some bytes that begin neither a tree nor a block. -/
structure TreeSection where
  gap : Bytes
  body : Bytes
  lineEnd : Bytes
  quiet : scanTokens (gap ++ yamlDirectivePrefix) [yamlDirectivePrefix, blockMagic] =
    some (gap.length, 0)
  begins : StartsDirective (treeText body lineEnd)
  ends : lineEnd = [newline] ∨ lineEnd = [carriageReturn, newline]
  whole : scanTokens (treeText body lineEnd) [yamlDocumentEndMarker, blockMagic] =
    some (body.length, 0)

namespace TreeSection

def text (t : TreeSection) : Bytes := treeText t.body t.lineEnd

def bytes (t : TreeSection) : Bytes := t.gap ++ t.text

/-- The tree's events, with its text if it is captured. -/
def events (t : TreeSection) (captured : Bool) (pos : Nat) : List Event :=
  let start := pos + t.gap.length
  [.treeStart ⟨start, 0, none⟩,
    .treeEnd ⟨start, (start + t.text.length : Nat), if captured then some t.text else none⟩]

end TreeSection

/-- A block, after some bytes that begin none. -/
structure BlockSection where
  gap : Bytes
  header : BlockHeader
  stored : BlockStored
  quiet : scanTokens (gap ++ blockMagic) [blockMagic] = some (gap.length, 0)
  fits : header.Fits
  compression : stored.compression.length = 4
  whole : header.streamed = false

namespace BlockSection

def image (b : BlockSection) : Bytes := blockImage b.header b.stored

def bytes (b : BlockSection) : Bytes := b.gap ++ b.image

/-- The block, if its header is at `pos`. -/
def info (b : BlockSection) (idx pos : Nat) : BlockInfo where
  index := idx
  headerPos := pos
  dataPos := (pos + blockHeaderFullSize : Nat)
  header := { b.header with
    headerSize := blockHeaderSize
    compression := b.stored.compression
    allocatedSize := b.header.allocated b.stored.data.length
    usedSize := b.stored.data.length }

end BlockSection

def blocksBytes (blocks : List BlockSection) : Bytes := blocks.flatMap (·.bytes)

/-- The blocks that begin at `pos`, the first of them being number `idx`. -/
def blockInfos : (pos idx : Nat) → List BlockSection → List BlockInfo
  | _, _, [] => []
  | pos, idx, b :: blocks =>
    b.info idx (pos + b.gap.length) :: blockInfos (pos + b.bytes.length) (idx + 1) blocks

/-! ## The file -/

def versionText (comment version : Bytes) : Bytes := comment ++ (version ++ [newline])

structure Layout where
  asdfVersion : Bytes
  standardVersion : Bytes
  remarks : List Remark
  tree : Option TreeSection
  blocks : List BlockSection
  tail : Bytes
  asdfClean : ∀ b ∈ asdfVersion, b ≠ newline ∧ b ≠ 0
  standardClean : ∀ b ∈ standardVersion, b ≠ newline ∧ b ≠ 0
  remarked : ∀ r ∈ remarks, r.Fits
  quiet : scanTokens tail [blockMagic] = none

namespace Layout

variable (l : Layout)

/-- The versions and the comments. -/
def front : Bytes :=
  versionText asdfVersionComment l.asdfVersion ++
    (versionText asdfStandardComment l.standardVersion ++ l.remarks.flatMap (·.bytes))

def treeBytes : Bytes := (l.tree.map (·.bytes)).getD []

/-- The blocks and what comes after them. -/
def back : Bytes := blocksBytes l.blocks ++ l.tail

def bytes : Bytes := l.front ++ (l.treeBytes ++ l.back)

/-- No comment goes on after the front, and where there is no tree nothing begins one. -/
structure Fits : Prop where
  remarked : ∀ b ∈ (l.treeBytes ++ l.back).head?,
    b ≠ carriageReturn ∧ b ≠ newline ∧ b ≠ commentChar
  treeless : l.tree = none → scanTokens l.back [yamlDirectivePrefix, blockMagic] =
    l.blocks.head?.map fun b => (b.gap.length, 1)
  small : l.bytes.length ≤ offMax

def blockPlace : Nat := l.front.length + l.treeBytes.length

def infos : List BlockInfo := blockInfos l.blockPlace 0 l.blocks

/-- The events, with the block index if one was found. -/
def events (captured indexed : Bool) : List Event :=
  [.asdfVersion (versionParse l.asdfVersion), .standardVersion (versionParse l.standardVersion)] ++
    (l.remarks.flatMap Remark.events ++
    ((if indexed then [.blockIndex (l.infos.map fun info => .ofInt info.headerPos)] else []) ++
    ((l.tree.map fun t => t.events captured l.front.length).getD [] ++
    (l.infos.map Event.block ++ [.end]))))

/-- What the calls of a parser give, the last `more` of them behind the end. -/
def results (captured indexed : Bool) (more : Nat) : List (Option Event) :=
  (l.events captured indexed).map some ++ List.replicate more none

end Layout

/-! ## The block index -/

/-- Whether the bytes have a block index where one is searched for; if so, it names the blocks. -/
inductive IndexFound {φ : Type} (env : Env φ) (bytes : Bytes) (infos : List BlockInfo) : Bool → Prop
  | unsearched : env.pageSize ≤ 0 → IndexFound env bytes infos false
  | absent : 0 < env.pageSize →
      scanTokens (bytes.drop (alignedOffset env bytes.length).toNat) [blockIndexHeader] = none →
      IndexFound env bytes infos false
  | present (front line rest : Bytes) : 0 < env.pageSize → line = [newline] ∨ line = [carriageReturn, newline] →
      bytes = front ++ (blockIndexHeader ++ (line ++ rest)) →
      (alignedOffset env bytes.length).toNat ≤ front.length →
      scanTokens (bytes.drop (alignedOffset env bytes.length).toNat) [blockIndexHeader] =
        some (front.length - (alignedOffset env bytes.length).toNat, 0) →
      env.fy.buildSequence (blockIndexHeader ++ (line ++ rest)) =
        some (infos.map fun info => some (.ofInt info.headerPos)) →
      IndexFound env bytes infos true

end LibAsdf
