import LibAsdf.Emitter.Reopen
import LibAsdf.Ndarray.InlineRoundTrip
import LibAsdf.Ndarray.TileData

/-!
# The byte order of an array

What the bytes of an array in memory mean, and what they mean once the array was
written and is read again: `should_byteswap` takes no byte order for another than
the host's, the writer for `little`, and what is stored inline is in the host's.

* `SameReads`: every read gives the same;
* `BlockReadsSame`, `InlineReadsSame`: before an array is written and after;
* `Built.reopened`: the metadata of an array in a block;
* `oneElement`: an array that shows the difference;
* `byteorder_agrees`: when an array reads the same before and after.
-/

namespace LibAsdf

open FloatFormat

/-! ## Arrays in memory -/

/-- The array that a value describes, with its data. -/
structure NdarrayValue.Views (v : NdarrayValue) (a : Ndarray) : Prop where
  shape : v.shape = a.extents
  datatype : v.datatype.type = a.datatype
  byteorder : v.byteorder = a.byteorder
  offset : v.offset = a.offset

/-- An array of a scalar type that was built in memory. -/
structure NdarrayValue.Built (v : NdarrayValue) (a : Ndarray) : Prop extends v.Views a where
  scalar : ∃ byteorder, v.datatype =
    ⟨a.datatype, UInt64.ofNat a.datatype.size, none, byteorder, [], []⟩
  fit : StridesFit v

/-- Every read of the one gives what it gives of the other. -/
def SameReads (pf : Platform) (before after : Ndarray) : Prop :=
  (∀ fuel origin shape dstT dst, readTileNdim fuel pf after origin shape dstT dst =
    readTileNdim fuel pf before origin shape dstT dst) ∧
  ∀ fuel dstT dst, readAll fuel pf after dstT dst = readAll fuel pf before dstT dst

/-- Arrays of a type and a byte order read the same after they were written to
blocks, and are read from the new file. -/
def BlockReadsSame (env : ElementEnv) (lib : NumberBuilder) (t : ScalarDatatype)
    (order : Byteorder) : Prop :=
  ∀ (v : NdarrayValue) (before : Ndarray) (index : BlockIndex), v.Built before →
    before.datatype = t → before.byteorder = order →
    ∃ node w, ndarraySerialize lib env.scalars v ⟨some index, false, none⟩ = some node ∧
      ndarrayDeserialize env.scalars env.pf.host node = .ok w ∧
      ∀ after, w.Views after →
        Rereads index.1.toNat w.source.toNat before.data.bytes after.data.bytes →
        SameReads env.pf before after

/-- An array whose bytes come back if it is stored inline. -/
structure InlineKept (env : ElementEnv) (a : Ndarray) : Prop where
  recorded : Recorded a.extents
  memory : 8 * elementCount a.extents < 18446744073709551616
  whole : a.data.bytes.length = elementCount a.extents * a.datatype.size
  elements : ∀ i < elementCount a.extents, ElementKept env.scalars.floats env.pf.host a.datatype
    (elementAt a.data.bytes 0 a.datatype.size i)

/-- Arrays of a type and a byte order read the same after they were written inline,
and are read from what was written. -/
def InlineReadsSame (env : ElementEnv) (lib : NumberBuilder) (t : ScalarDatatype)
    (order : Byteorder) : Prop :=
  ∀ (v : NdarrayValue) (before : Ndarray) (block : Option BlockIndex), v.Views before →
    HoldsArray v before block → InlineKept env before → before.datatype = t →
    before.byteorder = order →
    ∃ node b buf, writeInline env lib v before block = .ret (some node) ∧
      ndarrayDeserialize env.scalars env.pf.host node = .ok b.toValue ∧
      inlineData env b = .ret (some buf) ∧
      ∀ after, b.toValue.Views after → after.data.bytes = buf → SameReads env.pf before after

/-! ## Reads -/

section Reads

variable {pf : Platform} {before after : Ndarray}

/-- A read depends on the byte order through its conversion function alone, and on
the offset not at all. -/
theorem sameReads_of_convert (extents : after.extents = before.extents)
    (datatype : after.datatype = before.datatype) (data : after.data.bytes = before.data.bytes)
    (convert : ∀ dstT, readConvertFn pf after dstT = readConvertFn pf before dstT) :
    SameReads pf before after := by
  obtain ⟨extents', datatype', order', offset', ⟨bytes', le'⟩⟩ := after
  obtain ⟨extents, datatype, order, offset, ⟨bytes, le⟩⟩ := before
  cases extents
  cases datatype
  cases data
  have tile (fuel : ℕ) (origin shape : Extents) (dstT : ScalarDatatype) (dst : Option Object) :
      readTileNdim fuel pf ⟨extents', datatype', order', offset', ⟨bytes', le'⟩⟩ origin shape dstT
        dst = readTileNdim fuel pf ⟨extents', datatype', order, offset, ⟨bytes', le'⟩⟩ origin shape
          dstT dst := by
    have convert := convert dstT
    unfold readConvertFn at convert
    have prepared : prepareTile pf ⟨extents', datatype', order', offset', ⟨bytes', le'⟩⟩ origin
        shape dstT dst = prepareTile pf ⟨extents', datatype', order, offset, ⟨bytes', le'⟩⟩ origin
          shape dstT dst := by
      unfold prepareTile
      dsimp only
      rw [convert]
      rfl
    rw [readTileNdim, readTileNdim, prepared]
  exact ⟨tile, fun fuel => tile fuel _ _⟩

/-- The conversion function depends on whether bytes are swapped. -/
theorem readConvertFn_of_swap (datatype : after.datatype = before.datatype)
    (swap : shouldByteswap pf before.datatype.size after.byteorder =
      shouldByteswap pf before.datatype.size before.byteorder) (dstT : ScalarDatatype) :
    readConvertFn pf after dstT = readConvertFn pf before dstT := by
  unfold readConvertFn destDatatype
  rw [datatype, swap]

end Reads

/-! ## The metadata -/

/-- The byte order that is written for an array in a block. -/
def Byteorder.stored : Byteorder → Byteorder
  | .default => .little
  | order => order

section Metadata

variable {env : ScalarEnv} {lib : NumberBuilder} {v : NdarrayValue} {a : Ndarray}

/-- The byte order in the mapping is the one that is written. -/
theorem BlockNode.stored {index : BlockIndex} {val node : Node}
    (h : BlockNode lib env v index val node) :
    BlockNode lib env { v with byteorder := v.byteorder.stored } index val node := by
  refine { h with byteorder := ?_ }
  rw [h.byteorder]
  cases v.byteorder <;> rfl

theorem numeric_scalar {t : ScalarDatatype} (numeric : t.numeric = true) :
    (t ≠ .ascii ∧ t ≠ .ucs4) ∧ t ≠ .structured := by
  refine ⟨⟨?_, ?_⟩, ?_⟩
  all_goals
    rintro rfl
    cases numeric

/-- An array in memory is written to a block, and read back with the byte order that
is written. -/
theorem NdarrayValue.Built.reopened (h : v.Built a) (numeric : a.datatype.numeric = true)
    (index : BlockIndex) (host : Byteorder) :
    ∃ node w, ndarraySerialize lib env v ⟨some index, false, none⟩ = some node ∧
      ndarrayDeserialize env host node = .ok w ∧ w.source = index.1 ∧ w.shape = a.extents ∧
      w.datatype.type = a.datatype ∧ w.byteorder = a.byteorder.stored ∧ w.offset = a.offset := by
  obtain ⟨string, scalar⟩ := numeric_scalar numeric
  obtain ⟨byteorder, datatype⟩ := h.scalar
  obtain ⟨val, typed, parsed⟩ := @datatypeSerialize_back env lib _ string scalar byteorder
  rw [← datatype] at typed
  obtain ⟨node, made⟩ := @ndarraySerialize_some lib env v ⟨some index, false, none⟩ rfl nofun
    (Option.isSome_iff_exists.mpr ⟨val, typed⟩)
  obtain ⟨val', typed', found⟩ := ndarraySerialize_block rfl rfl made
  cases typed.symm.trans typed'
  have explicit : v.byteorder.stored ≠ .default := by
    cases v.byteorder <;> decide
  have read := found.stored.deserialize host explicit h.fit (parsed v.byteorder.stored)
  exact ⟨node, _, made, read, rfl, h.shape, rfl, congrArg Byteorder.stored h.byteorder, h.offset⟩

end Metadata

/-! ## One element -/

/-- Bytes of which the first is another than the rest. -/
def elementBytes (size : Nat) : Bytes := 2 :: List.replicate (size - 1) 0

theorem length_elementBytes {size : Nat} (pos : 0 < size) : (elementBytes size).length = size := by
  rw [elementBytes, List.length_cons, List.length_replicate]
  omega

/-- One element whose bytes are not a palindrome. -/
def oneElement (t : ScalarDatatype) (order : Byteorder) : Ndarray :=
  { extents := [1], datatype := t, byteorder := order, offset := 0
    data := ⟨elementBytes t.size, by
      have := t.size_le
      have : 16 ≤ offMax := by decide
      rw [elementBytes, List.length_cons, List.length_replicate]
      omega⟩ }

section OneElement

variable {pf : Platform} {t : ScalarDatatype} (supported : Supported pf t t)

include supported

theorem oneElement_request (order : Byteorder) :
    TileRequest pf (oneElement t order) (fun _ => 0) unitShape t none where
  supported := by
    have same : destDatatype (oneElement t order) t = t := ite_self _
    rwa [same]
  covers := by
    obtain ⟨pos, -⟩ := supported.sizes
    have len : (oneElement t order).data.bytes.length = t.size := length_elementBytes pos
    rw [Covers, len, Nat.zero_add]
    exact Nat.le_of_eq (Nat.mul_one _)
  bounds := by
    intro d lt
    have first : d = 0 := Nat.lt_one_iff.mp lt
    subst first
    exact Nat.le_refl _
  fits := by
    have le := (destDatatype (oneElement t order) t).size_le
    have one : tileElems (oneElement t order) unitShape = 1 := rfl
    have : 16 ≤ offMax := by decide
    rw [tileBytes, one]
    omega
  required := nofun

/-- What an identity read of the one element gives: its bytes, in the host's order. -/
theorem oneElement_converted (order : Byteorder) :
    (convertedElement pf (oneElement t order) t 0
      (place (oneElement t order).shape (fun _ => 0) (oneElement t order).ndim fun _ => 0)).1 =
      hostBytes pf order (elementBytes t.size) := by
  obtain ⟨pos, -⟩ := supported.sizes
  have first : place (oneElement t order).shape (fun _ => 0) (oneElement t order).ndim (fun _ => 0) =
      0 := rfl
  have same : destDatatype (oneElement t order) t = t := ite_self _
  have whole : elementAt (oneElement t order).data.bytes 0 t.size 0 = elementBytes t.size := by
    change elementAt (elementBytes t.size) 0 t.size 0 = _
    unfold elementAt
    rw [Nat.zero_mul, Nat.add_zero, List.drop_zero]
    exact List.take_of_length_le (Nat.le_of_eq (length_elementBytes pos))
  rw [first, convertedElement, same]
  change (convertValue pf t t (hostBytes pf order (elementAt (oneElement t order).data.bytes 0 t.size 0))).1 = _
  rw [whole, convertValue]
  split
  · unfold convertElem
    rw [if_pos rfl]
  · rfl

/-- Where its bytes are swapped, it is another element. -/
theorem not_sameReads (long : 1 < t.size) {order : Byteorder} (other : order ≠ pf.host) :
    ¬ SameReads pf (oneElement t order) (oneElement t pf.host) := by
  rintro ⟨same, -⟩
  have agree := same 1 (fun _ => 0) unitShape t none
  have index (order : Byteorder) : TileIndex (oneElement t order) unitShape fun _ => 0 :=
    ⟨Nat.one_pos, fun _ _ => Nat.one_pos⟩
  obtain ⟨r, ret, -, ⟨buf, hbuf, elem⟩, -⟩ :=
    (oneElement_request supported order).run (index _) (Nat.le_refl 1)
  obtain ⟨r', ret', -, ⟨buf', hbuf', elem'⟩, -⟩ :=
    (oneElement_request supported pf.host).run (index _) (Nat.le_refl 1)
  cases (ret'.symm.trans agree).trans ret
  cases hbuf.symm.trans hbuf'
  have swapped := (elem _ (index _)).trans (oneElement_converted supported order)
  have plain := (elem' _ (index _)).trans (oneElement_converted supported pf.host)
  have eq := swapped.symm.trans plain
  rw [hostBytes, hostBytes, if_pos (Ne.symm other), if_neg (not_not.mpr rfl)] at eq
  obtain ⟨n, hn⟩ : ∃ n, t.size = n + 2 := ⟨t.size - 2, by omega⟩
  have heads := congrArg List.head? eq
  have ends : t.size - 1 = n + 1 := by omega
  rw [elementBytes, List.head?_reverse, ends, List.replicate_succ', ← List.cons_append,
    List.getLast?_concat] at heads
  simp at heads

end OneElement

/-! ## A file with one element -/

def elementHeader (size : Nat) : BlockHeader :=
  ⟨blockHeaderSize, 0, noCompression, size, size, size, List.replicate 16 0⟩

def elementRecord (size : Nat) : BlockRecord :=
  { sampleRecord with header := elementHeader size, dataSize := size }

def elementEnv (size : Nat) : EmitterEnv MemStream :=
  ⟨sampleFile, ⟨[some (elementBytes size)]⟩, shortYaml⟩

def elementBlocks (size : Nat) : BlockFile := ⟨true, none, [elementRecord size]⟩

/-- The block begins at byte 55, the index behind it. -/
def elementContent (size : Nat) : Bytes :=
  versionComments ++ shortTree.text ++
    blockImage (elementHeader size) ⟨elementBytes size, noCompression⟩ ++
    blockIndexHeader ++ [newline, 91, 93, newline]

theorem elementRecord_puts {size : Nat} (small : size ≤ 16) :
    ∀ record ∈ (ensureBlocks (elementBlocks size)).blocks, record.Puts := by
  intro record member
  obtain rfl := List.mem_singleton.mp member
  have limit : size < 2 ^ 64 := by omega
  exact ⟨⟨show 48 < 2 ^ 16 by decide, show 0 < 2 ^ 32 by decide, rfl, limit, limit, limit, rfl⟩, rfl⟩

section ElementFile

variable {size : Nat} (known : size = 2 ∨ size = 4 ∨ size = 8)

include known

theorem elementContent_written : asdfWriteToFile (elementEnv size) writtenDocument
    (elementBlocks size) ⟨none, true, 4096⟩ = .ret (0, elementContent size) := by
  rcases known with rfl | rfl | rfl <;> decide +kernel

theorem elementContent_indexed : IndexFound readingEnv (elementContent size)
    [BlockInfo.empty 0 55] true := by
  refine .present ((elementContent size).take (109 + size)) [newline] [91, 93, newline] (by decide)
    (.inl rfl) ?_ ?_ ?_ ?_
  all_goals rcases known with rfl | rfl | rfl <;> decide +kernel

theorem element_headerPos {e : Emitter Recorder} (run : emission (elementEnv size) writtenDocument
    (elementBlocks size) = .ret e) : e.blocks.blocks.map (·.headerPos) = [55] := by
  have places : (emission (elementEnv size) writtenDocument (elementBlocks size) >>= fun e =>
      .ret (e.blocks.blocks.map (·.headerPos))) = .ret [55] := by
    rcases known with rfl | rfl | rfl <;> decide +kernel
  rw [run] at places
  exact Outcome.ret.inj places

/-- The element comes back from the file. -/
theorem element_rereads : Rereads 0 0 (elementBytes size) (elementBytes size) := by
  have small : (elementContent size).length ≤ offMax := by
    rcases known with rfl | rfl | rfl <;> decide +kernel
  have written := elementContent_written known
  obtain ⟨e, l, run, describes, fits, same⟩ := written_layout
    (show (elementEnv size).yaml.Reports from rfl) shortYaml_plain
    (elementRecord_puts (by omega)) written rfl
    (fun empty => absurd (congrArg List.length empty) (by
      rcases known with rfl | rfl | rfl <;> decide +kernel)) small
  have found : IndexFound readingEnv l.bytes l.infos true := by
    rw [describes.bytes]
    refine IndexFound.congr ?_ (elementContent_indexed known)
    rw [same, element_headerPos known run]
    rfl
  have parses := memory_parsesAs fits (fun _ _ => rfl) found (show (2 : UInt64) &&& 1 ≠ 1 by decide) 1
  have holds : (elementRecord size).Holds (elementEnv size).heap [] (elementBytes size) := by
    refine ⟨⟨0, rfl, ?_⟩, rfl, nofun⟩
    rcases known with rfl | rfl | rfl <;> rfl
  have old : (ensureBlocks (elementBlocks size)).blocks[0]? = some (elementRecord size) := rfl
  let reader : WriterFile MemStream := ⟨some (streamFromMemory l.bytes), 4096, [], none⟩
  have data : fileBlockData reader ⟨[]⟩ ⟨false, none, l.infos.map .ofInfo⟩ 0 =
      .ret (some (some (elementBytes size))) :=
    describes.fileBlockData old holds small rfl rfl describes.bytes trivial ⟨[]⟩
  exact .intro old holds ⟨_, _, e, rfl, written, run, describes⟩ small
    ⟨streamFromMemory l.bytes, streamFromMemory l.bytes, 2, true, 1, reader, describes.bytes, parses,
      rfl, rfl, describes.bytes, trivial, data⟩

end ElementFile

/-! ## Before and after -/

/-- The byte orders that mean the same before an array is written to a block and
after. -/
def OrderAgrees (pf : Platform) (t : ScalarDatatype) (order : Byteorder) : Prop :=
  order ≠ .default ∨ t.size ≤ 1 ∨ pf.host = .big ∨ t = .float16 ∧ pf.float16 = false

section Agreement

variable {env : ElementEnv} {t : ScalarDatatype} {order : Byteorder}

/-- The byte order that is read back swaps the same bytes. -/
theorem readConvertFn_stored {pf : Platform} {before after : Ndarray}
    (agrees : OrderAgrees pf before.datatype before.byteorder)
    (datatype : after.datatype = before.datatype)
    (stored : after.byteorder = before.byteorder.stored) (dstT : ScalarDatatype) :
    readConvertFn pf after dstT = readConvertFn pf before dstT := by
  rcases agrees with explicit | short | big | ⟨half, lacks⟩
  · apply readConvertFn_of_swap datatype
    rw [stored]
    cases order : before.byteorder with
    | default => exact absurd order explicit
    | big => rfl
    | little => rfl
  · apply readConvertFn_of_swap datatype
    rw [shouldByteswap, shouldByteswap, if_pos short, if_pos short]
  · apply readConvertFn_of_swap datatype
    rw [stored]
    unfold shouldByteswap
    rw [big]
    cases before.byteorder <;> rfl
  · have missing (dst : ScalarDatatype) : (before.datatype = .float16 ∨ dst = .float16) ∧
        !pf.float16 := by
      rw [lacks]
      exact ⟨.inl half, rfl⟩
    unfold readConvertFn
    rw [datatype]
    exact (if_pos (missing _)).trans (if_pos (missing _)).symm

theorem one_lt_of_supported {pf : Platform} (supported : Supported pf t t) (long : ¬ t.size ≤ 1) :
    t.size = 2 ∨ t.size = 4 ∨ t.size = 8 := by
  obtain ⟨numeric, -, -⟩ := supported
  revert numeric long
  cases t <;> decide

/-- The element as a value in memory. -/
def elementValue (t : ScalarDatatype) (order : Byteorder) : NdarrayValue :=
  ⟨0, [1], plainDatatype t, order, 0, none, some (.sequence none [])⟩

theorem elementValue_views (t : ScalarDatatype) (order : Byteorder) :
    (elementValue t order).Views (oneElement t order) := ⟨rfl, rfl, rfl, rfl⟩

theorem not_orderAgrees {pf : Platform} (differs : ¬ OrderAgrees pf t order) : order = .default ∧
    ¬ t.size ≤ 1 ∧ pf.host = .little ∧ (t = .float16 → pf.float16 = true) := by
  unfold OrderAgrees at differs
  push Not at differs
  obtain ⟨unordered, long, little, half⟩ := differs
  refine ⟨unordered, Nat.not_le_of_lt long, ?_, by simpa using half⟩
  cases host : pf.host with
  | default => exact absurd host pf.host_explicit
  | big => exact absurd host little
  | little => rfl

/-- One element without a byte order is swapped before and not after. -/
theorem orderAgrees_of_same (lib : NumberBuilder) (numeric : t.numeric = true)
    (same : BlockReadsSame env lib t order) : OrderAgrees env.pf t order := by
  by_contra differs
  obtain ⟨unordered, long, host, half⟩ := not_orderAgrees differs
  have supported : Supported env.pf t t := by
    refine ⟨numeric, numeric, ?_⟩
    by_cases isHalf : t = .float16
    · exact .inl (half isHalf)
    · exact .inr ⟨isHalf, isHalf⟩
  have built : (elementValue t order).Built (oneElement t order) :=
    ⟨elementValue_views t order, ⟨.default, rfl⟩, nofun⟩
  obtain ⟨node, w, made, read, reads⟩ := same _ _ ⟨0, by decide⟩ built rfl rfl
  obtain ⟨node', w', made', read', source, shape, datatype, byteorder, offset⟩ :=
    @NdarrayValue.Built.reopened env.scalars lib _ _ built numeric ⟨0, by decide⟩ env.pf.host
  cases made.symm.trans made'
  cases read.symm.trans read'
  have little : w.byteorder = env.pf.host := by
    rw [byteorder, host]
    change order.stored = .little
    rw [unordered]
    rfl
  have comes := element_rereads (one_lt_of_supported supported long)
  refine not_sameReads supported (Nat.lt_of_not_le long) ?_
    (reads (oneElement t env.pf.host) ⟨shape, datatype, little, offset⟩ ?_)
  · rw [unordered, host]
    decide
  · rw [source]
    exact comes

theorem blockReadsSame_of_agrees (lib : NumberBuilder) (numeric : t.numeric = true)
    (agrees : OrderAgrees env.pf t order) : BlockReadsSame env lib t order := by
  intro v before index built type ordered
  subst type
  subst ordered
  obtain ⟨node, w, made, read, source, shape, datatype, byteorder, -⟩ :=
    @NdarrayValue.Built.reopened env.scalars lib _ _ built numeric index env.pf.host
  refine ⟨node, w, made, read, fun after views rereads => ?_⟩
  rw [source] at rereads
  have type : after.datatype = before.datatype := views.datatype.symm.trans datatype
  exact sameReads_of_convert (views.shape.symm.trans shape) type rereads.same
    (readConvertFn_stored agrees type (views.byteorder.symm.trans byteorder))

/-- Arrays in blocks read the same before and after, unless they have no byte order,
elements of several bytes and a little-endian host. -/
theorem blockReadsSame_iff (lib : NumberBuilder) (numeric : t.numeric = true) :
    BlockReadsSame env lib t order ↔ OrderAgrees env.pf t order := by
  constructor
  · exact orderAgrees_of_same lib numeric
  · exact blockReadsSame_of_agrees lib numeric

section Inline

variable {lib : ElementBuilder env.scalars.floats} (ieee : env.scalars.floats.Ieee)
  (p : DecimalPoint env.scalars.floats.decimalPoint) (narrows : env.scalars.floats.Narrows)
  (width : leafWidth env.pf t = some t.size)

include ieee p narrows width

/-- What is read of an array that was stored inline. -/
theorem InlineKept.reopened {v : NdarrayValue} {a : Ndarray} {block : Option BlockIndex}
    (h : InlineKept env a) (holds : HoldsArray v a block) (type : a.datatype = t) :
    ∃ node b, writeInline env lib.toNumberBuilder v a block = .ret (some node) ∧
      ndarrayDeserialize env.scalars env.pf.host node = .ok b.toValue ∧
      inlineData env b = .ret (some a.data.bytes) ∧ b.shape = a.extents ∧
      b.datatype.type = a.datatype ∧ b.byteorder = env.pf.host := by
  subst type
  obtain ⟨node, b, write, read, shape, datatype, byteorder, data⟩ :=
    @comesBackInline_of_kept env lib v a block ieee p narrows holds width h.memory h.recorded
      h.elements
  rw [← h.whole, List.take_length] at data
  obtain ⟨order, scalar⟩ := holds.datatype
  exact ⟨node, b, write, read, data, shape, by rw [datatype, scalar], byteorder⟩

omit ieee p narrows width in
/-- The bits of the element are even, and no NaN's. -/
theorem elementBytes_kept (long : ¬ t.size ≤ 1) :
    ElementKept env.scalars.floats env.pf.host t (elementBytes t.size) := by
  have explicit := env.pf.host_explicit
  cases t with
  | bool8 => exact absurd (Nat.le_refl 1) long
  | float32 =>
    have even : binary32.isNaN (UInt32.ofNat (loadBits env.pf.host (elementBytes 4))).toNat = false ∧
        (UInt32.ofNat (loadBits env.pf.host (elementBytes 4))).toNat % 2 ≠ 1 := by
      cases host : env.pf.host with
      | default => exact absurd host explicit
      | little | big => decide
    change FloatKept _ (UInt32.ofNat (loadBits env.pf.host (elementBytes 4)))
    rw [FloatKept, if_neg (by rw [even.1]; exact Bool.false_ne_true)]
    exact fun odd => absurd odd even.2
  | float64 =>
    have number : binary64.isNaN (loadBits env.pf.host (elementBytes 8)) = false := by
      cases host : env.pf.host with
      | default => exact absurd host explicit
      | little | big => decide
    change binary64.isNaN (loadBits env.pf.host (elementBytes 8)) = true → _
    rw [number]
    exact fun yes => absurd yes Bool.false_ne_true
  | _ => trivial

omit ieee p narrows width in
theorem oneElement_kept (long : ¬ t.size ≤ 1) : InlineKept env (oneElement t order) where
  recorded := by
    intro dim mem
    obtain rfl := List.mem_singleton.mp mem
    decide
  memory := by
    change 8 * elementCount [1] < _
    decide
  whole := (length_elementBytes (by omega)).trans (Nat.one_mul _).symm
  elements := by
    intro i lt
    have first : i = 0 := Nat.lt_one_iff.mp lt
    subst first
    have whole : elementAt (elementBytes t.size) 0 t.size 0 = elementBytes t.size := by
      unfold elementAt
      rw [Nat.zero_mul, Nat.add_zero, List.drop_zero]
      exact List.take_of_length_le (Nat.le_of_eq (length_elementBytes (by omega)))
    change ElementKept _ _ t (elementAt (elementBytes t.size) 0 t.size 0)
    rw [whole]
    exact elementBytes_kept long

/-- Where elements are written as they are, arrays that are stored inline read the same
before and after if they are in the host's byte order, or it does not matter. -/
theorem inlineReadsSame_of_width (supported : Supported env.pf t t) :
    InlineReadsSame env lib.toNumberBuilder t order ↔ t.size ≤ 1 ∨ order = env.pf.host := by
  constructor
  · intro same
    by_contra differs
    obtain ⟨long, other⟩ := not_or.mp differs
    have kept : InlineKept env (oneElement t order) := oneElement_kept long
    have holds : HoldsArray (elementValue t order) (oneElement t order) none :=
      ⟨rfl, ⟨.default, rfl⟩, .inr rfl, Nat.le_of_eq kept.whole.symm⟩
    obtain ⟨node, b, buf, write, read, data, reads⟩ :=
      same _ _ none (elementValue_views t order) holds kept rfl rfl
    obtain ⟨node', b', write', read', data', shape, datatype, byteorder⟩ :=
      kept.reopened ieee p narrows width holds rfl
    cases Option.some.inj (Outcome.ret.inj (write.symm.trans write'))
    obtain rfl := InlineNdarray.toValue_inj (Except.ok.inj (read.symm.trans read'))
    refine not_sameReads supported (Nat.lt_of_not_le long) other
      (reads (oneElement t env.pf.host) ⟨shape, datatype, byteorder, rfl⟩ ?_)
    exact Option.some.inj (Outcome.ret.inj (data'.symm.trans data))
  · intro agrees v before block views holds kept type ordered
    obtain ⟨node, b, write, read, data, shape, datatype, byteorder⟩ :=
      kept.reopened ieee p narrows width holds type
    refine ⟨node, b, _, write, read, data, fun after views' bytes => ?_⟩
    have type' : after.datatype = before.datatype := views'.datatype.symm.trans datatype
    refine sameReads_of_convert (views'.shape.symm.trans shape) type' bytes
      (readConvertFn_of_swap type' ?_)
    have host : after.byteorder = env.pf.host := views'.byteorder.symm.trans byteorder
    rw [type, ordered, host]
    rcases agrees with short | rfl
    · rw [shouldByteswap, shouldByteswap, if_pos short, if_pos short]
    · rfl

end Inline

theorem leafWidth_of_numeric {pf : Platform} (numeric : t.numeric = true) (whole : t ≠ .float16) :
    leafWidth pf t = some t.size := by
  cases t with
  | float16 => exact absurd rfl whole
  | unknown | complex64 | complex128 | bool8 | ascii | ucs4 | structured => cases numeric
  | _ => rfl

/-- An element of two bytes is not written as one of `float16`, of which four are read. -/
theorem float16_not_written {pf : Platform} (order : Byteorder) (node : YamlNode) :
    serializeInlineData pf (oneElement .float16 order) ≠ .ret (some node) := by
  intro written
  have type : (oneElement .float16 order).datatype = .float16 := rfl
  change (serializeSeqLevel pf (oneElement .float16 order) [1] 0 >>= _) = _ at written
  unfold serializeSeqLevel at written
  rw [type] at written
  cases half : pf.float16 with
  | false =>
    have none : leafWidth pf .float16 = none := if_neg (by rw [half]; exact Bool.false_ne_true)
    rw [none] at written
    cases written
  | true =>
    have four : leafWidth pf .float16 = some 4 := if_pos half
    rw [four] at written
    obtain ⟨result, level, -⟩ := Outcome.bind_eq_ret.mp written
    obtain ⟨items, sequence, -⟩ := Outcome.bind_eq_ret.mp level
    have past : sequenceOf (oneElement .float16 order).data.bytes 0 4 1 = .fault .memory := rfl
    have one : intCount 1 = 1 := by decide
    rw [UInt64.zero_mul, UInt64.toNat_zero, one, past] at sequence
    cases sequence

/-- Arrays that are stored inline read the same before and after, if they are in the
host's byte order, or it does not matter. -/
theorem inlineReadsSame_iff {lib : ElementBuilder env.scalars.floats}
    (ieee : env.scalars.floats.Ieee) (p : DecimalPoint env.scalars.floats.decimalPoint)
    (narrows : env.scalars.floats.Narrows) (numeric : t.numeric = true) :
    InlineReadsSame env lib.toNumberBuilder t order ↔
      t ≠ .float16 ∧ (t.size ≤ 1 ∨ order = env.pf.host) := by
  by_cases half : t = .float16
  · refine iff_of_false (fun same => ?_) fun whole => whole.1 half
    subst half
    have long : ¬ ScalarDatatype.float16.size ≤ 1 := by decide
    have kept : InlineKept env (oneElement .float16 order) := oneElement_kept long
    obtain ⟨node, b, buf, write, -⟩ := same _ _ none (elementValue_views .float16 order)
      ⟨rfl, ⟨.default, rfl⟩, .inr rfl, Nat.le_of_eq kept.whole.symm⟩ kept rfl rfl
    obtain ⟨result, serialized, made⟩ := Outcome.bind_eq_ret.mp write
    cases result with
    | none => cases made
    | some y => exact float16_not_written order y serialized
  · have width : leafWidth env.pf t = some t.size := leafWidth_of_numeric numeric half
    rw [inlineReadsSame_of_width ieee p narrows width ⟨numeric, numeric, .inr ⟨half, half⟩⟩]
    exact (and_iff_right half).symm

/-- **When an array reads the same before it is written and after.** Arrays that are
written to blocks do, unless they have no byte order, elements of several bytes and a
little-endian host. Arrays that come back from inline storage do just if they are in the
host's byte order, or have elements of one byte: the numbers are written as the host
loads them, and read as its own. -/
theorem byteorder_agrees {lib : ElementBuilder env.scalars.floats}
    (ieee : env.scalars.floats.Ieee) (p : DecimalPoint env.scalars.floats.decimalPoint)
    (narrows : env.scalars.floats.Narrows) (numeric : t.numeric = true) :
    (BlockReadsSame env lib.toNumberBuilder t order ↔ OrderAgrees env.pf t order) ∧
      (InlineReadsSame env lib.toNumberBuilder t order ↔
        t ≠ .float16 ∧ (t.size ≤ 1 ∨ order = env.pf.host)) :=
  ⟨blockReadsSame_iff lib.toNumberBuilder numeric, inlineReadsSame_iff ieee p narrows numeric⟩

end Agreement

/-- Big-endian numbers are read back from their block as they were, and little-endian
ones that are stored inline on a little-endian host. -/
theorem byteorder_agrees_uint16 : BlockReadsSame libraryElements plainNumbers .uint16 .big ∧
    InlineReadsSame libraryElements plainNumbers .uint16 .little :=
  ⟨(@byteorder_agrees libraryElements .uint16 .big (plainElementBuilder (libraryFloats [44]))
      (libraryFloats_ieee [44]) comma_decimalPoint (fun _ _ => rfl) rfl).1.mpr (.inl nofun),
    (@byteorder_agrees libraryElements .uint16 .little (plainElementBuilder (libraryFloats [44]))
      (libraryFloats_ieee [44]) comma_decimalPoint (fun _ _ => rfl) rfl).2.mpr ⟨nofun, .inr rfl⟩⟩

/-- On a little-endian host, the bytes 2 and 0 without a byte order are 512 before they
are written to a block and 2 after; so are big-endian ones that are stored inline. -/
theorem default_order_differs :
    readAll 1 x86 (oneElement .uint16 .default) .uint16 none = .ret ⟨.ok, some [0, 2], false⟩ ∧
      readAll 1 x86 (oneElement .uint16 .big) .uint16 none = .ret ⟨.ok, some [0, 2], false⟩ ∧
      readAll 1 x86 (oneElement .uint16 .little) .uint16 none = .ret ⟨.ok, some [2, 0], false⟩ ∧
      ¬ BlockReadsSame libraryElements plainNumbers .uint16 .default ∧
      ¬ InlineReadsSame libraryElements plainNumbers .uint16 .big := by
  refine ⟨by decide +kernel, by decide +kernel, by decide +kernel, fun same => ?_, fun same => ?_⟩
  · rcases (blockReadsSame_iff plainNumbers rfl).mp same with ordered | short | big | ⟨half, -⟩
    · exact ordered rfl
    · exact absurd short (by decide)
    · cases big
    · cases half
  · obtain ⟨-, short | host⟩ := (@inlineReadsSame_iff libraryElements .uint16 .big
      (plainElementBuilder (libraryFloats [44])) (libraryFloats_ieee [44]) comma_decimalPoint
      (fun _ _ => rfl) rfl).mp same
    · exact absurd short (by decide)
    · cases host

end LibAsdf
