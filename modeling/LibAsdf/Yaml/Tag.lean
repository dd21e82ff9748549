import LibAsdf.Base.Best
import LibAsdf.Stream.Basic

/-!
# Tag normalization

How a tag is shortened with the tag handles of the document. A C string is
modelled by its characters, without the zero that ends it.

* `yamlTagCanonicalize`, `yamlTagNormalize`: the two functions of `yaml.c`;
* `Denotes`: the result is the right text for the right handle;
* `Normalizes`: when it is, in terms of the handles alone;
* `fileTagNormalize`: the cache of a file, which changes no answer.
-/

namespace LibAsdf

structure TagHandle where
  handle : Bytes
  tagPrefix : Bytes
  deriving DecidableEq, Repr

/-- `tag:` -/
def yamlTagPrefix : Bytes := [116, 97, 103, 58]

/-- `!` -/
def yamlDefaultTagHandle : Bytes := [33]

/-- `tag:stsci.edu:asdf/` -/
def standardTagPrefix : Bytes :=
  [116, 97, 103, 58, 115, 116, 115, 99, 105, 46, 101, 100, 117, 58, 97, 115, 100, 102, 47]

/-- `asdf_yaml_default_tag_handle`. -/
def asdfDefaultTagHandle : TagHandle := ⟨yamlDefaultTagHandle, standardTagPrefix⟩

/-- `strncmp(str, start, strlen(start)) == 0`. -/
def startsWith (str start : Bytes) : Bool := start.isPrefixOf str

/-- `str + n` read as a string: past the terminator there is nothing to read. -/
def stringFrom (str : Bytes) (n : Nat) : Run Bytes :=
  if n ≤ str.length then .ret (str.drop n) else .fault .memory

/-- `INT_MAX`, the most that `asprintf` can report to have printed. -/
def intMax : Nat := 2147483647

/-- The string that `asprintf` leaves, as the code reads it: it takes an empty
one for an error, like one whose length does not fit an `int`. -/
def printed (text : Bytes) : Option Bytes :=
  if 0 < text.length ∧ text.length ≤ intMax then some text else none

/-- `asdf_yaml_tag_canonicalize`. -/
def yamlTagCanonicalize (tag : Bytes) : Bytes :=
  if startsWith tag yamlTagPrefix then tag else yamlTagPrefix ++ tag

/-- The local variables of the loop over the handles. -/
structure TagScan where
  handle : Option TagHandle
  hasDefaultTagHandle : Bool
  prefixLen : Nat
  longestPrefix : Nat
  deriving DecidableEq, Repr

def TagScan.init : TagScan := ⟨none, false, 0, 0⟩

/-- One round of the loop. -/
def TagScan.visit (canonicalTag : Bytes) (s : TagScan) (tmpHandle : TagHandle) : TagScan :=
  let prefixLen := tmpHandle.tagPrefix.length
  let taken := startsWith canonicalTag tmpHandle.tagPrefix && decide (s.longestPrefix < prefixLen)
  { handle := if taken then some tmpHandle else s.handle
    hasDefaultTagHandle := s.hasDefaultTagHandle || decide (tmpHandle.handle = yamlDefaultTagHandle)
    prefixLen := prefixLen
    longestPrefix := if taken then prefixLen else s.longestPrefix }

/-- The check of the standard prefix after the loop, which sets `prefix_len`
also when it does not match. -/
def TagScan.withDefault (canonicalTag : Bytes) (s : TagScan) : TagScan :=
  if s.handle.isNone && !s.hasDefaultTagHandle then
    { s with
      prefixLen := standardTagPrefix.length
      handle := if startsWith canonicalTag standardTagPrefix then some asdfDefaultTagHandle
        else s.handle }
  else s

/-- The local variables when the text is printed. -/
def tagScan (canonicalTag : Bytes) (handles : List TagHandle) : TagScan :=
  (handles.foldl (TagScan.visit canonicalTag) TagScan.init).withDefault canonicalTag

/-- `!<canonical_tag>` -/
def verbatimTag (canonicalTag : Bytes) : Bytes := [33, 60] ++ canonicalTag ++ [62]

/-- `asdf_yaml_tag_normalize`. `none` is the null pointer. -/
def yamlTagNormalize (tag : Bytes) (handles : List TagHandle) : Run (Option Bytes) :=
  let canonicalTag := yamlTagCanonicalize tag
  let s := tagScan canonicalTag handles
  match s.handle with
  | none => .ret (printed (verbatimTag canonicalTag))
  | some handle => do
    let rest ← stringFrom canonicalTag s.prefixLen
    .ret (printed (handle.handle ++ rest))

/-! ## What the result is to be -/

/-- The handle that the code has chosen when it prints. -/
def chosenHandle (tag : Bytes) (handles : List TagHandle) : Option TagHandle :=
  (tagScan (yamlTagCanonicalize tag) handles).handle

def TagHandle.Matches (h : TagHandle) (canonicalTag : Bytes) : Prop :=
  h.tagPrefix <+: canonicalTag

/-- The handles of the document: the default handle is one of them also when
the list does not name it. -/
def documentHandles (handles : List TagHandle) : List TagHandle :=
  if ∃ h ∈ handles, h.handle = yamlDefaultTagHandle then handles
  else handles ++ [asdfDefaultTagHandle]

/-- The tag with `h`'s prefix removed, after the handle. -/
def TagHandle.shorten (h : TagHandle) (canonicalTag : Bytes) : Bytes :=
  h.handle ++ canonicalTag.drop h.tagPrefix.length

/-- The result denotes the tag. The handle in use is one of the document's, it
matches, none of its `rivals` that match has a longer prefix, and the text is
the tag shortened by it; the verbatim form is for a tag that no handle matches. -/
def Denotes (rivals : List TagHandle) (tag : Bytes) (handles : List TagHandle) : Prop :=
  let canonicalTag := yamlTagCanonicalize tag
  match chosenHandle tag handles with
  | some h =>
    h ∈ documentHandles handles ∧ h.Matches canonicalTag ∧
      (∀ g ∈ rivals, g.Matches canonicalTag → g.tagPrefix.length ≤ h.tagPrefix.length) ∧
      yamlTagNormalize tag handles = .ret (some (h.shorten canonicalTag))
  | none =>
    (∀ g ∈ documentHandles handles, ¬ g.Matches canonicalTag) ∧
      yamlTagNormalize tag handles = .ret (some (verbatimTag canonicalTag))

/-- The length of the prefix when it matches; handles with an empty prefix
count as ones that do not. -/
def TagHandle.rank (canonicalTag : Bytes) (h : TagHandle) : Nat :=
  if startsWith canonicalTag h.tagPrefix then h.tagPrefix.length else 0

/-- The text for the first listed handle of the longest matching prefix, else
for the default handle, else the verbatim one. -/
inductive TagText (tag : Bytes) (handles : List TagHandle) : Bytes → Prop where
  | listed {h} (best : FirstBest (TagHandle.rank (yamlTagCanonicalize tag)) handles h) :
      TagText tag handles (h.shorten (yamlTagCanonicalize tag))
  | standard (unlisted : ∀ h ∈ handles, h.rank (yamlTagCanonicalize tag) = 0)
      (unnamed : ∀ h ∈ handles, h.handle ≠ yamlDefaultTagHandle)
      (core : asdfDefaultTagHandle.Matches (yamlTagCanonicalize tag)) :
      TagText tag handles (asdfDefaultTagHandle.shorten (yamlTagCanonicalize tag))
  | verbatim (unmatched : ∀ h ∈ documentHandles handles, h.rank (yamlTagCanonicalize tag) = 0) :
      TagText tag handles (verbatimTag (yamlTagCanonicalize tag))

/-- When the result is right. The text is cut after the prefix of the *last*
listed handle, so that one has to be as long as the prefix in use; an empty
prefix matches every tag but is never used; and the text has to be printable. -/
structure Normalizes (tag : Bytes) (handles : List TagHandle) : Prop where
  last : ∀ h, FirstBest (TagHandle.rank (yamlTagCanonicalize tag)) handles h →
    ∀ g ∈ handles.getLast?, g.tagPrefix.length = h.tagPrefix.length
  nonempty : (∀ h ∈ documentHandles handles, h.rank (yamlTagCanonicalize tag) = 0) →
    ∀ h ∈ handles, h.tagPrefix ≠ []
  printable : ∀ text, TagText tag handles text → 0 < text.length ∧ text.length ≤ intMax

/-- No listed handle is used where the default handle, unlisted, has the longer
prefix. -/
def PrefersStandard (tag : Bytes) (handles : List TagHandle) : Prop :=
  ∀ h, FirstBest (TagHandle.rank (yamlTagCanonicalize tag)) handles h →
    (∀ g ∈ handles, g.handle ≠ yamlDefaultTagHandle) →
    asdfDefaultTagHandle.Matches (yamlTagCanonicalize tag) →
    standardTagPrefix.length ≤ h.tagPrefix.length

section Scan

variable {canonicalTag tag : Bytes} {handles : List TagHandle} {h : TagHandle}

theorem startsWith_iff {str start : Bytes} : startsWith str start = true ↔ start <+: str := by
  simp [startsWith, List.isPrefixOf_iff_prefix]

theorem rank_of_matches (matched : h.Matches canonicalTag) :
    h.rank canonicalTag = h.tagPrefix.length := by
  simp [TagHandle.rank, startsWith_iff.mpr matched]

theorem rank_pos : 0 < h.rank canonicalTag ↔ h.Matches canonicalTag ∧ h.tagPrefix ≠ [] := by
  unfold TagHandle.rank
  by_cases matched : h.tagPrefix <+: canonicalTag
  · simp [startsWith_iff.mpr matched, TagHandle.Matches, matched, List.length_pos_iff]
  · have miss : startsWith canonicalTag h.tagPrefix = false := by
      simpa [← startsWith_iff] using matched
    simp [miss, TagHandle.Matches, matched]

/-- What the loop knows after the handles in `done`. -/
structure ScannedTag (canonicalTag : Bytes) (done : List TagHandle) (s : TagScan) : Prop where
  handle : s.handle = done.foldl (outrank (TagHandle.rank canonicalTag)) none
  longest : s.longestPrefix = s.handle.elim 0 (TagHandle.rank canonicalTag)
  default : s.hasDefaultTagHandle = true ↔ ∃ h ∈ done, h.handle = yamlDefaultTagHandle
  last : ∀ g ∈ done.getLast?, s.prefixLen = g.tagPrefix.length

/-- The test of the loop, on the variables as they stand, is that of the scan. -/
theorem visit_taken {s : TagScan} {g : TagHandle}
    (longest : s.longestPrefix = s.handle.elim 0 (TagHandle.rank canonicalTag)) :
    (startsWith canonicalTag g.tagPrefix && decide (s.longestPrefix < g.tagPrefix.length)) =
      decide (s.handle.elim 0 (TagHandle.rank canonicalTag) < g.rank canonicalTag) := by
  rw [longest]
  unfold TagHandle.rank
  cases startsWith canonicalTag g.tagPrefix <;> simp

theorem ScannedTag.visit {done : List TagHandle} {s : TagScan} (hs : ScannedTag canonicalTag done s)
    (g : TagHandle) : ScannedTag canonicalTag (done ++ [g]) (s.visit canonicalTag g) := by
  have taken := visit_taken (g := g) hs.longest
  constructor
  · simp only [TagScan.visit, List.foldl_append, List.foldl_cons, List.foldl_nil, ← hs.handle,
      taken, outrank]
    simp
  · simp only [TagScan.visit, taken]
    by_cases above : s.handle.elim 0 (TagHandle.rank canonicalTag) < g.rank canonicalTag
    · have matched : g.Matches canonicalTag := (rank_pos.mp (by omega)).1
      have same : g.rank canonicalTag = g.tagPrefix.length := rank_of_matches matched
      rw [same] at above
      simp [above, same]
    · simp [above, hs.longest]
  · simp only [TagScan.visit, Bool.or_eq_true, hs.default, decide_eq_true_eq, List.mem_append,
      List.mem_singleton]
    constructor
    · rintro (⟨h, mem, named⟩ | named)
      · exact ⟨h, .inl mem, named⟩
      · exact ⟨g, .inr rfl, named⟩
    · rintro ⟨h, mem | rfl, named⟩
      · exact .inl ⟨h, mem, named⟩
      · exact .inr named
  · intro h last
    simp only [List.getLast?_append, List.getLast?_singleton, Option.some_or,
      Option.mem_def, Option.some.injEq] at last
    rw [← last]
    rfl

theorem ScannedTag.run {done : List TagHandle} {s : TagScan} (hs : ScannedTag canonicalTag done s)
    (rest : List TagHandle) :
    ScannedTag canonicalTag (done ++ rest) (rest.foldl (TagScan.visit canonicalTag) s) := by
  induction rest generalizing done s with
  | nil => simpa using hs
  | cons g rest ih =>
    have next := ih (hs.visit g)
    rw [List.append_assoc] at next
    exact next

theorem scanned_init : ScannedTag canonicalTag [] TagScan.init := by
  constructor <;> simp [TagScan.init]

theorem scanned (canonicalTag : Bytes) (handles : List TagHandle) :
    ScannedTag canonicalTag handles (handles.foldl (TagScan.visit canonicalTag) TagScan.init) := by
  simpa using scanned_init.run handles

theorem mem_documentHandles {g : TagHandle} : g ∈ documentHandles handles ↔
    g ∈ handles ∨ g = asdfDefaultTagHandle ∧ ∀ h ∈ handles, h.handle ≠ yamlDefaultTagHandle := by
  unfold documentHandles
  by_cases named : ∃ h ∈ handles, h.handle = yamlDefaultTagHandle
  · simp only [named, ↓reduceIte]
    obtain ⟨h, mem, eq⟩ := named
    constructor
    · exact .inl
    · rintro (mem' | ⟨-, unnamed⟩)
      · exact mem'
      · exact absurd eq (unnamed h mem)
  · simp only [named, ↓reduceIte, List.mem_append, List.mem_singleton]
    push Not at named
    constructor
    · rintro (mem | rfl)
      · exact .inl mem
      · exact .inr ⟨rfl, named⟩
    · rintro (mem | ⟨rfl, -⟩)
      · exact .inl mem
      · exact .inr rfl

/-- How the handle is chosen, with the length that the text is then cut by. -/
inductive Chosen (canonicalTag : Bytes) (handles : List TagHandle) (s : TagScan) : Prop where
  | listed (h : TagHandle) (best : FirstBest (TagHandle.rank canonicalTag) handles h)
      (handle : s.handle = some h) (last : ∀ g ∈ handles.getLast?, s.prefixLen = g.tagPrefix.length)
  | standard (unlisted : ∀ h ∈ handles, h.rank canonicalTag = 0)
      (unnamed : ∀ h ∈ handles, h.handle ≠ yamlDefaultTagHandle)
      (core : asdfDefaultTagHandle.Matches canonicalTag)
      (handle : s.handle = some asdfDefaultTagHandle)
      (cut : s.prefixLen = asdfDefaultTagHandle.tagPrefix.length)
  | verbatim (unmatched : ∀ h ∈ documentHandles handles, h.rank canonicalTag = 0)
      (handle : s.handle = none)

theorem chosen (canonicalTag : Bytes) (handles : List TagHandle) :
    Chosen canonicalTag handles (tagScan canonicalTag handles) := by
  have seen := scanned canonicalTag handles
  unfold tagScan TagScan.withDefault
  generalize handles.foldl (TagScan.visit canonicalTag) TagScan.init = s at seen
  cases found : s.handle with
  | some h =>
    have best : FirstBest (TagHandle.rank canonicalTag) handles h := by
      apply scan_eq_some.mp
      rw [← seen.handle, found]
    apply Chosen.listed h best
    · simp [found]
    · simpa [found] using seen.last
  | none =>
    have unlisted : ∀ h ∈ handles, h.rank canonicalTag = 0 := by
      apply scan_eq_none.mp
      rw [← seen.handle, found]
    cases named : s.hasDefaultTagHandle with
    | true =>
      obtain ⟨h, mem, eq⟩ := seen.default.mp named
      apply Chosen.verbatim
      · intro g hg
        rcases mem_documentHandles.mp hg with hg | ⟨-, unnamed⟩
        · exact unlisted g hg
        · exact absurd eq (unnamed h mem)
      · simp [found]
    | false =>
      have unnamed : ∀ h ∈ handles, h.handle ≠ yamlDefaultTagHandle := by
        intro h mem eq
        have : s.hasDefaultTagHandle = true := seen.default.mpr ⟨h, mem, eq⟩
        simp [named] at this
      by_cases core : standardTagPrefix <+: canonicalTag
      · apply Chosen.standard unlisted unnamed core
        · simp [startsWith_iff.mpr core]
        · rfl
      · have miss : startsWith canonicalTag standardTagPrefix = false := by
          simpa [← startsWith_iff] using core
        apply Chosen.verbatim
        · intro g hg
          rcases mem_documentHandles.mp hg with hg | ⟨rfl, -⟩
          · exact unlisted g hg
          · simp [TagHandle.rank, asdfDefaultTagHandle, miss]
        · simp [miss]

theorem printed_eq_some {text text' : Bytes} :
    printed text = some text' ↔ text = text' ∧ 0 < text.length ∧ text.length ≤ intMax := by
  unfold printed
  by_cases fits : 0 < text.length ∧ text.length ≤ intMax
  · simp [fits]
  · simp only [fits, ↓reduceIte, and_false]
    simp

/-- The text after the handle is right exactly when it is cut at the handle's
own prefix. -/
theorem cut_eq_iff {n : Nat} (matched : h.Matches canonicalTag) :
    (stringFrom canonicalTag n >>= fun rest => .ret (printed (h.handle ++ rest))) =
        Outcome.ret (some (h.shorten canonicalTag)) ↔
      n = h.tagPrefix.length ∧
        0 < (h.shorten canonicalTag).length ∧ (h.shorten canonicalTag).length ≤ intMax := by
  have inside : h.tagPrefix.length ≤ canonicalTag.length := List.IsPrefix.length_le matched
  unfold stringFrom
  by_cases readable : n ≤ canonicalTag.length
  · simp only [readable, ↓reduceIte, Outcome.ret_bind, Outcome.ret.injEq, printed_eq_some]
    constructor
    · rintro ⟨same, fits⟩
      have rest : canonicalTag.drop n = canonicalTag.drop h.tagPrefix.length :=
        List.append_cancel_left same
      have len := congrArg List.length rest
      simp only [List.length_drop] at len
      exact ⟨by omega, same ▸ fits⟩
    · rintro ⟨rfl, fits⟩
      exact ⟨rfl, fits⟩
  · simp only [readable, ↓reduceIte, Outcome.fault_bind]
    constructor
    · intro eq
      cases eq
    · rintro ⟨rfl, -⟩
      omega

theorem verbatim_eq_iff :
    (Outcome.ret (printed (verbatimTag canonicalTag)) : Run (Option Bytes)) =
        .ret (some (verbatimTag canonicalTag)) ↔
      0 < (verbatimTag canonicalTag).length ∧ (verbatimTag canonicalTag).length ≤ intMax := by
  simp [printed_eq_some]

theorem not_matches_iff {handles : List TagHandle} (unmatched : ∀ h ∈ handles, h.rank canonicalTag = 0) :
    (∀ h ∈ handles, ¬ h.Matches canonicalTag) ↔ ∀ h ∈ handles, h.tagPrefix ≠ [] := by
  constructor
  · intro miss h mem eq
    apply miss h mem
    rw [TagHandle.Matches, eq]
    exact List.nil_prefix
  · intro nonempty h mem matched
    have positive := rank_pos.mpr ⟨matched, nonempty h mem⟩
    have zero := unmatched h mem
    omega

end Scan

section Exact

variable {tag : Bytes} {handles : List TagHandle} {h : TagHandle}

theorem TagText.eq_of_listed {text : Bytes} (chosen : TagText tag handles text)
    (best : FirstBest (TagHandle.rank (yamlTagCanonicalize tag)) handles h) :
    text = h.shorten (yamlTagCanonicalize tag) := by
  have positive := best.ranked
  cases chosen with
  | listed best' => rw [best'.unique best]
  | standard unlisted _ _ =>
    have := unlisted h best.mem
    omega
  | verbatim unmatched =>
    have := unmatched h (mem_documentHandles.mpr (.inl best.mem))
    omega

theorem normalizes_listed {n : Nat}
    (best : FirstBest (TagHandle.rank (yamlTagCanonicalize tag)) handles h)
    (last : ∀ g ∈ handles.getLast?, n = g.tagPrefix.length) :
    Normalizes tag handles ↔ n = h.tagPrefix.length ∧
      0 < (h.shorten (yamlTagCanonicalize tag)).length ∧
      (h.shorten (yamlTagCanonicalize tag)).length ≤ intMax := by
  have positive := best.ranked
  constructor
  · intro norm
    have nonempty : handles ≠ [] := List.ne_nil_of_mem best.mem
    have final := List.getLast?_eq_some_getLast nonempty
    refine ⟨?_, norm.printable _ (.listed best)⟩
    rw [last _ final]
    exact norm.last h best _ final
  · rintro ⟨rfl, fits⟩
    constructor
    · intro h' best' g final
      rw [best'.unique best]
      exact (last g final).symm
    · intro unmatched
      have := unmatched h (mem_documentHandles.mpr (.inl best.mem))
      omega
    · intro text chosen
      rw [chosen.eq_of_listed best]
      exact fits

theorem no_best (unlisted : ∀ h ∈ handles, h.rank (yamlTagCanonicalize tag) = 0) :
    ¬ FirstBest (TagHandle.rank (yamlTagCanonicalize tag)) handles h := by
  intro best
  have positive := best.ranked
  have zero := unlisted h best.mem
  omega

theorem standard_rank (core : asdfDefaultTagHandle.Matches (yamlTagCanonicalize tag)) :
    0 < asdfDefaultTagHandle.rank (yamlTagCanonicalize tag) :=
  rank_pos.mpr ⟨core, by decide⟩

theorem normalizes_standard (unlisted : ∀ h ∈ handles, h.rank (yamlTagCanonicalize tag) = 0)
    (unnamed : ∀ h ∈ handles, h.handle ≠ yamlDefaultTagHandle)
    (core : asdfDefaultTagHandle.Matches (yamlTagCanonicalize tag)) :
    Normalizes tag handles ↔
      0 < (asdfDefaultTagHandle.shorten (yamlTagCanonicalize tag)).length ∧
      (asdfDefaultTagHandle.shorten (yamlTagCanonicalize tag)).length ≤ intMax := by
  have positive := standard_rank core
  constructor
  · intro norm
    exact norm.printable _ (.standard unlisted unnamed core)
  · intro fits
    constructor
    · intro h best
      exact absurd best (no_best unlisted)
    · intro unmatched
      have := unmatched _ (mem_documentHandles.mpr (.inr ⟨rfl, unnamed⟩))
      omega
    · intro text chosen
      cases chosen with
      | listed best => exact absurd best (no_best unlisted)
      | standard _ _ _ => exact fits
      | verbatim unmatched =>
        have := unmatched _ (mem_documentHandles.mpr (.inr ⟨rfl, unnamed⟩))
        omega

theorem normalizes_verbatim
    (unmatched : ∀ h ∈ documentHandles handles, h.rank (yamlTagCanonicalize tag) = 0) :
    Normalizes tag handles ↔ (∀ h ∈ handles, h.tagPrefix ≠ []) ∧
      0 < (verbatimTag (yamlTagCanonicalize tag)).length ∧
      (verbatimTag (yamlTagCanonicalize tag)).length ≤ intMax := by
  have unlisted : ∀ h ∈ handles, h.rank (yamlTagCanonicalize tag) = 0 := by
    intro h mem
    exact unmatched h (mem_documentHandles.mpr (.inl mem))
  constructor
  · intro norm
    exact ⟨norm.nonempty unmatched, norm.printable _ (.verbatim unmatched)⟩
  · rintro ⟨nonempty, fits⟩
    constructor
    · intro h best
      exact absurd best (no_best unlisted)
    · intro _
      exact nonempty
    · intro text chosen
      cases chosen with
      | listed best => exact absurd best (no_best unlisted)
      | standard _ unnamed core =>
        have zero := unmatched _ (mem_documentHandles.mpr (.inr ⟨rfl, unnamed⟩))
        have positive := standard_rank core
        omega
      | verbatim _ => exact fits

/-- Where a listed handle is used, being right is being cut at its own prefix;
`rivals` only have to be outranked. -/
theorem denotes_listed {rivals : List TagHandle} {s : TagScan}
    (eq : tagScan (yamlTagCanonicalize tag) handles = s)
    (best : FirstBest (TagHandle.rank (yamlTagCanonicalize tag)) handles h)
    (handle : s.handle = some h) (last : ∀ g ∈ handles.getLast?, s.prefixLen = g.tagPrefix.length) :
    Denotes rivals tag handles ↔ Normalizes tag handles ∧
      ∀ g ∈ rivals, g.Matches (yamlTagCanonicalize tag) →
        g.tagPrefix.length ≤ h.tagPrefix.length := by
  have matched := (rank_pos.mp best.ranked).1
  have mem : h ∈ documentHandles handles := mem_documentHandles.mpr (.inl best.mem)
  rw [normalizes_listed best last, ← cut_eq_iff matched]
  simp only [Denotes, chosenHandle, yamlTagNormalize, eq, handle, mem, matched, true_and]
  exact and_comm

theorem denotes_standard {rivals : List TagHandle} {s : TagScan}
    (eq : tagScan (yamlTagCanonicalize tag) handles = s)
    (unlisted : ∀ h ∈ handles, h.rank (yamlTagCanonicalize tag) = 0)
    (unnamed : ∀ h ∈ handles, h.handle ≠ yamlDefaultTagHandle)
    (core : asdfDefaultTagHandle.Matches (yamlTagCanonicalize tag))
    (handle : s.handle = some asdfDefaultTagHandle)
    (cut : s.prefixLen = asdfDefaultTagHandle.tagPrefix.length)
    (sub : ∀ g ∈ rivals, g ∈ documentHandles handles) :
    Denotes rivals tag handles ↔ Normalizes tag handles := by
  have mem : asdfDefaultTagHandle ∈ documentHandles handles :=
    mem_documentHandles.mpr (.inr ⟨rfl, unnamed⟩)
  have longest : ∀ g ∈ rivals, g.Matches (yamlTagCanonicalize tag) →
      g.tagPrefix.length ≤ asdfDefaultTagHandle.tagPrefix.length := by
    intro g hg matched
    rcases mem_documentHandles.mp (sub g hg) with listed | ⟨rfl, -⟩
    · have zero := unlisted g listed
      rw [rank_of_matches matched] at zero
      omega
    · exact Nat.le_refl _
  have exact := cut_eq_iff (n := s.prefixLen) core
  simp only [cut, true_and] at exact
  rw [normalizes_standard unlisted unnamed core, ← exact]
  simp only [Denotes, chosenHandle, yamlTagNormalize, eq, handle, cut, mem, core, true_and]
  exact and_iff_right longest

theorem denotes_verbatim {rivals : List TagHandle} {s : TagScan}
    (eq : tagScan (yamlTagCanonicalize tag) handles = s)
    (unmatched : ∀ h ∈ documentHandles handles, h.rank (yamlTagCanonicalize tag) = 0)
    (handle : s.handle = none) : Denotes rivals tag handles ↔ Normalizes tag handles := by
  rw [normalizes_verbatim unmatched, ← verbatim_eq_iff]
  simp only [Denotes, chosenHandle, yamlTagNormalize, eq, handle]
  apply and_congr_left'
  rw [not_matches_iff unmatched]
  constructor
  · intro nonempty h mem
    exact nonempty h (mem_documentHandles.mpr (.inl mem))
  · intro nonempty h mem
    rcases mem_documentHandles.mp mem with listed | ⟨rfl, -⟩
    · exact nonempty h listed
    · decide

theorem prefersStandard_of_unlisted
    (unlisted : ∀ h ∈ handles, h.rank (yamlTagCanonicalize tag) = 0) :
    PrefersStandard tag handles := by
  intro h best
  exact absurd best (no_best unlisted)

end Exact

/-- When the result denotes the tag, for every list of handles: with the longest
prefix among the listed handles, and with the longest prefix among all handles
of the document. -/
theorem tag_normalize_denotes (tag : Bytes) (handles : List TagHandle) :
    (Denotes handles tag handles ↔ Normalizes tag handles) ∧
      (Denotes (documentHandles handles) tag handles ↔
        Normalizes tag handles ∧ PrefersStandard tag handles) := by
  have sub : ∀ g ∈ handles, g ∈ documentHandles handles := by
    intro g mem
    exact mem_documentHandles.mpr (.inl mem)
  rcases chosen (yamlTagCanonicalize tag) handles with
    ⟨h, best, handle, last⟩ | ⟨unlisted, unnamed, core, handle, cut⟩ | ⟨unmatched, handle⟩
  · have outranked : ∀ g ∈ handles, g.Matches (yamlTagCanonicalize tag) →
        g.tagPrefix.length ≤ h.tagPrefix.length := by
      intro g mem matched
      have le := best.le mem
      rw [rank_of_matches matched, rank_of_matches (rank_pos.mp best.ranked).1] at le
      exact le
    constructor
    · rw [denotes_listed rfl best handle last]
      exact and_iff_left outranked
    · rw [denotes_listed rfl best handle last]
      apply and_congr_right'
      constructor
      · intro longest h' best' unnamed core
        rw [best'.unique best]
        exact longest _ (mem_documentHandles.mpr (.inr ⟨rfl, unnamed⟩)) core
      · intro prefers g mem matched
        rcases mem_documentHandles.mp mem with listed | ⟨rfl, unnamed⟩
        · exact outranked g listed matched
        · exact prefers h best unnamed matched
  · constructor
    · exact denotes_standard rfl unlisted unnamed core handle cut sub
    · rw [denotes_standard rfl unlisted unnamed core handle cut fun _ mem => mem]
      exact (and_iff_left (prefersStandard_of_unlisted unlisted)).symm
  · constructor
    · exact denotes_verbatim rfl unmatched handle
    · rw [denotes_verbatim rfl unmatched handle]
      apply (and_iff_left _).symm
      apply prefersStandard_of_unlisted
      intro h mem
      exact unmatched h (sub h mem)

/-- `tag:stsci.edu:asdf/x` -/
def exampleTag : Bytes := standardTagPrefix ++ [120]

/-- `{"!", "tag:stsci.edu:asdf/"}`, then `{"!e!", "tag:e"}`. -/
def exampleHandles : List TagHandle := [asdfDefaultTagHandle, ⟨[33, 101, 33], [116, 97, 103, 58, 101]⟩]

/-- The second handle does not match, but the text is cut after the length of
its prefix: `!tsci.edu:asdf/x`. -/
theorem cut_at_last_handle :
    yamlTagNormalize exampleTag exampleHandles = .ret (some ([33] ++ exampleTag.drop 5)) ∧
      ¬ Denotes exampleHandles exampleTag exampleHandles ∧
      ¬ Denotes (documentHandles exampleHandles) exampleTag exampleHandles := by
  have text : yamlTagNormalize exampleTag exampleHandles = .ret (some ([33] ++ exampleTag.drop 5)) := by
    decide
  have wrong : ∀ rivals, ¬ Denotes rivals exampleTag exampleHandles := by
    intro rivals
    have used : chosenHandle exampleTag exampleHandles = some asdfDefaultTagHandle := by decide
    unfold Denotes
    rw [used, text]
    rintro ⟨-, -, -, eq⟩
    revert eq
    decide
  exact ⟨text, wrong _, wrong _⟩

/-! ## The cache of a file -/

/-- The `tag_map` of a file whose emitter has these handles. -/
structure TagMap (handles : List TagHandle) where
  entries : List (Bytes × Bytes)
  normalized : ∀ e ∈ entries, yamlTagNormalize e.1 handles = .ret (some e.2)

variable {handles : List TagHandle}

def TagMap.empty (handles : List TagHandle) : TagMap handles := ⟨[], by simp⟩

/-- `asdf_str_map_emplace`. -/
def TagMap.emplace (tagMap : TagMap handles) (tag text : Bytes)
    (ok : yamlTagNormalize tag handles = .ret (some text)) : TagMap handles :=
  ⟨(tag, text) :: tagMap.entries, by
    intro e mem
    rcases List.mem_cons.mp mem with rfl | mem
    · exact ok
    · exact tagMap.normalized e mem⟩

/-- `asdf_file_tag_normalize`. -/
def fileTagNormalize (tagMap : TagMap handles) (tag : Bytes) :
    Run (TagMap handles × Option Bytes) :=
  match tagMap.entries.lookup tag with
  | some text => .ret (tagMap, some text)
  | none =>
    match normal : yamlTagNormalize tag handles with
    | .ret (some text) => .ret (tagMap.emplace tag text normal, some text)
    | .ret none => .ret (tagMap, none)
    | .fault e => .fault e
    | .timeout => .timeout

/-- Asking the file is asking afresh, whatever has been asked before. -/
theorem fileTagNormalize_eq (tagMap : TagMap handles) (tag : Bytes) :
    (fileTagNormalize tagMap tag >>= fun r => .ret r.2) = yamlTagNormalize tag handles := by
  unfold fileTagNormalize
  cases cached : tagMap.entries.lookup tag with
  | some text =>
    obtain ⟨before, after, eq, -⟩ := List.lookup_eq_some_iff.mp cached
    have normal := tagMap.normalized (tag, text) (by simp [eq])
    simp [normal]
  | none =>
    simp only
    split <;> simp [*]

end LibAsdf
