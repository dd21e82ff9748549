import LibAsdf.Parser.BlockSafety
import LibAsdf.Parser.BlockVectors
import Mathlib.Data.Prod.Lex

/-!
# The parser comes to an end

Every call of `asdf_parser_parse` returns, and finitely many of them reach the
end of the file or an error, unless one of the scanning loops rejects its first
match, which it looks at again, for ever; or a turn faults.

* `Proceeds`: no first match is rejected, and nothing is read past its memory;
* `parserStep_descends`: one turn goes down in a lexicographic measure;
* `parserStep_proceeds`: it does so without a fault;
* `parser_halts`: all calls come to an end.
-/

namespace LibAsdf

open StreamOps ParserStream StreamMeasure LawfulStream

variable {σ φ : Type} {p q : Parser σ φ}

/-! ## The measure -/

/-- How far a state is from the last one. -/
def ParserState.rank : ParserState → Nat
  | .asdfVersion => 9
  | .standardVersion => 8
  | .comment => 7
  | .blockIndex => 6
  | .treeOrBlock => 5
  | .tree => 4
  | .yaml => 3
  | .padding => 2
  | .block => 1
  | .end | .error | .initial => 0

/-- The blocks that the index may still name. -/
def BlockTable.pending (b : BlockTable) : Nat :=
  if b.hasIndex then
    (b.index.items.drop b.found).countP (0 ≤ ·) + (b.count - b.found)
  else 0

variable (rank : φ → Nat)

/-- What goes down, besides the bytes left, while the state stays. -/
def Parser.pending (p : Parser σ φ) : Nat :=
  match p.state with
  | .yaml => if p.tree.done then 0 else 1 + p.yamlParser.elim 0 rank
  | .block => p.block.pending
  | _ => 0

def Parser.measure [StreamMeasure σ] (p : Parser σ φ) : Nat ×ₗ Nat ×ₗ Nat :=
  toLex (p.state.rank, toLex (p.pending rank, left p.stream))

/-- The parser is nearer to its end. -/
def Lower [StreamMeasure σ] (q p : Parser σ φ) : Prop := q.measure rank < p.measure rank

variable {rank}

section Measure

variable [StreamMeasure σ]

theorem lower_of_rank (new : ParserState) {old : ParserState} (after : q.state = new) (before : p.state = old)
    (h : new.rank < old.rank) : Lower rank q p :=
  Prod.Lex.toLex_lt_toLex.mpr (.inl (by rwa [after, before]))

theorem lower_of_pending (state : q.state = p.state) (h : q.pending rank < p.pending rank) :
    Lower rank q p :=
  Prod.Lex.toLex_lt_toLex.mpr (.inr ⟨congrArg ParserState.rank state,
    Prod.Lex.toLex_lt_toLex.mpr (.inl h)⟩)

theorem lower_of_left (state : q.state = p.state) (le : q.pending rank ≤ p.pending rank)
    (h : left q.stream < left p.stream) : Lower rank q p := by
  rcases Nat.lt_or_eq_of_le le with less | same
  · exact lower_of_pending state less
  · exact Prod.Lex.toLex_lt_toLex.mpr (.inr ⟨congrArg ParserState.rank state,
      Prod.Lex.toLex_lt_toLex.mpr (.inr ⟨same, h⟩)⟩)

variable (rank) in
theorem lower_wf : WellFounded (Lower (σ := σ) rank) := InvImage.wf _ wellFounded_lt

end Measure

/-! ## Entries of the block index -/

theorem countP_grownIndex_le (policy : VecPolicy) (b : BlockTable) (i : Nat) :
    ((b.grownIndex policy).items.drop i).countP (0 ≤ ·) ≤ (b.index.items.drop i).countP (0 ≤ ·) := by
  unfold BlockTable.grownIndex
  dsimp only
  split
  · rw [Vec.resize, List.drop_append, List.countP_append, List.drop_replicate]
    have padding : ∀ n, (List.replicate n (-1 : Int64)).countP (0 ≤ ·) = 0 := fun n => by
      rw [List.countP_replicate, if_neg (by decide)]
    rw [padding, Nat.add_zero, List.drop_take]
    exact (List.take_sublist _ _).countP_le
  · exact Nat.le_refl _

/-- Counting a block leaves no more entries than follow its own. -/
theorem pending_counted {policy : VecPolicy} (b₀ : BlockTable) {b b' : BlockTable}
    (counted : b.Counted policy b') (hasIndex : b.hasIndex = b₀.hasIndex)
    (found : b.found = b₀.found) (items : b.index.items = b₀.index.items ∨
      b.index.items = b₀.index.items.set b₀.found (-1)) :
    b'.pending ≤
      if b₀.hasIndex then (b₀.index.items.drop (b₀.found + 1)).countP (0 ≤ ·) else 0 := by
  rw [BlockTable.pending, counted.hasIndex, hasIndex]
  split
  · have here : ∀ l : List Int64, ∀ a, (l.set b₀.found a).drop (b₀.found + 1) =
        l.drop (b₀.found + 1) := fun l a => List.drop_set_of_lt (Nat.lt_succ_self _)
    have grown : b'.index.items.drop b'.found =
        (b.grownIndex policy).items.drop (b₀.found + 1) := by
      rcases counted.items with eq | ⟨offset, eq⟩
      · rw [eq, counted.found, found]
      · rw [eq, counted.found, found, here]
    have marked : b.index.items.drop (b₀.found + 1) = b₀.index.items.drop (b₀.found + 1) := by
      rcases items with eq | eq
      · rw [eq]
      · rw [eq, here]
    rw [grown, counted.count, counted.found, Nat.sub_self, Nat.add_zero, ← marked]
    exact countP_grownIndex_le policy b _
  · exact Nat.le_refl _

theorem pending_next_le (b : BlockTable) :
    (if b.hasIndex then (b.index.items.drop (b.found + 1)).countP (0 ≤ ·) else 0) ≤ b.pending := by
  rw [BlockTable.pending]
  split
  · rw [← List.drop_drop]
    exact Nat.le_add_right_of_le (List.drop_sublist _ _).countP_le
  · exact Nat.le_refl _

/-- An entry that the index has for the next block is used up. -/
theorem pending_next_lt {b : BlockTable} (h : ¬ b.Sequential) :
    (if b.hasIndex then (b.index.items.drop (b.found + 1)).countP (0 ≤ ·) else 0) < b.pending := by
  obtain ⟨looks, entry⟩ : b.LooksUp ∧ ¬ (b.count ≤ b.found ∧
      ∀ offset, b.index.items[b.found]? = some offset → offset < 0) := by
    simpa only [BlockTable.Sequential, Classical.not_imp] using h
  have inside : b.found < b.index.items.length := looks.2
  rw [BlockTable.pending, if_pos looks.1, if_pos looks.1, List.drop_eq_getElem_cons inside,
    List.countP_cons]
  by_cases counted : b.count ≤ b.found
  · have start : 0 ≤ b.index.items[b.found] := by
      rw [← Int64.not_lt]
      intro before
      refine entry ⟨counted, fun offset eq => ?_⟩
      rw [List.getElem?_eq_getElem inside] at eq
      exact Option.some.inj eq ▸ before
    rw [if_pos (decide_eq_true start)]
    omega
  · omega

/-! ## What a turn needs -/

/-- No scanning loop rejects its first match, nothing is read past its memory or past a
vector; and where a block is found by reading on, the stream's position is an `off_t`. -/
structure Proceeds [ParserStream σ] [BoundedStream σ] (env : Env φ) (p : Parser σ φ) : Prop where
  accepts : AcceptsFirst env p
  reads : ReadsInside p
  fits : BlocksFit env p
  told : p.state = .block → p.block.Sequential → ∀ info q,
    parseBlockInfo env p = .ret (some info, q) → q.isSeekable → 0 ≤ tell q.stream

/-! ## Fuel -/

section Fuel

open Outcome

variable [ParserStream σ]

theorem parseComment_stable (p : Parser σ φ) : Stable fun fuel => parseComment fuel p :=
  .loop _ p

theorem parseTreeOrBlock_stable (p : Parser σ φ) : Stable fun fuel => parseTreeOrBlock fuel p := by
  refine .bind (.const _) fun r => .ite (.const _) ?_
  exact .bind (.const _) fun _ => .ite (.const _) <| .bind (.const _) fun _ =>
    .ite (.const _) (.loop _ _)

theorem parseTreeFast_stable (p : Parser σ φ) : Stable fun fuel => parseTreeFast fuel p :=
  .bind (.loop _ p) fun _ => .const _

theorem skipTree_stable (p : Parser σ φ) : Stable fun fuel => skipTree fuel p :=
  .ite (.bind (parseTreeFast_stable _) fun _ => .const _) (.const _)

theorem parseTree_stable (env : Env φ) (p : Parser σ φ) : Stable fun fuel => parseTree env fuel p :=
  .bind (skipTree_stable p) fun _ => .const _

theorem parseFindBlockIndex_stable (env : Env φ) (p : Parser σ φ) (fileSize : Int) :
    Stable fun fuel => parseFindBlockIndex env fuel p fileSize := by
  refine .ite (.const _) (.ite (.const _) (.bind (.const _) fun r => ?_))
  exact .ite (.const _) (.loop _ _)

theorem parseBlockIndex_stable (env : Env φ) (p : Parser σ φ) :
    Stable fun fuel => parseBlockIndex env fuel p := by
  refine .ite (.const _) (.bind (.const _) fun r => .ite (.const _) ?_)
  refine .bind ?_ fun _ => .const _
  exact .bind (parseFindBlockIndex_stable env _ _) fun _ => .const _

theorem parserStep_stable (env : Env φ) (p : Parser σ φ) :
    Stable fun fuel => parserStep env fuel p := by
  unfold parserStep
  cases p.state with
  | comment => exact .bind (parseComment_stable p) fun _ => .const _
  | treeOrBlock => exact .bind (parseTreeOrBlock_stable p) fun _ => .const _
  | tree => exact .bind (parseTree_stable env p) fun _ => .const _
  | blockIndex => exact .bind (parseBlockIndex_stable env p) fun _ => .const _
  | initial => exact .const _
  | asdfVersion => exact .const _
  | standardVersion => exact .const _
  | yaml => exact .const _
  | block => exact .const _
  | padding => exact .const _
  | «end» => exact .const _
  | error => exact .const _

end Fuel

/-! ## One turn -/

section Turn

variable [ParserStream σ] [LawfulStream σ] {env : Env φ} {fuel : Nat}

/-- libfyaml comes to the end of the stream: its events go down in some rank. -/
def FyEnds (fy : Fyaml φ) (rank : φ → Nat) : Prop :=
  ∀ y pos, (fy.parse y pos).event = none ∨ (fy.parse y pos).event = some .streamEnd ∨
    rank (fy.parse y pos).parser < rank y

/-- A parser that goes on. -/
abbrev Running (p : Parser σ φ) : Prop := Speaking (fun _ => True) p

variable (rank) in
/-- What a turn leaves: a closed parser, or one that is nearer to its end. -/
abbrev Descends (p : Parser σ φ) : Parser σ φ ⊕ (Option Event × Parser σ φ) → Prop :=
  Outcome.Descends Closed Running (Lower rank) p

theorem descends_of_handler {T : Prop} {F : Fault → Prop} {Q : ParseResult × Parser σ φ → Prop}
    {x : Run (ParseResult × Parser σ φ)} (hx : Outcome.wp F T Q x)
    (go : ∀ res q, Q (res, q) → res ≠ .error → Running q ∧ Lower rank q p) :
    Outcome.wp (fun _ => True) T (Descends rank p) (x >>= afterHandler) := by
  refine Outcome.wp_seq (Outcome.wp_imp hx (fun _ _ => trivial) id) fun r hr => ?_
  obtain ⟨res, q⟩ := r
  cases res with
  | error => exact .inl (.inl rfl)
  | «continue» => exact go _ q hr nofun
  | event e => exact .inr (go _ q hr nofun)

theorem parseAsdfVersion_descends (h : Running p) (state : p.state = .asdfVersion) :
    Outcome.wp (fun _ => True) False (Descends rank p) (parseAsdfVersion p >>= afterHandler) := by
  refine descends_of_handler (parseAsdfVersion_spec h.good) fun res q hq other => ?_
  obtain ⟨s, onward, eq | ⟨version, eq⟩⟩ := hq
  · cases eq
    exact absurd rfl other
  · cases eq
    exact ⟨h.goes onward.toKeeps ⟨nofun, nofun, nofun⟩ rfl rfl,
      lower_of_rank .standardVersion rfl state (by decide)⟩

theorem parseStandardVersion_descends (h : Running p) (state : p.state = .standardVersion) :
    Outcome.wp (fun _ => True) False (Descends rank p)
      (parseStandardVersion p >>= afterHandler) := by
  refine descends_of_handler (parseStandardVersion_spec h.good) fun res q hq other => ?_
  obtain ⟨s, onward, eq | ⟨version, eq⟩⟩ := hq
  · cases eq
    exact absurd rfl other
  · cases eq
    exact ⟨h.goes onward.toKeeps ⟨nofun, nofun, nofun⟩ rfl rfl,
      lower_of_rank .comment rfl state (by decide)⟩

theorem parseComment_descends (h : Running p) (state : p.state = .comment) :
    Outcome.wp (fun _ => True) (fuel ≤ left p.stream) (Descends rank p)
      (parseComment fuel p >>= afterHandler) := by
  refine descends_of_handler (parseComment_spec h.good fuel) fun res q hq other => ?_
  obtain ⟨s, onward, eq | ⟨text, eq, less⟩ | eq⟩ := hq
  · cases eq
    exact absurd rfl other
  · cases eq
    have here : p.state ≠ .initial ∧ p.state ≠ .error ∧ p.state ≠ .yaml := by
      rw [state]
      decide
    refine ⟨h.goes onward.toKeeps here rfl rfl, lower_of_left rfl (Nat.le_of_eq ?_) less⟩
    simp only [Parser.pending, state]
  · cases eq
    exact ⟨h.goes onward.toKeeps ⟨nofun, nofun, nofun⟩ rfl rfl,
      lower_of_rank .blockIndex rfl state (by decide)⟩

theorem parseBlockIndex_descends (h : Running p) (state : p.state = .blockIndex) :
    Outcome.wp (fun _ => True) (fuel = 0 ∨ IndexRejects env p) (Descends rank p)
      (parseBlockIndex env fuel p >>= afterHandler) := by
  refine descends_of_handler (parseBlockIndex_spec h.good env fuel) fun res q hq other => ?_
  obtain ⟨eq, -⟩ | ⟨s, b, keeps, read, seekable, eq | eq⟩ := hq
  · cases eq
    exact ⟨h.goes (.refl h.good) ⟨nofun, nofun, nofun⟩ rfl rfl,
      lower_of_rank .treeOrBlock rfl state (by decide)⟩
  · cases eq
    exact absurd rfl other
  · cases eq
    exact ⟨⟨keeps.good, ⟨nofun, nofun⟩, h.done, nofun, fun _ => keeps.seekable.trans seekable⟩,
      lower_of_rank .treeOrBlock rfl state (by decide)⟩

theorem parseTreeOrBlock_descends (h : Running p) (state : p.state = .treeOrBlock) :
    Outcome.wp (fun _ => True) (fuel = 0 ∨ TreeOrBlockRejects p) (Descends rank p)
      (parseTreeOrBlock fuel p >>= afterHandler) := by
  refine descends_of_handler (parseTreeOrBlock_spec h.good fuel) fun res q hq _ => ?_
  obtain ⟨s, onward, eq | ⟨info, tree, eq⟩ | ⟨tree, eq⟩⟩ := hq
  · cases eq
    exact ⟨h.goes onward.toKeeps ⟨nofun, nofun, nofun⟩ rfl rfl,
      lower_of_rank .end rfl state (by decide)⟩
  · cases eq
    exact ⟨h.goes onward.toKeeps ⟨nofun, nofun, nofun⟩ rfl rfl,
      lower_of_rank .tree rfl state (by decide)⟩
  · cases eq
    exact ⟨h.goes onward.toKeeps ⟨nofun, nofun, nofun⟩ rfl rfl,
      lower_of_rank .block rfl state (by decide)⟩

theorem parseTree_descends (h : Running p) (state : p.state = .tree) :
    Outcome.wp (fun _ => True) (fuel = 0 ∨ TreeRejects p) (Descends rank p)
      (parseTree env fuel p >>= afterHandler) := by
  refine descends_of_handler (parseTree_spec h.good env fuel) fun res q hq other => ?_
  obtain ⟨s, tree, keeps, eq | ⟨input, y, set, eq⟩ | ⟨info, eq⟩⟩ := hq
  · cases eq
    exact absurd rfl other
  · cases eq
    exact ⟨⟨keeps.good, ⟨nofun, nofun⟩, h.done, fun _ _ _ _ => trivial,
      fun adopted => keeps.seekable.trans (h.seekable adopted)⟩,
      lower_of_rank .yaml rfl state (by decide)⟩
  · cases eq
    exact ⟨h.goes keeps ⟨nofun, nofun, nofun⟩ rfl rfl, lower_of_rank .padding rfl state (by decide)⟩

theorem parseYaml_descends (h : Running p) (law : FyEnds env.fy rank) (state : p.state = .yaml) :
    Outcome.wp (fun _ => True) False (Descends rank p) (parseYaml env p >>= afterHandler) := by
  refine descends_of_handler (parseYaml_spec h.good env) fun res q hq other => ?_
  obtain ⟨done, info, eq⟩ | ⟨notDone, y, started, next⟩ := hq
  · cases eq
    exact ⟨h.goes (.refl h.good) ⟨nofun, nofun, nofun⟩ rfl rfl,
      lower_of_rank .padding rfl state (by decide)⟩
  · have running : ∀ {s : σ} {tree : ParserTree} {y' : φ}, Keeps p.stream s →
        Running { p with stream := s, tree := tree, yamlParser := some y' } := fun keeps =>
      ⟨keeps.good, h.state, h.done, fun _ _ _ _ => trivial,
        fun adopted => keeps.seekable.trans (h.seekable adopted)⟩
    cases next with
    | failed s tree keeps => exact absurd rfl other
    | ended s tree keeps yaml done null =>
      refine ⟨running keeps, lower_of_pending rfl ?_⟩
      simp only [Parser.pending, state, done, notDone, started, if_true, Option.elim_some,
        Bool.false_eq_true, if_false]
      omega
    | event s tree keeps yaml more read last =>
      refine ⟨running keeps, lower_of_pending rfl ?_⟩
      have down : rank (env.fy.parse y (fyFilePos p.stream)).parser < rank y := by
        rcases law y (fyFilePos p.stream) with none | last' | down
        · cases none.symm.trans read
        · exact absurd (Option.some.inj (read.symm.trans last')) last
        · exact down
      simp only [Parser.pending, state, more, notDone, started, Option.elim_some,
        Bool.false_eq_true, if_false]
      omega

theorem parseBlock_descends (h : Running p) (state : p.state = .block)
    (told : p.block.Sequential → ∀ info q, parseBlockInfo env p = .ret (some info, q) →
      q.isSeekable → 0 ≤ tell q.stream) :
    Outcome.wp (fun _ => True) False (Descends rank p) (parseBlock env p >>= afterHandler) := by
  refine descends_of_handler (parseBlock_spec h.good h.seekable env) fun res q hq other => ?_
  cases hq with
  | full => exact absurd rfl other
  | ended q next index =>
    have frame := next.frame
    exact ⟨h.goes frame.keeps ⟨nofun, nofun, nofun⟩ frame.done frame.hasIndex,
      lower_of_rank .end rfl state (by decide)⟩
  | block q info found next s b counted keeps less =>
    have frame := next.frame
    have here : q.state ≠ .initial ∧ q.state ≠ .error ∧ q.state ≠ .yaml := by
      rw [frame.state, state]
      decide
    refine ⟨h.goes (frame.keeps.trans keeps) here frame.done
      (counted.hasIndex.trans frame.hasIndex), ?_⟩
    have before : p.pending rank = p.block.pending := by simp only [Parser.pending, state]
    have after : Parser.pending rank { q with stream := s, block := b } = b.pending := by
      simp only [Parser.pending, frame.state, state]
    cases next with
    | indexed t infos info keeps looks size hit =>
      refine lower_of_pending rfl (before ▸ after.trans_lt ?_)
      exact Nat.lt_of_le_of_lt (pending_counted p.block counted rfl rfl (.inl rfl))
        (pending_next_lt hit)
    | read t infos index info keeps size same fewer dataPos =>
      have le := pending_counted p.block counted rfl rfl same.2
      by_cases sequential : p.block.Sequential
      · refine lower_of_left rfl (before ▸ after.trans_le ?_) ?_
        · exact Nat.le_trans le (pending_next_le _)
        · exact Nat.lt_of_le_of_lt (less (told sequential info _ found)) (fewer sequential)
      · refine lower_of_pending rfl (before ▸ after.trans_lt ?_)
        exact Nat.lt_of_le_of_lt le (pending_next_lt sequential)

end Turn

section Proceeding

variable [ParserStream σ] [BoundedStream σ] {env : Env φ}

/-- A turn with fuel for the bytes left goes down. -/
theorem parserStep_descends {p : Parser σ φ} (h : Running p) (law : FyEnds env.fy rank)
    (proceeds : Proceeds env p) : Outcome.wp (fun _ => True) False (Descends rank p)
      (parserStep env (left p.stream + 1) p) := by
  have fueled : ¬ left p.stream + 1 = 0 := Nat.succ_ne_zero _
  rw [parserStep]
  split
  · exact parseAsdfVersion_descends h ‹_›
  · exact parseStandardVersion_descends h ‹_›
  · exact Outcome.wp_imp (parseComment_descends h ‹_›) (fun _ => id) (Nat.not_succ_le_self _)
  · rename_i state
    exact Outcome.wp_imp (parseTreeOrBlock_descends h state) (fun _ => id)
      (Or.elim · fueled (proceeds.accepts.treeOrBlock state))
  · rename_i state
    exact Outcome.wp_imp (parseTree_descends h state) (fun _ => id)
      (Or.elim · fueled (proceeds.accepts.tree state))
  · exact parseYaml_descends h law ‹_›
  · exact parseBlock_descends h ‹_› (proceeds.told ‹_›)
  · rename_i state
    refine ⟨h.goes (.refl h.good) ⟨?_, ?_, ?_⟩ rfl rfl, lower_of_rank .block rfl state (by decide)⟩
    · rintro ⟨⟩
    · rintro ⟨⟩
    · rintro ⟨⟩
  · rename_i state
    exact Outcome.wp_imp (parseBlockIndex_descends h state) (fun _ => id)
      (Or.elim · fueled (proceeds.accepts.blockIndex state))
  · rename_i state
    rw [h.done]
    exact .inl (.inr ⟨state, rfl⟩)
  · exact absurd ‹_› h.state.2
  · exact absurd ‹_› h.state.1

/-- A parser that goes on, and reads and writes where it may. -/
structure Sane (p : Parser σ φ) : Prop where
  running : Running p
  vectors : VectorsFit p
  safe : SafeParser p

/-- A turn that goes down does so without a fault. -/
theorem parserStep_proceeds {p : Parser σ φ} (h : Sane p) (law : FyEnds env.fy rank)
    (exact : env.vec.Exact) (proceeds : Proceeds env p) :
    Outcome.wp (fun _ => False) False (Outcome.Descends Closed Sane (Lower rank) p)
      (parserStep env (left p.stream + 1) p) := by
  have descends := parserStep_descends h.running law proceeds
  have safe := parserStep_safe h.safe h.running.seekable proceeds.accepts proceeds.reads
    (left p.stream + 1)
  have keeps := parserStep_keeps exact h.vectors proceeds.fits (left p.stream + 1)
  refine Outcome.wp_mono (Outcome.wp_imp (Outcome.wp_both descends (Outcome.wp_both safe keeps))
    (fun e faults => faults.2.2 faults.2.1) And.left) fun r hr => ?_
  obtain ⟨lower, safe, vectors⟩ := hr
  cases r with
  | inl q => exact ⟨⟨lower.1, vectors, safe⟩, lower.2⟩
  | inr r =>
    obtain ⟨e, q⟩ := r
    rcases lower with closed | ⟨running, lower⟩
    · exact .inl closed
    rcases safe with closed | safe
    · exact .inl closed
    · exact .inr ⟨⟨running, vectors, safe⟩, lower⟩

end Proceeding

/-! ## All calls -/

section Deciding

variable [ParserStream σ]

instance (p : Parser σ φ) : Decidable (TreeRejects p) := inferInstanceAs (Decidable (_ ∧ ∃ _, _))

instance (p : Parser σ φ) : Decidable (TreeOrBlockRejects p) :=
  decidable_of_iff (∃ r, streamPeek p.stream 0 = .ret r ∧
      ∃ q, parseTreeOrBlockRound { p with stream := r.2 } = .ret (.inl q))
    ⟨fun ⟨r, peeked, q, goes⟩ => ⟨r.1, r.2, q, peeked, goes⟩,
      fun ⟨buf, s, q, peeked, goes⟩ => ⟨(buf, s), peeked, q, goes⟩⟩

instance (env : Env φ) (p : Parser σ φ) (fileSize : Int) : Decidable (FindRejects env p fileSize) :=
  decidable_of_iff (∃ r, p.trySeek (alignedOffset env fileSize) .set = .ret r ∧ r.1 = true ∧
      ∃ q, parseFindBlockIndexRound (false, r.2) = .ret (.inl q))
    ⟨fun ⟨⟨_, q⟩, sought, ok, q', goes⟩ => ⟨q, q', ok ▸ sought, goes⟩,
      fun ⟨q, q', sought, goes⟩ => ⟨(true, q), sought, rfl, q', goes⟩⟩

instance (env : Env φ) (p : Parser σ φ) : Decidable (IndexRejects env p) :=
  decidable_of_iff (∃ r, p.trySeek 0 .end = .ret r ∧ r.1 = true ∧
      FindRejects env r.2 (tell r.2.stream))
    ⟨fun ⟨⟨_, q⟩, sought, ok, rejects⟩ => ⟨q, ok ▸ sought, rejects⟩,
      fun ⟨q, sought, rejects⟩ => ⟨(true, q), sought, rfl, rejects⟩⟩

instance (b : BlockTable) : Decidable b.LooksUp := inferInstanceAs (Decidable (_ ∧ _))

instance (b : BlockTable) : Decidable b.Sequential :=
  inferInstanceAs (Decidable (_ → _ ∧ ∀ offset ∈ b.index.items[b.found]?, _))

instance (expected : Bytes) (p : Parser σ φ) : Decidable (VersionCut expected p) :=
  decidable_of_iff (∃ r, readline p.stream = .ret r ∧ ∃ v ∈ r.1, v.len = expected.length ∧
      v.mem.take v.len <+: expected ∧ 0 ∉ v.mem.drop v.len)
    ⟨fun ⟨⟨_, s⟩, read, v, eq, cut⟩ => ⟨v, s, eq ▸ read, cut⟩,
      fun ⟨v, s, read, cut⟩ => ⟨(some v, s), read, v, rfl, cut⟩⟩

instance (p : Parser σ φ) : Decidable (CommentOpen p) :=
  decidable_of_iff (∃ r, streamPeek p.stream 1 = .ret r ∧
      (∃ v ∈ r.1, v.mem.head? = some commentChar) ∧ ∃ r', readline r.2 = .ret r' ∧
        ∃ w ∈ r'.1, w.mem.length < w.len ∧ 0 ∉ w.mem.drop 1)
    ⟨fun ⟨⟨_, s⟩, peeked, ⟨v, eq, hash⟩, ⟨_, t⟩, read, w, eq', cut⟩ =>
        ⟨v, s, w, t, eq ▸ peeked, hash, eq' ▸ read, cut⟩,
      fun ⟨v, s, w, t, peeked, hash, read, cut⟩ =>
        ⟨(some v, s), peeked, ⟨v, rfl, hash⟩, (some w, t), read, w, rfl, cut⟩⟩

instance (v : View) : Decidable v.CutDirective := inferInstanceAs (Decidable (_ ∧ _))

instance (p : Parser σ φ) : Decidable (TreeStartCut p) :=
  decidable_of_iff (∃ r, streamPeek p.stream 0 = .ret r ∧ ∃ v ∈ r.1, v.CutDirective ∨
      isYamlDirective (some v) = .ret false ∧ isBlockMagic (some v) = .ret false ∧
        ∃ r', Parser.scanTokens { p with stream := r.2 } [.yamlDirective, .blockMagic] = .ret r' ∧
          r'.1 = some .yamlDirective ∧ ∃ r'', next r'.2.stream 0 = .ret r'' ∧
            ∃ w ∈ r''.1, w.CutDirective)
    ⟨fun ⟨⟨_, s⟩, peeked, v, eq, cut⟩ => ⟨v, s, eq ▸ peeked, cut.imp_right
        fun ⟨directive, magic, ⟨_, q⟩, scanned, found, ⟨_, t⟩, read, w, eq', cut⟩ =>
          ⟨directive, magic, q, w, t, found ▸ scanned, eq' ▸ read, cut⟩⟩,
      fun ⟨v, s, peeked, cut⟩ => ⟨(some v, s), peeked, v, rfl, cut.imp_right
        fun ⟨directive, magic, q, w, t, scanned, read, cut⟩ =>
          ⟨directive, magic, (_, q), scanned, rfl, (some w, t), read, w, rfl, cut⟩⟩⟩

instance (p : Parser σ φ) : Decidable (ReadsYaml p) := inferInstanceAs (Decidable (_ ∨ _))

instance (env : Env φ) (p : Parser σ φ) : Decidable (BlocksFit env p) :=
  decidable_of_iff (p.state = .block → p.block.Outgrown →
      ¬ ∃ r, parseNewBlock env p = .ret r ∧ r.1 ≠ none)
    ⟨fun fits state outgrown r eq => Classical.not_not.mp fun found =>
        fits state outgrown ⟨r, eq, found⟩,
      fun fits state outgrown ⟨r, eq, found⟩ => found (fits state outgrown r eq)⟩

variable [BoundedStream σ] [DecidablePred (StreamBounds.Inside (σ := σ))]
  [DecidablePred (StreamBounds.Ready (σ := σ))]

instance (env : Env φ) (p : Parser σ φ) : Decidable (AcceptsFirst env p) :=
  decidable_of_iff ((p.state = .treeOrBlock → ¬ TreeOrBlockRejects p) ∧
      (p.state = .tree → ¬ TreeRejects p) ∧ (p.state = .blockIndex → ¬ IndexRejects env p))
    ⟨fun ⟨treeOrBlock, tree, blockIndex⟩ => ⟨treeOrBlock, tree, blockIndex⟩,
      fun ⟨treeOrBlock, tree, blockIndex⟩ => ⟨treeOrBlock, tree, blockIndex⟩⟩

instance (expected : Bytes) (p : Parser σ φ) : Decidable (ReadsVersion expected p) :=
  decidable_of_iff (StreamBounds.Inside p.stream ∧ StreamBounds.Ready p.stream ∧
      ¬ VersionCut expected p)
    ⟨fun ⟨inside, ready, whole⟩ => ⟨inside, ready, whole⟩,
      fun ⟨inside, ready, whole⟩ => ⟨inside, ready, whole⟩⟩

/-- Whether a parser proceeds, with at most `n` rounds for a comment. -/
def proceedsWithin (env : Env φ) (n : Nat) (p : Parser σ φ) : Bool :=
  decide (AcceptsFirst env p) &&
  decide (p.state = .asdfVersion → ReadsVersion asdfVersionComment p) &&
  decide (p.state = .standardVersion → ReadsVersion asdfStandardComment p) &&
  decide (p.state = .comment →
    Outcome.turnsPass parseCommentRound (fun q => decide (¬ CommentOpen q)) n p = true) &&
  decide (p.state = .treeOrBlock → StreamBounds.Ready p.stream ∧ ¬ TreeStartCut p) &&
  decide (p.state = .tree → p.emitYamlEvents = true → ReadsYaml p) &&
  decide (BlocksFit env p) &&
  decide (p.state = .block → p.block.Sequential →
    ¬ ∃ r, parseBlockInfo env p = .ret r ∧ r.1.isSome ∧ r.2.isSeekable ∧ tell r.2.stream < 0)

theorem proceeds_of_within {env : Env φ} {n : Nat} {p : Parser σ φ}
    (h : proceedsWithin env n p = true) : Proceeds env p := by
  simp only [proceedsWithin, Bool.and_eq_true, decide_eq_true_eq] at h
  obtain ⟨⟨⟨⟨⟨⟨⟨accepts, version⟩, standard⟩, comment⟩, treeOrBlock⟩, tree⟩, fits⟩, told⟩ := h
  refine ⟨accepts, ⟨version, standard, fun state q turns => ?_, treeOrBlock, tree⟩, fits,
    fun state sequential info q found can => Int.not_lt.mp fun low => ?_⟩
  · have passed := Outcome.check_of_turnsPass (comment state) turns
    exact of_decide_eq_true passed
  · exact told state sequential ⟨_, found, rfl, can, low⟩

end Deciding

theorem parserStep_end [ParserStream σ] (state : p.state = .end) (env : Env φ) :
    ∃ e q, q.state = .end ∧ ∀ fuel, parserStep env fuel p = .ret (.inr (e, q)) := by
  cases done : p.done with
  | true =>
    refine ⟨none, p, state, fun fuel => ?_⟩
    rw [parserStep, state, done]
    rfl
  | false =>
    refine ⟨some .end, { p with done := true }, state, fun fuel => ?_⟩
    rw [parserStep, state, done]
    rfl

theorem fyEnds_fyamlOf (items : Option (List (Option Int64))) : FyEnds (fyamlOf items) fun _ => 0 :=
  fun _ _ => .inl rfl

instance : DecidablePred (StreamBounds.Inside (σ := MemStream)) := fun _ =>
  inferInstanceAs (Decidable (_ ≤ _ ∧ _ ≤ _))

instance : DecidablePred (StreamBounds.Ready (σ := MemStream)) := fun _ => .isTrue trivial

/-- A tree whose end marker ends the file without a newline. -/
def cutMarkerFile : Bytes :=
  withVersions (yamlDirective ++ yamlDocumentEndMarker)

/-- The parser before the scan for the end of that tree. -/
def cutMarkerParser : Parser MemStream Unit :=
  { parserCreate 0 { streamFromMemory cutMarkerFile with pos := 25 } with
    state := .tree
    asdfVersion := some (versionParse [49])
    standardVersion := some (versionParse [49])
    tree := ⟨25, 0, none, false, false, 1⟩ }

end LibAsdf
