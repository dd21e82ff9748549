import LibAsdf.Base.Calls
import LibAsdf.Parser.BlockSteps
import Mathlib.Computability.RegularExpressions

/-!
# The grammar of the events

The events that successive calls of `asdf_parser_parse` return, against the
regular expression for the events of a whole file.

* `eventGrammar`, `Grammatical`: the events of a file, and what is asked of the
  results of the calls;
* `parserStep_speaks`: one turn says what the state's own grammar allows;
* `parser_grammatical`: all calls do, unless a block index document does not
  read as a sequence of integers.
-/

namespace LibAsdf

open StreamOps ParserStream StreamMeasure LawfulStream

/-! ## The grammar -/

/-- `asdf_event_type_t`. -/
inductive EventKind where
  | none
  | asdfVersion
  | standardVersion
  | comment
  | treeStart
  | yaml
  | treeEnd
  | block
  | blockIndex
  | «end»
  deriving DecidableEq, Repr

def Event.kind : Event → EventKind
  | .none => .none
  | .asdfVersion _ => .asdfVersion
  | .standardVersion _ => .standardVersion
  | .comment _ => .comment
  | .treeStart _ => .treeStart
  | .yaml _ => .yaml
  | .treeEnd _ => .treeEnd
  | .block _ => .block
  | .blockIndex _ => .blockIndex
  | .end => .end

/-- The event has a type, and the payload that goes with it. -/
def Event.Filled : Event → Prop
  | .none | .yaml .none => False
  | _ => True

section Expressions

open RegularExpression

/-- `BLOCK* END` -/
def blocksGrammar : RegularExpression EventKind := star (char .block) * char .end

/-- `YAML* TREE_END BLOCK* END` -/
def treeGrammar : RegularExpression EventKind :=
  star (char .yaml) * (char .treeEnd * blocksGrammar)

/-- `[TREE_START YAML* TREE_END] BLOCK* END` -/
def bodyGrammar : RegularExpression EventKind := char .treeStart * treeGrammar + blocksGrammar

/-- `COMMENT* [BLOCK_INDEX] [TREE_START YAML* TREE_END] BLOCK* END` -/
def headGrammar : RegularExpression EventKind :=
  star (char .comment) * (char .blockIndex * bodyGrammar + bodyGrammar)

/-- `ASDF_VERSION STANDARD_VERSION COMMENT* [BLOCK_INDEX]
[TREE_START YAML* TREE_END] BLOCK* END` -/
def eventGrammar : RegularExpression EventKind :=
  char .asdfVersion * (char .standardVersion * headGrammar)

/-- What may be said from a state on. -/
def stateGrammar : ParserState → RegularExpression EventKind
  | .asdfVersion => eventGrammar
  | .standardVersion => char .standardVersion * headGrammar
  | .comment | .blockIndex => headGrammar
  | .treeOrBlock => bodyGrammar
  | .tree | .yaml => treeGrammar
  | .padding | .block => blocksGrammar
  | .end => char .end
  | .initial | .error => 0

end Expressions

/-- The results of successive calls: the events of a prefix of the grammar, all
of them filled in and `END` only as the last one, then null pointers. -/
def Grammatical (results : List (Option Event)) : Prop :=
  ∃ (events : List Event) (n : Nat), results = events.map some ++ List.replicate n none ∧
    (∃ rest, events.map Event.kind ++ rest ∈ eventGrammar.matches') ∧
    (∀ e ∈ events, e.Filled) ∧ events.count .end ≤ 1 ∧
    (.end ∈ events → events.getLast? = some .end)

/-! ## Sentences -/

/-- Once there is an `END`, it is the last word, and the only one. -/
def EndsOnce (l : Language EventKind) : Prop := ∀ w ∈ l, ∃ v, w = v ++ [.end] ∧ .end ∉ v

def Unended (l : Language EventKind) : Prop := ∀ w ∈ l, EventKind.end ∉ w

theorem unended_char {k : EventKind} (h : k ≠ .end) :
    Unended (RegularExpression.char k).matches' := by
  intro w hw
  cases Set.mem_singleton_iff.mp hw
  exact fun member => h (List.mem_singleton.mp member).symm

theorem unended_star {k : EventKind} (h : k ≠ .end) :
    Unended (RegularExpression.char k).star.matches' := by
  rintro w ⟨words, rfl, all⟩
  rw [List.mem_flatten]
  rintro ⟨v, hv, member⟩
  exact unended_char h v (all v hv) member

theorem EndsOnce.mul {k l : Language EventKind} (hk : Unended k) (hl : EndsOnce l) :
    EndsOnce (k * l) := by
  rintro w ⟨u, hu, v, hv, rfl⟩
  obtain ⟨v, rfl, unended⟩ := hl v hv
  refine ⟨u ++ v, (List.append_assoc ..).symm, fun member => ?_⟩
  rcases List.mem_append.mp member with member | member
  · exact hk u hu member
  · exact unended member

theorem EndsOnce.add {k l : Language EventKind} (hk : EndsOnce k) (hl : EndsOnce l) :
    EndsOnce (k + l) := by
  rintro w (hw | hw)
  · exact hk w hw
  · exact hl w hw

theorem endsOnce_eventGrammar : EndsOnce eventGrammar.matches' := by
  have blocks : EndsOnce blocksGrammar.matches' := by
    refine .mul (unended_star (by decide)) fun w hw => ?_
    cases Set.mem_singleton_iff.mp hw
    exact ⟨[], rfl, List.not_mem_nil⟩
  have tree : EndsOnce treeGrammar.matches' :=
    .mul (unended_star (by decide)) (.mul (unended_char (by decide)) blocks)
  have body : EndsOnce bodyGrammar.matches' := .add (.mul (unended_char (by decide)) tree) blocks
  have head : EndsOnce headGrammar.matches' :=
    .mul (unended_star (by decide)) (.add (.mul (unended_char (by decide)) body) body)
  exact .mul (unended_char (by decide)) (.mul (unended_char (by decide)) head)

/-- Every state in which something may still be said has a way to finish. -/
theorem stateGrammar_finishes {state : ParserState} (h : state ≠ .initial ∧ state ≠ .error) :
    ∃ w, w ∈ (stateGrammar state).matches' := by
  have one : ∀ {l m : Language EventKind} {v w : List EventKind}, v ∈ l → w ∈ m →
      v ++ w ∈ l * m := fun hv hw => Language.append_mem_mul hv hw
  have blocks : [EventKind.end] ∈ blocksGrammar.matches' := one (Language.nil_mem_kstar _) rfl
  have tree : [EventKind.treeEnd, .end] ∈ treeGrammar.matches' :=
    one (Language.nil_mem_kstar _) (one (v := [.treeEnd]) rfl blocks)
  have body : [EventKind.end] ∈ bodyGrammar.matches' := .inr blocks
  have head : [EventKind.end] ∈ headGrammar.matches' := one (Language.nil_mem_kstar _) (.inr body)
  have standard : [EventKind.standardVersion, .end] ∈
      (stateGrammar .standardVersion).matches' := one (v := [.standardVersion]) rfl head
  cases state with
  | asdfVersion => exact ⟨_, one (v := [.asdfVersion]) rfl standard⟩
  | standardVersion => exact ⟨_, standard⟩
  | comment => exact ⟨_, head⟩
  | blockIndex => exact ⟨_, head⟩
  | treeOrBlock => exact ⟨_, body⟩
  | tree => exact ⟨_, tree⟩
  | yaml => exact ⟨_, tree⟩
  | padding => exact ⟨_, blocks⟩
  | block => exact ⟨_, blocks⟩
  | «end» => exact ⟨[.end], rfl⟩
  | initial => exact absurd rfl h.1
  | error => exact absurd rfl h.2

/-- What a state says before it goes on to another one. -/
def Says (state : ParserState) (k : EventKind) (state' : ParserState) : Prop :=
  ∀ w ∈ (stateGrammar state').matches', k :: w ∈ (stateGrammar state).matches'

/-- A state may go on to another one and say nothing. -/
def Passes (state state' : ParserState) : Prop :=
  ∀ w ∈ (stateGrammar state').matches', w ∈ (stateGrammar state).matches'

theorem cons_mem_char_mul {k : EventKind} {l : Language EventKind} {w : List EventKind}
    (h : w ∈ l) : k :: w ∈ (RegularExpression.char k).matches' * l :=
  Language.append_mem_mul (a := [k]) rfl h

theorem mem_star_mul {k : EventKind} {l : Language EventKind} {w : List EventKind} (h : w ∈ l) :
    w ∈ (RegularExpression.char k).star.matches' * l :=
  Language.append_mem_mul (a := []) (Language.nil_mem_kstar _) h

theorem cons_mem_star_mul {k : EventKind} {l : Language EventKind} {w : List EventKind}
    (h : w ∈ (RegularExpression.char k).star.matches' * l) :
    k :: w ∈ (RegularExpression.char k).star.matches' * l := by
  obtain ⟨u, ⟨words, rfl, all⟩, v, hv, rfl⟩ := h
  refine ⟨k :: words.flatten, ⟨[k] :: words, rfl, fun y hy => ?_⟩, v, hv, rfl⟩
  rcases List.mem_cons.mp hy with rfl | hy
  · rfl
  · exact all y hy

/-! ## One turn -/

variable {σ φ : Type} [ParserStream σ] {p : Parser σ φ}

/-- How libfyaml behaves between its input and the end of it: no event comes
only with an error, and it goes on until the end of the stream. -/
structure FyLive (fy : Fyaml φ) (live : φ → Prop) : Prop where
  set (input : FyInput) (y : φ) : fy.setInput input = some y → live y
  none (y : φ) (pos : Nat) : live y → (fy.parse y pos).event = none →
    (fy.parse y pos).streamError = true
  next (y : φ) (pos : Nat) : live y → (fy.parse y pos).event ≠ some .streamEnd →
    live (fy.parse y pos).parser

/-- A parser that has more to say. -/
structure Speaking [StreamMeasure σ] (live : φ → Prop) (p : Parser σ φ) : Prop where
  good : Good p.stream
  state : p.state ≠ .initial ∧ p.state ≠ .error
  done : p.done = false
  yaml : p.state = .yaml → p.tree.done = false → ∀ y, p.yamlParser = some y → live y
  seekable : p.block.hasIndex → p.isSeekable

/-- A parser that returns null pointers from now on. -/
def Closed (p : Parser σ φ) : Prop := p.state = .error ∨ p.state = .end ∧ p.done = true

/-- What one turn says. -/
def Spoke [StreamMeasure σ] (live : φ → Prop) (p : Parser σ φ) :
    Parser σ φ ⊕ (Option Event × Parser σ φ) → Prop
  | .inl q => Speaking live q ∧ Passes p.state q.state
  | .inr (some e, q) => e.Filled ∧ (Speaking live q ∧ Says p.state e.kind q.state ∨
      Closed q ∧ [e.kind] ∈ (stateGrammar p.state).matches')
  | .inr (none, q) => Closed q

/-- The document that `parse_block_index` hands to libfyaml, if there is one. -/
def indexDocument (env : Env φ) (fuel : Nat) (p : Parser σ φ) : Run (Option Bytes) := do
  let (ok, p) ← p.trySeek 0 .end
  if !ok then
    return none
  let fileSize := tell p.stream
  match ← parseFindBlockIndex env fuel p fileSize with
  | (.event _, p) =>
    let blockIndexLen := sizeAdd 0 (fileSize - tell p.stream)
    match ← next p.stream blockIndexLen with
    | (none, _) => return none
    | (some v, _) =>
      let text ← load v.mem 0 blockIndexLen
      return some text
  | _ => return none

/-- A text that is a sequence of integers for libfyaml. -/
def ReadsAsIntegers (env : Env φ) (text : Bytes) : Prop :=
  ∃ items, env.fy.buildSequence text = some items ∧ none ∉ items

/-- In the state of the block index, the document found reads as integers. -/
def IndexReadable (env : Env φ) (fuel : Nat) (p : Parser σ φ) : Prop :=
  p.state = .blockIndex → ∀ text, indexDocument env fuel p = .ret (some text) →
    ReadsAsIntegers env text

theorem readEntries_integers {items : List (Option Int64)} (h : none ∉ items) :
    (readEntries items).2 = true := by
  induction items with
  | nil => rfl
  | cons item items ih =>
    rw [List.mem_cons, not_or] at h
    cases item with
    | none => exact absurd rfl h.1
    | some offset =>
      rw [readEntries]
      exact ih h.2

/-- The only event of the document is the block index, if it reads as
integers. -/
theorem parseBlockIndexDocument_event {env : Env φ} {fileSize : Int}
    {r : ParseResult × Parser σ φ} {e : Event}
    (readable : ∀ v s text, next p.stream (sizeAdd 0 (fileSize - tell p.stream)) =
      .ret (some v, s) → load v.mem 0 (sizeAdd 0 (fileSize - tell p.stream)) = .ret text →
      ReadsAsIntegers env text)
    (h : parseBlockIndexDocument env fileSize p = .ret r) (event : r.1 = .event e) :
    ∃ entries, e = .blockIndex entries := by
  obtain ⟨⟨buf, s⟩, shown, h⟩ := Outcome.bind_eq_ret.mp h
  cases buf with
  | none =>
    cases h
    cases event
  | some v =>
    obtain ⟨document, built, h⟩ := Outcome.bind_eq_ret.mp h
    obtain ⟨text, loaded, built⟩ := Outcome.bind_eq_ret.mp built
    obtain ⟨items, read, integers⟩ := readable v s text shown loaded
    have all := readEntries_integers integers
    rw [read] at built
    cases built
    cases entries : readEntries items with
    | mk offsets ok =>
      rw [entries] at all
      cases all
      dsimp only at h
      rw [entries] at h
      obtain ⟨⟨valid, q⟩, -, h⟩ := Outcome.bind_eq_ret.mp h
      cases valid with
      | false =>
        cases h
        cases event
      | true =>
        cases h
        cases event
        exact ⟨_, rfl⟩

theorem parseBlockIndex_event {env : Env φ} {fuel : Nat} {r : ParseResult × Parser σ φ} {e : Event}
    (readable : ∀ text, indexDocument env fuel p = .ret (some text) → ReadsAsIntegers env text)
    (h : parseBlockIndex env fuel p = .ret r) (event : r.1 = .event e) :
    ∃ entries, e = .blockIndex entries := by
  rw [parseBlockIndex] at h
  split at h
  · cases h
    cases event
  obtain ⟨⟨ok, q⟩, sought, h⟩ := Outcome.bind_eq_ret.mp h
  cases ok with
  | false =>
    cases h
    cases event
  | true =>
    obtain ⟨⟨res, q'⟩, found, h⟩ := Outcome.bind_eq_ret.mp h
    obtain ⟨⟨ok, q''⟩, -, h⟩ := Outcome.bind_eq_ret.mp h
    cases ok with
    | false =>
      cases h
      cases event
    | true =>
      cases h
      have event : res = .event e := event
      subst event
      obtain ⟨⟨res, q₁⟩, header, found⟩ := Outcome.bind_eq_ret.mp found
      cases res with
      | error => cases found
      | «continue» => cases found
      | event e' =>
        refine parseBlockIndexDocument_event (fun v s text shown loaded => readable text ?_) found rfl
        rw [indexDocument, sought]
        simp only [Outcome.ret_bind, Bool.not_true, Bool.false_eq_true, if_false, header, shown,
          loaded, Outcome.pure_eq]

section Turn

variable [LawfulStream σ] {live : φ → Prop} {env : Env φ} {fuel : Nat}

/-- A handler whose events the grammar of its state allows. -/
theorem spoke_of_handler {T : Prop} {F : Fault → Prop} {Q : ParseResult × Parser σ φ → Prop}
    {x : Run (ParseResult × Parser σ φ)} (hx : Outcome.wp F T Q x)
    (pass : ∀ q, Q (.continue, q) → Speaking live q ∧ Passes p.state q.state)
    (say : ∀ e q, Q (.event e, q) → e.Filled ∧ Speaking live q ∧ Says p.state e.kind q.state) :
    Outcome.wp (fun _ => True) True (Spoke live p) (x >>= afterHandler) := by
  refine Outcome.wp_seq (Outcome.wp_imp hx (fun _ _ => trivial) fun _ => trivial) fun r hr => ?_
  obtain ⟨res, q⟩ := r
  cases res with
  | error => exact .inl rfl
  | «continue» => exact pass q hr
  | event e => exact ⟨(say e q hr).1, .inl (say e q hr).2⟩

/-- A parser that touched its stream and went to a state other than `YAML`. -/
theorem Speaking.goes (h : Speaking live p) {q : Parser σ φ} (keeps : Keeps p.stream q.stream)
    (state : q.state ≠ .initial ∧ q.state ≠ .error ∧ q.state ≠ .yaml)
    (done : q.done = p.done) (block : q.block.hasIndex = p.block.hasIndex) : Speaking live q where
  good := keeps.good
  state := ⟨state.1, state.2.1⟩
  done := done.trans h.done
  yaml yaml := absurd yaml state.2.2
  seekable adopted := keeps.seekable.trans (h.seekable (block.symm.trans adopted))

theorem parseAsdfVersion_speaks (h : Speaking live p) (state : p.state = .asdfVersion) :
    Outcome.wp (fun _ => True) True (Spoke live p) (parseAsdfVersion p >>= afterHandler) := by
  refine spoke_of_handler (parseAsdfVersion_spec h.good) (fun q hq => ?_) fun e q hq => ?_
  · obtain ⟨s, onward, eq | ⟨version, eq⟩⟩ := hq <;> cases eq
  · obtain ⟨s, onward, eq | ⟨version, eq⟩⟩ := hq <;> cases eq
    rw [state]
    exact ⟨trivial, h.goes onward.toKeeps ⟨nofun, nofun, nofun⟩ rfl rfl, fun w hw => cons_mem_char_mul hw⟩

theorem parseStandardVersion_speaks (h : Speaking live p) (state : p.state = .standardVersion) :
    Outcome.wp (fun _ => True) True (Spoke live p) (parseStandardVersion p >>= afterHandler) := by
  refine spoke_of_handler (parseStandardVersion_spec h.good) (fun q hq => ?_) fun e q hq => ?_
  · obtain ⟨s, onward, eq | ⟨version, eq⟩⟩ := hq <;> cases eq
  · obtain ⟨s, onward, eq | ⟨version, eq⟩⟩ := hq <;> cases eq
    rw [state]
    exact ⟨trivial, h.goes onward.toKeeps ⟨nofun, nofun, nofun⟩ rfl rfl, fun w hw => cons_mem_char_mul hw⟩

theorem parseComment_speaks (h : Speaking live p) (state : p.state = .comment) :
    Outcome.wp (fun _ => True) True (Spoke live p) (parseComment fuel p >>= afterHandler) := by
  have here : p.state ≠ .initial ∧ p.state ≠ .error ∧ p.state ≠ .yaml := by
    rw [state]
    decide
  refine spoke_of_handler (parseComment_spec h.good fuel) (fun q hq => ?_) fun e q hq => ?_
  · obtain ⟨s, onward, eq | ⟨text, eq, -⟩ | eq⟩ := hq <;> cases eq
    rw [state]
    exact ⟨h.goes onward.toKeeps ⟨nofun, nofun, nofun⟩ rfl rfl, fun w hw => hw⟩
  · obtain ⟨s, onward, eq | ⟨text, eq, -⟩ | eq⟩ := hq <;> cases eq
    refine ⟨trivial, h.goes onward.toKeeps here rfl rfl, fun w hw => ?_⟩
    change w ∈ (stateGrammar p.state).matches' at hw
    rw [state] at hw ⊢
    exact cons_mem_star_mul hw

theorem parseBlockIndex_speaks (h : Speaking live p) (state : p.state = .blockIndex)
    (readable : IndexReadable env fuel p) :
    Outcome.wp (fun _ => True) True (Spoke live p) (parseBlockIndex env fuel p >>= afterHandler) := by
  have speaks : ∀ {res q}, Indexed env p (res, q) → res ≠ .error →
      Speaking live q ∧ q.state = .treeOrBlock := by
    rintro res q (⟨eq, -⟩ | ⟨s, b, keeps, read, seekable, eq | eq⟩) other
    · cases eq
      exact ⟨h.goes (.refl h.good) ⟨nofun, nofun, nofun⟩ rfl rfl, rfl⟩
    · cases eq
      exact absurd rfl other
    · cases eq
      refine ⟨⟨keeps.good, ⟨nofun, nofun⟩, h.done, nofun, fun _ => ?_⟩, rfl⟩
      exact keeps.seekable.trans seekable
  have filled : Outcome.wp (fun _ => True) True
      (fun r => ∀ e, r.1 = .event e → ∃ entries, e = .blockIndex entries)
      (parseBlockIndex env fuel p) :=
    Outcome.wp_partial fun r hr e event => parseBlockIndex_event (readable state) hr event
  refine spoke_of_handler (Outcome.wp_and filled (Outcome.wp_imp (parseBlockIndex_spec h.good env
    fuel) (fun _ _ => trivial) fun _ => trivial)) (fun q hq => ?_) fun e q hq => ?_
  · obtain ⟨speaking, eq⟩ := speaks hq.2 nofun
    rw [eq, state]
    exact ⟨speaking, fun w hw => mem_star_mul (.inr hw)⟩
  · obtain ⟨entries, rfl⟩ := hq.1 e rfl
    obtain ⟨speaking, eq⟩ := speaks hq.2 nofun
    rw [eq, state]
    exact ⟨trivial, speaking, fun w hw => mem_star_mul (.inl (cons_mem_char_mul hw))⟩

theorem parseTreeOrBlock_speaks (h : Speaking live p) (state : p.state = .treeOrBlock) :
    Outcome.wp (fun _ => True) True (Spoke live p) (parseTreeOrBlock fuel p >>= afterHandler) := by
  refine spoke_of_handler (parseTreeOrBlock_spec h.good fuel) (fun q hq => ?_) fun e q hq => ?_
  · rw [state]
    obtain ⟨s, onward, eq | ⟨info, tree, eq⟩ | ⟨tree, eq⟩⟩ := hq <;> cases eq
    · exact ⟨h.goes onward.toKeeps ⟨nofun, nofun, nofun⟩ rfl rfl, fun w hw => .inr (mem_star_mul hw)⟩
    · exact ⟨h.goes onward.toKeeps ⟨nofun, nofun, nofun⟩ rfl rfl, fun w hw => .inr hw⟩
  · rw [state]
    obtain ⟨s, onward, eq | ⟨info, tree, eq⟩ | ⟨tree, eq⟩⟩ := hq <;> cases eq
    exact ⟨trivial, h.goes onward.toKeeps ⟨nofun, nofun, nofun⟩ rfl rfl,
      fun w hw => .inl (cons_mem_char_mul hw)⟩

theorem parseTree_speaks (h : Speaking live p) (law : FyLive env.fy live)
    (state : p.state = .tree) :
    Outcome.wp (fun _ => True) True (Spoke live p) (parseTree env fuel p >>= afterHandler) := by
  refine spoke_of_handler (parseTree_spec h.good env fuel) (fun q hq => ?_) fun e q hq => ?_
  · rw [state]
    obtain ⟨s, tree, keeps, eq | ⟨input, y, set, eq⟩ | ⟨info, eq⟩⟩ := hq <;> cases eq
    refine ⟨⟨keeps.good, ⟨nofun, nofun⟩, h.done, fun _ _ y' eq => ?_, fun adopted => ?_⟩,
      fun w hw => hw⟩
    · cases eq
      exact law.set input y set
    · exact keeps.seekable.trans (h.seekable adopted)
  · rw [state]
    obtain ⟨s, tree, keeps, eq | ⟨input, y, set, eq⟩ | ⟨info, eq⟩⟩ := hq <;> cases eq
    exact ⟨trivial, h.goes keeps ⟨nofun, nofun, nofun⟩ rfl rfl,
      fun w hw => mem_star_mul (cons_mem_char_mul hw)⟩

theorem parseYaml_speaks (h : Speaking live p) (law : FyLive env.fy live)
    (state : p.state = .yaml) :
    Outcome.wp (fun _ => True) True (Spoke live p) (parseYaml env p >>= afterHandler) := by
  have repeats : ∀ yaml, Says p.state (Event.yaml yaml).kind p.state := fun yaml w hw => by
    rw [state] at hw ⊢
    exact cons_mem_star_mul hw
  refine spoke_of_handler (parseYaml_spec h.good env) (fun q hq => ?_) fun e q hq => ?_
  · obtain ⟨-, info, eq⟩ | ⟨-, y, started, next⟩ := hq
    · cases eq
    · cases next
  · obtain ⟨done, info, eq⟩ | ⟨notDone, y, started, next⟩ := hq
    · cases eq
      refine ⟨trivial, h.goes (.refl h.good) ⟨nofun, nofun, nofun⟩ rfl rfl, fun w hw => ?_⟩
      rw [state]
      exact mem_star_mul (cons_mem_char_mul hw)
    · have alive := h.yaml state notDone y started
      cases next with
      | ended s tree keeps yaml done null =>
        refine ⟨?_, ⟨keeps.good, h.state, h.done, fun _ no => ?_, fun adopted =>
          keeps.seekable.trans (h.seekable adopted)⟩, repeats yaml⟩
        · cases yaml with
          | none =>
            obtain ⟨none, noError⟩ := null rfl
            cases noError.symm.trans (law.none y _ alive none)
          | some yaml => trivial
        · exact absurd (no.symm.trans done) Bool.false_ne_true
      | event s tree keeps yaml more read last =>
        refine ⟨trivial, ⟨keeps.good, h.state, h.done, fun _ _ y' eq => ?_, fun adopted =>
          keeps.seekable.trans (h.seekable adopted)⟩, repeats (some yaml)⟩
        cases eq
        exact law.next y _ alive fun eq => last (Option.some.inj (read.symm.trans eq))

theorem parseBlock_speaks (h : Speaking live p) (state : p.state = .block) :
    Outcome.wp (fun _ => True) True (Spoke live p) (parseBlock env p >>= afterHandler) := by
  refine spoke_of_handler (parseBlock_spec h.good h.seekable env) (fun q hq => ?_) fun e q hq => ?_
  · rw [state]
    cases hq with
    | ended q next index =>
      have frame := next.frame
      exact ⟨h.goes frame.keeps ⟨nofun, nofun, nofun⟩ frame.done frame.hasIndex,
        fun w hw => mem_star_mul hw⟩
    | block q info found next s b counted keeps less res result => rcases result with eq | eq <;> cases eq
  · cases hq with
    | block q info found next s b counted keeps less res result =>
      rcases result with eq | eq <;> cases eq
      have frame := next.frame
      have still : q.state = .block := frame.state.trans state
      refine ⟨trivial, h.goes (frame.keeps.trans keeps) ?_ frame.done
        (counted.hasIndex.trans frame.hasIndex), fun w hw => ?_⟩
      · simp only [still]
        decide
      · change w ∈ (stateGrammar q.state).matches' at hw
        rw [still] at hw
        rw [state]
        exact cons_mem_star_mul hw

/-- One turn of a parser that speaks says what its state's grammar allows. -/
theorem parserStep_speaks (h : Speaking live p) (law : FyLive env.fy live)
    (readable : IndexReadable env fuel p) :
    Outcome.wp (fun _ => True) True (Spoke live p) (parserStep env fuel p) := by
  rw [parserStep]
  split
  · exact parseAsdfVersion_speaks h ‹_›
  · exact parseStandardVersion_speaks h ‹_›
  · exact parseComment_speaks h ‹_›
  · exact parseTreeOrBlock_speaks h ‹_›
  · exact parseTree_speaks h law ‹_›
  · exact parseYaml_speaks h law ‹_›
  · exact parseBlock_speaks h ‹_›
  · rename_i state
    refine ⟨h.goes (.refl h.good) ⟨nofun, nofun, nofun⟩ rfl rfl, fun w hw => ?_⟩
    rw [state]
    exact hw
  · exact parseBlockIndex_speaks h ‹_› readable
  · rename_i state
    rw [h.done]
    refine ⟨trivial, .inr ⟨.inr ⟨state, rfl⟩, ?_⟩⟩
    rw [state]
    exact Set.mem_singleton _
  · exact absurd ‹_› h.state.2
  · exact absurd ‹_› h.state.1

omit [LawfulStream σ] in
theorem parserStep_closed (h : Closed p) (env : Env φ) : ∃ q, Closed q ∧
    ∀ fuel, parserStep env fuel p = .ret (.inr (none, q)) := by
  rcases h with error | ⟨state, done⟩
  · refine ⟨{ p with done := true }, .inl error, fun fuel => ?_⟩
    rw [parserStep, error]
    rfl
  · refine ⟨p, .inr ⟨state, done⟩, fun fuel => ?_⟩
    rw [parserStep, state, done]
    rfl

/-! ## Successive calls -/

/-- The results so far, and what may still be said. -/
def SpokenSo (live : φ → Prop) (results : List (Option Event)) (p : Parser σ φ) : Prop :=
  ∃ (events : List Event) (n : Nat), results = events.map some ++ List.replicate n none ∧
    (∀ e ∈ events, e.Filled) ∧
    (n = 0 ∧ Speaking live p ∧ (∀ w ∈ (stateGrammar p.state).matches',
        events.map Event.kind ++ w ∈ eventGrammar.matches') ∨
      Closed p ∧ ∃ rest, events.map Event.kind ++ rest ∈ eventGrammar.matches')

theorem Event.kind_eq_end {e : Event} : e.kind = .end ↔ e = .end := by
  cases e <;> simp [kind]

/-- What the grammar says of events: `END` comes last, and once. -/
theorem end_of_grammar {events : List Event} {rest : List EventKind}
    (h : events.map Event.kind ++ rest ∈ eventGrammar.matches') :
    events.count .end ≤ 1 ∧ (.end ∈ events → events.getLast? = some .end) := by
  obtain ⟨v, eq, unended⟩ := endsOnce_eventGrammar _ h
  constructor
  · have total : (events.map Event.kind ++ rest).count .end = 1 := by
      rw [eq, List.count_append, List.count_eq_zero.mpr unended, List.count_singleton_self]
    rw [List.count_append] at total
    have := List.count_le_count_map (f := Event.kind) (l := events) (x := Event.end)
    change events.count .end ≤ (events.map Event.kind).count .end at this
    omega
  · intro member
    have kinds : EventKind.end ∈ events.map Event.kind := List.mem_map_of_mem member
    -- Nothing can come after the events
    rcases List.eq_nil_or_concat rest with rfl | ⟨init, k, rfl⟩
    · rw [List.append_nil] at eq
      have last := congrArg List.getLast? eq
      rw [List.getLast?_map, List.getLast?_concat, Option.map_eq_some_iff] at last
      obtain ⟨e, he, kind⟩ := last
      rw [he, Event.kind_eq_end.mp kind]
    · rw [List.concat_eq_append, ← List.append_assoc] at eq
      have same := (List.append_inj' eq rfl).1
      exact absurd (same ▸ List.mem_append_left init kinds) unended

theorem SpokenSo.grammatical {results : List (Option Event)} (h : SpokenSo live results p) :
    Grammatical results := by
  obtain ⟨events, n, eq, filled, rest⟩ := h
  have finishes : ∃ rest, events.map Event.kind ++ rest ∈ eventGrammar.matches' := by
    rcases rest with ⟨-, speaking, all⟩ | ⟨-, rest⟩
    · obtain ⟨w, hw⟩ := stateGrammar_finishes speaking.state
      exact ⟨w, all w hw⟩
    · exact rest
  obtain ⟨rest, sentence⟩ := finishes
  exact ⟨events, n, eq, ⟨rest, sentence⟩, filled, end_of_grammar sentence⟩

/-- The calls of a parser on a lawful stream, where every document of a block
index that is met reads as a sequence of integers. -/
theorem parser_grammatical (law : FyLive env.fy live) {stream : σ} (good : Good stream)
    {flags : UInt64} {results : List (Option Event)}
    (calls : Outcome.Calls (parserStep env fuel) fuel (IndexReadable env fuel)
      (parserCreate flags stream) results p) : Grammatical results := by
  have start : SpokenSo live [] (parserCreate flags stream : Parser σ φ) :=
    ⟨[], 0, rfl, nofun, .inl ⟨rfl, ⟨good, ⟨nofun, nofun⟩, rfl, nofun, nofun⟩, fun w hw => hw⟩⟩
  refine (calls.invariant (I := SpokenSo live) ?_ ?_ start).grammatical
  · rintro results p q ⟨events, n, rfl, filled, ⟨rfl, speaking, all⟩ | ⟨closed, rest⟩⟩ ok turn
    · obtain ⟨speaking', passes⟩ := Outcome.wp_of_ret (parserStep_speaks speaking law ok) turn
      exact ⟨events, 0, rfl, filled, .inl ⟨rfl, speaking', fun w hw => all w (passes w hw)⟩⟩
    · obtain ⟨q', -, eq⟩ := parserStep_closed closed env
      cases (eq fuel).symm.trans turn
  · rintro results p r q ⟨events, n, rfl, filled, ⟨rfl, speaking, all⟩ | ⟨closed, rest⟩⟩ ok turn
    · have spoke := Outcome.wp_of_ret (parserStep_speaks speaking law ok) turn
      cases r with
      | none =>
        obtain ⟨w, hw⟩ := stateGrammar_finishes speaking.state
        exact ⟨events, 1, by simp, filled, .inr ⟨spoke, w, all w hw⟩⟩
      | some e =>
        have snoc : ∀ w, (events ++ [e]).map Event.kind ++ w = events.map Event.kind ++
            e.kind :: w := fun w => by simp
        refine ⟨events ++ [e], 0, by simp, fun e' he => ?_, ?_⟩
        · rcases List.mem_append.mp he with he | he
          · exact filled e' he
          · cases List.mem_singleton.mp he
            exact spoke.1
        · rcases spoke.2 with ⟨speaking', says'⟩ | ⟨closed, last⟩
          · refine .inl ⟨rfl, speaking', fun w hw => ?_⟩
            rw [snoc]
            exact all _ (says' w hw)
          · refine .inr ⟨closed, [], ?_⟩
            rw [snoc]
            exact all _ last
    · obtain ⟨q', closed', eq⟩ := parserStep_closed closed env
      cases (eq fuel).symm.trans turn
      refine ⟨events, n + 1, ?_, filled, .inr ⟨closed', rest⟩⟩
      rw [List.replicate_succ', List.append_assoc]

end Turn

theorem fyLive_fyamlOf (items : Option (List (Option Int64))) :
    FyLive (fyamlOf items) fun _ => False := ⟨nofun, nofun, nofun⟩

/-- A file with a block index of no entries, whose document is taken for the
tree too. -/
def emptyIndexFile : Bytes :=
  withVersions (blockIndexHeader ++ newline :: yamlDirective ++ [newline, 91, 93] ++
    yamlDocumentEndMarker ++ [newline])

def emptyIndexEvents : List (Option Event) :=
  [some (.asdfVersion (versionParse [49])), some (.standardVersion (versionParse [49])),
    some (.comment (blockIndexHeader.drop 1)), some (.blockIndex []),
    some (.treeStart ⟨43, 0, none⟩), some (.treeEnd ⟨43, 60, none⟩), some .end, none]

theorem parser_grammatical_empty_index : Grammatical emptyIndexEvents := by
  obtain ⟨p, -, calls⟩ := Outcome.Calls.of_results
    (parserStep ⟨fyamlOf (some []), .stc, 4096⟩ 100) 100 (fun _ => true)
    (show ∀ p, _ → IndexReadable ⟨fyamlOf (some []), .stc, 4096⟩ 100 p from
      fun _ _ _ _ _ => ⟨[], rfl, nofun⟩)
    (parserCreate 0 (streamFromMemory emptyIndexFile)) 8 emptyIndexEvents (by decide +kernel)
  exact parser_grammatical (fyLive_fyamlOf _)
    (show MemStream.Good (streamFromMemory emptyIndexFile) from ⟨by decide, by decide⟩) calls

/-- A header of a block index with nothing behind it comes as an event of no
type. -/
theorem unfilled_index_event : ∃ (results : List (Option Event)) (p : Parser MemStream Unit),
    Outcome.Calls (parserStep ⟨fyamlOf none, .stc, 4096⟩ 100) 100 (fun _ => True)
      (parserCreate 0 (streamFromMemory (withVersions (blockIndexHeader ++ [newline]))))
      results p ∧ ¬ Grammatical results := by
  obtain ⟨p, -, calls⟩ := Outcome.Calls.of_results
    (parserStep ⟨fyamlOf none, .stc, 4096⟩ 100) 100 (fun _ => true)
    (show ∀ _, _ → True from fun _ _ => trivial)
    (parserCreate 0 (streamFromMemory (withVersions (blockIndexHeader ++ [newline])))) 4
    [some (.asdfVersion (versionParse [49])), some (.standardVersion (versionParse [49])),
      some (.comment (blockIndexHeader.drop 1)), some .none] (by decide +kernel)
  refine ⟨_, p, calls, ?_⟩
  rintro ⟨events, n, eq, -, filled, -⟩
  have member : some Event.none ∈ events.map some ++ List.replicate n none := by
    rw [← eq]
    decide
  rcases List.mem_append.mp member with member | member
  · obtain ⟨e, he, eq⟩ := List.mem_map.mp member
    cases eq
    exact filled _ he
  · cases (List.mem_replicate.mp member).2

end LibAsdf
