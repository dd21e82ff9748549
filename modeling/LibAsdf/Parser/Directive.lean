import LibAsdf.Yaml.FloatGrammar

/-!
# YAML directives

What the recognizer of directives reads, and what it accepts.

* `directiveExpression`, `StartsDirective`, `BreaksOff`: the directives;
* `isGenericYamlDirective_of_cut`: reads past a buffer that ends in a directive;
* `generic_directive_iff`: that it is right about all others.
-/

namespace LibAsdf

open RegularExpression

/-! ## Directives -/

/-- `%YAML [0-9]+\.[0-9]+\r?\n` -/
def directiveExpression : RegularExpression Byte :=
  word yamlDirectivePrefix * (many (oneOf digitChars) * (char dot * (many (oneOf digitChars) *
    (optional (char carriageReturn) * char newline))))

/-- The bytes begin with a directive. -/
def StartsDirective (bytes : Bytes) : Prop :=
  ∃ line rest, line ∈ directiveExpression.matches' ∧ bytes = line ++ rest

/-- The bytes are as many as the recognizer asks for, and end inside a directive. -/
def BreaksOff (bytes : Bytes) : Prop :=
  yamlDirective.length + 1 ≤ bytes.length ∧
    ∃ more, more ≠ [] ∧ bytes ++ more ∈ directiveExpression.matches'

/-- The recognizer answers, whatever is in memory behind the bytes, and tells whether they
begin with a directive. -/
def Decided (bytes : Bytes) : Prop :=
  ∀ rest, ∃ answer, isGenericYamlDirective (some ⟨bytes ++ rest, bytes.length⟩) = .ret answer ∧
    (answer = true ↔ StartsDirective bytes)

/-- Digits, at least one. -/
def Digits (text : Bytes) : Prop := text ≠ [] ∧ ∀ b ∈ text, isDigit b = true

section Words

variable {text rest digits tail : Bytes}

theorem mem_directiveExpression {w : Bytes} : w ∈ directiveExpression.matches' ↔
    ∃ major minor cr, Digits major ∧ Digits minor ∧ (cr = [] ∨ cr = [carriageReturn]) ∧
      w = yamlDirectivePrefix ++ (major ++ dot :: (minor ++ (cr ++ [newline]))) := by
  have digits {v : Bytes} : v ∈ (many (oneOf digitChars)).matches' ↔ Digits v := by
    rw [mem_many_oneOf]
    simp only [mem_digitChars, Digits]
  rw [directiveExpression]
  constructor
  · rintro ⟨_, hp, _, ⟨major, ha, _, ⟨_, rfl, _, ⟨minor, hi, _, ⟨cr, hc, _, rfl, rfl⟩, rfl⟩, rfl⟩,
      rfl⟩, rfl⟩
    rw [mem_word.mp hp]
    exact ⟨major, minor, cr, digits.mp ha, digits.mp hi, hc, rfl⟩
  · rintro ⟨major, minor, cr, ha, hi, hc, rfl⟩
    exact ⟨_, mem_word.mpr rfl, _, ⟨major, digits.mpr ha, _, ⟨[dot], rfl, _, ⟨minor, digits.mpr hi,
      _, ⟨cr, hc, [newline], rfl, rfl⟩, rfl⟩, rfl⟩, rfl⟩, rfl⟩

/-- A text that is split behind the digits that it begins with. -/
theorem digits_split (text : Bytes) : ∃ digits tail, text = digits ++ tail ∧
    (∀ b ∈ digits, isDigit b = true) ∧ ∀ b ∈ tail.head?, isDigit b = false := by
  refine ⟨text.takeWhile isDigit, text.dropWhile isDigit,
    List.takeWhile_append_dropWhile.symm, fun b member => List.mem_takeWhile_imp member, ?_⟩
  intro b member
  have stop := List.head?_dropWhile_not isDigit text
  rw [Option.mem_def.mp member] at stop
  simpa using stop

/-- There is one way to do that. -/
theorem digits_append_inj {digits' tail' : Bytes} (all : ∀ b ∈ digits, isDigit b = true)
    (all' : ∀ b ∈ digits', isDigit b = true) (stops : ∀ b ∈ tail.head?, isDigit b = false)
    (stops' : ∀ b ∈ tail'.head?, isDigit b = false) (same : digits ++ tail = digits' ++ tail') :
    digits = digits' ∧ tail = tail' := by
  have taken {u v : Bytes} (all : ∀ b ∈ u, isDigit b = true)
      (stops : ∀ b ∈ v.head?, isDigit b = false) : (u ++ v).takeWhile isDigit = u := by
    rw [List.takeWhile_append_of_pos all]
    cases v with
    | nil => simp
    | cons b v =>
      rw [List.takeWhile_cons, stops b rfl]
      simp
  have first : digits = digits' := by
    rw [← taken all stops, same, taken all' stops']
  subst first
  exact ⟨rfl, List.append_cancel_left same⟩

end Words

/-! ## Reading -/

section Reading

variable {pre digits tail mem : Bytes} {b : Byte}

theorem peekByte_at (pre : Bytes) (b : Byte) (tail : Bytes) :
    peekByte (pre ++ b :: tail) pre.length = .ret b := by
  simp [peekByte]

theorem peekByte_end (pre : Bytes) : peekByte pre pre.length = .fault .memory := by
  simp [peekByte]

theorem skipDigits_digits (all : ∀ b ∈ digits, isDigit b = true) (pre tail : Bytes) (n : Nat) :
    skipDigits (pre ++ (digits ++ tail)) (digits.length + n) pre.length =
      skipDigits (pre ++ (digits ++ tail)) n (pre.length + digits.length) := by
  induction digits generalizing pre with
  | nil => rw [List.length_nil, Nat.zero_add, Nat.add_zero]
  | cons b digits ih =>
    have step := ih (fun c member => all c (List.mem_cons_of_mem _ member)) (pre ++ [b])
    rw [List.append_assoc, List.singleton_append, List.length_append, List.length_singleton] at step
    rw [List.length_cons, Nat.add_right_comm, skipDigits, List.cons_append, peekByte_at]
    simp only [Outcome.ret_bind, all b List.mem_cons_self, if_true]
    rw [step, Nat.add_right_comm pre.length, Nat.add_assoc pre.length]

theorem skipDigits_stop (other : isDigit b = false) (pre tail : Bytes) (n : Nat) :
    skipDigits (pre ++ b :: tail) n pre.length = .ret pre.length := by
  cases n with
  | zero => rw [skipDigits, peekByte_at, Outcome.ret_bind, Outcome.pure_eq]
  | succ n =>
    rw [skipDigits, peekByte_at, Outcome.ret_bind, other]
    rfl

theorem skipDigits_end (pre : Bytes) (n : Nat) :
    skipDigits pre n pre.length = .fault .memory := by
  cases n with
  | zero => rw [skipDigits, peekByte_end, Outcome.fault_bind]
  | succ n => rw [skipDigits, peekByte_end, Outcome.fault_bind]

end Reading

/-! ## The recognizer -/

section Recognizer

variable {pre digits tail mem : Bytes} {b : Byte} {len : Nat}

theorem minor_none (other : isDigit b = false) (pre tail : Bytes) (len : Nat) :
    isYamlMinorVersion ⟨pre ++ b :: tail, len⟩ pre.length = .ret false := by
  simp only [isYamlMinorVersion, peekByte_at, Outcome.ret_bind, other]
  rfl

theorem minor_at_end (pre : Bytes) (len : Nat) :
    isYamlMinorVersion ⟨pre, len⟩ pre.length = .fault .memory := by
  rw [isYamlMinorVersion, peekByte_end, Outcome.fault_bind]

theorem peek_digits (h : Digits digits) (pre tail : Bytes) :
    ∃ b, isDigit b = true ∧ peekByte (pre ++ (digits ++ tail)) pre.length = .ret b := by
  obtain ⟨b, rest, rfl⟩ := List.exists_cons_of_ne_nil h.1
  exact ⟨b, h.2 b List.mem_cons_self, peekByte_at pre b (rest ++ tail)⟩

theorem minor_cut (h : Digits digits) (pre : Bytes) :
    isYamlMinorVersion ⟨pre ++ digits, (pre ++ digits).length⟩ pre.length = .fault .memory := by
  obtain ⟨b, digit, first⟩ := peek_digits h pre []
  have skip := skipDigits_digits h.2 pre [] 0
  rw [List.append_nil] at first skip
  have left : (pre ++ digits).length - pre.length = digits.length + 0 := by
    rw [List.length_append]
    omega
  rw [isYamlMinorVersion]
  simp only [first, Outcome.ret_bind, digit, Bool.not_true, Bool.false_eq_true, if_false, left]
  rw [skip, ← List.length_append, skipDigits_end, Outcome.fault_bind]

theorem minor_line (h : Digits digits) (other : isDigit b = false) (pre tail : Bytes)
    (lt : pre.length + digits.length < len) :
    isYamlMinorVersion ⟨pre ++ (digits ++ b :: tail), len⟩ pre.length =
      if b = carriageReturn then do
        let c ← peekByte (pre ++ (digits ++ b :: tail)) (pre.length + digits.length + 1)
        return c = newline
      else .ret (decide (b = newline)) := by
  obtain ⟨d, digit, first⟩ := peek_digits h pre (b :: tail)
  have left : len - pre.length = digits.length + (len - pre.length - digits.length) := by omega
  have skip := skipDigits_digits h.2 pre (b :: tail) (len - pre.length - digits.length)
  have stop := skipDigits_stop other (pre ++ digits) tail (len - pre.length - digits.length)
  have peek := peekByte_at (pre ++ digits) b tail
  rw [List.append_assoc, List.length_append] at stop peek
  rw [isYamlMinorVersion]
  simp only [first, Outcome.ret_bind, digit, Bool.not_true, Bool.false_eq_true, if_false]
  rw [left, skip, stop, Outcome.ret_bind, peek, Outcome.ret_bind]
  by_cases cr : b = carriageReturn
  · rw [if_pos cr, if_pos ⟨cr, lt⟩]
  · rw [if_neg cr, if_neg fun both => cr both.1, peek]
    rfl

theorem generic_short (short : len < yamlDirective.length + 1) :
    isGenericYamlDirective (some ⟨mem, len⟩) = .ret false := if_pos short

theorem generic_other (long : yamlDirective.length + 1 ≤ len) (le : len ≤ mem.length)
    (other : ¬ yamlDirectivePrefix <+: mem) :
    isGenericYamlDirective (some ⟨mem, len⟩) = .ret false := by
  have enough : yamlDirectivePrefix.length ≤ mem.length :=
    Nat.le_trans (Nat.le_trans (by decide) long) le
  rw [isGenericYamlDirective, if_neg (Nat.not_lt.mpr long), strncmp_eq enough]
  simp only [Outcome.ret_bind, other]
  rfl

theorem generic_noMajor (long : yamlDirective.length + 1 ≤ len) (other : isDigit b = false)
    (tail : Bytes) :
    isGenericYamlDirective (some ⟨yamlDirectivePrefix ++ b :: tail, len⟩) = .ret false := by
  rw [isGenericYamlDirective, if_neg (Nat.not_lt.mpr long), strncmp_eq (by simp)]
  simp only [Outcome.ret_bind, List.prefix_append, decide_true, Bool.not_true, Bool.false_eq_true,
    if_false, peekByte_at, other]
  rfl

theorem generic_cut (long : yamlDirective.length + 1 ≤ (yamlDirectivePrefix ++ digits).length)
    (h : Digits digits) : isGenericYamlDirective
      (some ⟨yamlDirectivePrefix ++ digits, (yamlDirectivePrefix ++ digits).length⟩) =
        .fault .memory := by
  obtain ⟨b, digit, first⟩ := peek_digits h yamlDirectivePrefix []
  have skip := skipDigits_digits h.2 yamlDirectivePrefix [] 0
  rw [List.append_nil] at first skip
  have left : (yamlDirectivePrefix ++ digits).length - yamlDirectivePrefix.length =
      digits.length + 0 := by
    rw [List.length_append]
    omega
  rw [isGenericYamlDirective, if_neg (Nat.not_lt.mpr long), strncmp_eq (by simp)]
  simp only [Outcome.ret_bind, List.prefix_append, decide_true, Bool.not_true, Bool.false_eq_true,
    if_false, first, digit]
  rw [left, skip, ← List.length_append, skipDigits_end, Outcome.fault_bind]

theorem generic_major (long : yamlDirective.length + 1 ≤ len) (h : Digits digits)
    (other : isDigit b = false) (tail : Bytes)
    (lt : yamlDirectivePrefix.length + digits.length < len) :
    isGenericYamlDirective (some ⟨yamlDirectivePrefix ++ (digits ++ b :: tail), len⟩) =
      if b = dot then
        isYamlMinorVersion ⟨yamlDirectivePrefix ++ (digits ++ b :: tail), len⟩
          (yamlDirectivePrefix.length + digits.length + 1)
      else .ret false := by
  obtain ⟨d, digit, first⟩ := peek_digits h yamlDirectivePrefix (b :: tail)
  have left : len - yamlDirectivePrefix.length =
      digits.length + (len - yamlDirectivePrefix.length - digits.length) := by omega
  have skip := skipDigits_digits h.2 yamlDirectivePrefix (b :: tail)
    (len - yamlDirectivePrefix.length - digits.length)
  have stop := skipDigits_stop other (yamlDirectivePrefix ++ digits) tail
    (len - yamlDirectivePrefix.length - digits.length)
  have peek := peekByte_at (yamlDirectivePrefix ++ digits) b tail
  rw [List.append_assoc, List.length_append] at stop peek
  rw [isGenericYamlDirective, if_neg (Nat.not_lt.mpr long), strncmp_eq (by simp)]
  simp only [Outcome.ret_bind, List.prefix_append, decide_true, Bool.not_true, Bool.false_eq_true,
    if_false, first, digit]
  rw [left, skip, stop, Outcome.ret_bind, if_pos lt, peek, Outcome.ret_bind]
  by_cases point : b = dot
  · rw [if_pos point, if_neg (not_not.mpr point)]
  · rw [if_neg point, if_pos point]
    rfl

end Recognizer

/-! ## Buffers against directives -/

/-- The bytes with more behind them, or a directive with more behind it. -/
def Agrees (bytes u v : Bytes) : Prop := ∃ line ∈ directiveExpression.matches', bytes ++ u = line ++ v

section Agreement

variable {bytes major minor tail u v : Bytes} {b : Byte}

theorem agrees_of_starts (h : StartsDirective bytes) : ∃ v, Agrees bytes [] v := by
  obtain ⟨line, rest, member, rfl⟩ := h
  exact ⟨rest, line, member, List.append_nil _⟩

theorem agrees_of_breaksOff (h : BreaksOff bytes) : ∃ u, u ≠ [] ∧ Agrees bytes u [] := by
  obtain ⟨-, more, some, member⟩ := h
  exact ⟨more, some, _, member, (List.append_nil _).symm⟩

/-- What is rejected should be, if it agrees with no directive. -/
theorem decided_of_rejects (rejects : ∀ rest,
    isGenericYamlDirective (some ⟨bytes ++ rest, bytes.length⟩) = .ret false)
    (other : ∀ u v, ¬ Agrees bytes u v) : Decided bytes ∧ ¬ BreaksOff bytes := by
  constructor
  · refine fun rest => ⟨false, rejects rest, iff_of_false Bool.false_ne_true fun starts => ?_⟩
    obtain ⟨v, agrees⟩ := agrees_of_starts starts
    exact other [] v agrees
  · intro breaks
    obtain ⟨u, -, agrees⟩ := agrees_of_breaksOff breaks
    exact other u [] agrees

theorem prefix_of_agrees (long : yamlDirectivePrefix.length ≤ bytes.length) (h : Agrees bytes u v) :
    yamlDirectivePrefix <+: bytes := by
  obtain ⟨line, member, same⟩ := h
  obtain ⟨major, minor, cr, -, -, -, rfl⟩ := mem_directiveExpression.mp member
  rw [List.append_assoc] at same
  exact List.prefix_of_prefix_length_le ⟨_, same.symm⟩ (List.prefix_append bytes u) long

/-- The digits of the first number are those of the directive. -/
theorem major_of_agrees (all : ∀ b ∈ major, isDigit b = true) (other : isDigit b = false)
    (h : Agrees (yamlDirectivePrefix ++ (major ++ b :: tail)) u v) : Digits major ∧ b = dot ∧
      ∃ minor cr, Digits minor ∧ (cr = [] ∨ cr = [carriageReturn]) ∧
        tail ++ u = minor ++ (cr ++ newline :: v) := by
  obtain ⟨line, member, same⟩ := h
  obtain ⟨major', minor, cr, majors, minors, crs, rfl⟩ := mem_directiveExpression.mp member
  simp only [List.append_assoc, List.append_cancel_left_eq, List.cons_append, List.nil_append] at same
  obtain ⟨rfl, rest⟩ := digits_append_inj all majors.2 (by rintro _ ⟨⟩; exact other)
    (by rintro _ ⟨⟩; rfl) same
  obtain ⟨rfl, behind⟩ := List.cons_eq_cons.mp rest
  exact ⟨majors, rfl, minor, cr, minors, crs, behind⟩

end Agreement

/-! ## The line behind the first number -/

section Line

variable {major minor tail : Bytes} {b : Byte}

/-- `%YAML ` and the first number with its dot. -/
def majorPart (major : Bytes) : Bytes := yamlDirectivePrefix ++ (major ++ [dot])

theorem majorPart_append (major tail : Bytes) :
    majorPart major ++ tail = yamlDirectivePrefix ++ (major ++ dot :: tail) := by
  simp [majorPart]

theorem generic_minor (long : yamlDirective.length + 1 ≤ (majorPart major ++ tail).length)
    (majors : Digits major) (rest : Bytes) :
    isGenericYamlDirective (some ⟨majorPart major ++ tail ++ rest,
        (majorPart major ++ tail).length⟩) =
      isYamlMinorVersion ⟨majorPart major ++ (tail ++ rest), (majorPart major ++ tail).length⟩
        (majorPart major).length := by
  have lt : yamlDirectivePrefix.length + major.length < (majorPart major ++ tail).length := by
    simp only [majorPart, List.length_append, List.length_singleton]
    omega
  have position : (majorPart major).length = yamlDirectivePrefix.length + major.length + 1 := by
    simp only [majorPart, List.length_append, List.length_singleton]
    omega
  rw [position, List.append_assoc, majorPart_append, generic_major long majors rfl _ lt, if_pos rfl]

theorem line_of_digits {cr : Bytes} (majors : Digits major) (minors : Digits minor)
    (crs : cr = [] ∨ cr = [carriageReturn]) :
    majorPart major ++ (minor ++ (cr ++ [newline])) ∈ directiveExpression.matches' := by
  rw [majorPart_append]
  exact mem_directiveExpression.mpr ⟨major, minor, cr, majors, minors, crs, rfl⟩

/-- What agrees with a directive behind the dot. -/
theorem minor_of_agrees {u v : Bytes} (majors : Digits major) (all : ∀ b ∈ minor, isDigit b = true)
    (other : isDigit b = false) (h : Agrees (majorPart major ++ (minor ++ b :: tail)) u v) :
    Digits minor ∧ ∃ cr, (cr = [] ∨ cr = [carriageReturn]) ∧
      b :: (tail ++ u) = cr ++ newline :: v := by
  rw [majorPart_append] at h
  obtain ⟨-, -, minor', cr, minors, crs, same⟩ := major_of_agrees majors.2 rfl h
  rw [List.append_assoc, List.cons_append] at same
  have stops : ∀ c ∈ (cr ++ newline :: v).head?, isDigit c = false := by
    rcases crs with rfl | rfl <;>
    · rintro _ ⟨⟩
      rfl
  obtain ⟨rfl, rest⟩ := digits_append_inj all minors.2 (by rintro _ ⟨⟩; exact other) stops same
  exact ⟨minors, cr, crs, rest⟩

/-- The answer is right, and whole, where it depends on whether the line ends as it should. -/
theorem decided_of_line {cr : Bytes} (majors : Digits major) (minors : Digits minor)
    (crs : cr = [] ∨ cr = [carriageReturn])
    (answers : ∀ rest, isGenericYamlDirective
      (some ⟨majorPart major ++ (minor ++ (cr ++ b :: tail)) ++ rest,
        (majorPart major ++ (minor ++ (cr ++ b :: tail))).length⟩) = .ret (decide (b = newline)))
    (ends : ∀ u v, Agrees (majorPart major ++ (minor ++ (cr ++ b :: tail))) u v →
      b :: (tail ++ u) = newline :: v) :
    Decided (majorPart major ++ (minor ++ (cr ++ b :: tail))) ∧
      ¬ BreaksOff (majorPart major ++ (minor ++ (cr ++ b :: tail))) := by
  constructor
  · refine fun rest => ⟨_, answers rest, ?_⟩
    rw [decide_eq_true_iff]
    constructor
    · rintro rfl
      exact ⟨_, tail, line_of_digits majors minors crs, by simp⟩
    · intro starts
      obtain ⟨v, agrees⟩ := agrees_of_starts starts
      exact (List.cons_eq_cons.mp (ends [] v agrees)).1
  · intro breaks
    obtain ⟨u, some, agrees⟩ := agrees_of_breaksOff breaks
    have none := (List.cons_eq_cons.mp (ends u [] agrees)).2
    exact some (List.append_eq_nil_iff.mp none).2

end Line

/-! ## Every buffer -/

section Buffers

variable {bytes major minor tail : Bytes} {b : Byte}

/-- Bytes that break off, past which the recognizer reads. -/
def Overread (bytes : Bytes) : Prop :=
  BreaksOff bytes ∧ isGenericYamlDirective (some ⟨bytes, bytes.length⟩) = .fault .memory

theorem undecided_of_overread (h : Overread bytes) : ¬ Decided bytes := by
  intro decided
  obtain ⟨answer, returned, -⟩ := decided []
  rw [List.append_nil] at returned
  cases h.2.symm.trans returned

/-- Behind the dot. -/
theorem overread_minor {more : Bytes}
    (long : yamlDirective.length + 1 ≤ (majorPart major ++ tail).length) (majors : Digits major)
    (left : more ≠ []) (line : majorPart major ++ (tail ++ more) ∈ directiveExpression.matches')
    (reads : isYamlMinorVersion ⟨majorPart major ++ tail, (majorPart major ++ tail).length⟩
      (majorPart major).length = .fault .memory) : Overread (majorPart major ++ tail) := by
  refine ⟨⟨long, more, left, by rwa [List.append_assoc]⟩, ?_⟩
  have minor := generic_minor long majors []
  rw [List.append_nil, List.append_nil] at minor
  exact minor.trans reads

/-- The end of the line, behind the second number. -/
theorem line_cases (long : yamlDirective.length + 1 ≤ (majorPart major ++ (minor ++ b :: tail)).length)
    (majors : Digits major) (minors : Digits minor) (other : isDigit b = false) :
    Decided (majorPart major ++ (minor ++ b :: tail)) ∧
        ¬ BreaksOff (majorPart major ++ (minor ++ b :: tail)) ∨
      Overread (majorPart major ++ (minor ++ b :: tail)) := by
  have lt : (majorPart major).length + minor.length <
      (majorPart major ++ (minor ++ b :: tail)).length := by
    simp only [List.length_append, List.length_cons]
    omega
  have reads (rest : Bytes) := minor_line minors other (majorPart major) (tail ++ rest) lt
  have answer (rest : Bytes) := generic_minor long majors rest
  simp only [List.append_assoc, List.cons_append] at answer reads
  by_cases cr : b = carriageReturn
  · subst cr
    have position : (majorPart major).length + minor.length + 1 =
        (majorPart major ++ (minor ++ [carriageReturn])).length := by
      simp only [List.length_append, List.length_singleton]
      omega
    cases tail with
    | nil =>
      refine .inr (overread_minor long majors (List.cons_ne_nil newline []) ?_ ?_)
      · rw [List.append_assoc]
        exact line_of_digits majors minors (.inr rfl)
      · have read := reads []
        rw [List.append_nil, if_pos rfl, position, peekByte_end, Outcome.fault_bind] at read
        exact read
    | cons c tail =>
      refine .inl (decided_of_line majors minors (.inr rfl) (fun rest => ?_) fun u v agrees => ?_)
      · have peek := peekByte_at (majorPart major ++ (minor ++ [carriageReturn])) c (tail ++ rest)
        simp only [List.append_assoc, List.cons_append, List.nil_append] at answer reads peek ⊢
        rw [answer, reads, if_pos trivial, position, peek]
        rfl
      · obtain ⟨-, cr, rfl | rfl, same⟩ := minor_of_agrees majors minors.2 rfl agrees
        · cases same
        · exact (List.cons_eq_cons.mp same).2
  · refine .inl (decided_of_line majors minors (.inl rfl) (fun rest => ?_) fun u v agrees => ?_)
    · simp only [List.append_assoc, List.cons_append, List.nil_append]
      rw [answer, reads, if_neg cr]
    · obtain ⟨-, cr', rfl | rfl, same⟩ := minor_of_agrees majors minors.2 other agrees
      · exact same
      · exact absurd (List.cons_eq_cons.mp same).1 cr

/-- `0` -/
theorem digits_zero : Digits [zeroDigit] :=
  ⟨List.cons_ne_nil _ _, List.forall_mem_singleton.mpr rfl⟩

theorem directive_length {line : Bytes} (member : line ∈ directiveExpression.matches') :
    yamlDirective.length + 1 ≤ line.length := by
  obtain ⟨major, minor, cr, majors, minors, -, rfl⟩ := mem_directiveExpression.mp member
  have one := List.length_pos_of_ne_nil majors.1
  have two := List.length_pos_of_ne_nil minors.1
  have six : yamlDirectivePrefix.length = 6 := rfl
  have nine : yamlDirective.length = 9 := rfl
  simp only [List.length_append, List.length_cons, List.length_nil]
  omega

/-- Behind the dot. -/
theorem minor_cases (long : yamlDirective.length + 1 ≤ (majorPart major ++ tail).length)
    (majors : Digits major) : Decided (majorPart major ++ tail) ∧ ¬ BreaksOff (majorPart major ++ tail) ∨
      Overread (majorPart major ++ tail) := by
  obtain ⟨minor, tail, rfl, all, stops⟩ := digits_split tail
  cases tail with
  | nil =>
    rw [List.append_nil] at long ⊢
    by_cases written : minor = []
    · subst written
      refine .inr (overread_minor long majors (List.cons_ne_nil zeroDigit [newline])
        (line_of_digits majors digits_zero (.inl rfl)) ?_)
      rw [List.append_nil]
      exact minor_at_end _ _
    · exact .inr (overread_minor long majors (List.cons_ne_nil newline [])
        (line_of_digits majors ⟨written, all⟩ (.inl rfl)) (minor_cut ⟨written, all⟩ _))
  | cons b tail =>
    have other := stops b rfl
    by_cases written : minor = []
    · subst written
      refine .inl (decided_of_rejects (fun rest => ?_) fun u v agrees => ?_)
      · rw [generic_minor long majors]
        exact minor_none other _ _ _
      · exact (minor_of_agrees majors all other agrees).1.1 rfl
    · exact line_cases long majors ⟨written, all⟩ other

/-- Every buffer is decided, or breaks off and is read past its end. -/
theorem buffer_cases (bytes : Bytes) : Decided bytes ∧ ¬ BreaksOff bytes ∨ Overread bytes := by
  by_cases long : yamlDirective.length + 1 ≤ bytes.length
  case neg =>
    refine .inl ⟨fun rest => ⟨false, generic_short (by omega), ?_⟩, fun breaks => long breaks.1⟩
    refine iff_of_false Bool.false_ne_true ?_
    rintro ⟨line, rest, member, rfl⟩
    have length := directive_length member
    rw [List.length_append] at long
    omega
  by_cases start : yamlDirectivePrefix <+: bytes
  case neg =>
    refine .inl (decided_of_rejects (fun rest => ?_) fun u v agrees => ?_)
    · refine generic_other long (by rw [List.length_append]; omega) fun h => start ?_
      exact List.prefix_of_prefix_length_le h (List.prefix_append bytes rest)
        (Nat.le_trans (by decide) long)
    · exact start (prefix_of_agrees (Nat.le_trans (by decide) long) agrees)
  obtain ⟨text, rfl⟩ := start
  obtain ⟨major, tail, rfl, all, stops⟩ := digits_split text
  cases tail with
  | nil =>
    have majors : Digits major := by
      refine ⟨?_, all⟩
      rintro rfl
      exact absurd long (by decide)
    rw [List.append_nil] at long ⊢
    have line := line_of_digits majors digits_zero (.inl rfl)
    rw [majorPart_append] at line
    exact .inr ⟨⟨long, [dot, zeroDigit, newline], List.cons_ne_nil _ _, by simpa using line⟩,
      generic_cut long majors⟩
  | cons b tail =>
    have other := stops b rfl
    by_cases majors : Digits major
    case neg =>
      have none : major = [] := by
        by_contra written
        exact majors ⟨written, all⟩
      subst none
      refine .inl (decided_of_rejects (fun rest => generic_noMajor long other _) fun u v agrees => ?_)
      exact majors (major_of_agrees all other agrees).1
    by_cases point : b = dot
    · subst point
      rw [← majorPart_append] at long ⊢
      exact minor_cases long majors
    · refine .inl (decided_of_rejects (fun rest => ?_) fun u v agrees => ?_)
      · have lt : yamlDirectivePrefix.length + major.length <
            (yamlDirectivePrefix ++ (major ++ b :: tail)).length := by
          simp only [List.length_append, List.length_cons]
          omega
        have major := generic_major long majors other (tail ++ rest) lt
        rw [if_neg point] at major
        simpa using major
      · exact point (major_of_agrees all other agrees).2.1

/-- The recognizer is right, whatever is behind a buffer, just where the buffer does not
break off inside a directive. -/
theorem generic_directive_iff (bytes : Bytes) : Decided bytes ↔ ¬ BreaksOff bytes := by
  rcases buffer_cases bytes with ⟨decided, whole⟩ | overread
  · exact iff_of_true decided whole
  · exact iff_of_false (undecided_of_overread overread) (not_not.mpr overread.1)

/-- Bytes break off inside a directive just where the recognizer, given them alone, reads past
them. -/
theorem breaksOff_iff (bytes : Bytes) : BreaksOff bytes ↔
    isGenericYamlDirective (some ⟨bytes, bytes.length⟩) = .fault .memory := by
  rcases buffer_cases bytes with ⟨decided, whole⟩ | overread
  · refine iff_of_false whole fun reads => ?_
    obtain ⟨answer, returned, -⟩ := decided []
    rw [List.append_nil] at returned
    cases reads.symm.trans returned
  · exact iff_of_true overread.1 overread.2

instance (bytes : Bytes) : Decidable (BreaksOff bytes) := decidable_of_iff _ (breaksOff_iff bytes).symm

/-- `%YAML 1.11` is a directive if a newline is behind the buffer, and none if a space is. -/
theorem directive_cut :
    isGenericYamlDirective (some ⟨yamlDirectivePrefix ++ [49, 46, 49, 49] ++ [newline], 10⟩) =
        .ret true ∧
      isGenericYamlDirective (some ⟨yamlDirectivePrefix ++ [49, 46, 49, 49] ++ [32], 10⟩) =
        .ret false ∧
      ¬ Decided (yamlDirectivePrefix ++ [49, 46, 49, 49]) := by
  have accepted : isGenericYamlDirective
      (some ⟨yamlDirectivePrefix ++ [49, 46, 49, 49] ++ [newline], 10⟩) = .ret true := by decide
  have rejected : isGenericYamlDirective
      (some ⟨yamlDirectivePrefix ++ [49, 46, 49, 49] ++ [32], 10⟩) = .ret false := by decide
  refine ⟨accepted, rejected, fun decided => ?_⟩
  obtain ⟨a, first, starts⟩ := decided [newline]
  obtain ⟨b, second, starts'⟩ := decided [32]
  cases accepted.symm.trans first
  cases rejected.symm.trans second
  exact Bool.false_ne_true (starts'.mpr (starts.mp rfl))

end Buffers

end LibAsdf
