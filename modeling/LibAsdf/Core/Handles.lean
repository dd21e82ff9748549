import LibAsdf.Core.Time

/-!
# File metadata, with the handles of the deserializer

`asdf_meta_deserialize` with the value handles that it obtains and the memory that
it allocates. Any allocation may fail.

* `metaDeserializeOwned`: the function, and `metaHistoryDeserializeOwned` within;
* `metaDeserializeOwned_granted`: with enough memory it reads what
  `metaDeserialize` does;
* `meta_settles_iff`: when it settles its handles;
* `handle_ownership`: when either deserializer does.
-/

namespace LibAsdf

section Read

variable {Time : Type} (env : EmitEnv Time) (grant : Resource → Bool)

/-- `asdf_value_as_software`, of a property that may be missing: the software, if
it is valid and there is memory for it. -/
def softwareOf (prop : Option Node) : Option Software :=
  if grant (.memory .software) then prop.bind (valueAsSoftware env) else none

/-- The same for the list of extensions, or of entries. -/
def listOf {α : Type} (m : Allocation) (valueAs : Node → Option α) (prop : Option Node) :
    Option (List α) :=
  if grant (.memory m) then prop.bind (itemsDeserialize valueAs) else none

/-- What has been allocated for a value that may not be there. -/
def allocatedFor {α : Type} (m : Allocation) (value : Option α) : List Allocation :=
  if value.isSome then [m] else []

/-- The memory of a value that has just been read is held. -/
def hold {α : Type} (m : Allocation) (value : Option α) (held : Ledger Resource) : Ledger Resource :=
  (allocatedFor m value).map Resource.memory ++ held

/-- The pointer to a handle that has been obtained. -/
def pointerTo (key : Bytes) (prop : Option Node) : Option Handle := prop.map fun _ => .property key

/-- `asdf_meta_history_deserialize`, of the value that `handle` is a handle on. An
old-style history has that handle as its `history_seq`. -/
def metaHistoryDeserializeOwned (value : Node) (handle : Handle) (held : Ledger Resource) :
    Run ((Option (List ExtensionMetadata) × Option (List (HistoryEntry Time))) × Ledger Resource) :=
  match value with
  | .sequence tag items => do
    let entries := listOf grant .entries (valueAsHistoryEntry env) (some (.sequence tag items))
    let held ← valueDestroy (some handle) (hold .entries entries held)
    return ((none, entries), held)
  | .mapping tag pairs => do
    let (extensionSeq, held) := mappingGet grant (.mapping tag pairs) extensionsKey held
    let (historySeq, held) := mappingGet grant (.mapping tag pairs) entriesKey held
    let extensions := listOf grant .extensions (valueAsExtensionMetadata env) extensionSeq
    let entries := listOf grant .entries (valueAsHistoryEntry env) historySeq
    let held := hold .entries entries (hold .extensions extensions held)
    let held ← valueDestroy (pointerTo entriesKey historySeq) held
    let held ← valueDestroy (pointerTo extensionsKey extensionSeq) held
    return ((extensions, entries), held)
  | .scalar _ _ _ => .ret ((none, none), held)

/-- The history, if its property was obtained. -/
def historyPropertyOwned (prop : Option Node) (held : Ledger Resource) :
    Run ((Option (List ExtensionMetadata) × Option (List (HistoryEntry Time))) × Ledger Resource) :=
  match prop with
  | some prop => metaHistoryDeserializeOwned env grant prop (.property historyKey) held
  | none => .ret ((none, none), held)

/-- The end of `asdf_meta_deserialize`. `prop` is still the pointer to the handle
that has been destroyed, and the software is not released. -/
def metaFinish (software : Option Software)
    (history : Option (List ExtensionMetadata) × Option (List (HistoryEntry Time)))
    (prop : Option Handle) (held : Ledger Resource) : Run (Deserialized (Metadata Time)) :=
  if grant (.memory .object) then
    .ret ⟨.ok, some ⟨software, history.1, history.2⟩, held.acquire (.memory .object)⟩
  else do
    let held ← valueDestroy prop held
    let held ← freeMemory (history.1.map fun _ => .extensions) held
    let held ← freeMemory (history.2.map fun _ => .entries) held
    return ⟨.oom, none, held⟩

/-- `asdf_meta_deserialize`. -/
def metaDeserializeOwned (value : Node) : Run (Deserialized (Metadata Time)) :=
  match value with
  | .mapping tag pairs => do
    let (prop, held) := mappingGet grant (.mapping tag pairs) asdfLibraryKey callerHeld
    let software := softwareOf env grant prop
    let held ← valueDestroy (pointerTo asdfLibraryKey prop) (hold .software software held)
    let (prop, held) := mappingGet grant (.mapping tag pairs) historyKey held
    let (history, held) ← historyPropertyOwned env grant prop held
    let held ← valueDestroy (pointerTo historyKey prop) held
    metaFinish grant software history (pointerTo historyKey prop) held
  | _ => .ret ⟨.parseFailure, none, callerHeld⟩

end Read

/-! ## When the handles are settled -/

variable {Time : Type} {env : EmitEnv Time} {grant : Resource → Bool}

/-- The memory of the metadata, the last allocation first. -/
def Metadata.owned (metadata : Metadata Time) : List Allocation :=
  .object :: (allocatedFor .entries metadata.entries ++
    (allocatedFor .extensions metadata.extensions ++ allocatedFor .software metadata.asdfLibrary))

/-- When the metadata settles its handles: the history that is obtained is none of
the old style, and if the object cannot be allocated, there is neither a history
nor a software. -/
def MetaSettles (env : EmitEnv Time) (grant : Resource → Bool) (value : Node) : Prop :=
  ∀ tag pairs, value = .mapping tag pairs →
    (∀ tag items, obtained grant value historyKey ≠ some (.sequence tag items)) ∧
      (grant (.memory .object) = false → obtained grant value historyKey = none ∧
        softwareOf env grant (obtained grant value asdfLibraryKey) = none)

/-- A handle is destroyed under what has been allocated since. -/
theorem valueDestroy_under (ms : List Allocation) (h : Handle) (held : Ledger Resource) :
    valueDestroy (some h) (ms.map Resource.memory ++ held.acquire (.handle h)) =
      .ret (ms.map Resource.memory ++ held) := by
  induction ms with
  | nil => exact valueDestroy_last h held
  | cons m ms ih => exact Ledger.release_below _ Resource.noConfusion ih

/-- A property is read and its handle destroyed again. -/
theorem valueDestroy_obtained (mapping : Node) (key : Bytes) (ms : List Allocation)
    (held : Ledger Resource) :
    valueDestroy (pointerTo key (obtained grant mapping key))
        (ms.map Resource.memory ++ (mappingGet grant mapping key held).2) =
      .ret (ms.map Resource.memory ++ held) := by
  unfold mappingGet
  cases obtained grant mapping key with
  | none => rfl
  | some prop => exact valueDestroy_under ms (.property key) held

theorem mappingGet_fst (mapping : Node) (key : Bytes) (held : Ledger Resource) :
    (mappingGet grant mapping key held).1 = obtained grant mapping key := by
  unfold mappingGet
  cases obtained grant mapping key <;> rfl

/-- The memory of a history. -/
def historyMemory (history : Option (List ExtensionMetadata) × Option (List (HistoryEntry Time))) :
    List Allocation :=
  allocatedFor .entries history.2 ++ allocatedFor .extensions history.1

/-- What is read of a history. -/
def historyOf (env : EmitEnv Time) (grant : Resource → Bool) :
    Node → Option (List ExtensionMetadata) × Option (List (HistoryEntry Time))
  | .sequence tag items =>
    (none, listOf grant .entries (valueAsHistoryEntry env) (some (.sequence tag items)))
  | .mapping tag pairs =>
    (listOf grant .extensions (valueAsExtensionMetadata env)
        (obtained grant (.mapping tag pairs) extensionsKey),
      listOf grant .entries (valueAsHistoryEntry env) (obtained grant (.mapping tag pairs) entriesKey))
  | .scalar _ _ _ => (none, none)

/-- A history of the new style, or an invalid one, keeps to its own handles. -/
theorem metaHistoryDeserializeOwned_eq {value : Node} (style : ∀ tag items, value ≠ .sequence tag items)
    (handle : Handle) (held : Ledger Resource) :
    metaHistoryDeserializeOwned env grant value handle held =
      .ret (historyOf env grant value,
        (historyMemory (historyOf env grant value)).map Resource.memory ++ held) := by
  cases value with
  | sequence tag items => exact absurd rfl (style tag items)
  | scalar tag style text => rfl
  | mapping tag pairs =>
    unfold metaHistoryDeserializeOwned historyMemory hold
    dsimp only
    rw [mappingGet_fst, mappingGet_fst, ← List.append_assoc, ← List.map_append, valueDestroy_obtained]
    dsimp only [Outcome.ret_bind]
    rw [valueDestroy_obtained]
    rfl

/-- One of the old style destroys the handle that it is read through. -/
theorem metaHistoryDeserializeOwned_old (tag : Option Bytes) (items : List Node) (handle : Handle)
    (held : Ledger Resource) :
    metaHistoryDeserializeOwned env grant (.sequence tag items) handle
        (held.acquire (.handle handle)) =
      .ret (historyOf env grant (.sequence tag items),
        (historyMemory (historyOf env grant (.sequence tag items))).map Resource.memory ++ held) := by
  have memory : historyMemory (historyOf env grant (.sequence tag items)) = allocatedFor .entries
      (listOf grant .entries (valueAsHistoryEntry env) (some (.sequence tag items))) :=
    List.append_nil _
  unfold metaHistoryDeserializeOwned hold
  dsimp only
  rw [memory, valueDestroy_under]
  rfl

/-- A handle on a property is not held any more. -/
theorem valueDestroy_gone (key : Bytes) (ms : List Allocation) :
    valueDestroy (some (.property key)) (ms.map Resource.memory ++ callerHeld) = .fault .memory := by
  apply Ledger.release_of_not_mem
  simp [callerHeld]

/-- The function, with the software's handle destroyed. -/
theorem metaDeserializeOwned_eq (tag : Option Bytes) (pairs : List (Node × Node)) :
    metaDeserializeOwned env grant (.mapping tag pairs) = (do
      let software := softwareOf env grant (obtained grant (.mapping tag pairs) asdfLibraryKey)
      let prop := obtained grant (.mapping tag pairs) historyKey
      let (history, held) ← historyPropertyOwned env grant prop
        (mappingGet grant (.mapping tag pairs) historyKey (hold .software software callerHeld)).2
      let held ← valueDestroy (pointerTo historyKey prop) held
      metaFinish grant software history (pointerTo historyKey prop) held) := by
  unfold metaDeserializeOwned hold
  dsimp only
  rw [mappingGet_fst, valueDestroy_obtained]
  dsimp only [Outcome.ret_bind]
  rw [mappingGet_fst]

theorem metaFinish_granted {software : Option Software}
    {history : Option (List ExtensionMetadata) × Option (List (HistoryEntry Time))}
    (object : grant (.memory .object) = true) (prop : Option Handle) :
    Settles Metadata.owned (metaFinish grant software history prop
      ((historyMemory history).map Resource.memory ++ hold .software software callerHeld)) := by
  refine ⟨_, if_pos object, rfl, ?_⟩
  simp [Metadata.owned, historyMemory, hold, Ledger.acquire]

/-- Without memory for the object, the handle of the history would be destroyed
again. -/
theorem metaFinish_refused {software : Option Software}
    {history : Option (List ExtensionMetadata) × Option (List (HistoryEntry Time))}
    (object : grant (.memory .object) = false) (key : Bytes) :
    metaFinish grant software history (some (.property key))
      ((historyMemory history).map Resource.memory ++ hold .software software callerHeld) =
        .fault .memory := by
  unfold metaFinish hold
  rw [object, if_neg Bool.false_ne_true, ← List.append_assoc, ← List.map_append, valueDestroy_gone]
  rfl

theorem not_settles_of_fault {α : Type} {owned : α → List Allocation} {run : Run (Deserialized α)}
    {e : Fault} (h : run = .fault e) : ¬ Settles owned run := by
  rintro ⟨r, ret, -⟩
  cases h.symm.trans ret

/-- The end of the function where there is no history. -/
theorem metaFinish_none_iff {software : Option Software} :
    Settles (@Metadata.owned Time) (metaFinish grant software (none, none) none
        (hold .software software callerHeld)) ↔
      (∀ tag items, (none : Option Node) ≠ some (.sequence tag items)) ∧
        (grant (.memory .object) = false → (none : Option Node) = none ∧ software = none) := by
  cases object : grant (.memory .object) with
  | true => exact ⟨fun _ => ⟨nofun, nofun⟩, fun _ => metaFinish_granted object none⟩
  | false =>
    have failed : (metaFinish grant software (none, none) none
        (hold .software software callerHeld) : Run (Deserialized (Metadata Time))) =
          .ret ⟨.oom, none, hold .software software callerHeld⟩ := by
      unfold metaFinish
      rw [object]
      rfl
    cases software with
    | none => exact ⟨fun _ => ⟨nofun, fun _ => ⟨rfl, rfl⟩⟩, fun _ => .failed failed nofun⟩
    | some software =>
      constructor
      · rintro ⟨r, ret, settled⟩
        cases failed.symm.trans ret
        cases settled.2
      · rintro ⟨-, empty⟩
        cases (empty rfl).2

/-- The end of the function where there is a history. -/
theorem metaFinish_some_iff {software : Option Software} (prop : Node) :
    Settles Metadata.owned (do
        let (history, held) ← metaHistoryDeserializeOwned env grant prop (.property historyKey)
          ((hold .software software callerHeld).acquire (.handle (.property historyKey)))
        let held ← valueDestroy (some (.property historyKey)) held
        metaFinish grant software history (some (.property historyKey)) held) ↔
      (∀ tag items, some prop ≠ some (.sequence tag items)) ∧
        (grant (.memory .object) = false → some prop = none ∧ software = none) := by
  by_cases style : ∀ tag items, prop ≠ .sequence tag items
  · rw [metaHistoryDeserializeOwned_eq style]
    dsimp only [Outcome.ret_bind]
    rw [valueDestroy_under]
    dsimp only [Outcome.ret_bind]
    cases object : grant (.memory .object) with
    | true =>
      constructor
      · exact fun _ => ⟨fun tag items eq => style tag items (Option.some.inj eq), nofun⟩
      · exact fun _ => metaFinish_granted object _
    | false =>
      constructor
      · exact fun settles => absurd settles (not_settles_of_fault (metaFinish_refused object _))
      · rintro ⟨-, empty⟩
        cases (empty rfl).1
  · push Not at style
    obtain ⟨tag, items, rfl⟩ := style
    constructor
    · intro settles
      rw [metaHistoryDeserializeOwned_old] at settles
      apply absurd settles
      apply not_settles_of_fault (e := .memory)
      dsimp only [Outcome.ret_bind]
      unfold hold
      rw [← List.append_assoc, ← List.map_append, valueDestroy_gone]
      rfl
    · exact fun cond => absurd rfl (cond.1 tag items)

/-- The metadata settles its handles exactly under this condition. -/
theorem meta_settles_iff (env : EmitEnv Time) (grant : Resource → Bool) (value : Node) :
    Settles Metadata.owned (metaDeserializeOwned env grant value) ↔ MetaSettles env grant value := by
  by_cases mapping : ∃ tag pairs, value = .mapping tag pairs
  · obtain ⟨tag, pairs, rfl⟩ := mapping
    have cond : MetaSettles env grant (.mapping tag pairs) ↔
        (∀ tag' items, obtained grant (.mapping tag pairs) historyKey ≠ some (.sequence tag' items)) ∧
          (grant (.memory .object) = false →
            obtained grant (.mapping tag pairs) historyKey = none ∧
              softwareOf env grant (obtained grant (.mapping tag pairs) asdfLibraryKey) = none) := by
      constructor
      · exact fun h => h tag pairs rfl
      · rintro h _ _ ⟨⟩
        exact h
    rw [cond, metaDeserializeOwned_eq]
    dsimp only
    unfold mappingGet
    cases history : obtained grant (.mapping tag pairs) historyKey with
    | none => exact metaFinish_none_iff
    | some prop => exact metaFinish_some_iff prop
  · constructor
    · exact fun _ tag pairs eq => absurd ⟨tag, pairs, eq⟩ mapping
    · intro _
      apply Settles.failed _ _
      · exact .parseFailure
      · cases value with
        | mapping tag pairs => exact absurd ⟨tag, pairs, rfl⟩ mapping
        | scalar | sequence => rfl
      · exact nofun

/-! ## The metadata that is read -/

theorem obtained_granted (mapping : Node) (key : Bytes) :
    obtained (fun _ => true) mapping key = mapping.lookup key := rfl

/-- With all the memory that is asked for, the function is `metaDeserialize`; what
it holds then is the metadata's. -/
theorem metaDeserializeOwned_granted (env : EmitEnv Time) (tag : Option Bytes)
    (pairs : List (Node × Node)) :
    metaDeserializeOwned env (fun _ => true) (.mapping tag pairs) =
      metaDeserialize env (.mapping tag pairs) >>= fun metadata =>
        .ret ⟨.ok, some metadata, metadata.owned.map Resource.memory ++ callerHeld⟩ := by
  have finish (software : Option Software)
      (history : Option (List ExtensionMetadata) × Option (List (HistoryEntry Time)))
      (prop : Option Handle) :
      metaFinish (fun _ => true) software history prop
          ((historyMemory history).map Resource.memory ++ hold .software software callerHeld) =
        .ret ⟨.ok, some ⟨software, history.1, history.2⟩,
          (Metadata.owned ⟨software, history.1, history.2⟩).map Resource.memory ++ callerHeld⟩ := by
    refine (if_pos rfl).trans ?_
    simp [Metadata.owned, historyMemory, hold, Ledger.acquire]
  rw [metaDeserializeOwned_eq]
  unfold metaDeserialize mappingGet
  dsimp only
  rw [obtained_granted, obtained_granted]
  cases (Node.mapping tag pairs).lookup historyKey with
  | none => exact finish _ (none, none) none
  | some prop =>
    unfold historyPropertyOwned historyProperty
    dsimp only
    by_cases style : ∀ tag items, prop ≠ .sequence tag items
    · rw [metaHistoryDeserializeOwned_eq style]
      dsimp only [Outcome.ret_bind, pointerTo, Option.map_some]
      rw [valueDestroy_under]
      dsimp only [Outcome.ret_bind]
      rw [finish]
      cases prop with
      | scalar tag style text => rfl
      | sequence tag items => exact absurd rfl (style tag items)
      | mapping tag pairs => rfl
    · push Not at style
      obtain ⟨tag, items, rfl⟩ := style
      rw [metaHistoryDeserializeOwned_old]
      dsimp only [Outcome.ret_bind, pointerTo, Option.map_some]
      unfold hold
      rw [← List.append_assoc, ← List.map_append, valueDestroy_gone]
      rfl

/-- Either deserializer, of any value, with any allocation failing: when it
destroys the handles that it obtains once, leaves the caller's alone, and keeps
nothing on failure. -/
theorem handle_ownership {Time : Type} (timeEnv : TimeEnv) (env : EmitEnv Time)
    (grant : Resource → Bool) (value : Node) :
    (Settles TimeRecord.owned (timeDeserialize timeEnv grant value) ↔
      TimeSettles timeEnv grant value) ∧
    (Settles Metadata.owned (metaDeserializeOwned env grant value) ↔ MetaSettles env grant value) :=
  ⟨time_settles_iff timeEnv grant value, meta_settles_iff env grant value⟩

/-- The bare number `5` as a time, and an empty history of the old style. -/
theorem handles_lost :
    ¬ Settles TimeRecord.owned
        (timeDeserialize ⟨plainScalars, fun _ _ => false⟩ (fun _ => true) (.scalar none .plain [53])) ∧
      ¬ Settles (@Metadata.owned Unit) (metaDeserializeOwned
        ⟨plainScalars, plainBuilder, fun _ => none, [], fun _ => none⟩ (fun _ => true)
        (.mapping none [(.scalar none .plain historyKey, .sequence none [])])) := by
  constructor
  · exact not_settles_of_held .parseFailure rfl
  · exact not_settles_of_fault (e := .memory) rfl

end LibAsdf
