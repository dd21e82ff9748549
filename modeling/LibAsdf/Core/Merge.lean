import Mathlib.Data.List.Forall2
import LibAsdf.Core.Settled

/-!
# The metadata of a file when it is written

What `emit_prepare_tree` makes of the root of a document.

* `emitPrepareRootNode_eq_some`: the root with the library and the history in it;
* `HistoryMerged`, `MergeCorrect`: what is to hold of it, and of a second time;
* `metadata_merge`: when it does.
-/

namespace LibAsdf

variable {Time : Type} {env : EmitEnv Time} {file : EmitFile}

/-! ## The new root -/

/-- An assignment in front, with a key that needs no quotes. -/
def putValue (env : EmitEnv Time) (key : Bytes) (value : Option Node) (pairs : List (Node × Node)) :
    List (Node × Node) :=
  value.elim pairs fun value => assignPair pairs (.scalar none (env.lib.style key) key) value true

/-- The pairs of the root, with the new library and the new history. -/
def mergedPairs (env : EmitEnv Time) (library history : Option Node) (pairs : List (Node × Node)) :
    List (Node × Node) :=
  putValue env asdfLibraryKey library (putValue env historyKey history pairs)

theorem putValue_lookup {key : Bytes} {value : Option Node} {pairs : List (Node × Node)}
    (tag : Option Bytes) (key' : Bytes) : (Node.mapping tag (putValue env key value pairs)).lookup key' =
      if key' = key ∧ value.isSome then value else (Node.mapping tag pairs).lookup key' := by
  cases value with
  | none => simp [putValue]
  | some value =>
    have keyed (v : Node) : keyIs key (.scalar none (env.lib.style key) key, v) = true := by simp [keyIs]
    rw [putValue, Option.elim_some, lookup_assignPair keyed]
    simp

theorem replaceValue_same {key : Bytes} {value : Node} {pairs : List (Node × Node)}
    (found : (pairs.find? (keyIs key)).map Prod.snd = some value) :
    replaceValue key value pairs = some pairs := by
  induction pairs with
  | nil => cases found
  | cons pair rest ih =>
    unfold replaceValue
    by_cases here : keyIs key pair = true
    · rw [List.find?_cons_of_pos here] at found
      cases found
      rw [if_pos here]
    · rw [List.find?_cons_of_neg here] at found
      rw [if_neg here, ih found]
      rfl

/-- An assignment of what is there changes nothing. -/
theorem putValue_same {key : Bytes} {value : Option Node} {pairs : List (Node × Node)}
    {tag : Option Bytes} (found : ∀ v, value = some v → (Node.mapping tag pairs).lookup key = some v) :
    putValue env key value pairs = pairs := by
  cases value with
  | none => rfl
  | some value =>
    have same := replaceValue_same (found value rfl)
    rw [putValue, Option.elim_some, assignPair, Node.text, same]

theorem mergedPairs_lookup {library history : Option Node} {pairs : List (Node × Node)}
    (tag : Option Bytes) (key : Bytes) : (Node.mapping tag (mergedPairs env library history pairs)).lookup key =
      if key = asdfLibraryKey ∧ library.isSome then library
      else if key = historyKey ∧ history.isSome then history
      else (Node.mapping tag pairs).lookup key := by
  rw [mergedPairs, putValue_lookup, putValue_lookup]

/-- The same history again, or none, leaves the root as it is. -/
theorem mergedPairs_again {library history again : Option Node} {pairs : List (Node × Node)}
    (same : again = history ∨ again = none) :
    mergedPairs env library again (mergedPairs env library history pairs) =
      mergedPairs env library history pairs := by
  have differ : historyKey ≠ asdfLibraryKey := by decide
  have first : putValue env historyKey again (mergedPairs env library history pairs) =
      mergedPairs env library history pairs := by
    apply @putValue_same _ env _ _ _ none
    rintro v rfl
    rcases same with rfl | none
    · rw [mergedPairs_lookup]
      simp [differ]
    · cases none
  rw [mergedPairs, first]
  apply @putValue_same _ env _ _ _ none
  rintro v rfl
  rw [mergedPairs_lookup]
  simp

/-- The library that is written, if any is. -/
def LibraryValue (env : EmitEnv Time) (file : EmitFile) (library : Option Node) : Prop :=
  if file.noEmitAsdfLibrary then library = none
  else ∃ value, library = some value ∧ valueOfSoftware env file.asdfLibrary = .ret (some value)

/-- What the new root is made of. -/
structure PreparedRoot (env : EmitEnv Time) (file : EmitFile) (historyEntries : List (HistoryEntry Time))
    (tag : Bytes) (pairs : List (Node × Node)) (library history : Option Node) : Prop where
  metadata : ∃ metadata, metaDeserialize env (.mapping (some tag) pairs) = .ret metadata ∧
    metaHistorySerialize env (newMetadata file historyEntries metadata) = .ret history
  library : LibraryValue env file library
  tag : ∃ resolved, setTag env coreAsdfTag = .ret (some resolved)

theorem plainKey_asdfLibrary : PlainKey env asdfLibraryKey := ⟨rfl, by decide⟩

theorem plainKey_history : PlainKey env historyKey := ⟨rfl, by decide⟩

theorem setLibrary_eq_some {pairs : List (Node × Node)} :
    setLibrary env (if file.noEmitAsdfLibrary then none else some file.asdfLibrary) = .ret (some pairs) ↔
      ∃ library, LibraryValue env file library ∧ pairs = optionalPair env asdfLibraryKey library := by
  unfold LibraryValue
  by_cases omitted : file.noEmitAsdfLibrary = true
  · simp only [omitted, ↓reduceIte, setLibrary, exists_eq_left, optionalPair, Option.toList_none,
      List.map_nil, Outcome.ret.injEq, Option.some.injEq]
    exact eq_comm
  · have set (value : Node) : setValue env asdfLibraryKey value [] =
        some (optionalPair env asdfLibraryKey (some value)) :=
      setValue_absent plainKey_asdfLibrary.built rfl
    simp only [omitted, Bool.false_eq_true, ↓reduceIte, setLibrary, Outcome.bind_eq_ret,
      Outcome.ret.injEq, Option.bind_eq_some_iff]
    constructor
    · rintro ⟨_, made, value, rfl, eq⟩
      rw [set] at eq
      exact ⟨some value, ⟨value, rfl, made⟩, (Option.some.inj eq).symm⟩
    · rintro ⟨_, ⟨value, rfl, made⟩, rfl⟩
      exact ⟨some value, made, value, rfl, set value⟩

theorem metaSerialize_eq_some {metadata : Metadata Time} {historyEntries : List (HistoryEntry Time)}
    {update : List (Node × Node)} :
    metaSerialize env (newMetadata file historyEntries metadata) = .ret (some update) ↔
      ∃ library history, LibraryValue env file library ∧
        metaHistorySerialize env (newMetadata file historyEntries metadata) = .ret history ∧
        update = optionalPair env asdfLibraryKey library ++ optionalPair env historyKey history := by
  have set (library history : Option Node) :
      setOptionalValue env historyKey history (optionalPair env asdfLibraryKey library) =
        some (optionalPair env asdfLibraryKey library ++ optionalPair env historyKey history) := by
    cases history with
    | none => simp [setOptionalValue, optionalPair]
    | some value =>
      apply setValue_absent plainKey_history.built
      cases library <;> rfl
  unfold metaSerialize
  rw [Outcome.bind_eq_ret]
  constructor
  · rintro ⟨pairs, libraried, made⟩
    cases pairs with
    | none => cases made
    | some pairs =>
      obtain ⟨library, value, rfl⟩ := setLibrary_eq_some.mp libraried
      obtain ⟨history, serialized, made⟩ := Outcome.bind_eq_ret.mp made
      rw [set] at made
      cases made
      exact ⟨library, history, value, serialized, rfl⟩
  · rintro ⟨library, history, value, serialized, rfl⟩
    refine ⟨some (optionalPair env asdfLibraryKey library), setLibrary_eq_some.mpr ⟨library, value, rfl⟩, ?_⟩
    simp only [serialized, Outcome.ret_bind, set]

theorem mappingUpdate_eq {library history : Option Node} {pairs : List (Node × Node)} :
    mappingUpdate env pairs (optionalPair env asdfLibraryKey library ++ optionalPair env historyKey history)
        true = some (mergedPairs env library history pairs) := by
  have put {key : Bytes} (plain : PlainKey env key) (same : cString key = key) (value : Option Node)
      (rest pairs : List (Node × Node)) :
      setPairs env true (optionalPair env key value ++ rest) pairs =
        setPairs env true rest (putValue env key value pairs) := by
    cases value with
    | none => rfl
    | some value =>
      simp only [optionalPair, Option.toList_some, List.map_cons, List.map_nil, List.cons_append,
        List.nil_append, setPairs, Node.text, same, mappingSetNode, plain.built, Option.map_some,
        Option.bind_some]
      rfl
  have reversed (key : Bytes) (value : Option Node) :
      (optionalPair env key value).reverse = optionalPair env key value := by
    cases value <;> rfl
  unfold mappingUpdate
  rw [if_pos rfl, List.reverse_append, reversed, reversed, put plainKey_history rfl]
  have last := put plainKey_asdfLibrary rfl library [] (putValue env historyKey history pairs)
  rw [List.append_nil] at last
  rw [last]
  rfl

theorem emitPrepareRootNode_eq_some {historyEntries : List (HistoryEntry Time)} {tag : Bytes}
    {pairs : List (Node × Node)} {root : Node} :
    emitPrepareRootNode env file historyEntries tag pairs = .ret (some root) ↔
      ∃ library history, PreparedRoot env file historyEntries tag pairs library history ∧
        root = .mapping (some tag) (mergedPairs env library history pairs) := by
  unfold emitPrepareRootNode
  rw [Outcome.bind_eq_ret]
  constructor
  · rintro ⟨metadata, deserialized, made⟩
    obtain ⟨value, valued, made⟩ := Outcome.bind_eq_ret.mp made
    cases value with
    | none => cases made
    | some value =>
      obtain ⟨serialized, written, valued⟩ := Outcome.bind_eq_ret.mp valued
      obtain ⟨update, resolved, rfl, set, rfl⟩ := valueOfExtensionType_eq_some.mp valued
      obtain ⟨library, history, isLibrary, isHistory, rfl⟩ := metaSerialize_eq_some.mp written
      simp only [mappingUpdate_eq, Option.map_some, Outcome.ret.injEq, Option.some.injEq] at made
      exact ⟨library, history, ⟨⟨metadata, deserialized, isHistory⟩, isLibrary, resolved, set⟩, made.symm⟩
  · rintro ⟨library, history, ⟨⟨metadata, deserialized, isHistory⟩, isLibrary, resolved, set⟩, rfl⟩
    refine ⟨metadata, deserialized, ?_⟩
    have written := metaSerialize_eq_some.mpr ⟨library, history, isLibrary, isHistory, rfl⟩
    have valued : valueOfMeta env (newMetadata file historyEntries metadata) =
        .ret (some (.mapping (some resolved)
          (optionalPair env asdfLibraryKey library ++ optionalPair env historyKey history))) := by
      unfold valueOfMeta
      rw [written, Outcome.ret_bind]
      exact valueOfExtensionType_eq_some.mpr ⟨_, resolved, rfl, set, rfl⟩
    simp only [valued, Outcome.ret_bind, mappingUpdate_eq, Option.map_some]

/-! ## What is to hold -/

/-- The items of the history of a root, in the old style or in the new. -/
def historyItems (root : Node) : List Node :=
  match root.lookup historyKey with
  | some (.sequence _ items) => items
  | some history => (history.lookup entriesKey).elim [] Node.items
  | none => []

/-- An entry that was there before: the node itself, or one that is read as the
same entry and has the same other keys. -/
def SameEntry (env : EmitEnv Time) (before after : Node) : Prop :=
  after = before ∨ ∃ entry, valueAsHistoryEntry env before = some entry ∧
    valueAsHistoryEntry env after = some entry ∧
    ∀ key, key ≠ descriptionKey → key ≠ softwareKey → after.lookup key = before.lookup key

/-- The entries that there were, and then the new ones. -/
def HistoryMerged (env : EmitEnv Time) (root : Node) (historyEntries : List (HistoryEntry Time))
    (merged : Node) : Prop :=
  ∃ kept new, historyItems merged = kept ++ new ∧
    List.Forall₂ (SameEntry env) (historyItems root) kept ∧
    List.Forall₂ (fun entry node => valueAsHistoryEntry env node = some entry) historyEntries new

/-- What is to hold of a root that was prepared. -/
structure RootMerged (env : EmitEnv Time) (file : EmitFile) (root : Node)
    (historyEntries : List (HistoryEntry Time)) (merged : Node) : Prop where
  others : ∀ key, key ≠ asdfLibraryKey → key ≠ historyKey → merged.lookup key = root.lookup key
  history : HistoryMerged env root historyEntries merged
  again : emitPrepareTree env file [] merged = .ret (some merged)

/-- A mapping that `asdf_value_is_meta` takes for the metadata of a file. -/
def IsCoreAsdf (root : Node) : Prop :=
  (∃ tag pairs, root = .mapping tag pairs) ∧ isExtensionType metaTags root = true

/-- The tree is prepared, and the metadata of a core/asdf mapping is merged. -/
def MergeCorrect (env : EmitEnv Time) (file : EmitFile) (root : Node)
    (historyEntries : List (HistoryEntry Time)) : Prop :=
  ∃ merged, emitPrepareTree env file historyEntries root = .ret (some merged) ∧
    (IsCoreAsdf root → RootMerged env file root historyEntries merged)

/-! ## When it does -/

/-- An item of the history of which nothing is lost. -/
def ItemKept (env : EmitEnv Time) (item : Node) : Prop :=
  ∃ entry, valueAsHistoryEntry env item = some entry ∧ EntryKept env entry ∧
    ∀ key, key ≠ descriptionKey → key ≠ softwareKey → item.lookup key = none

/-- The extensions that are written of a root are written the same again, or
there are no entries and what is read of the extensions is not written. -/
def ExtensionsSettled (env : EmitEnv Time) (root : Node) (historyEntries : List (HistoryEntry Time)) : Prop :=
  ∀ metadata, metaDeserialize env root = .ret metadata →
    ∀ written, arraySerialize (valueOfExtensionMetadata env) metadata.extensions = .ret (some written) →
      (∀ extension ∈ written.items, ExtensionSettled env extension) ∨
        (historyItems root = [] ∧ historyEntries = [] ∧
          arraySerialize (valueOfExtensionMetadata env)
            (itemsDeserialize (valueAsExtensionMetadata env) written) = .ret none)

/-- A core/asdf mapping whose metadata is merged as it is to be: its history is
not of the old style, what is to be written of the metadata can be, if a
history is written then no item of it and no new entry loses anything, and its
extensions are written the same again. -/
structure RootHonoured (env : EmitEnv Time) (file : EmitFile) (pairs : List (Node × Node))
    (historyEntries : List (HistoryEntry Time)) : Prop where
  style : ∀ tag items, (Node.mapping (some coreAsdfTag) pairs).lookup historyKey ≠ some (.sequence tag items)
  library : ∃ library, LibraryValue env file library
  tag : ∃ resolved, setTag env coreAsdfTag = .ret (some resolved)
  history : ∀ metadata, metaDeserialize env (.mapping (some coreAsdfTag) pairs) = .ret metadata →
    ∃ history, metaHistorySerialize env (newMetadata file historyEntries metadata) = .ret history ∧
      (historyEntries ≠ [] ∨ history ≠ none →
        (∀ item ∈ historyItems (.mapping (some coreAsdfTag) pairs), ItemKept env item) ∧
        ∀ entry ∈ historyEntries, EntryKept env entry)
  extensions : ExtensionsSettled env (.mapping (some coreAsdfTag) pairs) historyEntries

/-- The roots of which it holds: no mapping without a tag, no empty container
whose tag cannot be written, and no metadata of an older version if there is a
new entry. -/
structure MergeHonoured (env : EmitEnv Time) (file : EmitFile) (root : Node)
    (historyEntries : List (HistoryEntry Time)) : Prop where
  tagged : ∀ pairs, root ≠ .mapping none pairs
  emptied : ∀ tag, root = .mapping (some tag) [] ∨ root = .sequence (some tag) [] →
    ∃ resolved, setTag env tag = .ret resolved
  core : ∀ pairs, root = .mapping (some coreAsdfTag) pairs → RootHonoured env file pairs historyEntries
  older : ∀ tag pairs, root = .mapping (some tag) pairs → tag ≠ coreAsdfTag →
    isExtensionType metaTags root = true → historyEntries = []

/-- So it is if their strings come back. -/
theorem extensionsSettled_of_stays {root : Node} {historyEntries : List (HistoryEntry Time)}
    (stays : ∀ metadata, metaDeserialize env root = .ret metadata →
      ∀ extension ∈ metadata.extensions.getD [], ExtensionStays env extension) :
    ExtensionsSettled env root historyEntries := by
  intro metadata read written made
  left
  intro value mem
  obtain ⟨extension, mem', made⟩ := arraySerialize_items made mem
  exact extensionSettled_of_stays (stays metadata read extension mem') made

/-! ## The metadata that is read -/

section Metadata

variable {root root' : Node} {metadata : Metadata Time} {historyEntries : List (HistoryEntry Time)}

theorem metaDeserialize_spec (h : metaDeserialize env root = .ret metadata) :
    (∀ tag items, root.lookup historyKey ≠ some (.sequence tag items)) ∧
      metadata.entries.getD [] = (historyItems root).filterMap (valueAsHistoryEntry env) := by
  obtain ⟨history, read, made⟩ := Outcome.bind_eq_ret.mp h
  cases made
  unfold historyItems
  cases found : root.lookup historyKey with
  | none =>
    rw [found] at read
    cases read
    exact ⟨nofun, rfl⟩
  | some value =>
    rw [found] at read
    cases value with
    | scalar tag style text =>
      cases read
      exact ⟨nofun, rfl⟩
    | sequence tag items => cases read
    | mapping tag pairs =>
      cases read
      refine ⟨nofun, ?_⟩
      dsimp only
      cases listed : (Node.mapping tag pairs).lookup entriesKey with
      | none => rfl
      | some entries => cases entries <;> rfl

theorem metaDeserialize_ret (style : ∀ tag items, root.lookup historyKey ≠ some (.sequence tag items)) :
    ∃ metadata, metaDeserialize env root = .ret metadata := by
  unfold metaDeserialize
  cases found : root.lookup historyKey with
  | none => exact ⟨_, rfl⟩
  | some value =>
    cases value with
    | scalar tag style text => exact ⟨_, rfl⟩
    | sequence tag items => exact absurd found (style tag items)
    | mapping tag pairs => exact ⟨_, rfl⟩

/-- The history that is read depends on the value of its key only. -/
theorem metaDeserialize_congr (h : metaDeserialize env root = .ret metadata)
    (same : root'.lookup historyKey = root.lookup historyKey) : ∃ metadata',
      metaDeserialize env root' = .ret metadata' ∧ metadata'.extensions = metadata.extensions ∧
        metadata'.entries = metadata.entries := by
  obtain ⟨history, read, made⟩ := Outcome.bind_eq_ret.mp h
  cases made
  refine ⟨⟨(root'.lookup asdfLibraryKey).bind (valueAsSoftware env), history.1, history.2⟩, ?_, rfl, rfl⟩
  unfold metaDeserialize
  rw [same]
  exact Outcome.bind_eq_ret.mpr ⟨history, read, rfl⟩

theorem metaDeserialize_mapping {tag : Option Bytes} {pairs : List (Node × Node)}
    (found : root.lookup historyKey = some (.mapping tag pairs)) : ∃ metadata,
      metaDeserialize env root = .ret metadata ∧
        metadata.extensions = ((Node.mapping tag pairs).lookup extensionsKey).bind
          (itemsDeserialize (valueAsExtensionMetadata env)) ∧
        metadata.entries = ((Node.mapping tag pairs).lookup entriesKey).bind
          (itemsDeserialize (valueAsHistoryEntry env)) := by
  unfold metaDeserialize
  rw [found]
  exact ⟨_, rfl, rfl, rfl⟩

theorem newMetadata_entries : (newMetadata file historyEntries metadata).entries.getD [] =
    metadata.entries.getD [] ++ historyEntries := by
  unfold newMetadata
  by_cases empty : historyEntries = []
  · simp [empty]
  · simp [empty]

theorem arraySerialize_getD {α : Type} (valueOf : α → Run (Option Node)) (array : Option (List α)) :
    arraySerialize valueOf array = arraySerialize valueOf (some (array.getD [])) := by
  cases array <;> rfl

theorem plainKey_extensions : PlainKey env extensionsKey := ⟨rfl, by decide⟩

theorem plainKey_entries : PlainKey env entriesKey := ⟨rfl, by decide⟩

/-- The history is a mapping with the extensions and the entries, if there are any. -/
theorem historyMapping_spec (extensions entries : Option Node) :
    (historyMapping env extensions entries = none ∧ extensions = none ∧ entries = none) ∨
      ∃ pairs, historyMapping env extensions entries = some (.mapping none pairs) ∧
        (Node.mapping none pairs).lookup extensionsKey = extensions ∧
        (Node.mapping none pairs).lookup entriesKey = entries := by
  have differ : extensionsKey ≠ entriesKey ∧ entriesKey ≠ extensionsKey := by decide
  by_cases nothing : extensions = none ∧ entries = none
  · obtain ⟨rfl, rfl⟩ := nothing
    exact .inl ⟨rfl, rfl, rfl⟩
  · obtain ⟨p₁, set₁⟩ := @setOptionalValue_some _ env _ plainKey_extensions extensions []
    obtain ⟨p₂, set₂⟩ := @setOptionalValue_some _ env _ plainKey_entries entries p₁
    have lookup (key : Bytes) := setOptionalValue_lookup plainKey_entries set₂ none key
    simp only [setOptionalValue_lookup plainKey_extensions set₁ none] at lookup
    refine .inr ⟨p₂, ?_, ?_, ?_⟩
    · unfold historyMapping
      split
      · exact absurd ⟨rfl, rfl⟩ nothing
      · rw [set₁, Option.bind_some, set₂]
        rfl
    · rw [lookup]
      cases extensions <;> simp [differ, Node.lookup]
    · rw [lookup]
      cases entries <;> simp [differ, Node.lookup]

theorem metaHistorySerialize_eq {history : Option Node} :
    metaHistorySerialize env metadata = .ret history ↔ ∃ extensions entries,
      arraySerialize (valueOfExtensionMetadata env) metadata.extensions = .ret extensions ∧
      arraySerialize (valueOfHistoryEntry env) metadata.entries = .ret entries ∧
      history = historyMapping env extensions entries := by
  unfold metaHistorySerialize
  simp only [Outcome.bind_eq_ret, Outcome.ret.injEq]
  constructor
  · rintro ⟨extensions, first, entries, second, rfl⟩
    exact ⟨extensions, entries, first, second, rfl⟩
  · rintro ⟨extensions, entries, first, second, rfl⟩
    exact ⟨extensions, first, entries, second, rfl⟩

end Metadata

/-! ## Entries -/

theorem forall₂_split {α β : Type} {R : α → β → Prop} {a b : List α} {c d : List β}
    (length : a.length = c.length) (h : List.Forall₂ R (a ++ b) (c ++ d)) :
    List.Forall₂ R a c ∧ List.Forall₂ R b d := by
  induction a generalizing c with
  | nil =>
    obtain rfl := List.length_eq_zero_iff.mp length.symm
    exact ⟨.nil, h⟩
  | cons x a ih =>
    cases c with
    | nil => cases length
    | cons y c =>
      cases h with
      | cons here later =>
        obtain ⟨first, second⟩ := ih (Nat.succ.inj length) later
        exact ⟨.cons here first, second⟩

/-- If no item is left out then each has its value. -/
theorem forall₂_filterMap {α β : Type} {f : α → Option β} {items : List α}
    (length : items.length = (items.filterMap f).length) :
    List.Forall₂ (fun item value => f item = some value) items (items.filterMap f) := by
  induction items with
  | nil => exact .nil
  | cons item rest ih =>
    cases here : f item with
    | none =>
      have shorter := List.length_filterMap_le f rest
      rw [List.filterMap_cons_none here, List.length_cons] at length
      omega
    | some value =>
      rw [List.filterMap_cons_some here] at length ⊢
      exact .cons here (ih (Nat.succ.inj length))

section Entries

variable {items kept : List Node} {entries historyEntries : List (HistoryEntry Time)}

/-- Entries that were written and come back are kept. -/
theorem entriesKept_of_read {new : List Node}
    (written : List.Forall₂ (fun entry node => valueOfHistoryEntry env entry = .ret (some node))
      historyEntries new)
    (read : List.Forall₂ (fun entry node => valueAsHistoryEntry env node = some entry) historyEntries new) :
    ∀ entry ∈ historyEntries, EntryKept env entry := by
  induction written with
  | nil => nofun
  | @cons entry node rest new made written ih =>
    cases read with
    | cons as read =>
      intro other mem
      rcases List.mem_cons.mp mem with rfl | mem
      · exact historyEntry_round_trip.mp ((rereadEntry_eq made).trans as)
      · exact ih read other mem

/-- An item that comes back as it was is kept. -/
theorem itemKept_of_same {item node : Node} {entry : HistoryEntry Time}
    (made : valueOfHistoryEntry env entry = .ret (some node))
    (as : valueAsHistoryEntry env item = some entry) (same : SameEntry env item node) :
    ItemKept env item := by
  have written := valueOfHistoryEntry_node made
  rcases same with rfl | ⟨entry', as', again, others⟩
  · exact ⟨entry, as, historyEntry_round_trip.mp ((rereadEntry_eq made).trans as), written.others⟩
  · cases as.symm.trans as'
    refine ⟨entry, as, historyEntry_round_trip.mp ((rereadEntry_eq made).trans again), fun key h h' => ?_⟩
    rw [← others key h h']
    exact written.others key h h'

theorem itemsKept_of_same
    (read : List.Forall₂ (fun item entry => valueAsHistoryEntry env item = some entry) items entries)
    (written : List.Forall₂ (fun entry node => valueOfHistoryEntry env entry = .ret (some node)) entries kept)
    (same : List.Forall₂ (SameEntry env) items kept) : ∀ item ∈ items, ItemKept env item := by
  induction read generalizing kept with
  | nil => nofun
  | @cons item entry items entries as read ih =>
    cases written with
    | cons made written =>
      cases same with
      | cons here same =>
        intro other mem
        rcases List.mem_cons.mp mem with rfl | mem
        · exact itemKept_of_same made as here
        · exact ih written same other mem

/-- The nodes of entries that are kept. -/
theorem entries_written (kept : ∀ entry ∈ entries, EntryKept env entry) : ∃ nodes,
    List.Forall₂ (fun entry node => valueOfHistoryEntry env entry = .ret (some node)) entries nodes ∧
      List.Forall₂ (fun entry node => valueAsHistoryEntry env node = some entry) entries nodes := by
  induction entries with
  | nil => exact ⟨[], .nil, .nil⟩
  | cons entry rest ih =>
    obtain ⟨node, made, as⟩ := valueOfHistoryEntry_kept (kept entry List.mem_cons_self)
    obtain ⟨nodes, written, read⟩ := ih fun e mem => kept e (List.mem_cons_of_mem entry mem)
    exact ⟨node :: nodes, .cons made written, .cons as read⟩

/-- Items that are kept, and the entries that they are. -/
theorem items_entries (all : ∀ item ∈ items, ItemKept env item) :
    List.Forall₂ (fun item entry => valueAsHistoryEntry env item = some entry) items
        (items.filterMap (valueAsHistoryEntry env)) ∧
      ∀ entry ∈ items.filterMap (valueAsHistoryEntry env), EntryKept env entry := by
  induction items with
  | nil => exact ⟨.nil, nofun⟩
  | cons item rest ih =>
    obtain ⟨entry, as, keptEntry, -⟩ := all item List.mem_cons_self
    obtain ⟨read, keptRest⟩ := ih fun i mem => all i (List.mem_cons_of_mem item mem)
    rw [List.filterMap_cons_some as]
    exact ⟨.cons as read, List.forall_mem_cons.mpr ⟨keptEntry, keptRest⟩⟩

theorem sameEntries_of_kept (all : ∀ item ∈ items, ItemKept env item)
    (written : List.Forall₂ (fun entry node => valueOfHistoryEntry env entry = .ret (some node))
      (items.filterMap (valueAsHistoryEntry env)) kept)
    (read : List.Forall₂ (fun entry node => valueAsHistoryEntry env node = some entry)
      (items.filterMap (valueAsHistoryEntry env)) kept) : List.Forall₂ (SameEntry env) items kept := by
  induction items generalizing kept with
  | nil =>
    cases written
    exact .nil
  | cons item rest ih =>
    obtain ⟨entry, as, -, others⟩ := all item List.mem_cons_self
    rw [List.filterMap_cons_some as] at written read
    cases written with
    | @cons _ node _ kept made written =>
      cases read with
      | cons as' read =>
        refine .cons (.inr ⟨entry, as, as', fun key h h' => ?_⟩)
          (ih (fun i mem => all i (List.mem_cons_of_mem item mem)) written read)
        rw [others key h h', (valueOfHistoryEntry_node made).others key h h']

end Entries

/-! ## The tree -/

section Tree

variable {root merged : Node} {historyEntries : List (HistoryEntry Time)}

theorem emitPrepareTree_eq_some : emitPrepareTree env file historyEntries root = .ret (some merged) ↔
    ∃ prepared, prepareMetadata env file historyEntries root = .ret (some prepared) ∧
      replaceEmptyRoot env prepared = .ret merged := by
  unfold emitPrepareTree
  simp only [Outcome.bind_eq_ret, Outcome.ret.injEq]
  constructor
  · rintro ⟨prepared, made, replaced, emptied, eq⟩
    cases prepared with
    | none => cases eq
    | some prepared =>
      cases eq
      exact ⟨prepared, made, emptied⟩
  · rintro ⟨prepared, made, emptied⟩
    exact ⟨some prepared, made, merged, emptied, rfl⟩

/-- A root is replaced only if there is nothing in it. -/
theorem replaceEmptyRoot_cases (h : replaceEmptyRoot env root = .ret merged) :
    merged = root ∨ (∀ key, root.lookup key = none) ∧ ∃ tag style, merged = .scalar tag style [] := by
  unfold replaceEmptyRoot at h
  split at h
  · obtain ⟨tag, -, eq⟩ := Outcome.bind_eq_ret.mp h
    cases eq
    cases tag with
    | none => exact .inl rfl
    | some tag => exact .inr ⟨fun _ => rfl, _, _, rfl⟩
  · obtain ⟨tag, -, eq⟩ := Outcome.bind_eq_ret.mp h
    cases eq
    cases tag with
    | none => exact .inl rfl
    | some tag => exact .inr ⟨fun _ => rfl, _, _, rfl⟩
  · cases h
    exact .inr ⟨fun _ => rfl, _, _, rfl⟩
  · cases h
    exact .inr ⟨fun _ => rfl, _, _, rfl⟩
  · cases h
    exact .inl rfl

theorem replaceEmptyRoot_lookup (h : replaceEmptyRoot env root = .ret merged) (key : Bytes) :
    merged.lookup key = root.lookup key := by
  rcases replaceEmptyRoot_cases h with rfl | ⟨empty, tag, style, rfl⟩
  · rfl
  · exact (empty key).symm

theorem replaceEmptyRoot_ret : (∃ merged, replaceEmptyRoot env root = .ret merged) ↔
    ∀ tag, root = .mapping (some tag) [] ∨ root = .sequence (some tag) [] →
      ∃ resolved, setTag env tag = .ret resolved := by
  constructor
  · rintro ⟨merged, h⟩ tag (rfl | rfl) <;>
    · obtain ⟨resolved, set, -⟩ := Outcome.bind_eq_ret.mp h
      exact ⟨resolved, set⟩
  · intro set
    unfold replaceEmptyRoot
    split
    · rename_i tag
      obtain ⟨resolved, eq⟩ := set tag (.inl rfl)
      rw [eq]
      exact ⟨_, rfl⟩
    · rename_i tag
      obtain ⟨resolved, eq⟩ := set tag (.inr rfl)
      rw [eq]
      exact ⟨_, rfl⟩
    · exact ⟨_, rfl⟩
    · exact ⟨_, rfl⟩
    · exact ⟨_, rfl⟩

theorem historyItems_congr (same : merged.lookup historyKey = root.lookup historyKey) :
    historyItems merged = historyItems root := by
  unfold historyItems
  rw [same]

theorem historyMerged_congr {merged' : Node}
    (same : merged'.lookup historyKey = merged.lookup historyKey)
    (h : HistoryMerged env root historyEntries merged) : HistoryMerged env root historyEntries merged' := by
  obtain ⟨kept, new, items, whole⟩ := h
  exact ⟨kept, new, (historyItems_congr same).trans items, whole⟩

theorem historyItems_mapping {tag : Option Bytes} {pairs : List (Node × Node)}
    (found : root.lookup historyKey = some (.mapping tag pairs)) :
    historyItems root = ((Node.mapping tag pairs).lookup entriesKey).elim [] Node.items := by
  unfold historyItems
  rw [found]

/-- The entries as they are written, from the nodes that they give. -/
theorem arraySerialize_nodes {α : Type} {valueOf : α → Run (Option Node)} {array : Option (List α)}
    {items : List α} {nodes : List Node} (eq : array.getD [] = items)
    (written : List.Forall₂ (fun item node => valueOf item = .ret (some node)) items nodes) :
    ∃ value, arraySerialize valueOf array = .ret value ∧ value.elim [] Node.items = nodes ∧
      (items ≠ [] → value ≠ none) := by
  rw [arraySerialize_getD, eq]
  cases written with
  | nil => exact ⟨none, rfl, rfl, fun nonempty => absurd rfl nonempty⟩
  | @cons item node items nodes here later =>
    refine ⟨some (.sequence none (node :: nodes)), ?_, rfl, nofun⟩
    exact arraySerialize_eq_some.mpr ⟨_, _, rfl, by simp, rfl, .cons here later⟩

/-- The items of the history once it is in the root. -/
theorem historyItems_merged {library extensions entries : Option Node} {tag : Option Bytes}
    {pairs : List (Node × Node)} :
    historyItems (.mapping tag (mergedPairs env library (historyMapping env extensions entries) pairs)) =
      if historyMapping env extensions entries = none then historyItems (.mapping tag pairs)
      else entries.elim [] Node.items := by
  have differ : historyKey ≠ asdfLibraryKey := by decide
  rcases @historyMapping_spec _ env extensions entries with ⟨nothing, -, -⟩ | ⟨history, eq, -, listed⟩
  · rw [nothing, if_pos rfl]
    apply historyItems_congr
    rw [mergedPairs_lookup]
    simp [differ]
  · rw [eq, if_neg nofun, ← listed]
    apply historyItems_mapping
    rw [mergedPairs_lookup]
    simp [differ]

/-- What the entries are made of. -/
theorem newEntries {metadata : Metadata Time} (read : metaDeserialize env root = .ret metadata) :
    (newMetadata file historyEntries metadata).entries.getD [] =
      (historyItems root).filterMap (valueAsHistoryEntry env) ++ historyEntries := by
  rw [newMetadata_entries, (metaDeserialize_spec read).2]

theorem newEntries_kept {metadata : Metadata Time} (read : metaDeserialize env root = .ret metadata)
    (items : ∀ item ∈ historyItems root, ItemKept env item)
    (added : ∀ entry ∈ historyEntries, EntryKept env entry) :
    ∀ entry ∈ (newMetadata file historyEntries metadata).entries.getD [], EntryKept env entry := by
  rw [newEntries read]
  exact List.forall_mem_append.mpr ⟨(items_entries items).2, added⟩

/-- If the entries are as they are to be then nothing of them was lost. -/
theorem entriesKept_of_merged {metadata : Metadata Time} {library value : Option Node} {tag : Option Bytes}
    {pairs : List (Node × Node)} (read : metaDeserialize env (.mapping tag pairs) = .ret metadata)
    (serialized : metaHistorySerialize env (newMetadata file historyEntries metadata) = .ret value)
    (history : HistoryMerged env (.mapping tag pairs) historyEntries
      (.mapping tag (mergedPairs env library value pairs)))
    (rewritten : historyEntries ≠ [] ∨ value ≠ none) :
    (∀ item ∈ historyItems (.mapping tag pairs), ItemKept env item) ∧
      ∀ entry ∈ historyEntries, EntryKept env entry := by
  obtain ⟨extensions, entries, -, listed, rfl⟩ := metaHistorySerialize_eq.mp serialized
  obtain ⟨kept, added, items, same, asNew⟩ := history
  rw [historyItems_merged] at items
  have lengthKept := same.length_eq
  have lengthNew := asNew.length_eq
  rw [arraySerialize_getD, newEntries read] at listed
  split at items
  · -- Nothing is written, so there is nothing new.
    rename_i nothing
    have total := congrArg List.length items
    rw [List.length_append] at total
    have none : historyEntries = [] := List.length_eq_zero_iff.mp (by omega)
    exact absurd rewritten (by simp [none, nothing])
  · cases entries with
    | none =>
      obtain ⟨rfl, rfl⟩ := List.append_eq_nil_iff.mp items.symm
      have noItems : historyItems (.mapping tag pairs) = [] := List.length_eq_zero_iff.mp lengthKept
      have noEntries : historyEntries = [] := List.length_eq_zero_iff.mp lengthNew
      rw [noItems, noEntries]
      exact ⟨nofun, nofun⟩
    | some entries =>
      obtain ⟨_, nodes, eq, -, rfl, written⟩ := arraySerialize_eq_some.mp listed
      cases eq
      change nodes = kept ++ added at items
      subst items
      have total := written.length_eq
      rw [List.length_append, List.length_append] at total
      have split := forall₂_split (by omega) written
      refine ⟨itemsKept_of_same (forall₂_filterMap (by omega)) split.1 same, ?_⟩
      exact entriesKept_of_read split.2 asNew

/-- What a second time makes of the history: the extensions that are read of
those that were written, and the same entries. -/
theorem history_again {metadata : Metadata Time} {library extensions entries again : Option Node}
    {tag : Option Bytes} {pairs : List (Node × Node)}
    (listed : arraySerialize (valueOfHistoryEntry env) metadata.entries = .ret entries)
    (kept : ∀ entry ∈ metadata.entries.getD [], EntryKept env entry)
    (present : historyMapping env extensions entries ≠ none) :
    (∃ metadata', metaDeserialize env
          (.mapping tag (mergedPairs env library (historyMapping env extensions entries) pairs)) =
        .ret metadata' ∧ metaHistorySerialize env (newMetadata file [] metadata') = .ret again) ↔
      ∃ extensions', arraySerialize (valueOfExtensionMetadata env)
          (extensions.bind (itemsDeserialize (valueAsExtensionMetadata env))) = .ret extensions' ∧
        again = historyMapping env extensions' entries := by
  have differ : historyKey ≠ asdfLibraryKey := by decide
  have found := @mergedPairs_lookup _ env library (historyMapping env extensions entries) pairs tag historyKey
  simp only [differ, false_and, ↓reduceIte, true_and, Option.isSome_iff_ne_none.mpr present] at found
  rcases @historyMapping_spec _ env extensions entries with ⟨nothing, -, -⟩ | ⟨pairs', eq, ext, ent⟩
  · exact absurd nothing present
  · rw [eq] at found ⊢
    obtain ⟨metadata', read, extensions', entries'⟩ := @metaDeserialize_mapping _ env _ _ _ found
    rw [ext] at extensions'
    rw [ent] at entries'
    have sameEntries : arraySerialize (valueOfHistoryEntry env) metadata'.entries = .ret entries := by
      rw [entries']
      cases entries with
      | none => rfl
      | some value =>
        apply (arraySerialize_again listed).mpr
        intro node mem
        obtain ⟨entry, mem', made⟩ := arraySerialize_items listed mem
        obtain ⟨node', made', as⟩ := valueOfHistoryEntry_kept (kept entry mem')
        cases made.symm.trans made'
        exact ⟨entry, as, made⟩
    rw [← extensions']
    constructor
    · rintro ⟨_, read', made⟩
      cases read.symm.trans read'
      obtain ⟨extensions'', entries'', first, second, rfl⟩ := metaHistorySerialize_eq.mp made
      change arraySerialize (valueOfHistoryEntry env) metadata'.entries = .ret entries'' at second
      cases sameEntries.symm.trans second
      exact ⟨extensions'', first, rfl⟩
    · rintro ⟨extensions'', first, rfl⟩
      exact ⟨metadata', read, metaHistorySerialize_eq.mpr ⟨extensions'', entries, first, sameEntries, rfl⟩⟩

/-- A second time the root is made of the same library, and of the same history
or none. -/
theorem prepared_again {tag : Bytes} {pairs : List (Node × Node)} {library history : Option Node}
    (prepared : PreparedRoot env file historyEntries tag pairs library history)
    (unchanged : history = none → historyEntries = [])
    (kept : ∀ metadata, metaDeserialize env (.mapping (some tag) pairs) = .ret metadata → history ≠ none →
      ∀ entry ∈ (newMetadata file historyEntries metadata).entries.getD [], EntryKept env entry)
    (settled : ExtensionsSettled env (.mapping (some tag) pairs) historyEntries) : ∃ again,
      (again = history ∨ again = none) ∧
        PreparedRoot env file [] tag (mergedPairs env library history pairs) library again := by
  obtain ⟨⟨metadata, read, serialized⟩, isLibrary, isTag⟩ := prepared
  have differ : historyKey ≠ asdfLibraryKey := by decide
  obtain ⟨extensions, entries, first, second, rfl⟩ := metaHistorySerialize_eq.mp serialized
  by_cases nothing : historyMapping env extensions entries = none
  · have found := @mergedPairs_lookup _ env library none pairs (some tag) historyKey
    simp only [differ, false_and, ↓reduceIte, Option.isSome_none, Bool.false_eq_true, and_false] at found
    obtain ⟨metadata', read', sameExtensions, sameEntries⟩ := metaDeserialize_congr read found
    have same : newMetadata file [] metadata' = newMetadata file historyEntries metadata := by
      simp only [newMetadata, unchanged nothing, sameExtensions, sameEntries, ↓reduceIte]
    refine ⟨none, .inr rfl, ⟨metadata', by rw [nothing]; exact read', ?_⟩, isLibrary, isTag⟩
    rw [same, serialized, nothing]
  · have made (again : Option Node) := (@history_again _ env file _ library extensions entries again
      (some tag) pairs second (kept metadata read nothing) nothing).mpr
    cases extensions with
    | none => exact ⟨_, .inl rfl, made _ ⟨none, rfl, rfl⟩, isLibrary, isTag⟩
    | some written =>
      rcases settled metadata read written first with each | ⟨noItems, noEntries, unwritten⟩
      · have same := (arraySerialize_again first).mpr fun node mem => extension_settled_iff.mp (each node mem)
        exact ⟨_, .inl rfl, made _ ⟨some written, same, rfl⟩, isLibrary, isTag⟩
      · have none : entries = .none := by
          rw [arraySerialize_getD, newEntries read, noItems, noEntries] at second
          exact (Outcome.ret.inj second).symm
        exact ⟨_, .inr rfl, made _ ⟨.none, unwritten, by rw [none]; rfl⟩, isLibrary, isTag⟩

/-- The entries of the new root, if none of them loses anything. -/
theorem historyMerged_of_kept {metadata : Metadata Time} {library extensions entries : Option Node}
    {tag : Bytes} {pairs : List (Node × Node)}
    (read : metaDeserialize env (.mapping (some tag) pairs) = .ret metadata)
    (listed : arraySerialize (valueOfHistoryEntry env) (newMetadata file historyEntries metadata).entries =
      .ret entries)
    (items : ∀ item ∈ historyItems (.mapping (some tag) pairs), ItemKept env item)
    (added : ∀ entry ∈ historyEntries, EntryKept env entry) :
    HistoryMerged env (.mapping (some tag) pairs) historyEntries
      (.mapping (some tag) (mergedPairs env library (historyMapping env extensions entries) pairs)) := by
  obtain ⟨asEntries, keptEntries⟩ := items_entries items
  obtain ⟨kept, written, readKept⟩ := entries_written keptEntries
  obtain ⟨new, writtenNew, readNew⟩ := entries_written added
  refine ⟨kept, new, ?_, sameEntries_of_kept items written readKept, readNew⟩
  obtain ⟨value, serialized, nodes, -⟩ :=
    arraySerialize_nodes (newEntries read) (List.rel_append written writtenNew)
  cases serialized.symm.trans listed
  rw [historyItems_merged]
  split
  · rename_i nothing
    rcases @historyMapping_spec _ env extensions entries with ⟨-, -, rfl⟩ | ⟨pairs', eq, -, -⟩
    · -- No node was written, so there was no item.
      obtain ⟨rfl, rfl⟩ := List.append_eq_nil_iff.mp nodes.symm
      have noItems := asEntries.length_eq.trans written.length_eq
      rw [List.length_eq_zero_iff.mp noItems]
      rfl
    · exact nomatch eq.symm.trans nothing
  · exact nodes

/-- A new entry that is kept is written. -/
theorem history_written {metadata : Metadata Time} {history : Option Node}
    (read : metaDeserialize env root = .ret metadata)
    (serialized : metaHistorySerialize env (newMetadata file historyEntries metadata) = .ret history)
    (items : ∀ item ∈ historyItems root, ItemKept env item)
    (added : ∀ entry ∈ historyEntries, EntryKept env entry) (some : historyEntries ≠ []) :
    history ≠ none := by
  obtain ⟨extensions, entries, -, listed, rfl⟩ := metaHistorySerialize_eq.mp serialized
  obtain ⟨kept, written, -⟩ := entries_written (items_entries items).2
  obtain ⟨new, writtenNew, -⟩ := entries_written added
  obtain ⟨value, serialized, -, present⟩ :=
    arraySerialize_nodes (newEntries read) (List.rel_append written writtenNew)
  cases serialized.symm.trans listed
  rcases @historyMapping_spec _ env extensions entries with ⟨-, -, absent⟩ | ⟨pairs', eq, -, -⟩
  · exact absurd absent (present (by simp [some]))
  · rw [eq]
    nofun

/-- If a second time leaves the root as it is then the extensions are settled. -/
theorem extensionsSettled_of_again {metadata : Metadata Time} {library value : Option Node} {tag : Bytes}
    {pairs : List (Node × Node)} (read : metaDeserialize env (.mapping (some tag) pairs) = .ret metadata)
    (serialized : metaHistorySerialize env (newMetadata file historyEntries metadata) = .ret value)
    (kept : value ≠ none → (∀ item ∈ historyItems (.mapping (some tag) pairs), ItemKept env item) ∧
      ∀ entry ∈ historyEntries, EntryKept env entry)
    (again : value ≠ none → emitPrepareRootNode env file [] tag (mergedPairs env library value pairs) =
      .ret (some (.mapping (some tag) (mergedPairs env library value pairs)))) :
    ExtensionsSettled env (.mapping (some tag) pairs) historyEntries := by
  intro metadata' read' written first
  cases read.symm.trans read'
  obtain ⟨extensions, entries, first', listed, rfl⟩ := metaHistorySerialize_eq.mp serialized
  cases first.symm.trans first'
  have present : historyMapping env (some written) entries ≠ none := by
    rcases @historyMapping_spec _ env (some written) entries with ⟨-, none, -⟩ | ⟨_, eq, -, -⟩
    · cases none
    · rw [eq]
      nofun
  obtain ⟨items, added⟩ := kept present
  have whole := @newEntries_kept _ _ file _ _ _ read items added
  obtain ⟨library', history', ⟨second, -, -⟩, same⟩ := emitPrepareRootNode_eq_some.mp (again present)
  obtain ⟨written', rewritten, rfl⟩ := (history_again listed whole present).mp second
  have placed := congrArg (Node.lookup historyKey) same
  have differ : historyKey ≠ asdfLibraryKey := by decide
  rw [mergedPairs_lookup, mergedPairs_lookup] at placed
  simp only [differ, false_and, ↓reduceIte, true_and, Option.isSome_iff_ne_none.mpr present] at placed
  rcases @historyMapping_spec _ env written' entries with ⟨-, rfl, rfl⟩ | ⟨pairs', eq, ext, -⟩
  · -- Nothing is written the second time, so there were no entries.
    right
    obtain ⟨nodes, made, -⟩ := entries_written whole
    obtain ⟨value, serialized, -, some⟩ := arraySerialize_nodes rfl made
    cases serialized.symm.trans listed
    have none : (newMetadata file historyEntries metadata).entries.getD [] = [] := by
      by_contra nonempty
      exact some nonempty rfl
    rw [newEntries read] at none
    obtain ⟨noEntries, noNew⟩ := List.append_eq_nil_iff.mp none
    refine ⟨?_, noNew, rewritten⟩
    have length := (items_entries items).1.length_eq
    rw [noEntries] at length
    exact List.length_eq_zero_iff.mp length
  · left
    have same : written' = some written := by
      rw [eq] at placed
      rcases @historyMapping_spec _ env (some written) entries with ⟨-, none, -⟩ | ⟨pairs'', eq', ext', -⟩
      · cases none
      · rw [eq'] at placed
        cases placed
        exact ext.symm.trans ext'
    subst same
    exact fun node mem => extension_settled_iff.mpr ((arraySerialize_again first).mp rewritten node mem)

/-- A root that is merged as it is to be is honoured. -/
theorem rootHonoured_of_merged {pairs : List (Node × Node)}
    (prepared : emitPrepareTree env file historyEntries (.mapping (some coreAsdfTag) pairs) =
      .ret (some merged))
    (whole : RootMerged env file (.mapping (some coreAsdfTag) pairs) historyEntries merged) :
    RootHonoured env file pairs historyEntries := by
  obtain ⟨new, made, emptied⟩ := emitPrepareTree_eq_some.mp prepared
  rw [prepareMetadata, if_pos rfl] at made
  obtain ⟨library, value, ⟨⟨metadata, read, serialized⟩, isLibrary, isTag⟩, rfl⟩ :=
    emitPrepareRootNode_eq_some.mp made
  have kept := entriesKept_of_merged read serialized
    (historyMerged_congr (replaceEmptyRoot_lookup emptied historyKey).symm whole.history)
  refine ⟨(metaDeserialize_spec read).1, ⟨library, isLibrary⟩, isTag, fun metadata' read' => ?_, ?_⟩
  · cases read.symm.trans read'
    exact ⟨value, serialized, kept⟩
  · have again (present : value ≠ none) :
        emitPrepareRootNode env file [] coreAsdfTag (mergedPairs env library value pairs) =
          .ret (some (.mapping (some coreAsdfTag) (mergedPairs env library value pairs))) := by
      have differ : historyKey ≠ asdfLibraryKey := by decide
      have found := @mergedPairs_lookup _ env library value pairs (some coreAsdfTag) historyKey
      simp only [differ, false_and, ↓reduceIte, true_and, Option.isSome_iff_ne_none.mpr present] at found
      rcases replaceEmptyRoot_cases emptied with rfl | ⟨empty, -⟩
      · obtain ⟨new, made', emptied'⟩ := emitPrepareTree_eq_some.mp whole.again
        rw [prepareMetadata, if_pos rfl] at made'
        rcases replaceEmptyRoot_cases emptied' with rfl | ⟨-, tag, style, eq⟩
        · exact made'
        · cases eq
      · exact absurd (found.symm.trans (empty historyKey)) present
    exact extensionsSettled_of_again read serialized (fun present => kept (.inr present)) again

theorem rootMerged_of_honoured {pairs : List (Node × Node)}
    (honoured : RootHonoured env file pairs historyEntries) :
    ∃ merged, emitPrepareTree env file historyEntries (.mapping (some coreAsdfTag) pairs) =
        .ret (some merged) ∧
      RootMerged env file (.mapping (some coreAsdfTag) pairs) historyEntries merged := by
  obtain ⟨metadata, read⟩ := metaDeserialize_ret honoured.style
  obtain ⟨history, serialized, kept⟩ := honoured.history metadata read
  obtain ⟨library, isLibrary⟩ := honoured.library
  have prepared : PreparedRoot env file historyEntries coreAsdfTag pairs library history :=
    ⟨⟨metadata, read, serialized⟩, isLibrary, honoured.tag⟩
  obtain ⟨merged, emptied⟩ : ∃ merged, replaceEmptyRoot env
      (.mapping (some coreAsdfTag) (mergedPairs env library history pairs)) = .ret merged := by
    apply replaceEmptyRoot_ret.mpr
    intro tag same
    obtain ⟨resolved, set⟩ := honoured.tag
    rcases same with same | same
    · obtain ⟨rfl, -⟩ := Node.mapping.inj same |>.imp Option.some.inj id
      exact ⟨_, set⟩
    · exact nomatch same
  have once {entries : List (HistoryEntry Time)} {pairs' : List (Node × Node)} {history' : Option Node}
      (made : PreparedRoot env file entries coreAsdfTag pairs' library history') :
      prepareMetadata env file entries (.mapping (some coreAsdfTag) pairs') =
        .ret (some (.mapping (some coreAsdfTag) (mergedPairs env library history' pairs'))) := by
    rw [prepareMetadata, if_pos rfl]
    exact emitPrepareRootNode_eq_some.mpr ⟨library, history', made, rfl⟩
  refine ⟨merged, emitPrepareTree_eq_some.mpr ⟨_, once prepared, emptied⟩, ?_, ?_, ?_⟩
  · intro key other other'
    rw [replaceEmptyRoot_lookup emptied, mergedPairs_lookup]
    simp [other, other']
  · obtain ⟨extensions, entries, -, listed, rfl⟩ := metaHistorySerialize_eq.mp serialized
    apply historyMerged_congr (replaceEmptyRoot_lookup emptied historyKey)
    by_cases rewritten : historyEntries ≠ [] ∨ historyMapping env extensions entries ≠ none
    · obtain ⟨items, added⟩ := kept rewritten
      exact historyMerged_of_kept read listed items added
    · obtain ⟨noEntries, nothing⟩ := not_or.mp rewritten
      rw [not_not.mp noEntries]
      refine ⟨_, [], ?_, List.forall₂_same.mpr fun _ _ => .inl rfl, .nil⟩
      rw [historyItems_merged, if_pos (not_not.mp nothing), List.append_nil]
  · rcases replaceEmptyRoot_cases emptied with rfl | ⟨-, tag, style, rfl⟩
    · have unchanged : history = none → historyEntries = [] := by
        intro nothing
        by_contra some
        obtain ⟨items, added⟩ := kept (.inl some)
        exact history_written read serialized items added some nothing
      obtain ⟨again, same, made⟩ := prepared_again prepared unchanged
        (fun metadata' read' some => newEntries_kept read' (kept (.inr some)).1 (kept (.inr some)).2)
        honoured.extensions
      have second := once made
      rw [mergedPairs_again same] at second
      exact emitPrepareTree_eq_some.mpr ⟨_, second, emptied⟩
    · rfl

end Tree

section Correct

variable {root : Node} {historyEntries : List (HistoryEntry Time)}

theorem isCoreAsdf_core (pairs : List (Node × Node)) : IsCoreAsdf (.mapping (some coreAsdfTag) pairs) :=
  ⟨⟨_, _, rfl⟩, decide_eq_true (by decide : yamlTagCanonicalize coreAsdfTag ∈ metaTags)⟩

theorem prepareMetadata_older {tag : Bytes} {pairs : List (Node × Node)} (older : tag ≠ coreAsdfTag) :
    prepareMetadata env file historyEntries (.mapping (some tag) pairs) =
      .ret (some (.mapping (some tag) pairs)) := by
  rw [prepareMetadata, if_neg older]

theorem mergeHonoured_of_correct (correct : MergeCorrect env file root historyEntries) :
    MergeHonoured env file root historyEntries := by
  obtain ⟨merged, prepared, core⟩ := correct
  obtain ⟨new, made, emptied⟩ := emitPrepareTree_eq_some.mp prepared
  constructor
  · rintro pairs rfl
    cases made
  · intro tag empty
    by_cases new_ : prepareMetadata env file historyEntries root = .ret (some root)
    · cases new_.symm.trans made
      exact replaceEmptyRoot_ret.mp ⟨merged, emptied⟩ tag empty
    · rcases empty with rfl | rfl
      · by_cases same : tag = coreAsdfTag
        · rw [prepareMetadata, if_pos same] at made
          obtain ⟨library, history, parts, -⟩ := emitPrepareRootNode_eq_some.mp made
          obtain ⟨resolved, set⟩ := parts.tag
          exact ⟨_, same ▸ set⟩
        · exact absurd (prepareMetadata_older same) new_
      · exact absurd rfl new_
  · rintro pairs rfl
    exact rootHonoured_of_merged prepared (core (isCoreAsdf_core pairs))
  · rintro tag pairs rfl older is
    rw [prepareMetadata_older older] at made
    cases made
    obtain ⟨kept, added, items, same, asNew⟩ := (core ⟨⟨_, _, rfl⟩, is⟩).history
    rw [historyItems_congr (replaceEmptyRoot_lookup emptied historyKey)] at items
    have total := congrArg List.length items
    rw [List.length_append, same.length_eq, ← asNew.length_eq] at total
    exact List.length_eq_zero_iff.mp (by omega)

/-- A root that is not touched, but for being replaced if it is empty. -/
theorem mergeCorrect_of_untouched
    (untouched : ∀ entries, prepareMetadata env file entries root = .ret (some root))
    (emptied : ∀ tag, root = .mapping (some tag) [] ∨ root = .sequence (some tag) [] →
      ∃ resolved, setTag env tag = .ret resolved)
    (older : IsCoreAsdf root → historyEntries = []) : MergeCorrect env file root historyEntries := by
  obtain ⟨merged, replaced⟩ := replaceEmptyRoot_ret.mpr emptied
  refine ⟨merged, emitPrepareTree_eq_some.mpr ⟨root, untouched _, replaced⟩, fun core => ?_⟩
  constructor
  · exact fun key _ _ => replaceEmptyRoot_lookup replaced key
  · rw [older core]
    refine ⟨historyItems root, [], ?_, List.forall₂_same.mpr fun _ _ => .inl rfl, .nil⟩
    rw [List.append_nil]
    exact historyItems_congr (replaceEmptyRoot_lookup replaced historyKey)
  · rcases replaceEmptyRoot_cases replaced with rfl | ⟨-, tag, style, rfl⟩
    · exact emitPrepareTree_eq_some.mpr ⟨merged, untouched _, replaced⟩
    · rfl

/-- The metadata of a document is merged when it is written, and a second time it
is left as it is, exactly if the root is honoured. -/
theorem metadata_merge (env : EmitEnv Time) (file : EmitFile) (root : Node)
    (historyEntries : List (HistoryEntry Time)) :
    MergeCorrect env file root historyEntries ↔ MergeHonoured env file root historyEntries := by
  refine ⟨mergeHonoured_of_correct, fun honoured => ?_⟩
  cases root with
  | scalar tag style text =>
    apply mergeCorrect_of_untouched (fun _ => rfl) honoured.emptied
    rintro ⟨⟨_, _, eq⟩, -⟩
    cases eq
  | sequence tag items =>
    apply mergeCorrect_of_untouched (fun _ => rfl) honoured.emptied
    rintro ⟨⟨_, _, eq⟩, -⟩
    cases eq
  | mapping tag pairs =>
    cases tag with
    | none => exact absurd rfl (honoured.tagged pairs)
    | some tag =>
      by_cases core : tag = coreAsdfTag
      · subst core
        obtain ⟨merged, prepared, whole⟩ := rootMerged_of_honoured (honoured.core pairs rfl)
        exact ⟨merged, prepared, fun _ => whole⟩
      · exact mergeCorrect_of_untouched (fun _ => prepareMetadata_older core) honoured.emptied
          fun is => honoured.older tag pairs rfl core is.2

end Correct

/-- A document that has the default handle, and in which no time is valid. -/
def plainEmit : EmitEnv Unit where
  scalars := plainScalars
  lib := plainBuilder
  readTime := fun _ => none
  tagHandles := [asdfDefaultTagHandle]
  resolve := fun text => some (standardTagPrefix ++ text.drop 1)

/-- Extension metadata with a package of which the author is an empty string. -/
def emptyAuthorNode : Node :=
  .mapping (some coreExtensionMetadataTag) (classAndPackage plainEmit (.scalar none .plain nameKey)
    (some (.mapping (some coreSoftwareTag) (softwarePairs plainEmit (.scalar none .plain nameKey)
      (.scalar none .plain versionKey) (some (.scalar none .singleQuoted [])) none))) ++ [])

/-- As it is read. -/
def emptyAuthor : ExtensionMetadata where
  extensionClass := some nameKey
  package := some ⟨some nameKey, some versionKey, some [], none⟩
  metadata := classAndPackage plainEmit (.scalar none .plain nameKey)
    (some (.mapping (some coreSoftwareTag) (softwarePairs plainEmit (.scalar none .plain nameKey)
      (.scalar none .plain versionKey) (some (.scalar none .singleQuoted [])) none))) ++ []

theorem emptyAuthor_read : valueAsExtensionMetadata plainEmit emptyAuthorNode = some emptyAuthor := by
  have package : valueAsSoftware plainEmit (.mapping (some coreSoftwareTag)
      (softwarePairs plainEmit (.scalar none .plain nameKey) (.scalar none .plain versionKey)
        (some (.scalar none .singleQuoted [])) none)) = some ⟨some nameKey, some versionKey, some [], none⟩ := by
    unfold valueAsSoftware
    rw [if_pos (isExtensionType_resolved.mpr (by decide)), softwareDeserialize_pairs]
    rfl
  unfold valueAsExtensionMetadata emptyAuthorNode
  rw [if_pos (isExtensionType_resolved.mpr (by decide)), extensionMetadataDeserialize_pairs (by simp),
    Option.bind_some, package]
  rfl

section EmptyAuthor

theorem coreSoftwareTag_set : setTag plainEmit coreSoftwareTag = .ret (some coreSoftwareTag) := by
  decide +kernel

theorem coreExtensionMetadataTag_set :
    setTag plainEmit coreExtensionMetadataTag = .ret (some coreExtensionMetadataTag) := by
  decide +kernel

/-- All that is written of it comes back. -/
theorem emptyAuthor_stays : ExtensionStays plainEmit emptyAuthor := by
  constructor
  · rintro str named
    cases named
    rfl
  · rintro package same
    cases same
    constructor
    · rintro str named
      cases named
      rfl
    · rintro str named
      cases named
      rfl
    · rintro str named nonempty
      cases named
      exact absurd rfl nonempty
    · rintro str named
      cases named
    · exact ⟨coreSoftwareTag, coreSoftwareTag_set, by decide⟩
  · simp only [emptyAuthor, classAndPackage, optionalPair, List.append_nil, Option.toList_some, List.map_cons,
      List.map_nil, List.forall_mem_cons]
    exact ⟨⟨_, _, _, rfl, rfl⟩, ⟨_, _, _, rfl, rfl⟩, by rintro pair ⟨⟩⟩
  · simp only [emptyAuthor, classAndPackage, optionalPair, List.append_nil, Option.toList_some, List.map_cons,
      List.map_nil, Node.text]
    decide
  · exact ⟨coreExtensionMetadataTag, coreExtensionMetadataTag_set, by decide⟩

theorem emptyAuthor_written : ∃ node, valueOfExtensionMetadata plainEmit emptyAuthor = .ret (some node) := by
  obtain ⟨package, made⟩ : ∃ package, packageValue plainEmit emptyAuthor.package = .ret (some package) :=
    ⟨_, valueOfExtensionType_eq_some.mpr ⟨_, _, rfl, coreSoftwareTag_set, rfl⟩⟩
  have serialized := extensionMetadataSerialize_eq_some.mpr
    ⟨nameKey, .scalar none .plain nameKey, some package, rfl, rfl, made, rfl⟩
  exact ⟨_, Outcome.bind_eq_ret.mpr ⟨_, serialized,
    valueOfExtensionType_eq_some.mpr ⟨_, _, rfl, coreExtensionMetadataTag_set, rfl⟩⟩⟩

theorem emptyAuthor_merged : MergeCorrect plainEmit ⟨⟨none, none, none, none⟩, true⟩
    (.mapping (some coreAsdfTag) [(.scalar none .plain historyKey,
      .mapping none [(.scalar none .plain extensionsKey, .sequence none [emptyAuthorNode])])])
    [⟨some descriptionKey, none, []⟩] := by
  have core : setTag plainEmit coreAsdfTag = .ret (some coreAsdfTag) := by decide +kernel
  have entry : EntryKept plainEmit ⟨some descriptionKey, none, []⟩ := by
    have resolved : setTag plainEmit coreHistoryEntryTag = .ret (some coreHistoryEntryTag) := by
      decide +kernel
    exact ⟨⟨descriptionKey, rfl, rfl⟩, rfl, nofun, coreHistoryEntryTag, resolved, by decide⟩
  have read : metaDeserialize plainEmit (.mapping (some coreAsdfTag) [(.scalar none .plain historyKey,
      .mapping none [(.scalar none .plain extensionsKey, .sequence none [emptyAuthorNode])])]) =
      .ret ⟨none, some [emptyAuthor], none⟩ := by
    have items : [emptyAuthorNode].filterMap (valueAsExtensionMetadata plainEmit) = [emptyAuthor] :=
      List.filterMap_cons_some emptyAuthor_read
    rw [← items]
    rfl
  apply (metadata_merge plainEmit ⟨⟨none, none, none, none⟩, true⟩
    (.mapping (some coreAsdfTag) [(.scalar none .plain historyKey,
      .mapping none [(.scalar none .plain extensionsKey, .sequence none [emptyAuthorNode])])])
    [⟨some descriptionKey, none, []⟩]).mpr
  constructor
  · nofun
  · rintro tag (same | same)
    · cases same
    · cases same
  · intro pairs same
    cases same
    refine ⟨nofun, ⟨none, rfl⟩, ⟨_, core⟩, fun metadata read' => ?_, ?_⟩
    · cases read.symm.trans read'
      obtain ⟨extension, written⟩ := emptyAuthor_written
      obtain ⟨value, made, -⟩ := valueOfHistoryEntry_kept entry
      have first : arraySerialize (valueOfExtensionMetadata plainEmit) (some [emptyAuthor]) =
          .ret (some (.sequence none [extension])) :=
        arraySerialize_eq_some.mpr ⟨_, _, rfl, by simp, rfl, .cons written .nil⟩
      have second : arraySerialize (valueOfHistoryEntry plainEmit) (some [⟨some descriptionKey, none, []⟩]) =
          .ret (some (.sequence none [value])) :=
        arraySerialize_eq_some.mpr ⟨_, _, rfl, by simp, rfl, .cons made .nil⟩
      refine ⟨_, metaHistorySerialize_eq.mpr ⟨_, _, first, second, rfl⟩, fun _ => ⟨nofun, ?_⟩⟩
      exact List.forall_mem_singleton.mpr entry
    · apply extensionsSettled_of_stays
      intro metadata read'
      cases read.symm.trans read'
      exact List.forall_mem_singleton.mpr emptyAuthor_stays
  · intro tag pairs same older
    cases same
    exact absurd rfl older

end EmptyAuthor

/-- A history of one entry, without a tag, in the new style. -/
def untaggedEntry : Node :=
  .mapping none [(.scalar none .plain entriesKey, .sequence none
    [.mapping none [(.scalar none .plain descriptionKey, .scalar none .plain historyKey)]])]

/-- A mapping without a tag is a null pointer, a history of the old style is
destroyed twice, and an entry without a tag is lost to a new one. -/
theorem metadata_not_merged :
    emitPrepareTree plainEmit ⟨⟨none, none, none, none⟩, true⟩ [] (.mapping none []) = .fault .memory ∧
      emitPrepareTree plainEmit ⟨⟨none, none, none, none⟩, true⟩ []
          (.mapping (some coreAsdfTag) [(.scalar none .plain historyKey, .sequence none [])]) =
        .fault .memory ∧
      ¬ MergeCorrect plainEmit ⟨⟨none, none, none, none⟩, true⟩ (.mapping none []) [] ∧
      ¬ MergeCorrect plainEmit ⟨⟨none, none, none, none⟩, true⟩
        (.mapping (some coreAsdfTag) [(.scalar none .plain historyKey, untaggedEntry)])
        [⟨some descriptionKey, none, []⟩] := by
  refine ⟨rfl, rfl, fun correct => ?_, fun correct => ?_⟩
  · exact (mergeHonoured_of_correct correct).tagged [] rfl
  · have honoured := (mergeHonoured_of_correct correct).core _ rfl
    obtain ⟨metadata, read⟩ := metaDeserialize_ret honoured.style
    obtain ⟨history, -, kept⟩ := honoured.history metadata read
    obtain ⟨items, -⟩ := kept (.inl nofun)
    obtain ⟨entry, as, -⟩ := items _ (List.mem_singleton.mpr rfl)
    cases as

end LibAsdf
