import LibAsdf.Core.Metadata
import LibAsdf.Datatype.RoundTrip

/-!
# Metadata that is written and read again

* `software_round_trip`, `historyEntry_round_trip`: what comes back as it was;
* `arraySerialize_again`: a sequence of values that are written the same again.
-/

namespace LibAsdf

variable {Time : Type} {env : EmitEnv Time}

/-! ## Properties -/

/-- A string is the same when it is read back. -/
def StringKept (env : EmitEnv Time) (str : Bytes) : Prop := readName env.lib env.scalars str = some str

/-- A tag that is set on a node is found there. -/
def Resolves (env : EmitEnv Time) (tag : Bytes) : Prop :=
  ∃ resolved, setTag env tag = .ret (some resolved) ∧ yamlTagCanonicalize resolved = tag

/-- A key that can be written as it is. -/
structure PlainKey (env : EmitEnv Time) (key : Bytes) : Prop where
  clear : yamlStringIsAmbiguous env.scalars.floats key = false
  short : key.length ≤ 2147483647

theorem PlainKey.built {key : Bytes} (plain : PlainKey env key) :
    nodeOfString env.lib env.scalars.floats key = some (.scalar none (env.lib.style key) key) :=
  nodeOfString_clear plain.clear plain.short

theorem setValue_lookup {key : Bytes} {value : Node} {pairs pairs' : List (Node × Node)}
    (plain : PlainKey env key) (set : setValue env key value pairs = some pairs') (tag : Option Bytes)
    (key' : Bytes) : (Node.mapping tag pairs').lookup key' =
      if key' = key then some value else (Node.mapping tag pairs).lookup key' :=
  lookup_mappingSetNode plain.clear plain.short set tag key'

theorem setValue_some {key : Bytes} (plain : PlainKey env key) (value : Node)
    (pairs : List (Node × Node)) : ∃ pairs', setValue env key value pairs = some pairs' :=
  mappingSetNode_some plain.clear plain.short pairs value

theorem setString_lookup {key str : Bytes} {pairs pairs' : List (Node × Node)}
    (plain : PlainKey env key) (set : setString env key str pairs = some pairs') :
    ∃ value, nodeOfString env.lib env.scalars.floats str = some value ∧ ∀ tag key',
      (Node.mapping tag pairs').lookup key' =
        if key' = key then some value else (Node.mapping tag pairs).lookup key' := by
  obtain ⟨value, built, set⟩ := mappingSetString_some set
  exact ⟨value, built, setValue_lookup plain set⟩

theorem setString_some {key str : Bytes} (plain : PlainKey env key) (keeps : StringKept env str)
    (pairs : List (Node × Node)) : ∃ pairs', setString env key str pairs = some pairs' := by
  obtain ⟨value, built, -⟩ := Option.map_eq_some_iff.mp keeps
  obtain ⟨pairs', set⟩ := setValue_some plain value pairs
  refine ⟨pairs', ?_⟩
  unfold setString mappingSetString
  rw [built]
  exact set

/-- A string that is not empty. -/
def shown : Option Bytes → Option Bytes
  | some (chr :: rest) => some (chr :: rest)
  | _ => none

theorem setOptionalString_lookup {key : Bytes} {str : Option Bytes} {pairs pairs' : List (Node × Node)}
    (plain : PlainKey env key) (set : setOptionalString env key str pairs = some pairs') :
    ∃ value, (shown str).mapM (nodeOfString env.lib env.scalars.floats) = some value ∧ ∀ tag key',
      (Node.mapping tag pairs').lookup key' =
        if key' = key ∧ value.isSome then value else (Node.mapping tag pairs).lookup key' := by
  unfold setOptionalString at set
  split at set
  · obtain ⟨value, built, lookup⟩ := setString_lookup plain set
    refine ⟨some value, by simp [shown, built], fun tag key' => ?_⟩
    rw [lookup]
    simp
  · rename_i empty
    cases set
    have none : shown str = none := by
      unfold shown
      split
      · exact absurd rfl (empty _ _)
      · rfl
    exact ⟨.none, by simp [none], fun tag key' => by simp⟩

theorem setOptionalValue_lookup {key : Bytes} {value : Option Node} {pairs pairs' : List (Node × Node)}
    (plain : PlainKey env key) (set : setOptionalValue env key value pairs = some pairs')
    (tag : Option Bytes) (key' : Bytes) : (Node.mapping tag pairs').lookup key' =
      if key' = key ∧ value.isSome then value else (Node.mapping tag pairs).lookup key' := by
  cases value with
  | none =>
    cases set
    simp
  | some value =>
    rw [setValue_lookup plain set]
    simp

theorem setOptionalValue_some {key : Bytes} (plain : PlainKey env key) (value : Option Node)
    (pairs : List (Node × Node)) : ∃ pairs', setOptionalValue env key value pairs = some pairs' := by
  cases value with
  | none => exact ⟨pairs, rfl⟩
  | some value => exact setValue_some plain value pairs

/-- A string property, if it is there and was made of a string. -/
theorem stringProperty_built {node : Node} {key : Bytes} {str : Option Bytes} {value : Option Node}
    (built : str.mapM (nodeOfString env.lib env.scalars.floats) = some value)
    (found : node.lookup key = value) :
    stringProperty env node key = str.bind (readName env.lib env.scalars) := by
  unfold stringProperty
  cases str with
  | none =>
    cases built
    rw [found]
    rfl
  | some str =>
    obtain ⟨value, built', rfl⟩ : ∃ v, nodeOfString env.lib env.scalars.floats str = some v ∧ value = some v := by
      cases made : nodeOfString env.lib env.scalars.floats str with
      | none => simp [made] at built
      | some v =>
        simp only [Option.mapM_some, made] at built
        exact ⟨v, rfl, by simpa using built.symm⟩
    obtain ⟨inferred, reads⟩ := @readsString_nodeOfString env.scalars env.lib _ _ built'
    rw [found, Option.bind_some, reads.asString0, Option.bind_some, readName, built']
    rfl

theorem valueOfExtensionType_eq_some {tag : Bytes} {serialized : Option (List (Node × Node))}
    {node : Node} : valueOfExtensionType env tag serialized = .ret (some node) ↔
      ∃ pairs resolved, serialized = some pairs ∧ setTag env tag = .ret (some resolved) ∧
        node = .mapping (some resolved) pairs := by
  cases serialized with
  | none => simp [valueOfExtensionType]
  | some pairs =>
    simp only [valueOfExtensionType, Outcome.bind_eq_ret, Outcome.ret.injEq, Option.map_eq_some_iff,
      Option.some.injEq]
    constructor
    · rintro ⟨_, set, resolved, rfl, rfl⟩
      exact ⟨pairs, resolved, rfl, set, rfl⟩
    · rintro ⟨_, resolved, rfl, set, rfl⟩
      exact ⟨some resolved, set, resolved, rfl, rfl⟩

theorem isExtensionType_resolved {tag resolved : Bytes} {pairs : List (Node × Node)} :
    isExtensionType [tag] (.mapping (some resolved) pairs) = true ↔
      yamlTagCanonicalize resolved = tag := by
  simp [isExtensionType, Node.tag]

/-- An extension value whose tag resolves is taken for one of its type. -/
theorem valueOfExtensionType_resolves {tag : Bytes} {pairs : List (Node × Node)}
    (resolves : Resolves env tag) : ∃ resolved,
      valueOfExtensionType env tag (some pairs) = .ret (some (.mapping (some resolved) pairs)) ∧
        isExtensionType [tag] (.mapping (some resolved) pairs) = true := by
  obtain ⟨resolved, set, same⟩ := resolves
  exact ⟨resolved, valueOfExtensionType_eq_some.mpr ⟨pairs, resolved, rfl, set, rfl⟩,
    isExtensionType_resolved.mpr same⟩

/-! ## Software -/

/-- Software that comes back as it was: it has a name and a version, no author
or homepage is empty, and its strings come back. -/
structure SoftwareKept (env : EmitEnv Time) (software : Software) : Prop where
  name : ∃ str, software.name = some str ∧ StringKept env str
  version : ∃ str, software.version = some str ∧ StringKept env str
  author : ∀ str, software.author = some str → str ≠ [] ∧ StringKept env str
  homepage : ∀ str, software.homepage = some str → str ≠ [] ∧ StringKept env str
  tag : Resolves env coreSoftwareTag

/-- Software as it is read back, if it can be. -/
def rereadSoftware (env : EmitEnv Time) (software : Software) : Option Software :=
  match valueOfSoftware env software with
  | .ret (some value) => valueAsSoftware env value
  | _ => none

theorem plainKey_name : PlainKey env nameKey := ⟨rfl, by decide⟩

theorem plainKey_version : PlainKey env versionKey := ⟨rfl, by decide⟩

theorem plainKey_author : PlainKey env authorKey := ⟨rfl, by decide⟩

theorem plainKey_homepage : PlainKey env homepageKey := ⟨rfl, by decide⟩

/-- What the mapping of software is read as. -/
theorem softwareDeserialize_serialized {software : Software} {pairs : List (Node × Node)}
    (serialized : softwareSerialize env software = some pairs) (tag : Option Bytes) :
    softwareDeserialize env (.mapping tag pairs) =
      (software.name.bind (readName env.lib env.scalars)).bind fun name =>
        (software.version.bind (readName env.lib env.scalars)).map fun version =>
          ⟨some name, some version, (shown software.author).bind (readName env.lib env.scalars),
            (shown software.homepage).bind (readName env.lib env.scalars)⟩ := by
  simp only [softwareSerialize, Option.bind_eq_bind, Option.bind_eq_some_iff] at serialized
  obtain ⟨name, named, version, versioned, p₁, set₁, p₂, set₂, p₃, set₃, set₄⟩ := serialized
  obtain ⟨nameValue, nameBuilt, lookup₁⟩ := setString_lookup plainKey_name set₁
  obtain ⟨versionValue, versionBuilt, lookup₂⟩ := setString_lookup plainKey_version set₂
  obtain ⟨authorValue, authorBuilt, lookup₃⟩ := setOptionalString_lookup plainKey_author set₃
  obtain ⟨homepageValue, homepageBuilt, lookup₄⟩ := setOptionalString_lookup plainKey_homepage set₄
  have empty (key : Bytes) : (Node.mapping tag []).lookup key = none := rfl
  have lookup (key : Bytes) := lookup₄ tag key
  simp only [lookup₃, lookup₂, lookup₁, empty] at lookup
  have keys : nameKey ≠ versionKey ∧ nameKey ≠ authorKey ∧ nameKey ≠ homepageKey ∧
      versionKey ≠ authorKey ∧ versionKey ≠ homepageKey ∧ authorKey ≠ homepageKey ∧
      authorKey ≠ versionKey ∧ authorKey ≠ nameKey ∧ homepageKey ≠ authorKey ∧
      homepageKey ≠ versionKey ∧ homepageKey ≠ nameKey := by decide
  have readNamed : stringProperty env (.mapping tag pairs) nameKey = readName env.lib env.scalars name :=
    @stringProperty_built _ env _ _ (some name) (some nameValue) (by simp [nameBuilt])
      (by rw [lookup]; simp [keys])
  have readVersion : stringProperty env (.mapping tag pairs) versionKey =
      readName env.lib env.scalars version :=
    @stringProperty_built _ env _ _ (some version) (some versionValue) (by simp [versionBuilt])
      (by rw [lookup]; simp [keys])
  have readAuthor := stringProperty_built authorBuilt
    (show (Node.mapping tag pairs).lookup authorKey = authorValue by
      rw [lookup]
      cases authorValue <;> simp [keys])
  have readHomepage := stringProperty_built homepageBuilt
    (show (Node.mapping tag pairs).lookup homepageKey = homepageValue by
      rw [lookup]
      cases homepageValue <;> simp [keys])
  unfold softwareDeserialize
  simp only [readNamed, readVersion, readAuthor, readHomepage, named, versioned, Option.bind_some,
    Option.bind_eq_bind]
  cases readName env.lib env.scalars name <;> cases readName env.lib env.scalars version <;> rfl

theorem softwareSerialize_some {software : Software} (kept : SoftwareKept env software) :
    ∃ pairs, softwareSerialize env software = some pairs := by
  have optional {key : Bytes} {str : Option Bytes} (plain : PlainKey env key)
      (keeps : ∀ s, str = some s → s ≠ [] ∧ StringKept env s) (pairs : List (Node × Node)) :
      ∃ pairs', setOptionalString env key str pairs = some pairs' := by
    unfold setOptionalString
    split
    · exact setString_some plain (keeps _ rfl).2 pairs
    · exact ⟨pairs, rfl⟩
  obtain ⟨name, named, keepsName⟩ := kept.name
  obtain ⟨version, versioned, keepsVersion⟩ := kept.version
  obtain ⟨p₁, set₁⟩ := setString_some plainKey_name keepsName []
  obtain ⟨p₂, set₂⟩ := setString_some plainKey_version keepsVersion p₁
  obtain ⟨p₃, set₃⟩ := optional plainKey_author kept.author p₂
  obtain ⟨p₄, set₄⟩ := optional plainKey_homepage kept.homepage p₃
  refine ⟨p₄, ?_⟩
  simp only [softwareSerialize, named, versioned, Option.bind_eq_bind, Option.bind_some, set₁, set₂, set₃,
    set₄]

theorem shown_bind_kept {str : Option Bytes} : (shown str).bind (readName env.lib env.scalars) = str ↔
    ∀ s, str = some s → s ≠ [] ∧ StringKept env s := by
  unfold shown
  split
  · simp [StringKept]
  · rename_i empty
    cases str with
    | none => simp
    | some s =>
      cases s with
      | nil => simp
      | cons chr rest => exact absurd rfl (empty chr rest)

theorem software_round_trip {software : Software} :
    rereadSoftware env software = some software ↔ SoftwareKept env software := by
  constructor
  · intro reread
    unfold rereadSoftware at reread
    split at reread
    · rename_i value made
      obtain ⟨pairs, resolved, serialized, set, rfl⟩ := valueOfExtensionType_eq_some.mp made
      unfold valueAsSoftware at reread
      split at reread
      · rename_i is
        rw [softwareDeserialize_serialized serialized] at reread
        obtain ⟨name, readNamed, reread⟩ := Option.bind_eq_some_iff.mp reread
        obtain ⟨version, readVersion, reread⟩ := Option.map_eq_some_iff.mp reread
        have names : some name = software.name := congrArg Software.name reread
        have versions : some version = software.version := congrArg Software.version reread
        rw [← names] at readNamed
        rw [← versions] at readVersion
        exact {
          name := ⟨name, names.symm, readNamed⟩
          version := ⟨version, versions.symm, readVersion⟩
          author := shown_bind_kept.mp (congrArg Software.author reread)
          homepage := shown_bind_kept.mp (congrArg Software.homepage reread)
          tag := ⟨resolved, set, isExtensionType_resolved.mp is⟩ }
      · cases reread
    · cases reread
  · intro kept
    obtain ⟨pairs, serialized⟩ := softwareSerialize_some kept
    obtain ⟨resolved, made, is⟩ := @valueOfExtensionType_resolves _ env _ pairs kept.tag
    obtain ⟨name, named, keepsName⟩ := kept.name
    obtain ⟨version, versioned, keepsVersion⟩ := kept.version
    unfold rereadSoftware valueOfSoftware
    rw [serialized, made]
    simp only [valueAsSoftware, is, ↓reduceIte]
    rw [softwareDeserialize_serialized serialized, shown_bind_kept.mpr kept.author,
      shown_bind_kept.mpr kept.homepage, named, versioned, Option.bind_some, Option.bind_some, keepsName,
      keepsVersion]
    simp only [Option.bind_some, Option.map_some, Option.some.injEq]
    rw [← named, ← versioned]

/-! ## History entries -/

theorem filterMap_eq_self {α : Type} {f : α → Option α} {items : List α} :
    items.filterMap f = items ↔ ∀ item ∈ items, f item = some item := by
  induction items with
  | nil => simp
  | cons item rest ih =>
    constructor
    · intro same
      cases here : f item with
      | none =>
        rw [List.filterMap_cons_none here] at same
        have shorter := List.length_filterMap_le f rest
        rw [same, List.length_cons] at shorter
        omega
      | some found =>
        rw [List.filterMap_cons_some here] at same
        obtain ⟨rfl, later⟩ := List.cons.inj same
        rw [List.forall_mem_cons]
        exact ⟨here, ih.mp later⟩
    · intro all
      rw [List.filterMap_cons_some (all item List.mem_cons_self),
        ih.mpr fun later mem => all later (List.mem_cons_of_mem item mem)]

theorem rereadSoftware_eq {software : Software} {value : Option Node}
    (made : valueOfSoftware env software = .ret value) :
    rereadSoftware env software = value.bind (valueAsSoftware env) := by
  unfold rereadSoftware
  rw [made]
  cases value <;> rfl

/-- Software is written as a mapping. -/
theorem valueOfSoftware_mapping {software : Software} {value : Node}
    (made : valueOfSoftware env software = .ret (some value)) :
    ∃ tag pairs, value = .mapping tag pairs := by
  obtain ⟨pairs, resolved, -, -, rfl⟩ := valueOfExtensionType_eq_some.mp made
  exact ⟨some resolved, pairs, rfl⟩

theorem softwareSequence_reads {software : List Software} {values : List Node}
    (made : softwareSequence env software = .ret values) :
    values.filterMap (valueAsSoftware env) = software.filterMap (rereadSoftware env) := by
  induction software generalizing values with
  | nil =>
    cases made
    rfl
  | cons first rest ih =>
    obtain ⟨value, made₁, made⟩ := Outcome.bind_eq_ret.mp made
    obtain ⟨values', made₂, made⟩ := Outcome.bind_eq_ret.mp made
    cases made
    rw [List.filterMap_append, ih made₂, List.filterMap_cons, rereadSoftware_eq made₁]
    cases value with
    | none => rfl
    | some value => cases as : valueAsSoftware env value <;> simp [as]

/-- The software of an entry as it is read back: all that can be. -/
theorem historyEntrySoftware_reads {software : List Software} {value : Option Node}
    (made : historyEntrySoftware env software = .ret value) :
    value.elim [] (historyEntryDeserializeSoftware env) = software.filterMap (rereadSoftware env) := by
  unfold historyEntrySoftware at made
  split at made
  · cases made
    rfl
  · rename_i first
    rw [List.filterMap_cons, rereadSoftware_eq made]
    cases value with
    | none => rfl
    | some value =>
      obtain ⟨tag, pairs, rfl⟩ := valueOfSoftware_mapping made
      change (valueAsSoftware env (.mapping tag pairs)).toList = _
      cases as : valueAsSoftware env (.mapping tag pairs) <;> simp [as]
  · obtain ⟨values, sequence, eq⟩ := Outcome.bind_eq_ret.mp made
    cases eq
    exact softwareSequence_reads sequence

theorem valueOfSoftware_kept {software : Software} (kept : SoftwareKept env software) :
    ∃ value, valueOfSoftware env software = .ret (some value) ∧ valueAsSoftware env value = some software := by
  have reread := software_round_trip.mpr kept
  unfold rereadSoftware at reread
  split at reread
  · rename_i value made
    exact ⟨value, made, reread⟩
  · cases reread

theorem historyEntrySoftware_some {software : List Software} (kept : ∀ s ∈ software, SoftwareKept env s) :
    ∃ value, historyEntrySoftware env software = .ret value := by
  have sequence {software : List Software} (kept : ∀ s ∈ software, SoftwareKept env s) :
      ∃ values, softwareSequence env software = .ret values := by
    induction software with
    | nil => exact ⟨[], rfl⟩
    | cons first rest ih =>
      obtain ⟨value, made, -⟩ := valueOfSoftware_kept (kept first List.mem_cons_self)
      obtain ⟨values, made'⟩ := ih fun s mem => kept s (List.mem_cons_of_mem first mem)
      refine ⟨value :: values, ?_⟩
      rw [softwareSequence, made, Outcome.ret_bind, made', Outcome.ret_bind]
      rfl
  unfold historyEntrySoftware
  split
  · exact ⟨none, rfl⟩
  · obtain ⟨value, made, -⟩ := valueOfSoftware_kept (kept _ List.mem_cons_self)
    exact ⟨some value, made⟩
  · obtain ⟨values, made⟩ := sequence kept
    exact ⟨some (.sequence none values), by rw [made, Outcome.ret_bind]⟩

/-- An entry that comes back as it was: it has no time, and its strings and its
software come back. -/
structure EntryKept (env : EmitEnv Time) (entry : HistoryEntry Time) : Prop where
  description : ∃ str, entry.description = some str ∧ StringKept env str
  time : entry.time = none
  software : ∀ s ∈ entry.software, SoftwareKept env s
  tag : Resolves env coreHistoryEntryTag

theorem plainKey_description : PlainKey env descriptionKey := ⟨rfl, by decide⟩

theorem plainKey_software : PlainKey env softwareKey := ⟨rfl, by decide⟩

/-- The mapping of an entry has a description, and its software. -/
structure EntryNode (env : EmitEnv Time) (entry : HistoryEntry Time) (node : Node) : Prop where
  mapping : ∃ resolved pairs, node = .mapping (some resolved) pairs ∧
    setTag env coreHistoryEntryTag = .ret (some resolved)
  description : ∃ value, nodeOfString env.lib env.scalars.floats (entry.description.getD []) = some value ∧
    node.lookup descriptionKey = some value
  software : ∃ value, historyEntrySoftware env entry.software = .ret value ∧
    node.lookup softwareKey = value
  others : ∀ key, key ≠ descriptionKey → key ≠ softwareKey → node.lookup key = none

theorem valueOfHistoryEntry_node {entry : HistoryEntry Time} {node : Node}
    (made : valueOfHistoryEntry env entry = .ret (some node)) : EntryNode env entry node := by
  obtain ⟨serialized, serialize, made⟩ := Outcome.bind_eq_ret.mp made
  obtain ⟨pairs, resolved, rfl, set, rfl⟩ := valueOfExtensionType_eq_some.mp made
  obtain ⟨software, written, serialize⟩ := Outcome.bind_eq_ret.mp serialize
  obtain ⟨p₁, set₁, set₂⟩ := Option.bind_eq_some_iff.mp (Outcome.ret.inj serialize)
  obtain ⟨value, built, lookup₁⟩ := setString_lookup plainKey_description set₁
  have empty (key : Bytes) : (Node.mapping (some resolved) []).lookup key = none := rfl
  have lookup (key : Bytes) := setOptionalValue_lookup plainKey_software set₂ (some resolved) key
  simp only [lookup₁, empty] at lookup
  have keys : descriptionKey ≠ softwareKey ∧ softwareKey ≠ descriptionKey := by decide
  constructor
  · exact ⟨resolved, pairs, rfl, set⟩
  · refine ⟨value, built, ?_⟩
    rw [lookup]
    simp [keys]
  · refine ⟨software, written, ?_⟩
    rw [lookup]
    cases software <;> simp [keys]
  · intro key other other'
    rw [lookup]
    simp [other, other']

/-- What it is read as. -/
theorem EntryNode.reads {entry : HistoryEntry Time} {node : Node} (h : EntryNode env entry node) :
    historyEntryDeserialize env node =
      (readName env.lib env.scalars (entry.description.getD [])).map fun description =>
        ⟨some description, none, entry.software.filterMap (rereadSoftware env)⟩ := by
  obtain ⟨value, built, described⟩ := h.description
  obtain ⟨software, written, listed⟩ := h.software
  have time : node.lookup timeKey = none := h.others timeKey (by decide) (by decide)
  have description : stringProperty env node descriptionKey =
      readName env.lib env.scalars (entry.description.getD []) :=
    @stringProperty_built _ env _ _ (some (entry.description.getD [])) (some value) (by simp [built]) described
  obtain ⟨resolved, pairs, rfl, -⟩ := h.mapping
  unfold historyEntryDeserialize
  simp only [description, time, listed, Option.bind_eq_bind, Option.bind_none,
    historyEntrySoftware_reads written]
  cases readName env.lib env.scalars (entry.description.getD []) <;> rfl

/-- An entry as it is read back, if it can be. -/
def rereadEntry (env : EmitEnv Time) (entry : HistoryEntry Time) : Option (HistoryEntry Time) :=
  match valueOfHistoryEntry env entry with
  | .ret (some value) => valueAsHistoryEntry env value
  | _ => none

theorem rereadEntry_eq {entry : HistoryEntry Time} {value : Node}
    (made : valueOfHistoryEntry env entry = .ret (some value)) :
    rereadEntry env entry = valueAsHistoryEntry env value := by
  unfold rereadEntry
  rw [made]

theorem historyEntry_round_trip {entry : HistoryEntry Time} :
    rereadEntry env entry = some entry ↔ EntryKept env entry := by
  constructor
  · intro reread
    unfold rereadEntry at reread
    split at reread
    · rename_i value made
      have node := valueOfHistoryEntry_node made
      unfold valueAsHistoryEntry at reread
      split at reread
      · rename_i is
        rw [node.reads] at reread
        obtain ⟨description, readDescription, reread⟩ := Option.map_eq_some_iff.mp reread
        have descriptions : some description = entry.description :=
          congrArg HistoryEntry.description reread
        rw [← descriptions, Option.getD_some] at readDescription
        obtain ⟨resolved, pairs, rfl, set⟩ := node.mapping
        exact {
          description := ⟨description, descriptions.symm, readDescription⟩
          time := (congrArg HistoryEntry.time reread).symm
          software := fun s mem =>
            software_round_trip.mp (filterMap_eq_self.mp (congrArg HistoryEntry.software reread) s mem)
          tag := ⟨resolved, set, isExtensionType_resolved.mp is⟩ }
      · cases reread
    · cases reread
  · intro kept
    obtain ⟨description, described, keeps⟩ := kept.description
    obtain ⟨software, written⟩ := historyEntrySoftware_some kept.software
    obtain ⟨p₁, set₁⟩ := setString_some plainKey_description keeps []
    obtain ⟨pairs, set₂⟩ := setOptionalValue_some plainKey_software software p₁
    obtain ⟨resolved, made, is⟩ := @valueOfExtensionType_resolves _ env _ pairs kept.tag
    have whole : valueOfHistoryEntry env entry = .ret (some (.mapping (some resolved) pairs)) := by
      unfold valueOfHistoryEntry historyEntrySerialize
      rw [written, Outcome.ret_bind, described, Option.getD_some, set₁, Option.bind_some, set₂,
        Outcome.ret_bind, made]
    rw [rereadEntry_eq whole]
    unfold valueAsHistoryEntry
    rw [if_pos is, (valueOfHistoryEntry_node whole).reads, described, Option.getD_some, keeps,
      filterMap_eq_self.mpr fun s mem => software_round_trip.mpr (kept.software s mem)]
    simp only [Option.map_some, Option.some.injEq]
    rw [← described, ← kept.time]

theorem valueOfHistoryEntry_kept {entry : HistoryEntry Time} (kept : EntryKept env entry) :
    ∃ value, valueOfHistoryEntry env entry = .ret (some value) ∧
      valueAsHistoryEntry env value = some entry := by
  have reread := historyEntry_round_trip.mpr kept
  unfold rereadEntry at reread
  split at reread
  · rename_i value made
    exact ⟨value, made, reread⟩
  · cases reread

/-! ## Sequences of extension values -/

theorem itemsSerialize_eq_some {α : Type} {valueOf : α → Run (Option Node)} {items : List α}
    {values : List Node} : itemsSerialize valueOf items = .ret (some values) ↔
      List.Forall₂ (fun item value => valueOf item = .ret (some value)) items values := by
  induction items generalizing values with
  | nil =>
    constructor
    · intro serialized
      cases serialized
      exact .nil
    · intro all
      cases all
      rfl
  | cons item rest ih =>
    unfold itemsSerialize
    rw [Outcome.bind_eq_ret]
    constructor
    · rintro ⟨value, made, serialized⟩
      cases value with
      | none => cases serialized
      | some value =>
        obtain ⟨later, made', serialized⟩ := Outcome.bind_eq_ret.mp serialized
        obtain ⟨values', rfl, rfl⟩ := Option.map_eq_some_iff.mp (Outcome.ret.inj serialized)
        exact .cons made (ih.mp made')
    · intro all
      cases all with
      | @cons _ value _ values' made later =>
        refine ⟨some value, made, ?_⟩
        simp only [ih.mpr later, Outcome.ret_bind, Option.map_some]

theorem arraySerialize_eq_some {α : Type} {valueOf : α → Run (Option Node)} {array : Option (List α)}
    {value : Node} : arraySerialize valueOf array = .ret (some value) ↔
      ∃ items values, array = some items ∧ items ≠ [] ∧ value = .sequence none values ∧
        List.Forall₂ (fun item value => valueOf item = .ret (some value)) items values := by
  constructor
  · intro made
    unfold arraySerialize at made
    split at made
    · rename_i item rest
      obtain ⟨serialized, all, made⟩ := Outcome.bind_eq_ret.mp made
      obtain ⟨values, rfl, rfl⟩ := Option.map_eq_some_iff.mp (Outcome.ret.inj made)
      exact ⟨item :: rest, values, rfl, by simp, rfl, itemsSerialize_eq_some.mp all⟩
    · cases made
  · rintro ⟨items, values, rfl, nonempty, rfl, all⟩
    obtain ⟨item, rest, rfl⟩ := List.exists_cons_of_ne_nil nonempty
    simp only [arraySerialize, itemsSerialize_eq_some.mpr all, Outcome.ret_bind, Option.map_some]

theorem forall₂_mem_right {α β : Type} {R : α → β → Prop} {items : List α} {values : List β}
    (all : List.Forall₂ R items values) {value : β} (mem : value ∈ values) : ∃ item ∈ items, R item value := by
  induction all with
  | nil => cases mem
  | @cons item first rest later here all ih =>
    rcases List.mem_cons.mp mem with rfl | mem
    · exact ⟨item, List.mem_cons_self, here⟩
    · obtain ⟨item', mem', related⟩ := ih mem
      exact ⟨item', List.mem_cons_of_mem _ mem', related⟩

section Again

variable {α : Type} {valueOf : α → Run (Option Node)} {array : Option (List α)} {value : Node}

/-- What the items of an array are written of. -/
theorem arraySerialize_items (made : arraySerialize valueOf array = .ret (some value)) {node : Node}
    (mem : node ∈ value.items) : ∃ item ∈ array.getD [], valueOf item = .ret (some node) := by
  obtain ⟨items, values, rfl, -, rfl, all⟩ := arraySerialize_eq_some.mp made
  exact forall₂_mem_right all mem

/-- Nodes that what is read of them is written as. -/
theorem forall₂_reread {valueAs : Node → Option α} {values : List Node} :
    List.Forall₂ (fun item value => valueOf item = .ret (some value)) (values.filterMap valueAs) values ↔
      ∀ node ∈ values, ∃ item, valueAs node = some item ∧ valueOf item = .ret (some node) := by
  induction values with
  | nil => simp
  | cons node rest ih =>
    rw [List.forall_mem_cons, ← ih]
    cases here : valueAs node with
    | none =>
      rw [List.filterMap_cons_none here]
      have shorter := List.length_filterMap_le valueAs rest
      constructor
      · intro all
        have length := all.length_eq
        rw [List.length_cons] at length
        omega
      · rintro ⟨⟨item, none, -⟩, -⟩
        cases none
    | some item =>
      rw [List.filterMap_cons_some here, List.forall₂_cons]
      simp

/-- An array is written the same again if each of its values is read as something
that is written the same. -/
theorem arraySerialize_again {valueAs : Node → Option α}
    (made : arraySerialize valueOf array = .ret (some value)) :
    arraySerialize valueOf (itemsDeserialize valueAs value) = .ret (some value) ↔
      ∀ node ∈ value.items, ∃ item, valueAs node = some item ∧ valueOf item = .ret (some node) := by
  obtain ⟨items, values, rfl, nonempty, rfl, all⟩ := arraySerialize_eq_some.mp made
  have some : values ≠ [] := by
    rw [← List.length_pos_iff, ← all.length_eq, List.length_pos_iff]
    exact nonempty
  refine Iff.trans ?_ forall₂_reread
  rw [arraySerialize_eq_some]
  constructor
  · rintro ⟨_, _, eq, -, same, written⟩
    cases eq
    cases same
    exact written
  · intro written
    refine ⟨values.filterMap valueAs, values, rfl, fun empty => some ?_, rfl, written⟩
    have length : (values.filterMap valueAs).length = values.length := written.length_eq
    rw [empty] at length
    exact List.length_eq_zero_iff.mp length.symm

end Again

end LibAsdf
