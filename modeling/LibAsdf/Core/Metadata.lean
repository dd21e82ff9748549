import LibAsdf.Datatype.Parse
import LibAsdf.Value.Mapping
import LibAsdf.Yaml.Tag

/-!
# File metadata

The software, history and extensions that the root of a file names, and how the
root is prepared to be written.

* `softwareDeserialize`, `historyEntryDeserialize`, `extensionMetadataDeserialize`,
  `metaDeserialize`: the metadata as it is read;
* `softwareNode`, `historyEntryNode`, `extensionMetadataNode`, `metaNode`: as it
  is written;
* `emitPrepareRootNode`, `emitPrepareTree`: the root with the new metadata.
-/

namespace LibAsdf

/-- `version` -/
def versionKey : Bytes := [118, 101, 114, 115, 105, 111, 110]

/-- `author` -/
def authorKey : Bytes := [97, 117, 116, 104, 111, 114]

/-- `homepage` -/
def homepageKey : Bytes := [104, 111, 109, 101, 112, 97, 103, 101]

/-- `description` -/
def descriptionKey : Bytes := [100, 101, 115, 99, 114, 105, 112, 116, 105, 111, 110]

/-- `time` -/
def timeKey : Bytes := [116, 105, 109, 101]

/-- `software` -/
def softwareKey : Bytes := [115, 111, 102, 116, 119, 97, 114, 101]

/-- `extension_class` -/
def extensionClassKey : Bytes :=
  [101, 120, 116, 101, 110, 115, 105, 111, 110, 95, 99, 108, 97, 115, 115]

/-- `package` -/
def packageKey : Bytes := [112, 97, 99, 107, 97, 103, 101]

/-- `extensions` -/
def extensionsKey : Bytes := [101, 120, 116, 101, 110, 115, 105, 111, 110, 115]

/-- `entries` -/
def entriesKey : Bytes := [101, 110, 116, 114, 105, 101, 115]

/-- `asdf_library` -/
def asdfLibraryKey : Bytes := [97, 115, 100, 102, 95, 108, 105, 98, 114, 97, 114, 121]

/-- `history` -/
def historyKey : Bytes := [104, 105, 115, 116, 111, 114, 121]

/-- `ASDF_CORE_ASDF_TAG` -/
def coreAsdfTag : Bytes :=
  standardTagPrefix ++ [99, 111, 114, 101, 47, 97, 115, 100, 102, 45, 49, 46, 49, 46, 48]

/-- The tags of the extension `meta`: that one, and the one of version 1.0.0. -/
def metaTags : List Bytes :=
  [coreAsdfTag, standardTagPrefix ++ [99, 111, 114, 101, 47, 97, 115, 100, 102, 45, 49, 46, 48, 46, 48]]

/-- `ASDF_CORE_SOFTWARE_TAG` -/
def coreSoftwareTag : Bytes :=
  standardTagPrefix ++
    [99, 111, 114, 101, 47, 115, 111, 102, 116, 119, 97, 114, 101, 45, 49, 46, 48, 46, 48]

/-- `ASDF_CORE_HISTORY_ENTRY_TAG` -/
def coreHistoryEntryTag : Bytes :=
  standardTagPrefix ++
    [99, 111, 114, 101, 47, 104, 105, 115, 116, 111, 114, 121, 95, 101, 110, 116, 114, 121, 45, 49, 46,
      48, 46, 48]

/-- `ASDF_CORE_EXTENSION_METADATA_TAG` -/
def coreExtensionMetadataTag : Bytes :=
  standardTagPrefix ++
    [99, 111, 114, 101, 47, 101, 120, 116, 101, 110, 115, 105, 111, 110, 95, 109, 101, 116, 97, 100, 97,
      116, 97, 45, 49, 46, 48, 46, 48]

/-- What the metadata is read and written with: scalars, times (by the
extension for them), and tags, which `fy_node_set_tag` resolves by the
directives of the document. -/
structure EmitEnv (Time : Type) where
  scalars : ScalarEnv
  lib : ScalarBuilder
  readTime : Node → Option Time
  tagHandles : List TagHandle
  resolve : Bytes → Option Bytes

/-- `asdf_software_t`, with the text of the version. -/
structure Software where
  name : Option Bytes
  version : Option Bytes
  author : Option Bytes
  homepage : Option Bytes

/-- `asdf_history_entry_t`. -/
structure HistoryEntry (Time : Type) where
  description : Option Bytes
  time : Option Time
  software : List Software

/-- `asdf_extension_metadata_t`. -/
structure ExtensionMetadata where
  extensionClass : Option Bytes
  package : Option Software
  metadata : List (Node × Node)

/-- `asdf_meta_t`. -/
structure Metadata (Time : Type) where
  asdfLibrary : Option Software
  extensions : Option (List ExtensionMetadata)
  entries : Option (List (HistoryEntry Time))

section Read

variable {Time : Type} (env : EmitEnv Time)

/-- `asdf_value_is_extension_type`, for an extension with these tags. -/
def isExtensionType (tags : List Bytes) (node : Node) : Bool :=
  match node.tag with
  | some tag => decide (yamlTagCanonicalize tag ∈ tags)
  | none => false

/-- `asdf_mapping_get` and `asdf_value_as_string0`. -/
def stringProperty (node : Node) (key : Bytes) : Option Bytes :=
  (node.lookup key).bind fun prop => (asString0 env.scalars prop).toOption

/-- `asdf_software_deserialize`. -/
def softwareDeserialize (value : Node) : Option Software :=
  match value with
  | .mapping tag pairs => do
    let name ← stringProperty env (.mapping tag pairs) nameKey
    let version ← stringProperty env (.mapping tag pairs) versionKey
    some ⟨some name, some version, stringProperty env (.mapping tag pairs) authorKey,
      stringProperty env (.mapping tag pairs) homepageKey⟩
  | _ => none

/-- `asdf_value_as_software`. -/
def valueAsSoftware (value : Node) : Option Software :=
  if isExtensionType [coreSoftwareTag] value then softwareDeserialize env value else none

/-- `asdf_history_entry_deserialize_software`. -/
def historyEntryDeserializeSoftware (value : Node) : List Software :=
  match value with
  | .sequence _ items => items.filterMap (valueAsSoftware env)
  | value => (valueAsSoftware env value).toList

/-- `asdf_history_entry_deserialize`. -/
def historyEntryDeserialize (value : Node) : Option (HistoryEntry Time) :=
  match value with
  | .mapping tag pairs => do
    let description ← stringProperty env (.mapping tag pairs) descriptionKey
    let time := ((Node.mapping tag pairs).lookup timeKey).bind env.readTime
    let software := ((Node.mapping tag pairs).lookup softwareKey).elim [] (historyEntryDeserializeSoftware env)
    some ⟨some description, time, software⟩
  | _ => none

/-- `asdf_value_as_history_entry`. -/
def valueAsHistoryEntry (value : Node) : Option (HistoryEntry Time) :=
  if isExtensionType [coreHistoryEntryTag] value then historyEntryDeserialize env value else none

/-- `asdf_extension_metadata_deserialize`. -/
def extensionMetadataDeserialize (value : Node) : Option ExtensionMetadata :=
  match value with
  | .mapping tag pairs => do
    let extensionClass ← stringProperty env (.mapping tag pairs) extensionClassKey
    let package := ((Node.mapping tag pairs).lookup packageKey).bind (valueAsSoftware env)
    some ⟨some extensionClass, package, pairs⟩
  | _ => none

/-- `asdf_value_as_extension_metadata`. -/
def valueAsExtensionMetadata (value : Node) : Option ExtensionMetadata :=
  if isExtensionType [coreExtensionMetadataTag] value then extensionMetadataDeserialize env value else none

/-- `asdf_meta_history_entries_deserialize` and `asdf_meta_extensions_deserialize`:
the items that are valid, if there is a sequence. -/
def itemsDeserialize {α : Type} (valueAs : Node → Option α) (value : Node) : Option (List α) :=
  match value with
  | .sequence _ items => some (items.filterMap valueAs)
  | _ => none

/-- `asdf_meta_history_deserialize`, and the end of the handle on its value. That
of an old-style history, which is a sequence, is destroyed as `history_seq`, and
once more by the caller. -/
def metaHistoryDeserialize (value : Node) :
    Run (Option (List ExtensionMetadata) × Option (List (HistoryEntry Time))) :=
  match value with
  | .sequence _ _ => .fault .memory
  | .mapping tag pairs =>
    .ret (((Node.mapping tag pairs).lookup extensionsKey).bind
        (itemsDeserialize (valueAsExtensionMetadata env)),
      ((Node.mapping tag pairs).lookup entriesKey).bind (itemsDeserialize (valueAsHistoryEntry env)))
  | .scalar _ _ _ => .ret (none, none)

/-- The history, if there is one. -/
def historyProperty :
    Option Node → Run (Option (List ExtensionMetadata) × Option (List (HistoryEntry Time)))
  | some prop => metaHistoryDeserialize env prop
  | none => .ret (none, none)

/-- `asdf_meta_deserialize`, of a mapping. -/
def metaDeserialize (root : Node) : Run (Metadata Time) := do
  let history ← historyProperty env (root.lookup historyKey)
  .ret ⟨(root.lookup asdfLibraryKey).bind (valueAsSoftware env), history.1, history.2⟩

end Read

section Write

variable {Time : Type} (env : EmitEnv Time)

/-- `asdf_mapping_set_string0`. -/
def setString (key str : Bytes) (pairs : List (Node × Node)) : Option (List (Node × Node)) :=
  mappingSetString env.lib env.scalars.floats pairs key str

/-- `asdf_mapping_set`. -/
def setValue (key : Bytes) (value : Node) (pairs : List (Node × Node)) : Option (List (Node × Node)) :=
  mappingSetNode env.lib env.scalars.floats pairs key value false

/-- A string that is left out when it is empty. -/
def setOptionalString (key : Bytes) (str : Option Bytes) (pairs : List (Node × Node)) :
    Option (List (Node × Node)) :=
  match str with
  | some (chr :: rest) => setString env key (chr :: rest) pairs
  | _ => some pairs

/-- A value that may be missing. -/
def setOptionalValue (key : Bytes) (value : Option Node) (pairs : List (Node × Node)) :
    Option (List (Node × Node)) :=
  match value with
  | some value => setValue env key value pairs
  | none => some pairs

/-- `asdf_file_tag_normalize` and `fy_node_set_tag`: the tag that the node has then. -/
def setTag (tag : Bytes) : Run (Option Bytes) := do
  let normalized ← yamlTagNormalize tag env.tagHandles
  .ret (normalized.bind env.resolve)

/-- `asdf_value_of_extension_type`, from the mapping that was serialized. -/
def valueOfExtensionType (tag : Bytes) (serialized : Option (List (Node × Node))) : Run (Option Node) :=
  match serialized with
  | some pairs => do
    let tag ← setTag env tag
    .ret (tag.map fun tag => .mapping (some tag) pairs)
  | none => .ret none

/-- `asdf_software_serialize`. -/
def softwareSerialize (software : Software) : Option (List (Node × Node)) := do
  let name ← software.name
  let version ← software.version
  let pairs ← setString env nameKey name []
  let pairs ← setString env versionKey version pairs
  let pairs ← setOptionalString env authorKey software.author pairs
  setOptionalString env homepageKey software.homepage pairs

/-- `asdf_value_of_software`. -/
def valueOfSoftware (software : Software) : Run (Option Node) :=
  valueOfExtensionType env coreSoftwareTag (softwareSerialize env software)

/-- The sequence of the software that can be written. -/
def softwareSequence : List Software → Run (List Node)
  | [] => .ret []
  | software :: rest => do
    let value ← valueOfSoftware env software
    let values ← softwareSequence rest
    .ret (value.toList ++ values)

/-- The software of an entry: one, or a sequence. -/
def historyEntrySoftware : List Software → Run (Option Node)
  | [] => .ret none
  | [software] => valueOfSoftware env software
  | software => do
    let values ← softwareSequence env software
    .ret (some (.sequence none values))

/-- `asdf_history_entry_serialize`, which leaves out the time. -/
def historyEntrySerialize (entry : HistoryEntry Time) : Run (Option (List (Node × Node))) := do
  let software ← historyEntrySoftware env entry.software
  .ret ((setString env descriptionKey (entry.description.getD []) []).bind
    (setOptionalValue env softwareKey software))

/-- `asdf_value_of_history_entry`. -/
def valueOfHistoryEntry (entry : HistoryEntry Time) : Run (Option Node) := do
  let serialized ← historyEntrySerialize env entry
  valueOfExtensionType env coreHistoryEntryTag serialized

/-- The keys of an extension that are not among its other properties. -/
def isClassOrPackage (key : Bytes) : Prop := key = extensionClassKey ∨ key = packageKey

instance (key : Bytes) : Decidable (isClassOrPackage key) := inferInstanceAs (Decidable (_ ∨ _))

/-- The other properties of an extension. That a key is not a scalar is a null
pointer for `strcmp`. -/
def setOtherProperties : List (Node × Node) → List (Node × Node) → Run (Option (List (Node × Node)))
  | [], pairs => .ret (some pairs)
  | (.scalar _ _ text, value) :: rest, pairs =>
    if isClassOrPackage (cString text) then setOtherProperties rest pairs
    else
      match setValue env (cString text) value pairs with
      | some pairs => setOtherProperties rest pairs
      | none => .ret none
  | _ :: _, _ => .fault .memory

/-- The package of an extension, unless it cannot be written. -/
def packageValue : Option Software → Run (Option Node)
  | some package => valueOfSoftware env package
  | none => .ret none

/-- The package, and the other properties. -/
def setPackage (extension : ExtensionMetadata) (pairs : List (Node × Node)) :
    Run (Option (List (Node × Node))) := do
  let package ← packageValue env extension.package
  match setOptionalValue env packageKey package pairs with
  | some pairs => setOtherProperties env extension.metadata pairs
  | none => .ret none

/-- `asdf_extension_metadata_serialize`. -/
def extensionMetadataSerialize (extension : ExtensionMetadata) : Run (Option (List (Node × Node))) :=
  match extension.extensionClass.bind fun str => setString env extensionClassKey str [] with
  | some pairs => setPackage env extension pairs
  | none => .ret none

/-- `asdf_value_of_extension_metadata`. -/
def valueOfExtensionMetadata (extension : ExtensionMetadata) : Run (Option Node) := do
  let serialized ← extensionMetadataSerialize env extension
  valueOfExtensionType env coreExtensionMetadataTag serialized

/-- `asdf_meta_history_entries_serialize` and `asdf_meta_history_extensions_serialize`:
all or nothing. -/
def itemsSerialize {α : Type} (valueOf : α → Run (Option Node)) : List α → Run (Option (List Node))
  | [] => .ret (some [])
  | item :: rest => do
    match ← valueOf item with
    | none => .ret none
    | some value =>
      let values ← itemsSerialize valueOf rest
      .ret (values.map (value :: ·))

/-- An array that is neither null nor empty. -/
def arraySerialize {α : Type} (valueOf : α → Run (Option Node)) : Option (List α) → Run (Option Node)
  | some (item :: rest) => do
    let values ← itemsSerialize valueOf (item :: rest)
    .ret (values.map (Node.sequence none))
  | _ => .ret none

/-- The mapping of the history, if anything is to be in it. -/
def historyMapping (extensions entries : Option Node) : Option Node :=
  match extensions, entries with
  | none, none => none
  | _, _ =>
    ((setOptionalValue env extensionsKey extensions []).bind
      (setOptionalValue env entriesKey entries)).map (Node.mapping none)

/-- `asdf_meta_history_serialize`. -/
def metaHistorySerialize (metadata : Metadata Time) : Run (Option Node) := do
  let extensions ← arraySerialize (valueOfExtensionMetadata env) metadata.extensions
  let entries ← arraySerialize (valueOfHistoryEntry env) metadata.entries
  .ret (historyMapping env extensions entries)

/-- The mapping with the library, unless it cannot be written. -/
def setLibrary : Option Software → Run (Option (List (Node × Node)))
  | some software => do
    let value ← valueOfSoftware env software
    .ret (value.bind fun value => setValue env asdfLibraryKey value [])
  | none => .ret (some [])

/-- `asdf_meta_serialize`. -/
def metaSerialize (metadata : Metadata Time) : Run (Option (List (Node × Node))) := do
  match ← setLibrary env metadata.asdfLibrary with
  | none => .ret none
  | some pairs =>
    let history ← metaHistorySerialize env metadata
    .ret (setOptionalValue env historyKey history pairs)

/-- `asdf_value_of_meta`. -/
def valueOfMeta (metadata : Metadata Time) : Run (Option Node) := do
  let serialized ← metaSerialize env metadata
  valueOfExtensionType env coreAsdfTag serialized

/-- The loop of `asdf_mapping_update_ex`, over the pairs in the order of the iterator. -/
def setPairs (prepend : Bool) : List (Node × Node) → List (Node × Node) → Option (List (Node × Node))
  | [], pairs => some pairs
  | (key, value) :: rest, pairs =>
    (mappingSetNode env.lib env.scalars.floats pairs (cString key.text) value prepend).bind
      (setPairs prepend rest)

/-- `asdf_mapping_update_ex`. -/
def mappingUpdate (pairs update : List (Node × Node)) (prepend : Bool) : Option (List (Node × Node)) :=
  setPairs env prepend (if prepend then update.reverse else update) pairs

end Write

/-! ## Emission -/

/-- What a file brings into its metadata: the library that writes it, unless the
option `ASDF_EMITTER_OPT_NO_EMIT_ASDF_LIBRARY` is set. -/
structure EmitFile where
  asdfLibrary : Software
  noEmitAsdfLibrary : Bool

section Emit

variable {Time : Type} (env : EmitEnv Time) (file : EmitFile)

/-- The metadata to be written, with `file->history_entries` behind the entries
that there are. -/
def newMetadata (historyEntries : List (HistoryEntry Time)) (metadata : Metadata Time) : Metadata Time where
  asdfLibrary := if file.noEmitAsdfLibrary then none else some file.asdfLibrary
  extensions := metadata.extensions
  entries :=
    if historyEntries = [] then metadata.entries
    else some (metadata.entries.getD [] ++ historyEntries)

/-- `emit_prepare_root_node`, of the pairs of the root. -/
def emitPrepareRootNode (historyEntries : List (HistoryEntry Time)) (tag : Bytes)
    (pairs : List (Node × Node)) : Run (Option Node) := do
  let metadata ← metaDeserialize env (.mapping (some tag) pairs)
  match ← valueOfMeta env (newMetadata file historyEntries metadata) with
  | some (.mapping _ update) =>
    .ret ((mappingUpdate env pairs update true).map (Node.mapping (some tag)))
  | _ => .ret none

/-- The root instead of an empty one: a null with the same tag. -/
def replaceEmptyRoot (root : Node) : Run Node :=
  match root with
  | .mapping (some tag) [] | .sequence (some tag) [] => do
    let tag ← setTag env tag
    .ret (tag.elim root fun tag => .scalar (some tag) (env.lib.style []) [])
  | .mapping none [] | .sequence none [] => .ret (.scalar none (env.lib.style []) [])
  | root => .ret root

/-- The first part of `emit_prepare_tree`. A mapping without a tag is a null
pointer for `strcmp`. -/
def prepareMetadata (historyEntries : List (HistoryEntry Time)) (root : Node) : Run (Option Node) :=
  match root with
  | .mapping none _ => .fault .memory
  | .mapping (some tag) pairs =>
    if tag = coreAsdfTag then emitPrepareRootNode env file historyEntries tag pairs
    else .ret (some (.mapping (some tag) pairs))
  | root => .ret (some root)

/-- `emit_prepare_tree`. `none` is an error; the new entries are the file's no more. -/
def emitPrepareTree (historyEntries : List (HistoryEntry Time)) (root : Node) : Run (Option Node) := do
  let prepared ← prepareMetadata env file historyEntries root
  let replaced ← replaceEmptyRoot env (prepared.getD root)
  .ret (if prepared.isSome then some replaced else none)

end Emit

end LibAsdf
