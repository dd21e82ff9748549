import LibAsdf.Core.RoundTrip

/-!
# Metadata that is written the same again

A value that was written is read, and what was read is written.

* `StringSettled`, `SoftwareSettled`, `ExtensionSettled`: nodes whose strings,
  keys and tag come back as they are;
* `software_settled_iff`, `extension_settled_iff`: these are the nodes that
  become the same node;
* `extensionSettled_of_stays`: an extension whose strings come back is written as
  such a node.
-/

namespace LibAsdf

variable {Time : Type} {env : EmitEnv Time}

/-! ## Strings -/

/-- A string node that is written as the same node once it is read. -/
def StringSettled (env : EmitEnv Time) (node : Node) : Prop :=
  nodeOfString env.lib env.scalars.floats (cString node.text) = some node

theorem StringSettled.read {node : Node} (settled : StringSettled env node) :
    (asString0 env.scalars node).toOption = some (cString node.text) := by
  obtain ⟨inferred, reads⟩ := @readsString_nodeOfString env.scalars env.lib _ _ settled
  rw [reads.asString0]
  rfl

/-- What a string node was made of, if that is what is read of it. -/
theorem stringSettled_of_read {str : Bytes} {node : Node}
    (built : nodeOfString env.lib env.scalars.floats str = some node)
    (read : (asString0 env.scalars node).toOption = some str) :
    StringSettled env node ∧ cString node.text = str := by
  obtain ⟨inferred, reads⟩ := @readsString_nodeOfString env.scalars env.lib _ _ built
  rw [reads.asString0] at read
  obtain rfl := Option.some.inj read
  exact ⟨built, rfl⟩

theorem stringSettled_of_kept {str : Bytes} {node : Node} (kept : StringKept env str)
    (built : nodeOfString env.lib env.scalars.floats str = some node) : StringSettled env node := by
  obtain ⟨node', built', same⟩ := Option.map_eq_some_iff.mp kept
  cases built.symm.trans built'
  rw [StringSettled, same]
  exact built

theorem nodeOfString_scalar {str : Bytes} {node : Node}
    (built : nodeOfString env.lib env.scalars.floats str = some node) :
    ∃ style text, node = .scalar none style text := by
  unfold nodeOfString at built
  split at built
  · cases built
  split at built
  · obtain ⟨text, -, rfl⟩ := Option.map_eq_some_iff.mp built
    exact ⟨_, _, rfl⟩
  · cases built
    exact ⟨_, _, rfl⟩

/-- A key that is not among the pairs goes to the end. -/
theorem setValue_absent {key : Bytes} {keyNode value : Node} {pairs : List (Node × Node)}
    (built : nodeOfString env.lib env.scalars.floats key = some keyNode)
    (absent : pairs.find? (keyIs keyNode.text) = none) :
    setValue env key value pairs = some (pairs ++ [(keyNode, value)]) := by
  unfold setValue mappingSetNode
  rw [built, Option.map_some, assignPair, replaceValue_none.mpr absent]
  rfl

/-- The pair of a value that there may be. -/
def optionalPair (env : EmitEnv Time) (key : Bytes) (value : Option Node) : List (Node × Node) :=
  value.toList.map fun value => (.scalar none (env.lib.style key) key, value)

theorem optionalPair_find {key key' : Bytes} (differ : key ≠ key') (value : Option Node) :
    (optionalPair env key value).find? (keyIs key') = none := by
  cases value with
  | none => rfl
  | some value => simp [optionalPair, keyIs, differ]

section Strings

variable {key : Bytes} {pairs pairs' : List (Node × Node)}

theorem setString_eq_some (plain : PlainKey env key) (absent : pairs.find? (keyIs key) = none) {str : Bytes} :
    setString env key str pairs = some pairs' ↔ ∃ value,
      nodeOfString env.lib env.scalars.floats str = some value ∧
        pairs' = pairs ++ optionalPair env key (some value) := by
  unfold setString mappingSetString
  rw [Option.bind_eq_some_iff]
  have set (value : Node) := @setValue_absent _ env _ _ value pairs plain.built absent
  constructor
  · rintro ⟨value, built, made⟩
    cases (set value).symm.trans made
    exact ⟨value, built, rfl⟩
  · rintro ⟨value, built, rfl⟩
    exact ⟨value, built, set value⟩

theorem setOptionalString_eq_some (plain : PlainKey env key) (absent : pairs.find? (keyIs key) = none)
    {str : Option Bytes} : setOptionalString env key str pairs = some pairs' ↔ ∃ value,
      (shown str).mapM (nodeOfString env.lib env.scalars.floats) = some value ∧
        pairs' = pairs ++ optionalPair env key value := by
  unfold setOptionalString
  split
  · rename_i chr rest
    rw [setString_eq_some plain absent]
    constructor
    · rintro ⟨value, built, rfl⟩
      exact ⟨some value, by simp [shown, built], rfl⟩
    · rintro ⟨value, built, rfl⟩
      simp only [shown, Option.mapM_some, Option.map_eq_map, Option.map_eq_some_iff] at built
      obtain ⟨value', built, rfl⟩ := built
      exact ⟨value', built, rfl⟩
  · rename_i empty
    have nothing : shown str = none := by
      unfold shown
      split
      · exact absurd rfl (empty _ _)
      · rfl
    simp [nothing, optionalPair, eq_comm]

end Strings

/-! ## Software -/

/-- The pairs of software. -/
def softwarePairs (env : EmitEnv Time) (name version : Node) (author homepage : Option Node) :
    List (Node × Node) :=
  optionalPair env nameKey (some name) ++ optionalPair env versionKey (some version) ++
    optionalPair env authorKey author ++ optionalPair env homepageKey homepage

/-- A string that may be missing, and that is not left out because it is empty. -/
def OptionalSettled (env : EmitEnv Time) (value : Option Node) : Prop :=
  ∀ node, value = some node → cString node.text ≠ [] ∧ StringSettled env node

/-- A node of software that is written as the same node once it is read. -/
inductive SoftwareSettled (env : EmitEnv Time) : Node → Prop
  | mk {resolved : Bytes} {name version : Node} {author homepage : Option Node}
      (tag : setTag env coreSoftwareTag = .ret (some resolved))
      (canonical : yamlTagCanonicalize resolved = coreSoftwareTag)
      (isName : StringSettled env name) (isVersion : StringSettled env version)
      (isAuthor : OptionalSettled env author) (isHomepage : OptionalSettled env homepage) :
      SoftwareSettled env (.mapping (some resolved) (softwarePairs env name version author homepage))

theorem softwareSerialize_eq_some {software : Software} {pairs : List (Node × Node)} :
    softwareSerialize env software = some pairs ↔ ∃ name version author homepage,
      software.name.bind (nodeOfString env.lib env.scalars.floats) = some name ∧
      software.version.bind (nodeOfString env.lib env.scalars.floats) = some version ∧
      (shown software.author).mapM (nodeOfString env.lib env.scalars.floats) = some author ∧
      (shown software.homepage).mapM (nodeOfString env.lib env.scalars.floats) = some homepage ∧
      pairs = softwarePairs env name version author homepage := by
  have differ : nameKey ≠ versionKey ∧ nameKey ≠ authorKey ∧ nameKey ≠ homepageKey ∧
      versionKey ≠ authorKey ∧ versionKey ≠ homepageKey ∧ authorKey ≠ homepageKey := by decide
  obtain ⟨nv, na, nh, va, vh, ah⟩ := differ
  have first {str : Bytes} {pairs : List (Node × Node)} :=
    @setString_eq_some _ env nameKey [] pairs plainKey_name rfl str
  have second (name : Node) {str : Bytes} {pairs : List (Node × Node)} :=
    @setString_eq_some _ env versionKey ([] ++ optionalPair env nameKey (some name)) pairs plainKey_version
      (by simp [optionalPair_find nv]) str
  have third (name version : Node) {str : Option Bytes} {pairs : List (Node × Node)} :=
    @setOptionalString_eq_some _ env authorKey
      ([] ++ optionalPair env nameKey (some name) ++ optionalPair env versionKey (some version)) pairs
      plainKey_author (by simp [optionalPair_find na, optionalPair_find va]) str
  have fourth (name version : Node) (author : Option Node) {str : Option Bytes} {pairs : List (Node × Node)} :=
    @setOptionalString_eq_some _ env homepageKey
      ([] ++ optionalPair env nameKey (some name) ++ optionalPair env versionKey (some version) ++
        optionalPair env authorKey author) pairs
      plainKey_homepage (by simp [optionalPair_find nh, optionalPair_find vh, optionalPair_find ah]) str
  simp only [softwareSerialize, Option.bind_eq_bind, Option.bind_eq_some_iff]
  constructor
  · rintro ⟨name, named, version, versioned, p₁, set₁, p₂, set₂, p₃, set₃, set₄⟩
    obtain ⟨nameNode, nameBuilt, rfl⟩ := first.mp set₁
    obtain ⟨versionNode, versionBuilt, rfl⟩ := (second _).mp set₂
    obtain ⟨author, authorBuilt, rfl⟩ := (third _ _).mp set₃
    obtain ⟨homepage, homepageBuilt, rfl⟩ := (fourth _ _ _).mp set₄
    exact ⟨nameNode, versionNode, author, homepage, ⟨name, named, nameBuilt⟩,
      ⟨version, versioned, versionBuilt⟩, authorBuilt, homepageBuilt, rfl⟩
  · rintro ⟨nameNode, versionNode, author, homepage, ⟨name, named, nameBuilt⟩,
      ⟨version, versioned, versionBuilt⟩, authorBuilt, homepageBuilt, rfl⟩
    exact ⟨name, named, version, versioned, _, first.mpr ⟨nameNode, nameBuilt, rfl⟩,
      _, (second _).mpr ⟨versionNode, versionBuilt, rfl⟩, _, (third _ _).mpr ⟨author, authorBuilt, rfl⟩,
      (fourth _ _ _).mpr ⟨homepage, homepageBuilt, rfl⟩⟩

/-- What the pairs of software are read as. -/
theorem softwareDeserialize_pairs (tag : Option Bytes) (name version : Node) (author homepage : Option Node) :
    softwareDeserialize env (.mapping tag (softwarePairs env name version author homepage)) =
      (asString0 env.scalars name).toOption.bind fun nameStr =>
        (asString0 env.scalars version).toOption.map fun versionStr =>
          ⟨some nameStr, some versionStr, author.bind fun node => (asString0 env.scalars node).toOption,
            homepage.bind fun node => (asString0 env.scalars node).toOption⟩ := by
  have keys : nameKey ≠ versionKey ∧ nameKey ≠ authorKey ∧ nameKey ≠ homepageKey ∧
      versionKey ≠ authorKey ∧ versionKey ≠ homepageKey ∧ authorKey ≠ homepageKey := by decide
  obtain ⟨nv, na, nh, va, vh, ah⟩ := keys
  have found (key : Bytes) (value : Option Node) :
      ((optionalPair env key value).find? (keyIs key)).map Prod.snd = value := by
    cases value <;> simp [optionalPair, keyIs]
  have read (key : Bytes) : stringProperty env
        (.mapping tag (softwarePairs env name version author homepage)) key =
      (((softwarePairs env name version author homepage).find? (keyIs key)).map Prod.snd).bind
        fun prop => (asString0 env.scalars prop).toOption := rfl
  have readName : stringProperty env (.mapping tag (softwarePairs env name version author homepage)) nameKey =
      (asString0 env.scalars name).toOption := by
    rw [read]
    simp [softwarePairs, optionalPair, keyIs]
  have readVersion : stringProperty env (.mapping tag (softwarePairs env name version author homepage))
      versionKey = (asString0 env.scalars version).toOption := by
    rw [read]
    simp [softwarePairs, optionalPair, keyIs, nv]
  have readAuthor : stringProperty env (.mapping tag (softwarePairs env name version author homepage))
      authorKey = author.bind fun node => (asString0 env.scalars node).toOption := by
    rw [read, softwarePairs, List.find?_append, List.find?_append, List.find?_append, optionalPair_find na,
      optionalPair_find va, Option.none_or, Option.none_or, optionalPair_find ah.symm, Option.or_none, found]
  have readHomepage : stringProperty env (.mapping tag (softwarePairs env name version author homepage))
      homepageKey = homepage.bind fun node => (asString0 env.scalars node).toOption := by
    rw [read, softwarePairs, List.find?_append, List.find?_append, List.find?_append, optionalPair_find nh,
      optionalPair_find vh, optionalPair_find ah, Option.none_or, Option.none_or, Option.none_or, found]
  unfold softwareDeserialize
  simp only [readName, readVersion, readAuthor, readHomepage, Option.bind_eq_bind]
  cases (asString0 env.scalars name).toOption <;> cases (asString0 env.scalars version).toOption <;> rfl

/-- The string of a node that was written of one that may be missing. -/
theorem shown_built {str : Option Bytes} {node : Node}
    (built : (shown str).mapM (nodeOfString env.lib env.scalars.floats) = some (some node)) :
    ∃ str', str = some str' ∧ str' ≠ [] ∧ nodeOfString env.lib env.scalars.floats str' = some node := by
  unfold shown at built
  split at built
  · simp only [Option.mapM_some, Option.map_eq_map, Option.map_eq_some_iff] at built
    obtain ⟨node', built, same⟩ := built
    cases same
    exact ⟨_, rfl, by simp, built⟩
  · cases built

/-- A string that may be missing is settled if it is read as what it was made of. -/
theorem optionalSettled_of_read {str : Option Bytes} {value : Option Node}
    (built : (shown str).mapM (nodeOfString env.lib env.scalars.floats) = some value)
    (read : (value.bind fun node => (asString0 env.scalars node).toOption) = str) :
    OptionalSettled env value := by
  rintro node rfl
  obtain ⟨str', rfl, nonempty, built⟩ := shown_built built
  obtain ⟨settled, same⟩ := stringSettled_of_read built read
  exact ⟨by rwa [same], settled⟩

theorem OptionalSettled.written {value : Option Node} (settled : OptionalSettled env value) :
    (shown (value.bind fun node => (asString0 env.scalars node).toOption)).mapM
        (nodeOfString env.lib env.scalars.floats) = some value := by
  cases value with
  | none => rfl
  | some node =>
    obtain ⟨nonempty, string⟩ := settled node rfl
    rw [Option.bind_some, string.read]
    obtain ⟨chr, rest, eq⟩ := List.exists_cons_of_ne_nil nonempty
    unfold StringSettled at string
    rw [eq] at string ⊢
    simp [shown, string]

/-- The nodes of software that become the same node. -/
theorem software_settled_iff {node : Node} : SoftwareSettled env node ↔
    ∃ software, valueAsSoftware env node = some software ∧
      valueOfSoftware env software = .ret (some node) := by
  constructor
  · intro settled
    cases settled with
    | @mk resolved name version author homepage tag canonical isName isVersion isAuthor isHomepage =>
      refine ⟨⟨some (cString name.text), some (cString version.text),
        author.bind fun node => (asString0 env.scalars node).toOption,
        homepage.bind fun node => (asString0 env.scalars node).toOption⟩, ?_, ?_⟩
      · unfold valueAsSoftware
        rw [if_pos (isExtensionType_resolved.mpr canonical), softwareDeserialize_pairs, isName.read,
          isVersion.read]
        rfl
      · refine valueOfExtensionType_eq_some.mpr ⟨_, resolved, ?_, tag, rfl⟩
        exact softwareSerialize_eq_some.mpr ⟨name, version, author, homepage, isName, isVersion,
          isAuthor.written, isHomepage.written, rfl⟩
  · rintro ⟨software, as, made⟩
    obtain ⟨pairs, resolved, serialized, tag, rfl⟩ := valueOfExtensionType_eq_some.mp made
    obtain ⟨name, version, author, homepage, nameBuilt, versionBuilt, authorBuilt, homepageBuilt, rfl⟩ :=
      softwareSerialize_eq_some.mp serialized
    unfold valueAsSoftware at as
    split at as
    · rename_i is
      rw [softwareDeserialize_pairs] at as
      obtain ⟨nameStr, readName, as⟩ := Option.bind_eq_some_iff.mp as
      obtain ⟨versionStr, readVersion, rfl⟩ := Option.map_eq_some_iff.mp as
      exact .mk tag (isExtensionType_resolved.mp is) (stringSettled_of_read nameBuilt readName).1
        (stringSettled_of_read versionBuilt readVersion).1 (optionalSettled_of_read authorBuilt rfl)
        (optionalSettled_of_read homepageBuilt rfl)
    · cases as

/-- Software of which every string that is written comes back. -/
structure SoftwareStays (env : EmitEnv Time) (software : Software) : Prop where
  name : ∀ str, software.name = some str → StringKept env str
  version : ∀ str, software.version = some str → StringKept env str
  author : ∀ str, software.author = some str → str ≠ [] → StringKept env str
  homepage : ∀ str, software.homepage = some str → str ≠ [] → StringKept env str
  tag : Resolves env coreSoftwareTag

theorem softwareSettled_of_stays {software : Software} (stays : SoftwareStays env software) {node : Node}
    (made : valueOfSoftware env software = .ret (some node)) : SoftwareSettled env node := by
  obtain ⟨pairs, resolved, serialized, tag, rfl⟩ := valueOfExtensionType_eq_some.mp made
  obtain ⟨name, version, author, homepage, nameBuilt, versionBuilt, authorBuilt, homepageBuilt, rfl⟩ :=
    softwareSerialize_eq_some.mp serialized
  obtain ⟨resolved', tag', canonical⟩ := stays.tag
  cases tag.symm.trans tag'
  have string {str : Option Bytes} {node : Node} (kept : ∀ s, str = some s → StringKept env s)
      (built : str.bind (nodeOfString env.lib env.scalars.floats) = some node) : StringSettled env node := by
    obtain ⟨s, same, built⟩ := Option.bind_eq_some_iff.mp built
    exact stringSettled_of_kept (kept s same) built
  have optional {str : Option Bytes} {value : Option Node}
      (kept : ∀ s, str = some s → s ≠ [] → StringKept env s)
      (built : (shown str).mapM (nodeOfString env.lib env.scalars.floats) = some value) :
      OptionalSettled env value := by
    rintro node rfl
    obtain ⟨s, same, nonempty, built⟩ := shown_built built
    have keeps := kept s same nonempty
    refine ⟨?_, stringSettled_of_kept keeps built⟩
    obtain ⟨node', built', text⟩ := Option.map_eq_some_iff.mp keeps
    cases built.symm.trans built'
    rwa [text]
  exact .mk tag canonical (string stays.name nameBuilt) (string stays.version versionBuilt)
    (optional stays.author authorBuilt) (optional stays.homepage homepageBuilt)

/-! ## Extension metadata -/

/-- An extension of which every string that is written comes back, and no two of
whose keys are the same. -/
structure ExtensionStays (env : EmitEnv Time) (extension : ExtensionMetadata) : Prop where
  extensionClass : ∀ str, extension.extensionClass = some str → StringKept env str
  package : ∀ package, extension.package = some package → SoftwareStays env package
  keys : ∀ pair ∈ extension.metadata, ∃ tag style text, pair.1 = .scalar tag style text ∧
    StringKept env (cString text)
  distinct : (extension.metadata.map fun pair => cString pair.1.text).Nodup
  tag : Resolves env coreExtensionMetadataTag

theorem plainKey_extensionClass : PlainKey env extensionClassKey := ⟨rfl, by decide⟩

theorem plainKey_package : PlainKey env packageKey := ⟨rfl, by decide⟩

/-- The key node that is made of a key. -/
def keyNodeOf (env : EmitEnv Time) (key : Node) : Node :=
  (nodeOfString env.lib env.scalars.floats (cString key.text)).getD key

/-- The other properties as they are written. -/
def otherProperties (env : EmitEnv Time) (metadata : List (Node × Node)) : List (Node × Node) :=
  (metadata.filter fun pair => ¬ isClassOrPackage (cString pair.1.text)).map fun pair =>
    (keyNodeOf env pair.1, pair.2)

/-- Keys whose texts come back. -/
def KeysKept (env : EmitEnv Time) (metadata : List (Node × Node)) : Prop :=
  ∀ pair ∈ metadata, ∃ tag style text, pair.1 = .scalar tag style text ∧ StringKept env (cString text)

theorem keyNodeOf_kept {key : Node} (keeps : StringKept env (cString key.text)) :
    nodeOfString env.lib env.scalars.floats (cString key.text) = some (keyNodeOf env key) ∧
      cString (keyNodeOf env key).text = cString key.text := by
  obtain ⟨node, built, same⟩ := Option.map_eq_some_iff.mp keeps
  have eq : keyNodeOf env key = node := by
    unfold keyNodeOf
    rw [built]
    rfl
  rw [eq]
  exact ⟨built, same⟩

theorem setOtherProperties_eq {metadata : List (Node × Node)} (kept : KeysKept env metadata)
    (distinct : (metadata.map fun pair => cString pair.1.text).Nodup) (pairs : List (Node × Node))
    (absent : ∀ pair ∈ metadata, ¬ isClassOrPackage (cString pair.1.text) →
      pairs.find? (keyIs (keyNodeOf env pair.1).text) = none) :
    setOtherProperties env metadata pairs = .ret (some (pairs ++ otherProperties env metadata)) := by
  induction metadata generalizing pairs with
  | nil => simp [setOtherProperties, otherProperties]
  | cons pair rest ih =>
    obtain ⟨key, value⟩ := pair
    obtain ⟨tag, style, text, eq, keeps⟩ := kept (key, value) List.mem_cons_self
    dsimp only at eq
    subst eq
    rw [List.map_cons, List.nodup_cons] at distinct
    obtain ⟨fresh, distinct⟩ := distinct
    have keptRest : KeysKept env rest := fun pair mem => kept pair (List.mem_cons_of_mem _ mem)
    unfold setOtherProperties
    by_cases special : isClassOrPackage (cString text)
    · rw [if_pos special, ih keptRest distinct pairs fun pair mem =>
        absent pair (List.mem_cons_of_mem _ mem)]
      simp [otherProperties, Node.text, special]
    · obtain ⟨built, same⟩ := @keyNodeOf_kept _ env (.scalar tag style text) keeps
      have set := @setValue_absent _ env _ _ value pairs built
        (absent (.scalar tag style text, value) List.mem_cons_self special)
      rw [if_neg special]
      simp only [Node.text] at set
      simp only [set]
      rw [ih keptRest distinct]
      · simp [otherProperties, Node.text, special]
      · intro pair mem other
        obtain ⟨tag', style', text', eq', keeps'⟩ := keptRest pair mem
        obtain ⟨-, same'⟩ := @keyNodeOf_kept _ env pair.1 (by rw [eq']; exact keeps')
        have differ : (keyNodeOf env (.scalar tag style text)).text ≠ (keyNodeOf env pair.1).text := by
          intro equal
          apply fresh
          rw [List.mem_map]
          exact ⟨pair, mem, by rw [← same', ← equal, same]⟩
        obtain ⟨style₀, text₀, node⟩ := nodeOfString_scalar built
        rw [List.find?_append, absent pair (List.mem_cons_of_mem _ mem) other, Option.none_or]
        rw [node] at differ
        simp only [node, List.find?_cons, keyIs, Node.text] at differ ⊢
        simp [differ]

theorem setOtherProperties_skip {front rest pairs : List (Node × Node)}
    (special : ∀ pair ∈ front, ∃ tag style text, pair.1 = .scalar tag style text ∧
      isClassOrPackage (cString text)) :
    setOtherProperties env (front ++ rest) pairs = setOtherProperties env rest pairs := by
  induction front with
  | nil => rfl
  | cons pair front ih =>
    obtain ⟨key, value⟩ := pair
    obtain ⟨tag, style, text, eq, here⟩ := special (key, value) List.mem_cons_self
    dsimp only at eq
    subst eq
    rw [List.cons_append, setOtherProperties, if_pos here]
    exact ih fun pair mem => special pair (List.mem_cons_of_mem _ mem)

/-- A key of another property that is written as the same node. -/
structure KeySettled (env : EmitEnv Time) (key : Node) : Prop where
  other : ¬ isClassOrPackage (cString key.text)
  string : StringSettled env key

section Others

variable {metadata : List (Node × Node)}

/-- The keys that are written of keys whose texts come back. -/
theorem keySettled_of_kept (kept : KeysKept env metadata) {pair : Node × Node}
    (mem : pair ∈ otherProperties env metadata) : KeySettled env pair.1 := by
  obtain ⟨⟨key, value⟩, listed, rfl⟩ := List.mem_map.mp mem
  obtain ⟨listed, other⟩ := List.mem_filter.mp listed
  obtain ⟨tag, style, text, eq, keeps⟩ := kept (key, value) listed
  dsimp only at eq
  subst eq
  obtain ⟨built, same⟩ := @keyNodeOf_kept _ env (.scalar tag style text) keeps
  constructor
  · rw [same]
    exact of_decide_eq_true other
  · unfold StringSettled
    rw [same]
    exact built

/-- Keys that are settled are written as they are. -/
theorem otherProperties_settled (settled : ∀ pair ∈ metadata, KeySettled env pair.1) :
    KeysKept env metadata ∧ otherProperties env metadata = metadata := by
  constructor
  · intro pair mem
    have built := (settled pair mem).string
    obtain ⟨style, text, scalar⟩ := nodeOfString_scalar built
    refine ⟨none, style, text, scalar, ?_⟩
    unfold StringSettled at built
    rw [scalar, Node.text] at built
    unfold StringKept readName
    rw [built]
    rfl
  · have filtered : metadata.filter (fun pair => ¬ isClassOrPackage (cString pair.1.text)) = metadata := by
      apply List.filter_eq_self.mpr
      intro pair mem
      exact decide_eq_true (settled pair mem).other
    have same : metadata.map (fun pair => (keyNodeOf env pair.1, pair.2)) = metadata.map id := by
      apply List.map_congr_left
      rintro ⟨key, value⟩ mem
      have built : nodeOfString env.lib env.scalars.floats (cString key.text) = some key :=
        (settled (key, value) mem).string
      rw [keyNodeOf, built, Option.getD_some]
      rfl
    rw [otherProperties, filtered, same, List.map_id]

/-- No two of them are the same up to a zero. -/
theorem distinct_of_settled (settled : ∀ pair ∈ metadata, KeySettled env pair.1)
    (distinct : (metadata.map fun pair => pair.1.text).Nodup) :
    (metadata.map fun pair => cString pair.1.text).Nodup := by
  have both : metadata.map (fun pair => cString pair.1.text) =
      (metadata.map fun pair => pair.1.text).map cString := by
    rw [List.map_map]
    rfl
  rw [both]
  refine List.Nodup.map_on ?_ distinct
  intro text mem text' mem' same
  obtain ⟨pair, listed, rfl⟩ := List.mem_map.mp mem
  obtain ⟨pair', listed', rfl⟩ := List.mem_map.mp mem'
  have built := (settled pair listed).string
  have built' := (settled pair' listed').string
  unfold StringSettled at built built'
  rw [same] at built
  rw [Option.some.inj (built.symm.trans built')]

theorem otherProperties_distinct (kept : KeysKept env metadata)
    (distinct : (metadata.map fun pair => cString pair.1.text).Nodup) :
    ((otherProperties env metadata).map fun pair => cString pair.1.text).Nodup := by
  have same : (otherProperties env metadata).map (fun pair => cString pair.1.text) =
      (metadata.filter fun pair => ¬ isClassOrPackage (cString pair.1.text)).map
        fun pair => cString pair.1.text := by
    rw [otherProperties, List.map_map]
    apply List.map_congr_left
    rintro ⟨key, value⟩ mem
    obtain ⟨tag, style, text, eq, keeps⟩ := kept (key, value) (List.mem_of_mem_filter mem)
    dsimp only at eq
    subst eq
    exact (@keyNodeOf_kept _ env (.scalar tag style text) keeps).2
  rw [same]
  exact distinct.sublist (List.filter_sublist.map _)

end Others

/-- The class and the package, as pairs. -/
def classAndPackage (env : EmitEnv Time) (classValue : Node) (package : Option Node) : List (Node × Node) :=
  (.scalar none (env.lib.style extensionClassKey) extensionClassKey, classValue) ::
    optionalPair env packageKey package

theorem classAndPackage_special {classValue : Node} {package : Option Node} {pair : Node × Node}
    (mem : pair ∈ classAndPackage env classValue package) : ∃ tag style text,
      pair.1 = .scalar tag style text ∧ isClassOrPackage (cString text) ∧ isClassOrPackage text := by
  rcases List.mem_cons.mp mem with rfl | mem
  · exact ⟨_, _, _, rfl, .inl rfl, .inl rfl⟩
  · obtain ⟨value, -, rfl⟩ := List.mem_map.mp mem
    exact ⟨_, _, _, rfl, .inr rfl, .inr rfl⟩

theorem cString_special {text : Bytes} (special : isClassOrPackage text) : cString text = text := by
  rcases special with rfl | rfl <;> rfl

/-- None of the other properties has the key of the class or the package. -/
theorem classAndPackage_absent {classValue : Node} {package : Option Node} {text : Bytes}
    (other : ¬ isClassOrPackage (cString text)) :
    (classAndPackage env classValue package).find? (keyIs text) = none := by
  rw [List.find?_eq_none]
  rintro ⟨key, value⟩ mem equal
  obtain ⟨tag, style, text', scalar, -, special⟩ := classAndPackage_special mem
  dsimp only at scalar
  subst scalar
  have texts : text' = text := of_decide_eq_true equal
  apply other
  rw [← texts, cString_special special]
  exact special

theorem setString_class {str : Bytes} {classValue : Node}
    (built : nodeOfString env.lib env.scalars.floats str = some classValue) :
    setString env extensionClassKey str [] = some (classAndPackage env classValue none) := by
  unfold setString mappingSetString
  rw [built]
  exact setValue_absent plainKey_extensionClass.built rfl

theorem setOptionalValue_package {classValue : Node} {package : Option Node} :
    setOptionalValue env packageKey package (classAndPackage env classValue none) =
      some (classAndPackage env classValue package) := by
  cases package with
  | none => rfl
  | some value =>
    exact setValue_absent plainKey_package.built rfl

/-- Each of the other properties was put behind the pairs. -/
structure PutBehind (env : EmitEnv Time) (metadata pairs result : List (Node × Node)) : Prop where
  eq : result = pairs ++ otherProperties env metadata
  built : ∀ pair ∈ metadata, ¬ isClassOrPackage (cString pair.1.text) →
    nodeOfString env.lib env.scalars.floats (cString pair.1.text) = some (keyNodeOf env pair.1)
  absent : ∀ pair ∈ otherProperties env metadata, pairs.find? (keyIs pair.1.text) = none
  distinct : ((otherProperties env metadata).map fun pair => pair.1.text).Nodup

theorem replaceValue_keys {key : Bytes} {value : Node} {pairs replaced : List (Node × Node)}
    (h : replaceValue key value pairs = some replaced) : replaced.map Prod.fst = pairs.map Prod.fst := by
  induction pairs generalizing replaced with
  | nil => cases h
  | cons pair rest ih =>
    unfold replaceValue at h
    split at h
    · cases h
      rfl
    · obtain ⟨replaced', later, rfl⟩ := Option.map_eq_some_iff.mp h
      rw [List.map_cons, List.map_cons, ih later]

/-- A property is put in the place of another one with its key, or behind. -/
theorem setValue_cases {key : Bytes} {value : Node} {pairs pairs' : List (Node × Node)}
    (set : setValue env key value pairs = some pairs') : ∃ keyNode,
      nodeOfString env.lib env.scalars.floats key = some keyNode ∧
        (pairs'.map Prod.fst = pairs.map Prod.fst ∨
          pairs.find? (keyIs keyNode.text) = none ∧ pairs' = pairs ++ [(keyNode, value)]) := by
  obtain ⟨keyNode, built, rfl⟩ := Option.map_eq_some_iff.mp set
  refine ⟨keyNode, built, ?_⟩
  unfold assignPair
  cases replaced : replaceValue keyNode.text value pairs with
  | some pairs' => exact .inl (replaceValue_keys replaced)
  | none => exact .inr ⟨replaceValue_none.mp replaced, rfl⟩

section PutBehind

variable {key value : Node} {metadata pairs result : List (Node × Node)}

/-- A class and a package are passed over. -/
theorem otherProperties_skip (special : isClassOrPackage (cString key.text)) :
    otherProperties env ((key, value) :: metadata) = otherProperties env metadata := by
  simp [otherProperties, special]

theorem otherProperties_cons (other : ¬ isClassOrPackage (cString key.text)) :
    otherProperties env ((key, value) :: metadata) =
      (keyNodeOf env key, value) :: otherProperties env metadata := by
  simp [otherProperties, other]

theorem PutBehind.skip (special : isClassOrPackage (cString key.text))
    (behind : PutBehind env metadata pairs result) :
    PutBehind env ((key, value) :: metadata) pairs result := by
  obtain ⟨eq, built, absent, distinct⟩ := behind
  refine ⟨?_, List.forall_mem_cons.mpr ⟨fun other => absurd special other, built⟩, ?_, ?_⟩
  · rw [otherProperties_skip special, eq]
  · rwa [otherProperties_skip special]
  · rwa [otherProperties_skip special]

/-- A property that is put behind, and then the others behind it. -/
theorem PutBehind.cons (other : ¬ isClassOrPackage (cString key.text))
    (built : nodeOfString env.lib env.scalars.floats (cString key.text) = some (keyNodeOf env key))
    (fresh : pairs.find? (keyIs (keyNodeOf env key).text) = none)
    (behind : PutBehind env metadata (pairs ++ [(keyNodeOf env key, value)]) result) :
    PutBehind env ((key, value) :: metadata) pairs result := by
  obtain ⟨eq, later, absent, distinct⟩ := behind
  have more := @otherProperties_cons _ env _ value metadata other
  have free (pair : Node × Node) (mem : pair ∈ otherProperties env metadata) :
      pairs.find? (keyIs pair.1.text) = none ∧ (keyNodeOf env key).text ≠ pair.1.text := by
    have none := absent pair mem
    rw [List.find?_append, Option.or_eq_none_iff] at none
    obtain ⟨style, text, node⟩ := nodeOfString_scalar built
    rw [node] at none ⊢
    exact ⟨none.1, by simpa [keyIs, Node.text] using none.2⟩
  refine ⟨?_, List.forall_mem_cons.mpr ⟨fun _ => built, later⟩, ?_, ?_⟩
  · rw [more, eq, List.append_assoc]
    rfl
  · rw [more]
    exact List.forall_mem_cons.mpr ⟨fresh, fun pair mem => (free pair mem).1⟩
  · rw [more, List.map_cons, List.nodup_cons]
    refine ⟨fun mem => ?_, distinct⟩
    obtain ⟨pair, mem, same⟩ := List.mem_map.mp mem
    exact (free pair mem).2 same.symm

/-- There are at most as many more pairs as there are other properties, and if
there are as many then each was put behind. -/
theorem setOtherProperties_grows (set : setOtherProperties env metadata pairs = .ret (some result)) :
    pairs.map Prod.fst <+: result.map Prod.fst ∧
      result.length ≤ pairs.length + (otherProperties env metadata).length ∧
      (result.length = pairs.length + (otherProperties env metadata).length →
        PutBehind env metadata pairs result) := by
  induction metadata generalizing pairs with
  | nil =>
    cases set
    exact ⟨List.prefix_rfl, Nat.le_refl _, fun _ => ⟨by simp [otherProperties], nofun, nofun, .nil⟩⟩
  | cons pair rest ih =>
    obtain ⟨key, value⟩ := pair
    cases key with
    | sequence tag items => cases set
    | mapping tag pairs' => cases set
    | scalar tag style text =>
      rw [setOtherProperties] at set
      by_cases special : isClassOrPackage (cString text)
      · rw [if_pos special] at set
        obtain ⟨kept, most, behind⟩ := ih set
        have skipped := @otherProperties_skip _ env (.scalar tag style text) value rest special
        rw [skipped]
        exact ⟨kept, most, fun length => .skip special (behind length)⟩
      · rw [if_neg special] at set
        cases put : setValue env (cString text) value pairs with
        | none =>
          rw [put] at set
          cases set
        | some pairs' =>
          rw [put] at set
          obtain ⟨kept, most, behind⟩ := ih set
          obtain ⟨keyNode, built, placed⟩ := setValue_cases put
          have node : keyNode = keyNodeOf env (.scalar tag style text) := by
            rw [keyNodeOf, Node.text, built, Option.getD_some]
          have more := @otherProperties_cons _ env (.scalar tag style text) value rest special
          rw [more, List.length_cons]
          rcases placed with keys | ⟨fresh, rfl⟩
          · have length := congrArg List.length keys
            rw [List.length_map, List.length_map] at length
            exact ⟨keys ▸ kept, by omega, fun total => by omega⟩
          · rw [List.length_append, List.length_singleton] at most behind
            rw [List.map_append] at kept
            subst node
            exact ⟨(List.prefix_append _ _).trans kept, by omega,
              fun total => .cons special built fresh (behind (by omega))⟩

end PutBehind

/-- A node of extension metadata that is written as the same node once it is
read: its class, its package if there is one, and other properties. -/
inductive ExtensionSettled (env : EmitEnv Time) : Node → Prop
  | mk {resolved : Bytes} {classValue : Node} {package : Option Node} {rest : List (Node × Node)}
      (tag : setTag env coreExtensionMetadataTag = .ret (some resolved))
      (canonical : yamlTagCanonicalize resolved = coreExtensionMetadataTag)
      (isClass : StringSettled env classValue)
      (isPackage : ∀ node, package = some node → SoftwareSettled env node)
      (keys : ∀ pair ∈ rest, KeySettled env pair.1)
      (distinct : (rest.map fun pair => pair.1.text).Nodup) :
      ExtensionSettled env (.mapping (some resolved) (classAndPackage env classValue package ++ rest))

section Extension

variable {classValue : Node} {package : Option Node} {pairs rest : List (Node × Node)}

theorem extensionMetadataSerialize_eq_some {extension : ExtensionMetadata} :
    extensionMetadataSerialize env extension = .ret (some pairs) ↔ ∃ str classValue package,
      extension.extensionClass = some str ∧ nodeOfString env.lib env.scalars.floats str = some classValue ∧
      packageValue env extension.package = .ret package ∧
      setOtherProperties env extension.metadata (classAndPackage env classValue package) =
        .ret (some pairs) := by
  unfold extensionMetadataSerialize
  constructor
  · intro made
    cases named : extension.extensionClass with
    | none =>
      rw [named] at made
      cases made
    | some str =>
      cases built : nodeOfString env.lib env.scalars.floats str with
      | none =>
        simp [named, setString, mappingSetString, built] at made
      | some classValue =>
        rw [named, Option.bind_some, setString_class built] at made
        obtain ⟨package, packaged, made⟩ := Outcome.bind_eq_ret.mp made
        rw [setOptionalValue_package] at made
        exact ⟨str, classValue, package, rfl, built, packaged, made⟩
  · rintro ⟨str, classValue, package, named, built, packaged, made⟩
    rw [named, Option.bind_some, setString_class built]
    simp only [setPackage, packaged, Outcome.ret_bind, setOptionalValue_package]
    exact made

theorem classAndPackage_class (tag : Option Bytes) :
    (Node.mapping tag (classAndPackage env classValue package ++ rest)).lookup extensionClassKey =
      some classValue := by
  simp [Node.lookup_mapping, classAndPackage, keyIs]

theorem classAndPackage_package (keys : ∀ pair ∈ rest, ¬ isClassOrPackage (cString pair.1.text))
    (tag : Option Bytes) :
    (Node.mapping tag (classAndPackage env classValue package ++ rest)).lookup packageKey = package := by
  have differ : extensionClassKey ≠ packageKey := by decide
  have absent : rest.find? (keyIs packageKey) = none := by
    rw [List.find?_eq_none]
    rintro ⟨key, value⟩ mem equal
    apply keys (key, value) mem
    cases key with
    | scalar tag style text =>
      rw [show text = packageKey from of_decide_eq_true equal]
      exact .inr rfl
    | sequence tag items => cases equal
    | mapping tag pairs => cases equal
  cases package with
  | none => simp [Node.lookup_mapping, classAndPackage, optionalPair, keyIs, differ, absent]
  | some value => simp [Node.lookup_mapping, classAndPackage, optionalPair, keyIs, differ]

/-- What such pairs are read as. -/
theorem extensionMetadataDeserialize_pairs (keys : ∀ pair ∈ rest, ¬ isClassOrPackage (cString pair.1.text))
    (tag : Option Bytes) :
    extensionMetadataDeserialize env (.mapping tag (classAndPackage env classValue package ++ rest)) =
      (asString0 env.scalars classValue).toOption.map fun str =>
        ⟨some str, package.bind (valueAsSoftware env), classAndPackage env classValue package ++ rest⟩ := by
  unfold extensionMetadataDeserialize stringProperty
  simp only [classAndPackage_class, classAndPackage_package keys, Option.bind_some, Option.bind_eq_bind]
  cases (asString0 env.scalars classValue).toOption <;> rfl

/-- Under the keys of the class and the package there is no other property. -/
theorem otherProperties_special {front : List (Node × Node)}
    (keys : front.map Prod.fst = (classAndPackage env classValue package).map Prod.fst) :
    otherProperties env front = [] := by
  rw [otherProperties, List.filter_eq_nil_iff.mpr, List.map_nil]
  intro pair mem
  have listed := keys ▸ List.mem_map_of_mem mem
  obtain ⟨pair', mem', same⟩ := List.mem_map.mp listed
  obtain ⟨tag, style, text, scalar, special, -⟩ := classAndPackage_special mem'
  rw [← same, scalar]
  exact fun other => absurd special (of_decide_eq_true other)

/-- Pairs that are all of them other properties, under the nodes made of their keys. -/
theorem otherProperties_same (same : otherProperties env rest = rest) {pair : Node × Node}
    (mem : pair ∈ rest) : ¬ isClassOrPackage (cString pair.1.text) ∧ keyNodeOf env pair.1 = pair.1 := by
  have others : rest.filter (fun pair => ¬ isClassOrPackage (cString pair.1.text)) = rest := by
    have length := congrArg List.length same
    rw [otherProperties, List.length_map] at length
    exact List.filter_eq_self.mpr (List.length_filter_eq_length_iff.mp length)
  have nodes : rest.map (fun pair => (keyNodeOf env pair.1, pair.2)) = rest.map id := by
    rw [otherProperties, others] at same
    rw [List.map_id]
    exact same
  exact ⟨of_decide_eq_true (List.filter_eq_self.mp others pair mem),
    congrArg Prod.fst (List.map_inj_left.mp nodes pair mem)⟩

/-- The pairs of a mapping that is written as the same mapping: behind the class
and the package there are only other properties. -/
theorem setOtherProperties_same
    (set : setOtherProperties env pairs (classAndPackage env classValue package) = .ret (some pairs)) :
    ∃ rest, pairs = classAndPackage env classValue package ++ rest ∧
      (∀ pair ∈ rest, KeySettled env pair.1) ∧ (rest.map fun pair => pair.1.text).Nodup := by
  obtain ⟨⟨after, keys⟩, most, behind⟩ := setOtherProperties_grows set
  obtain ⟨front, rest, rfl, frontKeys, -⟩ := List.map_eq_append_iff.mp keys.symm
  have others : otherProperties env (front ++ rest) = otherProperties env rest := by
    have parts : otherProperties env (front ++ rest) =
        otherProperties env front ++ otherProperties env rest := by
      simp [otherProperties]
    rw [parts, otherProperties_special frontKeys, List.nil_append]
  have sameLength := congrArg List.length frontKeys
  have few : (otherProperties env rest).length ≤ rest.length := by
    rw [otherProperties, List.length_map]
    exact List.length_filter_le _ _
  rw [List.length_map, List.length_map] at sameLength
  rw [others, List.length_append] at most behind
  obtain ⟨whole, built, -, distinct⟩ := behind (by omega)
  rw [others] at whole distinct
  obtain ⟨rfl, eq⟩ := List.append_inj whole sameLength
  refine ⟨rest, rfl, fun pair mem => ?_, by rwa [← eq] at distinct⟩
  obtain ⟨other, node⟩ := otherProperties_same eq.symm mem
  have written := built pair (List.mem_append_right _ mem) other
  rw [node] at written
  exact ⟨other, written⟩

/-- Such a node becomes the same node. -/
theorem ExtensionSettled.again {node : Node} (settled : ExtensionSettled env node) :
    ∃ extension, valueAsExtensionMetadata env node = some extension ∧
      valueOfExtensionMetadata env extension = .ret (some node) := by
  cases settled with
  | @mk resolved classValue package rest tag canonical isClass isPackage keys distinct =>
    have others (pair : Node × Node) (mem : pair ∈ rest) := (keys pair mem).other
    have packaged : packageValue env (package.bind (valueAsSoftware env)) = .ret package := by
      cases package with
      | none => rfl
      | some value =>
        obtain ⟨software, as, made⟩ := software_settled_iff.mp (isPackage value rfl)
        rw [Option.bind_some, as]
        exact made
    refine ⟨⟨some (cString classValue.text), package.bind (valueAsSoftware env),
      classAndPackage env classValue package ++ rest⟩, ?_, ?_⟩
    · unfold valueAsExtensionMetadata
      rw [if_pos (isExtensionType_resolved.mpr canonical), extensionMetadataDeserialize_pairs others,
        isClass.read]
      rfl
    · unfold valueOfExtensionMetadata
      refine Outcome.bind_eq_ret.mpr ⟨some _, extensionMetadataSerialize_eq_some.mpr
        ⟨_, classValue, package, rfl, isClass, packaged, ?_⟩,
        valueOfExtensionType_eq_some.mpr ⟨_, resolved, rfl, tag, rfl⟩⟩
      rw [setOtherProperties_skip fun pair mem => ?_]
      · obtain ⟨kept, same⟩ := otherProperties_settled keys
        have put := @setOtherProperties_eq _ env _ kept (distinct_of_settled keys distinct)
          (classAndPackage env classValue package) fun pair mem other => classAndPackage_absent ?_
        · rwa [same] at put
        · have built := (keys pair mem).string
          unfold StringSettled at built
          rw [keyNodeOf, built, Option.getD_some]
          exact other
      · obtain ⟨tag, style, text, scalar, special, -⟩ := classAndPackage_special mem
        exact ⟨tag, style, text, scalar, special⟩

theorem extensionSettled_of_again {node : Node} {extension : ExtensionMetadata}
    (as : valueAsExtensionMetadata env node = some extension)
    (made : valueOfExtensionMetadata env extension = .ret (some node)) :
    ExtensionSettled env node := by
  obtain ⟨serialized, written, made⟩ := Outcome.bind_eq_ret.mp made
  obtain ⟨pairs, resolved, rfl, tag, rfl⟩ := valueOfExtensionType_eq_some.mp made
  obtain ⟨str, classValue, package, named, built, packaged, set⟩ :=
    extensionMetadataSerialize_eq_some.mp written
  unfold valueAsExtensionMetadata at as
  split at as
  · rename_i is
    have metadata : extension.metadata = pairs := by
      simp only [extensionMetadataDeserialize, Option.bind_eq_bind, Option.bind_eq_some_iff] at as
      obtain ⟨_, -, same⟩ := as
      cases same
      rfl
    rw [metadata] at set
    obtain ⟨rest, rfl, keys, distinct⟩ := setOtherProperties_same set
    rw [extensionMetadataDeserialize_pairs fun pair mem => (keys pair mem).other] at as
    obtain ⟨str', read, rfl⟩ := Option.map_eq_some_iff.mp as
    cases named
    refine .mk tag (isExtensionType_resolved.mp is) (stringSettled_of_read built read).1 ?_ keys distinct
    rintro node rfl
    rw [Option.bind_some] at packaged
    cases software : valueAsSoftware env node with
    | none =>
      rw [software] at packaged
      cases packaged
    | some software' =>
      rw [software] at packaged
      exact software_settled_iff.mpr ⟨software', software, packaged⟩
  · cases as

/-- The nodes of extension metadata that become the same node. -/
theorem extension_settled_iff {node : Node} : ExtensionSettled env node ↔
    ∃ extension, valueAsExtensionMetadata env node = some extension ∧
      valueOfExtensionMetadata env extension = .ret (some node) := by
  constructor
  · exact ExtensionSettled.again
  · rintro ⟨extension, as, made⟩
    exact extensionSettled_of_again as made

/-- An extension whose strings come back is written as such a node. -/
theorem extensionSettled_of_stays {extension : ExtensionMetadata} (stays : ExtensionStays env extension)
    {node : Node} (made : valueOfExtensionMetadata env extension = .ret (some node)) :
    ExtensionSettled env node := by
  obtain ⟨serialized, written, made⟩ := Outcome.bind_eq_ret.mp made
  obtain ⟨pairs, resolved, rfl, tag, rfl⟩ := valueOfExtensionType_eq_some.mp made
  obtain ⟨str, classValue, package, named, built, packaged, set⟩ :=
    extensionMetadataSerialize_eq_some.mp written
  have put := @setOtherProperties_eq _ env _ stays.keys stays.distinct
    (classAndPackage env classValue package) fun pair mem other => by
      obtain ⟨tag, style, text, scalar, keeps⟩ := stays.keys pair mem
      obtain ⟨-, same⟩ := @keyNodeOf_kept _ env pair.1 (by rw [scalar]; exact keeps)
      apply classAndPackage_absent
      rw [same]
      exact other
  cases set.symm.trans put
  obtain ⟨resolved', tag', canonical⟩ := stays.tag
  cases tag.symm.trans tag'
  refine .mk tag canonical (stringSettled_of_kept (stays.extensionClass str named) built) ?_
    (fun pair mem => keySettled_of_kept stays.keys mem) ?_
  · rintro node rfl
    cases software : extension.package with
    | none =>
      rw [software] at packaged
      cases packaged
    | some software' =>
      rw [software] at packaged
      exact softwareSettled_of_stays (stays.package software' software) packaged
  · have distinct := otherProperties_distinct stays.keys stays.distinct
    apply List.Nodup.of_map cString
    rw [List.map_map]
    exact distinct

end Extension

end LibAsdf
