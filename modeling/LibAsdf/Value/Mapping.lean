import LibAsdf.Value.Build

/-!
# Mappings

Lookup and assignment by key, on the pairs of a mapping.

* `mappingSetNode`: `asdf_mapping_set_node_ex`;
* `lookup_mappingSetNode`: what is found after an assignment.
-/

namespace LibAsdf

/-- The key of a pair is the scalar `key`. -/
def keyIs (key : Bytes) (pair : Node × Node) : Bool :=
  match pair.1 with
  | .scalar _ _ text => text = key
  | _ => false

/-- `fy_node_pair_set_value` on the pair with the key, if there is one. -/
def replaceValue (key : Bytes) (value : Node) : List (Node × Node) → Option (List (Node × Node))
  | [] => none
  | pair :: rest =>
    if keyIs key pair then some ((pair.1, value) :: rest)
    else (replaceValue key value rest).map (pair :: ·)

/-- An assignment with a key node that is there already. -/
def assignPair (pairs : List (Node × Node)) (keyNode value : Node) (prepend : Bool) :
    List (Node × Node) :=
  match replaceValue keyNode.text value pairs with
  | some replaced => replaced
  | none => if prepend then (keyNode, value) :: pairs else pairs ++ [(keyNode, value)]

/-- `asdf_mapping_set_node_ex`. -/
def mappingSetNode (lib : ScalarBuilder) (fl : Floats) (pairs : List (Node × Node)) (key : Bytes)
    (value : Node) (prepend : Bool) : Option (List (Node × Node)) :=
  (nodeOfString lib fl key).map fun keyNode => assignPair pairs keyNode value prepend

/-- `asdf_mapping_set_string0`. -/
def mappingSetString (lib : ScalarBuilder) (fl : Floats) (pairs : List (Node × Node)) (key str : Bytes) :
    Option (List (Node × Node)) :=
  (nodeOfString lib fl str).bind fun value => mappingSetNode lib fl pairs key value false

theorem Node.lookup_mapping (key : Bytes) (tag : Option Bytes) (pairs : List (Node × Node)) :
    (Node.mapping tag pairs).lookup key = (pairs.find? (keyIs key)).map Prod.snd := rfl

theorem replaceValue_none {key : Bytes} {value : Node} {pairs : List (Node × Node)} :
    replaceValue key value pairs = none ↔ pairs.find? (keyIs key) = none := by
  induction pairs with
  | nil => simp [replaceValue]
  | cons pair rest ih =>
    by_cases h : keyIs key pair = true
    · simp [replaceValue, h]
    · simp [replaceValue, h, ih]

theorem keyIs_value (key : Bytes) (k v v' : Node) : keyIs key (k, v) = keyIs key (k, v') := rfl

theorem keyIs_unique {key key' : Bytes} {pair : Node × Node} (h : keyIs key pair = true)
    (h' : keyIs key' pair = true) : key = key' := by
  obtain ⟨k, v⟩ := pair
  cases k with
  | scalar tag style text =>
    simp only [keyIs, decide_eq_true_eq] at h h'
    exact h.symm.trans h'
  | sequence tag items => cases h
  | mapping tag pairs => cases h

theorem find_replaceValue {key : Bytes} {value : Node} {pairs replaced : List (Node × Node)}
    (h : replaceValue key value pairs = some replaced) (key' : Bytes) :
    (replaced.find? (keyIs key')).map Prod.snd =
      if key' = key then some value else (pairs.find? (keyIs key')).map Prod.snd := by
  induction pairs generalizing replaced with
  | nil => cases h
  | cons pair rest ih =>
    obtain ⟨k, v⟩ := pair
    unfold replaceValue at h
    by_cases here : keyIs key (k, v) = true
    · rw [if_pos here] at h
      cases h
      by_cases same : key' = key
      · subst same
        simp [keyIs_value key' k value v, here]
      · have other : keyIs key' (k, v) = false := by
          apply Bool.eq_false_iff.mpr
          intro both
          exact same (keyIs_unique both here)
        simp [keyIs_value key' k value v, other, same]
    · rw [if_neg here] at h
      obtain ⟨replaced', eq, rfl⟩ := Option.map_eq_some_iff.mp h
      by_cases first : keyIs key' (k, v) = true
      · have other : key' ≠ key := by
          rintro rfl
          exact here first
        simp [first, other]
      · simp only [List.find?_cons, first]
        exact ih eq

/-- After an assignment the key has its value, and the other keys have theirs. -/
theorem lookup_assignPair {pairs : List (Node × Node)} {keyNode value : Node} {prepend : Bool}
    {key : Bytes} (keyed : ∀ value, keyIs key (keyNode, value) = true) (tag : Option Bytes)
    (key' : Bytes) : (Node.mapping tag (assignPair pairs keyNode value prepend)).lookup key' =
      if key' = key then some value else (Node.mapping tag pairs).lookup key' := by
  have text : keyNode.text = key := by
    cases keyNode with
    | scalar tag style text => exact of_decide_eq_true (keyed value)
    | sequence tag items => exact nomatch keyed value
    | mapping tag pairs => exact nomatch keyed value
  rw [Node.lookup_mapping, Node.lookup_mapping]
  unfold assignPair
  rw [text]
  cases h : replaceValue key value pairs with
  | some replaced => exact find_replaceValue h key'
  | none =>
    have absent := replaceValue_none.mp h
    by_cases same : key' = key
    · subst same
      cases prepend with
      | true => simp [keyed]
      | false => simp [List.find?_append, absent, keyed]
    · have other : keyIs key' (keyNode, value) = false := by
        apply Bool.eq_false_iff.mpr
        intro both
        exact same (keyIs_unique both (keyed value))
      cases prepend with
      | true => simp [other, same]
      | false => simp [List.find?_append, other, same]

variable {lib : ScalarBuilder} {fl : Floats}

theorem nodeOfString_clear {str : Bytes} (clear : yamlStringIsAmbiguous fl str = false)
    (short : str.length ≤ 2147483647) :
    nodeOfString lib fl str = some (.scalar none (lib.style str) str) := by
  unfold nodeOfString
  rw [if_neg (Nat.not_lt.mpr short), if_neg (by simp [clear])]

/-- An assignment to a key that needs no quotes. -/
theorem lookup_mappingSetNode {pairs pairs' : List (Node × Node)} {key : Bytes} {value : Node}
    {prepend : Bool} (clear : yamlStringIsAmbiguous fl key = false)
    (short : key.length ≤ 2147483647)
    (set : mappingSetNode lib fl pairs key value prepend = some pairs') (tag : Option Bytes)
    (key' : Bytes) : (Node.mapping tag pairs').lookup key' =
      if key' = key then some value else (Node.mapping tag pairs).lookup key' := by
  unfold mappingSetNode at set
  rw [nodeOfString_clear clear short] at set
  cases set
  apply lookup_assignPair
  intro value
  simp [keyIs]

end LibAsdf
