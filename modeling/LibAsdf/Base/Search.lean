import Mathlib.Data.List.Basic

/-!
# First occurrence of one of several patterns

Searching a list for the first place where one of several patterns begins, and
the same search made through a window that slides over the list.

* `firstMatch`: the least position, and at that position the first pattern in
  list order;
* `firstMatch_eq_some`, `firstMatch_eq_none`: that reading, from both sides;
* `occurs_take`: cutting the list off hides exactly the occurrences that
  cross the cut;
* `firstMatch_drop`: dropping a part in which nothing begins moves the answer;
* `firstMatch_append`: what comes behind a match does not change it;
* `firstMatch_window`: a window that keeps the last `m - 1` entries of the
  part searched before it sees the first occurrence of any pattern of length
  at most `m`.
-/

variable {α : Type}

/-- Pattern number `t` begins at position `o` of `l`. -/
structure Occurs (pats : List (List α)) (l : List α) (o t : Nat) : Prop where
  inside : o < l.length
  begins : ∃ p, pats[t]? = some p ∧ p <+: l.drop o

/-- The order in which occurrences are found: by position, then by number. -/
def Before (a b : Nat × Nat) : Prop := a.1 < b.1 ∨ a.1 = b.1 ∧ a.2 ≤ b.2

variable {pats : List (List α)} {l : List α}

theorem occurs_zero {a : α} {t : Nat} :
    Occurs pats (a :: l) 0 t ↔ ∃ p, pats[t]? = some p ∧ p <+: a :: l :=
  ⟨fun h => h.begins, fun h => ⟨by simp, h⟩⟩

theorem occurs_succ {a : α} {o t : Nat} :
    Occurs pats (a :: l) (o + 1) t ↔ Occurs pats l o t :=
  ⟨fun h => ⟨by simpa using h.inside, h.begins⟩, fun h => ⟨by simpa using h.inside, h.begins⟩⟩

/-- An occurrence that ends by position `n`. -/
def EndsBy (pats : List (List α)) (n o t : Nat) : Prop :=
  o < n ∧ ∀ p, pats[t]? = some p → o + p.length ≤ n

theorem occurs_take {n o t : Nat} :
    Occurs pats (l.take n) o t ↔ Occurs pats l o t ∧ EndsBy pats n o t := by
  constructor
  · intro h
    obtain ⟨p, hp, hpre⟩ := h.begins
    have hin := h.inside
    rw [List.length_take] at hin
    rw [List.drop_take] at hpre
    have hlen := hpre.length_le
    rw [List.length_take] at hlen
    refine ⟨⟨by omega, p, hp, hpre.trans (List.take_prefix _ _)⟩, by omega, fun q hq => ?_⟩
    cases hp.symm.trans hq
    omega
  · rintro ⟨h, lt, ends⟩
    obtain ⟨p, hp, hpre⟩ := h.begins
    have hl := h.inside
    refine ⟨by rw [List.length_take]; omega, p, hp, ?_⟩
    rw [List.drop_take, List.prefix_take_iff]
    exact ⟨hpre, by have := ends p hp; omega⟩

/-- An occurrence past position `k` is an occurrence of the rest. -/
theorem occurs_drop {k o t : Nat} :
    Occurs pats (l.drop k) o t ↔ Occurs pats l (k + o) t := by
  have same : (l.drop k).drop o = l.drop (k + o) := by rw [List.drop_drop]
  constructor
  · intro h
    have hin := h.inside
    rw [List.length_drop] at hin
    exact ⟨by omega, by simpa only [same] using h.begins⟩
  · intro h
    have hin := h.inside
    exact ⟨by rw [List.length_drop]; omega, by simpa only [same] using h.begins⟩

variable [DecidableEq α]

/-- The first pattern, in list order, that `l` begins with. -/
def prefixIndex (pats : List (List α)) (l : List α) : Option Nat :=
  pats.findIdx? (fun p => p.isPrefixOf l)

/-- The first position where a pattern begins, with the pattern's number. -/
def firstMatch (pats : List (List α)) : List α → Option (Nat × Nat)
  | [] => none
  | a :: l =>
    match prefixIndex pats (a :: l) with
    | some t => some (0, t)
    | none => (firstMatch pats l).map fun r => (r.1 + 1, r.2)

theorem prefixIndex_eq_some {t : Nat} :
    prefixIndex pats l = some t ↔
      (∃ p, pats[t]? = some p ∧ p <+: l) ∧ ∀ (u : Nat) p, u < t → pats[u]? = some p → ¬ p <+: l := by
  simp only [prefixIndex, List.findIdx?_eq_some_iff_getElem, List.isPrefixOf_iff_prefix]
  constructor
  · rintro ⟨ht, hp, hlt⟩
    refine ⟨⟨_, List.getElem?_eq_getElem ht, hp⟩, fun u p hu hp' => ?_⟩
    obtain ⟨hb, rfl⟩ := List.getElem?_eq_some_iff.mp hp'
    exact hlt u hu
  · rintro ⟨⟨p, hp, hpre⟩, hlt⟩
    obtain ⟨ht, rfl⟩ := List.getElem?_eq_some_iff.mp hp
    exact ⟨ht, hpre, fun u hu => hlt u _ hu (List.getElem?_eq_getElem (by omega))⟩

theorem prefixIndex_eq_none :
    prefixIndex pats l = none ↔ ∀ (t : Nat) p, pats[t]? = some p → ¬ p <+: l := by
  simp only [prefixIndex, List.findIdx?_eq_none_iff, Bool.eq_false_iff, ne_eq,
    List.isPrefixOf_iff_prefix]
  constructor
  · intro h t p hp
    exact h p (List.mem_of_getElem? hp)
  · intro h p hp
    obtain ⟨t, ht⟩ := List.getElem?_of_mem hp
    exact h t p ht

theorem firstMatch_eq_none : firstMatch pats l = none ↔ ∀ o t, ¬ Occurs pats l o t := by
  induction l with
  | nil => exact ⟨fun _ o t h => by simpa using h.inside, fun _ => rfl⟩
  | cons a l ih =>
    rw [firstMatch]
    cases hp : prefixIndex pats (a :: l) with
    | some t =>
      have occ := occurs_zero.mpr (prefixIndex_eq_some.mp hp).1
      exact ⟨fun h => by simp at h, fun h => absurd occ (h 0 t)⟩
    | none =>
      simp only [Option.map_eq_none_iff, ih]
      constructor
      · intro h o t
        cases o with
        | zero =>
          rw [occurs_zero]
          rintro ⟨p, hp', hpre⟩
          exact prefixIndex_eq_none.mp hp t p hp' hpre
        | succ o => rw [occurs_succ]; exact h o t
      · intro h o t
        rw [← occurs_succ (a := a)]
        exact h (o + 1) t

theorem firstMatch_eq_some {o t : Nat} :
    firstMatch pats l = some (o, t) ↔
      Occurs pats l o t ∧ ∀ o' t', Occurs pats l o' t' → Before (o, t) (o', t') := by
  induction l generalizing o with
  | nil => exact ⟨fun h => by simp [firstMatch] at h, fun h => absurd h.1.inside (by simp)⟩
  | cons a l ih =>
    rw [firstMatch]
    cases hp : prefixIndex pats (a :: l) with
    | some u =>
      obtain ⟨begins, least⟩ := prefixIndex_eq_some.mp hp
      have first : ∀ t', Occurs pats (a :: l) 0 t' → u ≤ t' := by
        intro t' h
        obtain ⟨p, hp', hpre⟩ := h.begins
        exact Nat.le_of_not_lt fun lt => least t' p lt hp' hpre
      simp only [Option.some.injEq, Prod.mk.injEq]
      constructor
      · rintro ⟨rfl, rfl⟩
        refine ⟨occurs_zero.mpr begins, fun o' t' h => ?_⟩
        cases o' with
        | zero => exact .inr ⟨rfl, first t' h⟩
        | succ o' => exact .inl (Nat.succ_pos o')
      · rintro ⟨occ, before⟩
        have lower := before 0 u (occurs_zero.mpr begins)
        have zero : o = 0 := by simp only [Before] at lower; omega
        subst zero
        have upper := first t occ
        simp only [Before] at lower
        omega
    | none =>
      have away : ∀ t', ¬ Occurs pats (a :: l) 0 t' := by
        intro t' h
        obtain ⟨p, hp', hpre⟩ := h.begins
        exact prefixIndex_eq_none.mp hp t' p hp' hpre
      simp only [Option.map_eq_some_iff, Prod.exists, Prod.mk.injEq]
      constructor
      · rintro ⟨o', t', h, rfl, rfl⟩
        obtain ⟨occ, before⟩ := ih.mp h
        refine ⟨occurs_succ.mpr occ, fun o'' t'' h' => ?_⟩
        cases o'' with
        | zero => exact absurd h' (away t'')
        | succ o'' =>
          have := before o'' t'' (occurs_succ.mp h')
          simp only [Before] at this ⊢
          omega
      · rintro ⟨occ, before⟩
        cases o with
        | zero => exact absurd occ (away t)
        | succ o =>
          refine ⟨o, t, ih.mpr ⟨occurs_succ.mp occ, fun o' t' h => ?_⟩, rfl, rfl⟩
          have := before (o' + 1) t' (occurs_succ.mpr h)
          simp only [Before] at this ⊢
          omega

/-! ## Cutting the list off -/

/-- Where nothing begins before position `k`, the search can start there. -/
theorem firstMatch_drop {k : Nat} (clear : ∀ o t, Occurs pats l o t → k ≤ o) :
    firstMatch pats l = (firstMatch pats (l.drop k)).map fun r => (k + r.1, r.2) := by
  cases hf : firstMatch pats (l.drop k) with
  | none =>
    rw [Option.map_none, firstMatch_eq_none]
    intro o t h
    have hk := clear o t h
    refine firstMatch_eq_none.mp hf (o - k) t (occurs_drop.mpr ?_)
    rwa [Nat.add_sub_cancel' hk]
  | some r =>
    obtain ⟨o, t⟩ := r
    obtain ⟨occ, before⟩ := firstMatch_eq_some.mp hf
    rw [Option.map_some, firstMatch_eq_some]
    refine ⟨occurs_drop.mp occ, fun o' t' h => ?_⟩
    have hk := clear o' t' h
    have := before (o' - k) t' (occurs_drop.mpr (by rwa [Nat.add_sub_cancel' hk]))
    simp only [Before] at this ⊢
    omega

/-- A match that leaves room for every pattern stays the first, whatever comes behind. -/
theorem firstMatch_append {o t : Nat} (h : firstMatch pats l = some (o, t))
    (room : ∀ p ∈ pats, o + p.length ≤ l.length) (rest : List α) :
    firstMatch pats (l ++ rest) = some (o, t) := by
  obtain ⟨occ, first⟩ := firstMatch_eq_some.mp h
  have front : (l ++ rest).take l.length = l := List.take_left
  rw [firstMatch_eq_some]
  constructor
  · exact (occurs_take.mp (front.symm ▸ occ)).1
  · intro o' t' occ'
    by_cases later : o < o'
    · exact .inl later
    · refine first o' t' (front ▸ occurs_take.mpr ⟨occ', ?_, fun p entry => ?_⟩)
      · have := occ.inside
        omega
      · have := room p (List.mem_of_getElem? entry)
        omega

/-- The window `[k, k + w)` sees the first occurrence in the whole part up to
its end, if it keeps the last `m - 1` entries of a part without one. -/
theorem firstMatch_window {m k w : Nat} (short : ∀ p ∈ pats, p.length ≤ m)
    (clear : k = 0 ∨ firstMatch pats (l.take (k + (m - 1))) = none) :
    firstMatch pats (l.take (k + w)) =
      (firstMatch pats ((l.drop k).take w)).map fun r => (k + r.1, r.2) := by
  have shift : (l.drop k).take w = (l.take (k + w)).drop k := by
    rw [List.drop_take, Nat.add_sub_cancel_left]
  rw [shift]
  apply firstMatch_drop
  intro o t h
  rcases clear with rfl | none
  · exact Nat.zero_le o
  · apply Nat.le_of_not_lt
    intro lt
    obtain ⟨occ, -, -⟩ := occurs_take.mp h
    refine firstMatch_eq_none.mp none o t (occurs_take.mpr ⟨occ, ?_, fun p hp => ?_⟩)
    · omega
    · have := short p (List.mem_of_getElem? hp)
      omega
