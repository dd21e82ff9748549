import Mathlib.Data.List.Perm.Basic

/-!
# Slot tables

A table of slots, some of them in use, that doubles when it is full.

* `reserveSlot`: the first free slot;
* `reserveSlot_spec`: reserving changes no slot that is in use;
* `filter_set_used`, `filter_set_free`: filling a slot and clearing it.
-/

variable {α : Type} {used : α → Bool} {a b free : α} {slots : List α} {idx : Nat}

/-- The table with a free slot, and its index. -/
def reserveSlot (used : α → Bool) (free : α) (slots : List α) : Option (List α × Nat) :=
  match slots.findIdx? (fun a => !used a) with
  | some idx => some (slots, idx)
  | none =>
    if slots.length = 0 then none
    else some (slots ++ List.replicate slots.length free, slots.length)

theorem reserveSlot_spec (used : α → Bool) (free : α) (nonempty : slots ≠ [])
    (unused : used free = false) :
    ∃ slots' idx a, reserveSlot used free slots = some (slots', idx) ∧ slots'[idx]? = some a ∧
      used a = false ∧ slots'.filter used = slots.filter used ∧
      ∀ b ∈ slots', b ∈ slots ∨ b = free := by
  unfold reserveSlot
  cases found : slots.findIdx? (fun a => !used a) with
  | some idx =>
    obtain ⟨inside, here, -⟩ := List.findIdx?_eq_some_iff_getElem.mp found
    refine ⟨slots, idx, slots[idx], rfl, List.getElem?_eq_getElem inside, ?_, rfl,
      fun b mem => .inl mem⟩
    simpa using here
  | none =>
    have some : slots.length ≠ 0 := fun h => nonempty (List.length_eq_zero_iff.mp h)
    have none : (List.replicate slots.length free).filter used = [] := by
      rw [List.filter_eq_nil_iff]
      intro b mem
      rw [List.eq_of_mem_replicate mem, unused]
      exact Bool.false_ne_true
    refine ⟨_, _, free, if_neg some, ?_, unused, ?_, ?_⟩
    · rw [List.getElem?_append_right (Nat.le_refl _), Nat.sub_self, List.getElem?_replicate]
      exact if_pos (Nat.pos_of_ne_zero some)
    · rw [List.filter_append, none, List.append_nil]
    · intro b mem
      cases List.mem_append.mp mem with
      | inl mem => exact .inl mem
      | inr mem => exact .inr (List.eq_of_mem_replicate mem)

/-- A free slot that is filled adds what fills it. -/
theorem filter_set_used (here : slots[idx]? = some a) (unused : used a = false)
    (full : used b = true) : ((slots.set idx b).filter used).Perm (b :: slots.filter used) := by
  induction slots generalizing idx with
  | nil => cases here
  | cons c slots ih =>
    cases idx with
    | zero =>
      cases Option.some.inj here
      rw [List.set_cons_zero, List.filter_cons_of_pos full, List.filter_cons_of_neg]
      rw [unused]
      exact Bool.false_ne_true
    | succ idx =>
      have rest := ih here
      rw [List.set_cons_succ, List.filter_cons, List.filter_cons]
      split
      · exact (rest.cons c).trans (List.Perm.swap b c _)
      · exact rest

/-- A slot that is cleared takes away what it held. -/
theorem filter_set_free (here : slots[idx]? = some a) (full : used a = true)
    (unused : used b = false) :
    (slots.filter used).Perm (a :: (slots.set idx b).filter used) := by
  have inside : idx < slots.length := (List.getElem?_eq_some_iff.mp here).1
  have set : (slots.set idx b)[idx]? = some b := List.getElem?_set_self inside
  have back : (slots.set idx b).set idx a = slots := by
    rw [List.set_set]
    apply List.ext_getElem?
    intro i
    rw [List.getElem?_set]
    split
    · subst i
      rw [here]
    · rfl
  simpa only [back] using filter_set_used set unused full
