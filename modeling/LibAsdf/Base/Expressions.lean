import Mathlib.Computability.RegularExpressions

/-!
# Words of regular expressions

Abbreviations in which documented patterns are written, and what a word of each
looks like.

* `oneOf`, `word`, `optional`, `many`: `[...]`, a fixed word, `?` and `+`;
* `mem_mul`, `mem_star`: how words are put together.
-/

namespace RegularExpression

variable {α : Type}

/-- One of some symbols. -/
def oneOf (as : List α) : RegularExpression α := as.foldr (fun a r => char a + r) 0

/-- A fixed word. -/
def word (w : List α) : RegularExpression α := w.foldr (fun a r => char a * r) 1

/-- A word that may be left out. -/
def optional (r : RegularExpression α) : RegularExpression α := 1 + r

/-- One word or more. -/
def many (r : RegularExpression α) : RegularExpression α := r * star r

variable {r s : RegularExpression α} {w : List α} {as : List α}

theorem mem_add : w ∈ (r + s).matches' ↔ w ∈ r.matches' ∨ w ∈ s.matches' := Iff.rfl

theorem mem_mul :
    w ∈ (r * s).matches' ↔ ∃ u ∈ r.matches', ∃ v ∈ s.matches', u ++ v = w := Iff.rfl

theorem mem_char {a : α} : w ∈ (char a).matches' ↔ w = [a] := Iff.rfl

theorem mem_oneOf : w ∈ (oneOf as).matches' ↔ ∃ a ∈ as, w = [a] := by
  induction as with
  | nil => exact ⟨False.elim, nofun⟩
  | cons a as ih =>
    rw [oneOf, List.foldr_cons, mem_add, mem_char, ← oneOf, ih, List.exists_mem_cons_iff]

theorem mem_word {v : List α} : v ∈ (word w).matches' ↔ v = w := by
  induction w generalizing v with
  | nil => exact Iff.rfl
  | cons a w ih =>
    rw [word, List.foldr_cons, mem_mul, ← word]
    constructor
    · rintro ⟨u, hu, t, ht, rfl⟩
      rw [mem_char.mp hu, ih.mp ht]
      rfl
    · rintro rfl
      exact ⟨[a], mem_char.mpr rfl, w, ih.mpr rfl, rfl⟩

theorem mem_optional : w ∈ (optional r).matches' ↔ w = [] ∨ w ∈ r.matches' := Iff.rfl

theorem mem_star : w ∈ (star r).matches' ↔
    w = [] ∨ ∃ u ∈ r.matches', ∃ v ∈ (star r).matches', u ++ v = w := by
  constructor
  · rintro ⟨words, rfl, all⟩
    cases words with
    | nil => exact .inl rfl
    | cons u words =>
      exact .inr ⟨u, all u List.mem_cons_self, words.flatten,
        ⟨words, rfl, fun y hy => all y (List.mem_cons_of_mem _ hy)⟩, rfl⟩
  · rintro (rfl | ⟨u, hu, v, ⟨words, rfl, all⟩, rfl⟩)
    · exact ⟨[], rfl, nofun⟩
    · refine ⟨u :: words, rfl, fun y hy => ?_⟩
      rcases List.mem_cons.mp hy with rfl | hy
      · exact hu
      · exact all y hy

/-- What holds of the empty word, and of a word with one more before it, holds of all
words of a star. -/
theorem star_induction {motive : List α → Prop} (nil : motive [])
    (append : ∀ u ∈ r.matches', ∀ v, motive v → motive (u ++ v)) (h : w ∈ (star r).matches') :
    motive w := by
  obtain ⟨words, rfl, all⟩ := h
  induction words with
  | nil => exact nil
  | cons u words ih =>
    exact append u (all u List.mem_cons_self) _ (ih fun y hy => all y (List.mem_cons_of_mem _ hy))

theorem mem_star_oneOf : w ∈ (star (oneOf as)).matches' ↔ ∀ a ∈ w, a ∈ as := by
  induction w with
  | nil => exact iff_of_true (mem_star.mpr (.inl rfl)) nofun
  | cons b w ih =>
    rw [mem_star, List.forall_mem_cons, ← ih]
    constructor
    · rintro (empty | ⟨u, hu, v, hv, eq⟩)
      · cases empty
      · obtain ⟨a, member, rfl⟩ := mem_oneOf.mp hu
        cases eq
        exact ⟨member, hv⟩
    · rintro ⟨member, rest⟩
      exact .inr ⟨[b], mem_oneOf.mpr ⟨b, member, rfl⟩, w, rest, rfl⟩

theorem mem_many_oneOf : w ∈ (many (oneOf as)).matches' ↔ w ≠ [] ∧ ∀ a ∈ w, a ∈ as := by
  rw [many, mem_mul]
  constructor
  · rintro ⟨u, hu, v, hv, rfl⟩
    obtain ⟨a, member, rfl⟩ := mem_oneOf.mp hu
    refine ⟨nofun, fun b hb => ?_⟩
    rcases List.mem_cons.mp hb with rfl | hb
    · exact member
    · exact mem_star_oneOf.mp hv b hb
  · rintro ⟨some, all⟩
    obtain ⟨a, w, rfl⟩ := List.exists_cons_of_ne_nil some
    exact ⟨[a], mem_oneOf.mpr ⟨a, all a List.mem_cons_self, rfl⟩, w,
      mem_star_oneOf.mpr fun b hb => all b (List.mem_cons_of_mem _ hb), rfl⟩

/-- The sum of fixed words is one of them. -/
theorem mem_sum_word {words : List (List α)} : w ∈ (words.map word).sum.matches' ↔ w ∈ words := by
  induction words with
  | nil => exact ⟨False.elim, nofun⟩
  | cons v words ih => rw [List.map_cons, List.sum_cons, mem_add, mem_word, ih, List.mem_cons]

end RegularExpression
