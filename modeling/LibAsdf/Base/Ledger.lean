import LibAsdf.Base.Outcome

/-!
# Resources

What a piece of code has acquired and is still to give back.

* `Ledger`: the resources that are held;
* `release`: one is given back, which faults where it is not held;
* `releaseAny`: the same for a pointer, which may be null;
* `release_acquire`, `release_below`: giving back the last one, and one below.
-/

variable {ε ρ : Type} [DecidableEq ρ]

/-- The resources that are held, the last one first. -/
abbrev Ledger (ρ : Type) := List ρ

namespace Ledger

def acquire (r : ρ) (held : Ledger ρ) : Ledger ρ := r :: held

/-- The end of a resource, or what it means to end one that is not held. -/
def release (e : ε) (r : ρ) (held : Ledger ρ) : Outcome ε (Ledger ρ) :=
  if r ∈ held then .ret (held.erase r) else .fault e

/-- `free`, `close` and the like, which ignore a null pointer. -/
def releaseAny (e : ε) (r : Option ρ) (held : Ledger ρ) : Outcome ε (Ledger ρ) :=
  match r with
  | some r => held.release e r
  | none => .ret held

@[simp] theorem releaseAny_none (e : ε) (held : Ledger ρ) : held.releaseAny e none = .ret held := rfl

@[simp] theorem releaseAny_some (e : ε) (r : ρ) (held : Ledger ρ) :
    held.releaseAny e (some r) = held.release e r := rfl

@[simp] theorem release_acquire (e : ε) (r : ρ) (held : Ledger ρ) :
    release e r (held.acquire r) = .ret held := by
  unfold release acquire
  rw [if_pos List.mem_cons_self, List.erase_cons_head]

theorem release_below (e : ε) {r s : ρ} (ne : s ≠ r) {held rest : Ledger ρ}
    (h : held.release e r = .ret rest) : release e r (held.acquire s) = .ret (rest.acquire s) := by
  unfold release at h
  split at h
  · cases h
    unfold release acquire
    rw [if_pos (List.mem_cons_of_mem s ‹_›), List.erase_cons_tail (by simpa using ne)]
  · cases h

/-- What is not held cannot be given back. -/
theorem release_of_not_mem (e : ε) {r : ρ} {held : Ledger ρ} (h : r ∉ held) :
    held.release e r = .fault e := if_neg h

end Ledger
