import LibAsdf.Base.Outcome

/-!
# Successive calls of a machine

A machine takes turns until a turn gives a result, which ends the call; the
next call goes on from the state that the last one left.

* `Calls`: the results of the calls so far and the state after them;
* `Calls.invariant`: what every turn keeps holds after every call;
* `Stable`, `Halts`, `halts_of_wellFounded`: with enough fuel for each loop,
  turns that go down in a well-founded order come to an end;
* `Says`: a run that is known turn by turn, and `Says.calls_eq`, the calls it makes;
* `callMany`: calls as a function, with a check of every state on the way, and
  `Calls.of_results`, which makes them `Calls`.
-/

namespace Outcome

variable {ε β σ : Type} {body : σ → Outcome ε (σ ⊕ (β × σ))} {fuel : Nat} {Ok : σ → Prop}

/-- Calls of at most `fuel` turns each, all of whose turns start in a state
that is `Ok`. -/
inductive Calls (body : σ → Outcome ε (σ ⊕ (β × σ))) (fuel : Nat) (Ok : σ → Prop) (start : σ) :
    List β → σ → Prop
  | start : Calls body fuel Ok start [] start
  | call {results : List β} {s s' : σ} {b : β} : Calls body fuel Ok start results s →
      (∀ t, Turns body s t → Ok t) → loop body fuel s = ret (b, s') →
      Calls body fuel Ok start (results ++ [b]) s'

/-- The states that turns lead to, whatever the fuel of each, also past the
end of a call. -/
inductive Reached (body : Nat → σ → Outcome ε (σ ⊕ (β × σ))) (start : σ) : σ → Prop
  | start : Reached body start start
  | turn {s t : σ} {fuel : Nat} : Reached body start s → body fuel s = ret (.inl t) →
      Reached body start t
  | call {s t : σ} {b : β} {fuel : Nat} : Reached body start s → body fuel s = ret (.inr (b, t)) →
      Reached body start t

theorem Turns.invariant_of_ok {I : σ → Prop}
    (turn : ∀ s s', I s → Ok s → body s = ret (.inl s') → I s') {s t : σ} (turns : Turns body s t)
    (ok : ∀ t, Turns body s t → Ok t) (h : I s) : I t := by
  induction turns with
  | refl => exact h
  | next before step ih => exact turn _ _ ih (ok _ before) step

/-- A property of the results and the state that every turn keeps. -/
theorem Calls.invariant {I : List β → σ → Prop}
    (turn : ∀ results s s', I results s → Ok s → body s = ret (.inl s') → I results s')
    (exit : ∀ results s b s', I results s → Ok s → body s = ret (.inr (b, s')) →
      I (results ++ [b]) s') {start s : σ} {results : List β}
    (calls : Calls body fuel Ok start results s) (h : I [] start) : I results s := by
  induction calls with
  | start => exact h
  | call _ ok call ih =>
    obtain ⟨t, turns, exits⟩ := exists_exit_of_loop call
    exact exit _ _ _ _ (turns.invariant_of_ok (turn _) ok ih) (ok t turns) exits

theorem Calls.reached {body : Nat → σ → Outcome ε (σ ⊕ (β × σ))} {n : Nat} {start s : σ}
    {results : List β} (calls : Calls (body n) fuel Ok start results s) : Reached body start s :=
  calls.invariant (I := fun _ s => Reached body start s) (fun _ _ _ h _ turn => h.turn turn)
    (fun _ _ _ _ h _ exit => h.call exit) .start

/-! ## Enough fuel -/

/-- More fuel changes nothing once there is enough. -/
def Stable {α : Type} (f : Nat → Outcome ε α) : Prop :=
  ∀ n m, n ≤ m → f n ≠ timeout → f m = f n

section Stable

variable {α γ : Type}

theorem Stable.const (x : Outcome ε α) : Stable fun _ => x := fun _ _ _ _ => rfl

theorem Stable.bind {f : Nat → Outcome ε α} {g : Nat → α → Outcome ε γ} (hf : Stable f)
    (hg : ∀ a, Stable fun n => g n a) : Stable fun n => f n >>= g n := by
  intro n m le enough
  change f n >>= g n ≠ timeout at enough
  have head : f n ≠ timeout := by
    intro out
    rw [out] at enough
    exact enough rfl
  change f m >>= g m = f n >>= g n
  rw [hf n m le head]
  cases first : f n with
  | ret a =>
    rw [first] at enough
    exact hg a n m le enough
  | fault e => rfl
  | timeout => exact absurd first head

theorem Stable.ite {c : Prop} [Decidable c] {f g : Nat → Outcome ε α} (hf : Stable f)
    (hg : Stable g) : Stable fun n => if c then f n else g n := by
  by_cases h : c
  · simpa only [h, if_true] using hf
  · simpa only [h, if_false] using hg

theorem Stable.loop (body : σ → Outcome ε (σ ⊕ α)) (s : σ) :
    Stable fun n => Outcome.loop body n s := by
  intro n
  induction n generalizing s with
  | zero => exact fun _ _ enough => absurd rfl enough
  | succ n ih =>
    intro m le enough
    cases m with
    | zero => exact absurd le (Nat.not_succ_le_zero n)
    | succ m =>
      simp only [loop_succ] at enough ⊢
      cases turn : body s with
      | ret r =>
        rw [turn] at enough
        cases r with
        | inl s' => exact ih s' m (Nat.le_of_succ_le_succ le) enough
        | inr b => rfl
      | fault e => rfl
      | timeout => rfl

theorem Stable.eq {f : Nat → Outcome ε α} (h : Stable f) {n m : Nat} (hn : f n ≠ timeout)
    (hm : f m ≠ timeout) : f n = f m := by
  rcases Nat.le_total n m with le | le
  · exact (h n m le hn).symm
  · exact h m n le hm

end Stable

/-- The results of `m` calls of at most `fuel` turns each, and the state after
them. -/
def calls (body : σ → Outcome ε (σ ⊕ (β × σ))) (fuel : Nat) : Nat → σ → Outcome ε (List β × σ)
  | 0, s => ret ([], s)
  | m + 1, s => loop body fuel s >>= fun (b, s) =>
    calls body fuel m s >>= fun (bs, s) => ret (b :: bs, s)

/-- Every call returns, and from call `n` on the machine is closed. -/
def Halts (body : Nat → σ → Outcome ε (σ ⊕ (β × σ))) (Closed : σ → Prop) (s : σ) : Prop :=
  ∃ F n, ∀ fuel ≥ F, ∀ m, wp (fun _ => False) False (fun r => n ≤ m → Closed r.2)
    (calls (body fuel) fuel m s)

section Halting

variable {body : Nat → σ → Outcome ε (σ ⊕ (β × σ))} {Closed Alive : σ → Prop}

theorem calls_closed (closed : ∀ s, Closed s → ∃ b t, Closed t ∧
    ∀ fuel, body fuel s = ret (.inr (b, t))) {fuel : Nat} (pos : 0 < fuel) :
    ∀ (m : Nat) (s : σ), Closed s →
      wp (fun _ => False) False (fun r => Closed r.2) (calls (body fuel) fuel m s) := by
  intro m
  induction m with
  | zero => exact fun s h => h
  | succ m ih =>
    intro s h
    obtain ⟨b, t, closed, exits⟩ := closed s h
    cases fuel with
    | zero => exact absurd pos (Nat.lt_irrefl 0)
    | succ fuel =>
      rw [calls, loop_of_exit (exits _), ret_bind]
      exact wp_seq (ih t closed) fun r hr => hr

/-- A call of at most `k` turns, and the calls after it. -/
theorem calls_succ_of_turn {s t : σ} {fuel k m : Nat} (turn : body fuel s = ret (.inl t)) :
    (loop (body fuel) (k + 1) s >>= fun (b, s) =>
      calls (body fuel) fuel m s >>= fun (bs, s) => ret (b :: bs, s)) =
    (loop (body fuel) k t >>= fun (b, s) =>
      calls (body fuel) fuel m s >>= fun (bs, s) => ret (b :: bs, s)) := by
  rw [loop_of_continue turn]

/-- What a turn leaves: a closed machine, or one that is alive and lower. -/
def Descends (Closed Alive : σ → Prop) (lt : σ → σ → Prop) (s : σ) : σ ⊕ (β × σ) → Prop
  | .inl t => Alive t ∧ lt t s
  | .inr (_, t) => Closed t ∨ Alive t ∧ lt t s

/-- A machine whose turns go through, keep it alive and go down in a
well-founded order, until one closes it, halts. -/
theorem halts_of_wellFounded (stable : ∀ s, Stable fun fuel => body fuel s)
    (closed : ∀ s, Closed s → ∃ b t, Closed t ∧ ∀ fuel, body fuel s = ret (.inr (b, t)))
    {lt : σ → σ → Prop} (wf : WellFounded lt) {start : σ}
    (step : ∀ s, Reached body start s → Alive s →
      ∃ F, wp (fun _ => False) False (Descends Closed Alive lt s) (body F s)) (alive : Alive start) :
    Halts body Closed start := by
  suffices all : ∀ s, Reached body start s → Alive s → Halts body Closed s from
    all start .start alive
  intro s reached alive
  -- The first call may have had some turns already
  suffices inCall : ∃ F n, ∀ fuel ≥ F, ∀ k ≥ F, ∀ m, wp (fun _ => False) False
      (fun r => n ≤ m + 1 → Closed r.2) (loop (body fuel) k s >>= fun (b, s) =>
        calls (body fuel) fuel m s >>= fun (bs, s) => ret (b :: bs, s)) by
    obtain ⟨F, n, all⟩ := inCall
    refine ⟨F, n + 1, fun fuel enough m => ?_⟩
    cases m with
    | zero => exact fun le => absurd le (Nat.not_succ_le_zero n)
    | succ m => exact wp_mono (all fuel enough fuel enough m) fun r hr le => hr (by omega)
  induction s using wf.induction with
  | h s ih =>
    obtain ⟨F, spec⟩ := step s reached alive
    have same : ∀ fuel ≥ F, body fuel s = body F s := fun fuel enough =>
      stable s F fuel enough (ne_timeout_of_wp spec)
    cases turn : body F s with
    | timeout => exact absurd turn (ne_timeout_of_wp spec)
    | fault e =>
      rw [turn] at spec
      exact spec.elim
    | ret r =>
      have next := wp_of_ret spec turn
      cases r with
      | inl t =>
        obtain ⟨G, n, all⟩ := ih t next.2 (reached.turn turn) next.1
        refine ⟨max F G + 1, n, fun fuel enough k enough' m => ?_⟩
        obtain ⟨k, rfl⟩ : ∃ j, k = j + 1 := ⟨k - 1, by omega⟩
        rw [calls_succ_of_turn ((same fuel (by omega)).trans turn)]
        exact all fuel (by omega) k (by omega) m
      | inr r =>
        obtain ⟨b, t⟩ := r
        rcases next with done | ⟨alive, lower⟩
        · refine ⟨F + 1, 1, fun fuel enough k enough' m => ?_⟩
          obtain ⟨k, rfl⟩ : ∃ j, k = j + 1 := ⟨k - 1, by omega⟩
          rw [loop_of_exit ((same fuel (by omega)).trans turn), ret_bind]
          exact wp_seq (calls_closed closed (by omega) m t done) fun r hr _ => hr
        · obtain ⟨G, n, all⟩ := ih t lower (reached.call turn) alive
          refine ⟨max F G + 1, n + 2, fun fuel enough k enough' m => ?_⟩
          obtain ⟨k, rfl⟩ : ∃ j, k = j + 1 := ⟨k - 1, by omega⟩
          rw [loop_of_exit ((same fuel (by omega)).trans turn), ret_bind]
          cases m with
          | zero => exact fun le => absurd le (by omega)
          | succ m =>
            exact wp_seq (all fuel (by omega) fuel (by omega) m) fun r hr le => hr (by omega)

end Halting

/-! ## Running calls -/

/-- Whether the states of all turns of a call pass a check. -/
def turnsPass (body : σ → Outcome ε (σ ⊕ (β × σ))) (check : σ → Bool) : Nat → σ → Bool
  | 0, _ => false
  | n + 1, s => check s && match body s with
    | ret (.inl s') => turnsPass body check n s'
    | _ => true

theorem turnsPass_sound {check : σ → Bool} {n : Nat} {s t : σ} (h : turnsPass body check n s = true)
    (turns : Turns body s t) : ∃ m, turnsPass body check m t = true := by
  induction turns with
  | refl => exact ⟨n, h⟩
  | next _ step ih =>
    obtain ⟨m, hm⟩ := ih
    cases m with
    | zero => cases hm
    | succ m =>
      rw [turnsPass, step, Bool.and_eq_true] at hm
      exact ⟨m, hm.2⟩

theorem check_of_turnsPass {check : σ → Bool} {n : Nat} {s t : σ}
    (h : turnsPass body check n s = true) (turns : Turns body s t) : check t = true := by
  obtain ⟨m, hm⟩ := turnsPass_sound h turns
  cases m with
  | zero => cases hm
  | succ m =>
    rw [turnsPass, Bool.and_eq_true] at hm
    exact hm.1

/-- Whether the states that turns lead to pass a check, up to one that is
closed. -/
def pathPasses (body : σ → Outcome ε (σ ⊕ (β × σ))) (check closed : σ → Bool) : Nat → σ → Bool
  | 0, _ => false
  | n + 1, s => closed s || check s && match body s with
    | ret (.inl t) => pathPasses body check closed n t
    | ret (.inr (_, t)) => pathPasses body check closed n t
    | fault _ => true
    | timeout => false

/-- Turns with any fuel lead along the path that is checked with `fuel`. -/
theorem check_of_pathPasses {body : Nat → σ → Outcome ε (σ ⊕ (β × σ))} {check closed : σ → Bool}
    (stable : ∀ s, Stable fun fuel => body fuel s)
    (stays : ∀ s, closed s = true → ∃ b t, closed t = true ∧ ∀ fuel, body fuel s = ret (.inr (b, t)))
    {n : Nat} {start t : σ} (h : pathPasses (body fuel) check closed n start = true)
    (reached : Reached body start t) : check t = true ∨ closed t = true := by
  have passes : ∃ m, pathPasses (body fuel) check closed m t = true := by
    have next : ∀ {s : σ} {k m : Nat} {r : σ ⊕ (β × σ)},
        pathPasses (body fuel) check closed m s = true → body k s = ret r →
        ∃ m, pathPasses (body fuel) check closed m (r.elim id Prod.snd) = true := by
      intro s k m r hs turn
      cases m with
      | zero => cases hs
      | succ m =>
        rw [pathPasses, Bool.or_eq_true, Bool.and_eq_true] at hs
        rcases hs with done | ⟨-, more⟩
        · obtain ⟨b, u, closed', exits⟩ := stays s done
          cases (exits k).symm.trans turn
          exact ⟨1, by rw [pathPasses, Sum.elim_inr, closed', Bool.true_or]⟩
        · have same : body fuel s = ret r := by
            rw [← turn]
            apply (stable s).eq
            · intro out
              simp only [out, Bool.false_eq_true] at more
            · rw [turn]
              exact nofun
          rw [same] at more
          cases r with
          | inl u => exact ⟨m, more⟩
          | inr r => exact ⟨m, more⟩
    induction reached with
    | start => exact ⟨n, h⟩
    | turn _ turn ih =>
      obtain ⟨m, hm⟩ := ih
      exact next hm turn
    | call _ exit ih =>
      obtain ⟨m, hm⟩ := ih
      exact next hm exit
  obtain ⟨m, hm⟩ := passes
  cases m with
  | zero => cases hm
  | succ m =>
    rw [pathPasses, Bool.or_eq_true, Bool.and_eq_true] at hm
    exact hm.symm.imp_left And.left

/-- The results of `n` calls whose states pass a check, and the state after
them. -/
def callMany (body : σ → Outcome ε (σ ⊕ (β × σ))) (fuel : Nat) (check : σ → Bool) :
    Nat → σ → Outcome ε (List β × σ)
  | 0, s => ret ([], s)
  | n + 1, s =>
    callMany body fuel check n s >>= fun (results, s) =>
      if turnsPass body check fuel s then
        loop body fuel s >>= fun (b, s) => ret (results ++ [b], s)
      else timeout

def results : Outcome ε (List β × σ) → Option (List β)
  | ret (bs, _) => some bs
  | _ => none

def faulted {α : Type} : Outcome ε α → Option ε
  | fault e => some e
  | _ => none

theorem eq_fault {α : Type} {x : Outcome ε α} {e : ε} (h : x.faulted = some e) : x = fault e := by
  cases x <;> cases h
  rfl

theorem Calls.of_callMany {check : σ → Bool} (ok : ∀ s, check s = true → Ok s) {start : σ} :
    ∀ {n : Nat} {bs : List β} {s : σ}, callMany body fuel check n start = ret (bs, s) →
      Calls body fuel Ok start bs s := by
  intro n
  induction n with
  | zero =>
    intro bs s h
    cases h
    exact .start
  | succ n ih =>
    intro bs s h
    obtain ⟨⟨results, t⟩, before, h⟩ := bind_eq_ret.mp h
    dsimp only at h
    split at h
    · rename_i pass
      obtain ⟨⟨b, u⟩, call, h⟩ := bind_eq_ret.mp h
      cases h
      exact .call (ih before) (fun t turns => ok t (check_of_turnsPass pass turns)) call
    · cases h

/-- Calls whose results are computed. -/
theorem Calls.of_results (body : σ → Outcome ε (σ ⊕ (β × σ))) (fuel : Nat) (check : σ → Bool)
    (ok : ∀ s, check s = true → Ok s) (start : σ) (n : Nat) (bs : List β)
    (h : (callMany body fuel check n start).results = some bs) :
    ∃ s, callMany body fuel check n start = ret (bs, s) ∧ Calls body fuel Ok start bs s := by
  cases run : callMany body fuel check n start with
  | ret r =>
    rw [run] at h
    cases h
    exact ⟨_, rfl, .of_callMany ok run⟩
  | fault e =>
    rw [run] at h
    cases h
  | timeout =>
    rw [run] at h
    cases h

/-- The states of the call after computed calls. -/
theorem check_of_callMany {check : σ → Bool} {n : Nat} {start s : σ} {bs : List β}
    (h : callMany body fuel check n start = ret (bs, s))
    (more : (callMany body fuel check (n + 1) start).results.isSome) {t : σ}
    (turns : Turns body s t) : check t = true := by
  rw [callMany, h, ret_bind] at more
  dsimp only at more
  split at more
  · rename_i pass
    exact check_of_turnsPass pass turns
  · cases more

/-- The call after computed calls. -/
theorem loop_of_callMany {check : σ → Bool} {n : Nat} {start s : σ} {bs : List β}
    (h : callMany body fuel check n start = ret (bs, s)) {e : ε}
    (faults : (callMany body fuel check (n + 1) start).faulted = some e) :
    loop body fuel s = fault e := by
  replace faults := eq_fault faults
  rw [callMany, h, ret_bind] at faults
  dsimp only at faults
  split at faults
  · rcases bind_eq_fault.mp faults with call | ⟨r, -, h⟩
    · exact call
    · cases h
  · cases faults

/-! ## Turns that are known one by one -/

/-- What the machine does from a state on, with enough fuel for each turn: the
results of the calls that come to an end, and the state it is in. -/
inductive Says (body : Nat → σ → Outcome ε (σ ⊕ (β × σ))) : σ → List β → σ → Prop
  | refl (s : σ) : Says body s [] s
  | turn {s t u : σ} {bs : List β} :
      (∃ F, ∀ fuel ≥ F, body fuel s = ret (.inl t)) → Says body t bs u → Says body s bs u
  | call {s t u : σ} {b : β} {bs : List β} :
      (∃ F, ∀ fuel ≥ F, body fuel s = ret (.inr (b, t))) → Says body t bs u →
      Says body s (b :: bs) u

namespace Says

variable {body : Nat → σ → Outcome ε (σ ⊕ (β × σ))} {s t u : σ} {b : β} {bs cs : List β}

theorem trans (h : Says body s bs t) (h' : Says body t cs u) : Says body s (bs ++ cs) u := by
  induction h with
  | refl s => exact h'
  | turn step _ ih => exact .turn step (ih h')
  | call step _ ih => exact .call step (ih h')

theorem single (h : ∃ F, ∀ fuel ≥ F, body fuel s = ret (.inl t)) : Says body s [] t :=
  .turn h (.refl t)

theorem said (h : ∃ F, ∀ fuel ≥ F, body fuel s = ret (.inr (b, t))) : Says body s [b] t :=
  .call h (.refl t)

/-- A turn that does, with a little more fuel, what another does. -/
theorem shift (same : ∀ fuel, body (fuel + 1) s = body fuel t) (h : Says body t bs u)
    (moves : t ≠ u) : Says body s bs u := by
  have later {r : σ ⊕ (β × σ)} (h : ∃ F, ∀ fuel ≥ F, body fuel t = ret r) :
      ∃ F, ∀ fuel ≥ F, body fuel s = ret r := by
    obtain ⟨F, turn⟩ := h
    refine ⟨F + 1, fun fuel enough => ?_⟩
    obtain ⟨fuel, rfl⟩ : ∃ n, fuel = n + 1 := ⟨fuel - 1, by omega⟩
    rw [same, turn fuel (by omega)]
  cases h with
  | refl => exact absurd rfl moves
  | turn step more => exact .turn (later step) more
  | call step more => exact .call (later step) more

/-- The first of the results is what the next call gives. -/
theorem first (h : Says body s (b :: bs) u) :
    ∃ t, (∃ F, ∀ fuel ≥ F, ∀ n ≥ F, loop (body fuel) n s = ret (b, t)) ∧ Says body t bs u := by
  generalize eq : b :: bs = all at h
  induction h with
  | refl s => cases eq
  | turn step _ ih =>
    obtain ⟨t, ⟨F, call⟩, more⟩ := ih eq
    obtain ⟨G, turn⟩ := step
    refine ⟨t, ⟨max F G + 1, fun fuel enough n long => ?_⟩, more⟩
    obtain ⟨n, rfl⟩ : ∃ m, n = m + 1 := ⟨n - 1, by omega⟩
    rw [loop_of_continue (turn fuel (by omega)), call fuel (by omega) n (by omega)]
  | call step more ih =>
    cases eq
    obtain ⟨G, exit⟩ := step
    refine ⟨_, ⟨G + 1, fun fuel enough n long => ?_⟩, more⟩
    obtain ⟨n, rfl⟩ : ∃ m, n = m + 1 := ⟨n - 1, by omega⟩
    rw [loop_of_exit (exit fuel (by omega))]

/-- As many calls as there are results give them, with any fuel that is enough. -/
theorem calls_eq (h : Says body s bs u) :
    ∃ F t, (∀ fuel ≥ F, calls (body fuel) fuel bs.length s = ret (bs, t)) ∧ Says body t [] u := by
  induction bs generalizing s with
  | nil => exact ⟨0, s, fun _ _ => rfl, h⟩
  | cons b bs ih =>
    obtain ⟨t, ⟨F, call⟩, more⟩ := h.first
    obtain ⟨G, last, calls, rest⟩ := ih more
    refine ⟨max F G, last, fun fuel enough => ?_, rest⟩
    rw [List.length_cons, Outcome.calls, call fuel (by omega) fuel (by omega), ret_bind]
    dsimp only
    rw [calls fuel (by omega)]
    rfl

end Says

end Outcome
