import Mathlib

/-!
# Counted loops and machines that may stop

Two shapes of iteration carry every loop of a program written with early exits.

* A **counted loop** runs a body for `i = 0, …, n - 1` and may leave early; the
  exit value lives in the error side of `Except`.  This is `forUpTo`.
* A **machine** repeats one step until the step says stop; again the reason to
  stop lives in the error side.  This is `iter`, which is the counted loop whose
  body ignores its round number.

Keeping both in one definition means an induction over rounds is done once.
`forUpTo` grows at the *end* --- round `n` is run on what rounds `0, …, n - 1`
left --- so an invariant indexed by the number of finished rounds goes through
by plain induction, and `iter_succ_head` recovers the other end for machines.

## What is proved

* `forUpTo_invariant`, `forUpTo_eq_rounds` and `forUpTo_error_of_bad`: what a loop
  that finishes preserves, what it computes when no round leaves early, and why
  it leaves early; `begun_le`, how many rounds it begins.
* `iter_invariant` for the states of a run, `Halts.unique` for its outcome.
* `Halts.congr_of_reaches`: a run may be cut at any state it visits.
-/

namespace Tuniq

variable {ε σ : Type*}

/-! ## Counted loops -/

/-- `for i in 0..n { body }` on a state `s`, left early by an error. -/
def forUpTo (body : ℕ → σ → Except ε σ) : ℕ → σ → Except ε σ
  | 0, s => .ok s
  | n + 1, s =>
    match forUpTo body n s with
    | .ok s' => body n s'
    | .error e => .error e

@[simp] theorem forUpTo_zero (body : ℕ → σ → Except ε σ) (s : σ) :
    forUpTo body 0 s = .ok s := rfl

theorem forUpTo_succ (body : ℕ → σ → Except ε σ) (n : ℕ) (s : σ) :
    forUpTo body (n + 1) s = forUpTo body n s >>= body n := by
  rw [forUpTo]
  cases forUpTo body n s <;> rfl

/-- A loop that finished `n + 1` rounds finished `n` of them first. -/
theorem forUpTo_succ_eq_ok {body : ℕ → σ → Except ε σ} {n : ℕ} {s s' : σ} :
    forUpTo body (n + 1) s = .ok s' ↔
      ∃ u, forUpTo body n s = .ok u ∧ body n u = .ok s' := by
  rw [forUpTo]
  cases forUpTo body n s <;> simp

/-- **The invariant rule.**  What holds before round `0` and is kept by every
round that finishes holds after the last one. -/
theorem forUpTo_invariant {body : ℕ → σ → Except ε σ} {I : ℕ → σ → Prop} {n : ℕ}
    {s s' : σ} (h0 : I 0 s)
    (hstep : ∀ i, i < n → ∀ u u', I i u → body i u = .ok u' → I (i + 1) u')
    (h : forUpTo body n s = .ok s') : I n s' := by
  induction n generalizing s' with
  | zero =>
    rw [forUpTo_zero] at h
    obtain rfl := Except.ok.inj h
    exact h0
  | succ n ih =>
    obtain ⟨u, hu, hb⟩ := forUpTo_succ_eq_ok.mp h
    have hI : I n u := ih (fun i hi => hstep i (by omega)) hu
    exact hstep n (by omega) u s' hI hb

/-- **One bad round is enough.**  A loop leaves early when one of its rounds does,
on every state the invariant allows. -/
theorem forUpTo_error_of_bad {body : ℕ → σ → Except ε σ} {I : σ → Prop} {n i : ℕ} {s : σ}
    (hi : i < n) (h0 : I s)
    (hkeep : ∀ i, i < n → ∀ u u', I u → body i u = .ok u' → I u')
    (hbad : ∀ u, I u → ∃ e, body i u = .error e) :
    ∃ e, forUpTo body n s = .error e := by
  induction n with
  | zero => exact absurd hi (Nat.not_lt_zero i)
  | succ n ih =>
    have hkeep' : ∀ i, i < n → ∀ u u', I u → body i u = .ok u' → I u' :=
      fun i hi => hkeep i (by omega)
    rw [forUpTo]
    rcases Nat.lt_succ_iff_lt_or_eq.mp hi with hlt | rfl
    · obtain ⟨e, he⟩ := ih hlt hkeep'
      rw [he]
      exact ⟨e, rfl⟩
    · cases hu : forUpTo body i s with
      | error e => exact ⟨e, rfl⟩
      | ok u => exact hbad u (forUpTo_invariant (I := fun _ => I) h0 hkeep' hu)

/-- A loop that finishes `i` rounds and leaves in the next one. -/
theorem forUpTo_error_at {body : ℕ → σ → Except ε σ} {n i : ℕ} {s u : σ} {e : ε} (hi : i < n)
    (hu : forUpTo body i s = .ok u) (he : body i u = .error e) :
    forUpTo body n s = .error e := by
  induction n with
  | zero => exact absurd hi (Nat.not_lt_zero i)
  | succ n ih =>
    rw [forUpTo]
    rcases Nat.lt_succ_iff_lt_or_eq.mp hi with hlt | rfl
    · rw [ih hlt]
    · rw [hu]
      exact he

/-- A loop that leaves in its first round. -/
theorem forUpTo_error_head {body : ℕ → σ → Except ε σ} {s : σ} {e : ε}
    (h : body 0 s = .error e) (n : ℕ) : forUpTo body (n + 1) s = .error e :=
  forUpTo_error_at (Nat.succ_pos n) (forUpTo_zero body s) h

/-- Rounds that differ in what they call their errors. -/
theorem forUpTo_mapError {ε' : Type*} {body : ℕ → σ → Except ε σ}
    {body' : ℕ → σ → Except ε' σ} {f : ε' → ε} {n : ℕ}
    (h : ∀ i, i < n → ∀ s, body i s = (body' i s).mapError f) (s : σ) :
    forUpTo body n s = (forUpTo body' n s).mapError f := by
  induction n with
  | zero => rfl
  | succ n ih =>
    rw [forUpTo, forUpTo, ih fun i hi => h i (by omega)]
    cases forUpTo body' n s with
    | error e => rfl
    | ok u => exact h n (by omega) u

/-- The number of rounds a loop begins, the one it leaves in included. -/
def begun (body : ℕ → σ → Except ε σ) : ℕ → σ → ℕ
  | 0, _ => 0
  | n + 1, s =>
    match forUpTo body n s with
    | .ok _ => n + 1
    | .error _ => begun body n s

/-- **The rule for the number of rounds.**  An invariant that leaves no room for round
`b` bounds the rounds begun. -/
theorem begun_le {body : ℕ → σ → Except ε σ} {I : ℕ → σ → Prop} {n b : ℕ} {s : σ}
    (h0 : I 0 s) (hstep : ∀ i, i < n → ∀ u u', I i u → body i u = .ok u' → I (i + 1) u')
    (hbound : ∀ i u, I i u → i < b) : begun body n s ≤ b := by
  induction n with
  | zero => exact Nat.zero_le b
  | succ n ih =>
    have hstep' : ∀ i, i < n → ∀ u u', I i u → body i u = .ok u' → I (i + 1) u' :=
      fun i hi => hstep i (by omega)
    rw [begun]
    cases hu : forUpTo body n s with
    | error e => exact ih hstep'
    | ok u => exact hbound n u (forUpTo_invariant h0 hstep' hu)

/-- `n` rounds of a body that never leaves early. -/
def rounds (g : ℕ → σ → σ) : ℕ → σ → σ
  | 0, s => s
  | n + 1, s => g n (rounds g n s)

/-- **A loop that never leaves early.**  When each round finishes with a known
state, so does the loop. -/
theorem forUpTo_eq_rounds {body : ℕ → σ → Except ε σ} {g : ℕ → σ → σ} {I : σ → Prop} {n : ℕ}
    {s : σ} (h0 : I s) (hkeep : ∀ i u, I u → I (g i u))
    (hbody : ∀ i, i < n → ∀ u, I u → body i u = .ok (g i u)) :
    forUpTo body n s = .ok (rounds g n s) ∧ I (rounds g n s) := by
  induction n with
  | zero => exact ⟨rfl, h0⟩
  | succ n ih =>
    obtain ⟨hn, hI⟩ := ih fun i hi => hbody i (by omega)
    refine ⟨?_, hkeep n _ hI⟩
    rw [forUpTo, hn]
    exact hbody n (by omega) _ hI

/-! ## Machines -/

/-- `n` steps of a machine; an error is the outcome the machine stopped with. -/
def iter (step : σ → Except ε σ) (n : ℕ) (s : σ) : Except ε σ :=
  forUpTo (fun _ => step) n s

variable {step : σ → Except ε σ}

@[simp] theorem iter_zero (s : σ) : iter step 0 s = .ok s := rfl

/-- One more step at the end of a run. -/
theorem iter_succ_eq_ok {n : ℕ} {s s' : σ} :
    iter step (n + 1) s = .ok s' ↔ ∃ u, iter step n s = .ok u ∧ step u = .ok s' :=
  forUpTo_succ_eq_ok

/-- One more step at the start of a run. -/
theorem iter_succ_head (n : ℕ) (s : σ) :
    iter step (n + 1) s = step s >>= iter step n := by
  induction n with
  | zero =>
    rw [iter, forUpTo_succ, forUpTo_zero]
    cases h : step s <;> simp [h, bind, Except.bind]
  | succ n ih =>
    have hsplit : iter step (n + 1 + 1) s = iter step (n + 1) s >>= step :=
      forUpTo_succ _ _ _
    rw [hsplit, ih]
    cases step s with
    | error e => rfl
    | ok u => exact (forUpTo_succ (fun _ => step) n u).symm

theorem iter_add (m n : ℕ) (s : σ) :
    iter step (m + n) s = iter step m s >>= iter step n := by
  induction n with
  | zero =>
    cases iter step m s <;> rfl
  | succ n ih =>
    have hsplit : iter step (m + (n + 1)) s = iter step (m + n) s >>= step :=
      forUpTo_succ _ _ _
    rw [hsplit, ih]
    cases iter step m s with
    | error e => rfl
    | ok u => exact (forUpTo_succ (fun _ => step) n u).symm

/-- A run of `m + n` steps visits the state a run of `m` steps ends in. -/
theorem iter_add_eq_ok {m n : ℕ} {s s' : σ} :
    iter step (m + n) s = .ok s' ↔ ∃ u, iter step m s = .ok u ∧ iter step n u = .ok s' := by
  rw [iter_add]
  cases iter step m s <;> simp [bind, Except.bind]

/-- Every shorter run of a run that goes on goes on as well. -/
theorem iter_ok_of_le {m n : ℕ} {s s' : σ} (hmn : m ≤ n) (h : iter step n s = .ok s') :
    ∃ u, iter step m s = .ok u ∧ iter step (n - m) u = .ok s' := by
  refine iter_add_eq_ok.mp ?_
  rw [Nat.add_sub_cancel' hmn]
  exact h

/-- **The invariant rule for runs.** -/
theorem iter_invariant {I : σ → Prop} (hstep : ∀ u u', I u → step u = .ok u' → I u')
    {n : ℕ} {s s' : σ} (h0 : I s) (h : iter step n s = .ok s') : I s' :=
  forUpTo_invariant (I := fun _ => I) h0 (fun _ _ => hstep) h

/-- `s'` is a state of the run from `s`. -/
def Reaches (step : σ → Except ε σ) (s s' : σ) : Prop :=
  ∃ n, iter step n s = .ok s'

theorem Reaches.refl (s : σ) : Reaches step s s := ⟨0, rfl⟩

theorem Reaches.head {s u s' : σ} (h : step s = .ok u) (hu : Reaches step u s') :
    Reaches step s s' := by
  obtain ⟨n, hn⟩ := hu
  refine ⟨n + 1, ?_⟩
  rw [iter_succ_head, h]
  exact hn

theorem Reaches.trans {s u s' : σ} (h : Reaches step s u) (hu : Reaches step u s') :
    Reaches step s s' := by
  obtain ⟨m, hm⟩ := h
  obtain ⟨n, hn⟩ := hu
  exact ⟨m + n, iter_add_eq_ok.mpr ⟨u, hm, hn⟩⟩

theorem Reaches.invariant {I : σ → Prop} (hstep : ∀ u u', I u → step u = .ok u' → I u')
    {s s' : σ} (h0 : I s) (h : Reaches step s s') : I s' := by
  obtain ⟨n, hn⟩ := h
  exact iter_invariant hstep h0 hn

/-- The run from `s` stops, with outcome `r`. -/
def Halts (step : σ → Except ε σ) (s : σ) (r : ε) : Prop :=
  ∃ u, Reaches step s u ∧ step u = .error r

/-- **A run has one outcome.** -/
theorem Halts.unique {s : σ} {r r' : ε} (h : Halts step s r) (h' : Halts step s r') :
    r = r' := by
  obtain ⟨u, ⟨m, hm⟩, hu⟩ := h
  obtain ⟨u', ⟨n, hn⟩, hu'⟩ := h'
  -- the shorter run ends in a state the longer one leaves, so both have one length
  have key : ∀ {m n : ℕ} {u u' : σ} {r : ε}, iter step m s = .ok u → step u = .error r →
      iter step n s = .ok u' → n ≤ m := by
    intro m n u u' r hm hu hn
    by_contra hlt
    obtain ⟨w, hw, -⟩ := iter_ok_of_le (by omega : m + 1 ≤ n) hn
    obtain ⟨v, hv, hvw⟩ := iter_succ_eq_ok.mp hw
    obtain rfl : u = v := Except.ok.inj (hm.symm.trans hv)
    rw [hu] at hvw
    exact absurd hvw (by simp)
  obtain rfl : m = n := le_antisymm (key hn hu' hm) (key hm hu hn)
  obtain rfl : u = u' := Except.ok.inj (hm.symm.trans hn)
  exact Except.error.inj (hu.symm.trans hu')

/-- **A run may be cut at any state it visits.** -/
theorem Halts.congr_of_reaches {s u : σ} {r : ε} (h : Reaches step s u) :
    Halts step s r ↔ Halts step u r := by
  constructor
  · rintro ⟨v, ⟨n, hn⟩, hv⟩
    obtain ⟨m, hm⟩ := h
    rcases Nat.lt_or_ge n m with hlt | hge
    · -- the run would stop before it reaches `u`
      obtain ⟨w, hw, -⟩ := iter_ok_of_le (by omega : n + 1 ≤ m) hm
      obtain ⟨v', hv', hstep⟩ := iter_succ_eq_ok.mp hw
      obtain rfl : v = v' := Except.ok.inj (hn.symm.trans hv')
      rw [hv] at hstep
      exact absurd hstep (by simp)
    · obtain ⟨w, hw, hrest⟩ := iter_ok_of_le hge hn
      obtain rfl : u = w := Except.ok.inj (hm.symm.trans hw)
      exact ⟨v, ⟨n - m, hrest⟩, hv⟩
  · rintro ⟨v, hv, hr⟩
    exact ⟨v, h.trans hv, hr⟩

theorem Halts.congr_of_step {s u : σ} {r : ε} (h : step s = .ok u) :
    Halts step s r ↔ Halts step u r :=
  Halts.congr_of_reaches ((Reaches.refl u).head h)

theorem Halts.of_step {s : σ} {r : ε} (h : step s = .error r) : Halts step s r :=
  ⟨s, Reaches.refl s, h⟩

/-! ## Observing a run

A state may hold data without decidable equality; what a concrete run shows of
it can still be evaluated. -/

/-- What `f` shows of the state after `n` steps, if the run gets there. -/
def observe {α : Type*} (step : σ → Except ε σ) (f : σ → α) (n : ℕ) (s : σ) : Option α :=
  match iter step n s with
  | .ok s' => some (f s')
  | .error _ => none

theorem observe_eq_some {α : Type*} {f : σ → α} {n : ℕ} {s : σ} {a : α} :
    observe step f n s = some a ↔ ∃ s', iter step n s = .ok s' ∧ f s' = a := by
  rw [observe]
  cases iter step n s <;> simp

/-- What `f` shows of the outcome when the `n`-th step stops the run. -/
def outcome {α : Type*} (step : σ → Except ε σ) (f : ε → α) (n : ℕ) (s : σ) : Option α :=
  match iter step n s with
  | .ok s' =>
    match step s' with
    | .ok _ => none
    | .error r => some (f r)
  | .error _ => none

theorem halts_of_outcome {α : Type*} {f : ε → α} {n : ℕ} {s : σ} {a : α}
    (h : outcome step f n s = some a) : ∃ r, Halts step s r ∧ f r = a := by
  rw [outcome] at h
  split at h
  · rename_i s' hs'
    split at h
    · exact absurd h (by simp)
    · rename_i r hr
      exact ⟨r, ⟨s', ⟨n, hs'⟩, hr⟩, Option.some.inj h⟩
  · exact absurd h (by simp)

end Tuniq
