import Tuniq.Library.Lockstep

/-!
# Runs that never stop, and one-way simulations

`Halts` says how a run ends.  The other possibility is that it does not:
`Diverges` asks for a state after every number of steps, and
`diverges_or_halts` says that there is nothing else.

A **simulation** follows one machine by another as long as the first goes on.
It says nothing about the moment the first one stops, which is what a program
embedded in a larger one needs: where the small program is finished the large
one carries on.  `Simulates.reaches` and `Simulates.diverges` are the two things
such a relation gives.

`LockstepUnless` is between this and `Lockstep`: the steps are related but for the
case that the first machine goes wrong.  Then a run of one is a run of the other as far as
the first one does not (`LockstepUnless.halts` and `LockstepUnless.halts_back`).
-/

namespace Tuniq

variable {ε ε' σ τ : Type*} {step : σ → Except ε σ} {step' : τ → Except ε' τ}

/-! ## Divergence -/

/-- The run from `s` has a state after every number of steps. -/
def Diverges (step : σ → Except ε σ) (s : σ) : Prop :=
  ∀ n, ∃ s', iter step n s = .ok s'

/-- **A run stops or goes on for ever.** -/
theorem diverges_or_halts (step : σ → Except ε σ) (s : σ) :
    Diverges step s ∨ ∃ r, Halts step s r := by
  by_cases h : ∃ r, Halts step s r
  · exact Or.inr h
  · refine Or.inl fun n => ?_
    induction n with
    | zero => exact ⟨s, rfl⟩
    | succ n ih =>
      obtain ⟨u, hu⟩ := ih
      cases hstep : step u with
      | error r => exact absurd ⟨r, u, ⟨n, hu⟩, hstep⟩ h
      | ok u' => exact ⟨u', iter_succ_eq_ok.mpr ⟨u, hu, hstep⟩⟩

theorem Diverges.not_halts {s : σ} (h : Diverges step s) (r : ε) : ¬ Halts step s r := by
  rintro ⟨u, ⟨n, hn⟩, hu⟩
  obtain ⟨s', hs'⟩ := h (n + 1)
  obtain ⟨v, hv, hvs⟩ := iter_succ_eq_ok.mp hs'
  obtain rfl : u = v := Except.ok.inj (hn.symm.trans hv)
  rw [hu] at hvs
  exact absurd hvs (by simp)

/-- Where a run comes by decides whether it stops. -/
theorem Diverges.of_reaches {s u : σ} (h : Reaches step s u) (hu : Diverges step u) :
    Diverges step s := by
  rcases diverges_or_halts step s with hs | ⟨r, hr⟩
  · exact hs
  · exact absurd ((Halts.congr_of_reaches h).mp hr) (hu.not_halts r)

/-- A run that visits a state and later stops, stops from there. -/
theorem Halts.eq_of_reaches_of_step {s u : σ} {r r' : ε} (h : Halts step s r)
    (hu : Reaches step s u) (hstop : step u = .error r') : r' = r :=
  Halts.unique ⟨u, hu, hstop⟩ h

/-! ## Counting the steps left -/

/-- The run from `s` stops with outcome `r` after `n` steps that go on. -/
def StopsIn (step : σ → Except ε σ) (n : ℕ) (s : σ) (r : ε) : Prop :=
  ∃ u, iter step n s = .ok u ∧ step u = .error r

theorem halts_iff_stopsIn {s : σ} {r : ε} : Halts step s r ↔ ∃ n, StopsIn step n s r := by
  constructor
  · rintro ⟨u, ⟨n, hn⟩, hu⟩
    exact ⟨n, u, hn, hu⟩
  · rintro ⟨n, u, hn, hu⟩
    exact ⟨u, ⟨n, hn⟩, hu⟩

namespace StopsIn

/-- A run that stops at once has no steps left. -/
theorem eq_of_step {n : ℕ} {s : σ} {r r' : ε} (h : StopsIn step n s r)
    (hs : step s = .error r') : r' = r :=
  (halts_iff_stopsIn.mpr ⟨n, h⟩).eq_of_reaches_of_step (Reaches.refl s) hs

/-- A step taken is one step less to take. -/
theorem of_step {n : ℕ} {s s' : σ} {r : ε} (h : StopsIn step n s r) (hs : step s = .ok s') :
    ∃ m, n = m + 1 ∧ StopsIn step m s' r := by
  obtain ⟨u, hn, hu⟩ := h
  cases n with
  | zero =>
    obtain rfl := Except.ok.inj hn
    rw [hs] at hu
    exact absurd hu (by simp)
  | succ m =>
    rw [iter_succ_head, hs] at hn
    exact ⟨m, rfl, u, hn, hu⟩

/-- So are several. -/
theorem of_iter {n i : ℕ} {s s' : σ} {r : ε} (h : StopsIn step n s r)
    (hi : iter step i s = .ok s') : ∃ m, n = m + i ∧ StopsIn step m s' r := by
  induction i generalizing s' with
  | zero =>
    obtain rfl := Except.ok.inj hi
    exact ⟨n, rfl, h⟩
  | succ i ih =>
    obtain ⟨v, hv, hs⟩ := iter_succ_eq_ok.mp hi
    obtain ⟨m, rfl, hm⟩ := ih hv
    obtain ⟨m', rfl, hm'⟩ := hm.of_step hs
    exact ⟨m', by omega, hm'⟩

end StopsIn

/-! ## Simulations -/

/-- Every step of the first machine that goes on is matched by the second. -/
def Simulates (step : σ → Except ε σ) (step' : τ → Except ε' τ) (R : σ → τ → Prop) : Prop :=
  ∀ s u s', R s u → step s = .ok s' → ∃ u', step' u = .ok u' ∧ R s' u'

namespace Simulates

variable {R : σ → τ → Prop}

theorem iter (h : Simulates step step' R) {n : ℕ} {s s' : σ} {u : τ} (hR : R s u)
    (hn : Tuniq.iter step n s = .ok s') : ∃ u', Tuniq.iter step' n u = .ok u' ∧ R s' u' := by
  induction n generalizing s' with
  | zero =>
    obtain rfl := Except.ok.inj hn
    exact ⟨u, rfl, hR⟩
  | succ n ih =>
    obtain ⟨v, hv, hvs⟩ := iter_succ_eq_ok.mp hn
    obtain ⟨v', hv', hRv⟩ := ih hv
    obtain ⟨u', hu', hRu⟩ := h v v' s' hRv hvs
    exact ⟨u', iter_succ_eq_ok.mpr ⟨v', hv', hu'⟩, hRu⟩

theorem reaches (h : Simulates step step' R) {s s' : σ} {u : τ} (hR : R s u)
    (hs : Reaches step s s') : ∃ u', Reaches step' u u' ∧ R s' u' := by
  obtain ⟨n, hn⟩ := hs
  obtain ⟨u', hu', hR'⟩ := h.iter hR hn
  exact ⟨u', ⟨n, hu'⟩, hR'⟩

theorem diverges (h : Simulates step step' R) {s : σ} {u : τ} (hR : R s u)
    (hs : Diverges step s) : Diverges step' u := by
  intro n
  obtain ⟨s', hs'⟩ := hs n
  obtain ⟨u', hu', -⟩ := h.iter hR hs'
  exact ⟨u', hu'⟩

end Simulates

/-! ## Lockstep, as long as nothing goes wrong -/

/-- The steps are related, or the first machine stops in a way that is `bad`. -/
def LockstepUnless (bad : ε → Prop) (step : σ → Except ε σ) (step' : τ → Except ε' τ)
    (R : σ → τ → Prop) (Q : ε → ε' → Prop) : Prop :=
  ∀ s u, R s u → (∃ r, bad r ∧ step s = .error r) ∨ Related R Q (step s) (step' u)

namespace LockstepUnless

variable {bad : ε → Prop} {R : σ → τ → Prop} {Q : ε → ε' → Prop}

theorem simulates (h : LockstepUnless bad step step' R Q) : Simulates step step' R := by
  intro s u s' hR hs
  rcases h s u hR with ⟨r, -, hr⟩ | hrel
  · rw [hs] at hr
    exact absurd hr (by simp)
  · exact hrel.exists_ok hs

theorem halts (h : LockstepUnless bad step step' R Q) {s : σ} {u : τ} {r : ε} (hR : R s u)
    (hs : Halts step s r) : bad r ∨ ∃ r', Halts step' u r' ∧ Q r r' := by
  obtain ⟨v, hv, hstop⟩ := hs
  obtain ⟨v', hv', hR'⟩ := h.simulates.reaches hR hv
  rcases h v v' hR' with ⟨r', hbad, hr'⟩ | hrel
  · obtain rfl : r = r' := Except.error.inj (hstop.symm.trans hr')
    exact Or.inl hbad
  · obtain ⟨r', hr', hQ⟩ := hrel.exists_error hstop
    exact Or.inr ⟨r', ⟨v', hv', hr'⟩, hQ⟩

theorem halts_back (h : LockstepUnless bad step step' R Q) {s : σ} {u : τ} {r' : ε'}
    (hR : R s u) (hu : Halts step' u r') :
    (∃ r, bad r ∧ Halts step s r) ∨ ∃ r, Halts step s r ∧ Q r r' := by
  rcases diverges_or_halts step s with hs | ⟨r, hr⟩
  · exact absurd hu ((h.simulates.diverges hR hs).not_halts r')
  · rcases h.halts hR hr with hbad | ⟨r'', hr'', hQ⟩
    · exact Or.inl ⟨r, hbad, hr⟩
    · exact Or.inr ⟨r, hr, Halts.unique hr'' hu ▸ hQ⟩

end LockstepUnless

end Tuniq
