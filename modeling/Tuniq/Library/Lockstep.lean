import Tuniq.Library.Iteration

/-!
# Two programs in lockstep

The same program on two platforms, or two versions of one program, are compared
step by step.  `Related R Q x y` says that two computations end the same way:
both continue, with results related by `R`, or both stop, for reasons related
by `Q`.  It passes through sequences (`Related.bind`) and counted loops
(`forUpTo_related_at`, `forUpTo_related`, `rounds_related`).

When the steps of two machines are related on related states the machines run in
`Lockstep`, and a run of one stops exactly when the run of the other does, with
related outcomes (`Lockstep.halts`, and `Lockstep.symm` for the other direction).
-/

namespace Tuniq

section Related

variable {ε ε' α α' : Type*}

/-- Both computations continue, with related results, or both stop, for related
reasons. -/
inductive Related (R : α → α' → Prop) (Q : ε → ε' → Prop) : Except ε α → Except ε' α' → Prop
  | ok {a : α} {b : α'} (h : R a b) : Related R Q (.ok a) (.ok b)
  | error {e : ε} {e' : ε'} (h : Q e e') : Related R Q (.error e) (.error e')

variable {R : α → α' → Prop} {Q : ε → ε' → Prop}

theorem Related.symm {x : Except ε α} {y : Except ε' α'} (h : Related R Q x y) :
    Related (fun b a => R a b) (fun e' e => Q e e') y x := by
  cases h with
  | ok h => exact .ok h
  | error h => exact .error h

/-- When one computation continues, so does the other. -/
theorem Related.exists_ok {x : Except ε α} {y : Except ε' α'} {a : α} (h : Related R Q x y)
    (hx : x = .ok a) : ∃ b, y = .ok b ∧ R a b := by
  subst hx
  cases h with
  | ok h => exact ⟨_, rfl, h⟩

/-- When one computation stops, so does the other. -/
theorem Related.exists_error {x : Except ε α} {y : Except ε' α'} {e : ε}
    (h : Related R Q x y) (hx : x = .error e) : ∃ e', y = .error e' ∧ Q e e' := by
  subst hx
  cases h with
  | error h => exact ⟨_, rfl, h⟩

end Related

/-- **The rule for sequences.** -/
theorem Related.bind {ε ε' α α' β β' : Type} {R : α → α' → Prop} {R' : β → β' → Prop}
    {Q : ε → ε' → Prop} {x : Except ε α} {y : Except ε' α'} {f : α → Except ε β}
    {g : α' → Except ε' β'} (h : Related R Q x y)
    (hfg : ∀ a b, R a b → Related R' Q (f a) (g b)) : Related R' Q (x >>= f) (y >>= g) := by
  cases h with
  | ok h => exact hfg _ _ h
  | error h => exact .error h

variable {ε ε' σ τ : Type*} {R : σ → τ → Prop} {Q : ε → ε' → Prop}

/-- **The rule for counted loops**, for a relation that knows the round. -/
theorem forUpTo_related_at {R : ℕ → σ → τ → Prop} {body : ℕ → σ → Except ε σ}
    {body' : ℕ → τ → Except ε' τ} {n : ℕ} {s : σ} {u : τ} (h0 : R 0 s u)
    (hbody : ∀ i, i < n → ∀ s u, R i s u → Related (R (i + 1)) Q (body i s) (body' i u)) :
    Related (R n) Q (forUpTo body n s) (forUpTo body' n u) := by
  induction n with
  | zero => exact .ok h0
  | succ n ih =>
    have hn := ih fun i hi => hbody i (by omega)
    rw [forUpTo, forUpTo]
    cases hs : forUpTo body n s with
    | error e =>
      obtain ⟨e', he', hQ⟩ := hn.exists_error hs
      rw [he']
      exact .error hQ
    | ok s' =>
      obtain ⟨u', hu', hR⟩ := hn.exists_ok hs
      rw [hu']
      exact hbody n (by omega) s' u' hR

/-- **The rule for counted loops.** -/
theorem forUpTo_related {body : ℕ → σ → Except ε σ} {body' : ℕ → τ → Except ε' τ} {n : ℕ}
    {s : σ} {u : τ} (h0 : R s u)
    (hbody : ∀ i, i < n → ∀ s u, R s u → Related R Q (body i s) (body' i u)) :
    Related R Q (forUpTo body n s) (forUpTo body' n u) :=
  forUpTo_related_at (R := fun _ => R) h0 hbody

/-- Rounds that keep two states related leave them related. -/
theorem rounds_related {g : ℕ → σ → σ} {g' : ℕ → τ → τ} (n : ℕ) {s : σ} {u : τ} (h0 : R s u)
    (hg : ∀ i s u, R s u → R (g i s) (g' i u)) : R (rounds g n s) (rounds g' n u) := by
  induction n with
  | zero => exact h0
  | succ n ih => exact hg n _ _ ih

/-- Two machines whose steps are related on related states. -/
def Lockstep (step : σ → Except ε σ) (step' : τ → Except ε' τ) (R : σ → τ → Prop)
    (Q : ε → ε' → Prop) : Prop :=
  ∀ s u, R s u → Related R Q (step s) (step' u)

namespace Lockstep

variable {step : σ → Except ε σ} {step' : τ → Except ε' τ}

theorem symm (h : Lockstep step step' R Q) :
    Lockstep step' step (fun u s => R s u) (fun r' r => Q r r') :=
  fun u s hR => (h s u hR).symm

/-- **Machines in lockstep stop together.** -/
theorem halts (h : Lockstep step step' R Q) {s : σ} {u : τ} {r : ε} (hR : R s u)
    (hs : Halts step s r) : ∃ r', Halts step' u r' ∧ Q r r' := by
  obtain ⟨v, ⟨n, hn⟩, hv⟩ := hs
  have hrun : Related R Q (iter step n s) (iter step' n u) :=
    forUpTo_related hR fun _ _ => h
  obtain ⟨v', hn', hR'⟩ := hrun.exists_ok hn
  obtain ⟨r', hr', hQ⟩ := (h v v' hR').exists_error hv
  exact ⟨r', ⟨v', ⟨n, hn'⟩, hr'⟩, hQ⟩

end Lockstep

end Tuniq
