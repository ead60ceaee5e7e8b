import Tuniq.Library.Iteration

/-!
# Machines with a call stack

A machine drives a stack when every step leaves the stack alone, pushes one
frame, or pops one.  Nothing else about the machine matters for what follows:
the frames that are already there when a call is made can only be reached by
popping everything above them, so until the stack is back at its old height they
are untouched, and the step that brings it back pops exactly the frame the call
pushed.

* `Pushdown.suffix_of_le`: while a run stays at least as high as a suffix of its
  stack, the suffix stays.
* `Pushdown.lt_of_ne`: the height changes by at most one at a time, so a run that
  starts above a height and never meets it stays above it.
* `Pushdown.first_return`: **the matching pop.**  The first state of a run whose
  stack is back at the height before a push is reached by popping the pushed
  frame, and the frames below are the old ones.
-/

namespace Tuniq

variable {ε σ γ : Type*} {step : σ → Except ε σ} {stk : σ → List γ}

/-- Every step leaves the stack alone, pushes one frame, or pops one. -/
def Pushdown (step : σ → Except ε σ) (stk : σ → List γ) : Prop :=
  ∀ s s', step s = .ok s' →
    stk s' = stk s ∨ (∃ f, stk s' = f :: stk s) ∨ (∃ f, stk s = f :: stk s')

namespace Pushdown

/-- **A stack suffix survives while the run stays above it.** -/
theorem suffix_of_le (h : Pushdown step stk) {base : List γ} {n : ℕ} {s s' : σ}
    (h0 : base <:+ stk s) (hn : iter step n s = .ok s')
    (hle : ∀ j, j ≤ n → ∀ u, iter step j s = .ok u → base.length ≤ (stk u).length) :
    base <:+ stk s' := by
  induction n generalizing s' with
  | zero =>
    obtain rfl := Except.ok.inj hn
    exact h0
  | succ n ih =>
    obtain ⟨u, hu, hus⟩ := iter_succ_eq_ok.mp hn
    have hbase : base <:+ stk u := ih hu fun j hj => hle j (by omega)
    rcases h u s' hus with heq | ⟨f, hpush⟩ | ⟨f, hpop⟩
    · rw [heq]
      exact hbase
    · rw [hpush]
      exact hbase.trans (List.suffix_cons f (stk u))
    · -- the popped frame lies above the suffix, because the rest is long enough
      rw [hpop] at hbase
      rcases List.suffix_cons_iff.mp hbase with heq | hsuf
      · have hlen := hle (n + 1) le_rfl s' hn
        rw [heq, List.length_cons] at hlen
        omega
      · exact hsuf

/-- **The height is met on the way down.**  A run that starts above height `d`
and is never at height `d` is above it throughout. -/
theorem lt_of_ne (h : Pushdown step stk) {d n : ℕ} {s s' : σ} (h0 : d < (stk s).length)
    (hn : iter step n s = .ok s')
    (hne : ∀ j, j ≤ n → ∀ u, iter step j s = .ok u → (stk u).length ≠ d) :
    d < (stk s').length := by
  induction n generalizing s' with
  | zero =>
    obtain rfl := Except.ok.inj hn
    exact h0
  | succ n ih =>
    obtain ⟨u, hu, hus⟩ := iter_succ_eq_ok.mp hn
    have hu' : d < (stk u).length := ih hu fun j hj => hne j (by omega)
    have hs' := hne (n + 1) le_rfl s' hn
    rcases h u s' hus with heq | ⟨f, hpush⟩ | ⟨f, hpop⟩
    · rw [heq]
      exact hu'
    · rw [hpush, List.length_cons]
      omega
    · rw [hpop, List.length_cons] at hu'
      omega

/-- **The matching pop.**  Let a run start with the frame `f` on top of `base`,
and let `s'` be its first state whose stack has the height of `base`.  Then the
last step pops `f`, and the frames of `base` are untouched. -/
theorem first_return (h : Pushdown step stk) {base : List γ} {f : γ} {n : ℕ} {s s' : σ}
    (h0 : stk s = f :: base) (hn : iter step n s = .ok s')
    (hlen : (stk s').length = base.length)
    (hfirst : ∀ j, j < n → ∀ u, iter step j s = .ok u → (stk u).length ≠ base.length) :
    ∃ m u, n = m + 1 ∧ iter step m s = .ok u ∧ step u = .ok s' ∧
      stk u = f :: base ∧ stk s' = base := by
  rcases n with _ | m
  · obtain rfl := Except.ok.inj hn
    rw [h0, List.length_cons] at hlen
    omega
  · obtain ⟨u, hu, hus⟩ := iter_succ_eq_ok.mp hn
    have hstart : base.length < (stk s).length := by
      rw [h0, List.length_cons]
      omega
    have habove : ∀ j, j ≤ m → ∀ v, iter step j s = .ok v → base.length < (stk v).length := by
      intro j hj v hv
      exact h.lt_of_ne hstart hv fun i hi => hfirst i (by omega)
    have hsuf : f :: base <:+ stk u :=
      h.suffix_of_le (h0 ▸ List.suffix_rfl) hu fun j hj v hv => habove j hj v hv
    refine ⟨m, u, rfl, hu, hus, ?_⟩
    have hlt := habove m le_rfl u hu
    rcases h u s' hus with heq | ⟨g, hpush⟩ | ⟨g, hpop⟩
    · rw [heq] at hlen
      omega
    · rw [hpush, List.length_cons] at hlen
      omega
    · -- heights agree, so the suffix is the whole stack
      have hu' : f :: base = stk u := by
        refine hsuf.eq_of_length ?_
        rw [hpop, List.length_cons, List.length_cons, hlen]
      refine ⟨hu'.symm, ?_⟩
      rw [← hu'] at hpop
      exact (List.cons.inj hpop).2.symm

/-- What every push respects bounds the height of the stack throughout. -/
theorem length_le {bound : ℕ} (h : Pushdown step stk)
    (hpush : ∀ s s' f, step s = .ok s' → stk s' = f :: stk s → (stk s).length < bound)
    {n : ℕ} {s s' : σ} (h0 : (stk s).length ≤ bound) (hn : iter step n s = .ok s') :
    (stk s').length ≤ bound := by
  refine iter_invariant (I := fun u => (stk u).length ≤ bound) ?_ h0 hn
  intro u u' hu hstep
  rcases h u u' hstep with heq | ⟨f, hp⟩ | ⟨f, hp⟩
  · rw [heq]
    exact hu
  · have hlt := hpush u u' f hstep hp
    rw [hp, List.length_cons]
    omega
  · rw [hp, List.length_cons] at hu
    omega

end Pushdown

end Tuniq
