import Tuniq.Library.Iteration

/-!
# Machines that stop

A machine stops when something every step lowers cannot be lowered forever: this is
`halts_of_measure`, for measures in any well-founded order.

A machine with calls and returns needs more than a counter that goes down.  It keeps a
pile of counters, one for each call that has not returned, and works on the topmost.  A
step may lower it; lower it and lay a new counter on top, of any value below a bound; or
take it away.  The new counter may be larger than everything below it together, so no sum
of the counters goes down.  But when the pile cannot grow higher than some depth, a
counter can be given so much more weight than the one above it that the loss below pays
for any gain on top (`pileWeight_lt`).  `halts_of_pile` is the rule that comes of it.
-/

namespace Tuniq

section Rule

variable {ε σ α : Type*} {step : σ → Except ε σ} {I : σ → Prop}

/-- **The termination rule.**  A machine stops when each of its steps lowers a measure. -/
theorem halts_of_measure [Preorder α] [WellFoundedLT α] (μ : σ → α)
    (hstep : ∀ u u', I u → step u = .ok u' → I u' ∧ μ u' < μ u) {s : σ} (h0 : I s) :
    ∃ r, Halts step s r := by
  induction h : μ s using WellFoundedLT.induction generalizing s with
  | ind a ih =>
    cases hs : step s with
    | error r => exact ⟨r, Halts.of_step hs⟩
    | ok s' =>
      obtain ⟨hI, hlt⟩ := hstep s s' h0 hs
      obtain ⟨r, hr⟩ := ih (μ s') (h ▸ hlt) hI rfl
      exact ⟨r, (Halts.congr_of_step hs).mpr hr⟩

end Rule

/-! ## Piles of counters -/

/-- One step on a pile of counters, the topmost first: never more than `d` counters below
the topmost, and new counters below `b`. -/
inductive PileStep (d b : ℕ) : List ℕ → List ℕ → Prop where
  | lower {k k' : ℕ} {ks : List ℕ} (h : k' < k) : PileStep d b (k :: ks) (k' :: ks)
  | push {j k k' : ℕ} {ks : List ℕ} (hj : j < b) (h : k' < k) (hd : ks.length < d) :
    PileStep d b (k :: ks) (j :: k' :: ks)
  | pop {k : ℕ} {ks : List ℕ} (h : 0 < k) : PileStep d b (k :: ks) ks

/-- The weight of a pile: a counter weighs `b` times as much as one that lies on it. -/
def pileWeight (d b : ℕ) : List ℕ → ℕ
  | [] => 0
  | k :: ks => k * b ^ (d - ks.length) + pileWeight d b ks

/-- **Every step makes the pile lighter.** -/
theorem pileWeight_lt {d b : ℕ} {l l' : List ℕ} (hb : 0 < b) (h : PileStep d b l l') :
    pileWeight d b l' < pileWeight d b l := by
  cases h with
  | @lower k k' ks h =>
    have hpos : 0 < b ^ (d - ks.length) := Nat.pow_pos hb
    unfold pileWeight
    exact Nat.add_lt_add_right (Nat.mul_lt_mul_of_pos_right h hpos) _
  | @push j k k' ks hj h hd =>
    have hpos : 0 < b ^ (d - (ks.length + 1)) := Nat.pow_pos hb
    have hexp : d - ks.length = d - (ks.length + 1) + 1 := by omega
    have hpow : b ^ (d - ks.length) = b * b ^ (d - (ks.length + 1)) := by
      rw [hexp, pow_succ']
    have hnew : j * b ^ (d - (ks.length + 1)) < b ^ (d - ks.length) := by
      rw [hpow]
      exact Nat.mul_lt_mul_of_pos_right hj hpos
    have hold : (k' + 1) * b ^ (d - ks.length) ≤ k * b ^ (d - ks.length) :=
      Nat.mul_le_mul_right _ h
    rw [Nat.succ_mul] at hold
    simp only [pileWeight, List.length_cons]
    omega
  | @pop k _ h =>
    have hpos : 0 < b ^ (d - l'.length) := Nat.pow_pos hb
    have hk : 0 < k * b ^ (d - l'.length) := Nat.mul_pos h hpos
    rw [pileWeight]
    omega

/-- **A machine that works on a pile of counters stops.** -/
theorem halts_of_pile {ε σ : Type*} {step : σ → Except ε σ} {I : σ → Prop} {d b : ℕ}
    (hb : 0 < b) (pile : σ → List ℕ)
    (hstep : ∀ u u', I u → step u = .ok u' → I u' ∧ PileStep d b (pile u) (pile u')) {s : σ}
    (h0 : I s) : ∃ r, Halts step s r := by
  refine halts_of_measure (fun u => pileWeight d b (pile u)) (fun u u' hu h => ?_) h0
  obtain ⟨hI, hpile⟩ := hstep u u' hu h
  exact ⟨hI, pileWeight_lt hb hpile⟩

end Tuniq
