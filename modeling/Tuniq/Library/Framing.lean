import Tuniq.Library.Iteration

/-!
# Framing

What a program may have changed is a set: `AgreeOutside read s u u'` says that the
states `u` and `u'` show the same everywhere outside `s`.  The set is an upper bound,
so it may grow (`AgreeOutside.mono`), and one bound serves for two changes in a row
(`AgreeOutside.trans`).

`agreeOutside_rounds` is the rule for loops.  Every round changes cells of `s` only, so
the loop does, however many rounds there are.
-/

namespace Tuniq

variable {σ A V : Type*} {read : σ → A → V} {s s' : Set A}

/-- The two states show the same outside `s`. -/
def AgreeOutside (read : σ → A → V) (s : Set A) (u u' : σ) : Prop :=
  Set.EqOn (read u') (read u) sᶜ

namespace AgreeOutside

theorem refl (u : σ) : AgreeOutside read s u u := Set.eqOn_refl (read u) sᶜ

theorem mono {u u' : σ} (h : AgreeOutside read s u u') (hs : s ⊆ s') :
    AgreeOutside read s' u u' :=
  Set.EqOn.mono (Set.compl_subset_compl.mpr hs) h

theorem trans {u v w : σ} (h : AgreeOutside read s u v) (h' : AgreeOutside read s v w) :
    AgreeOutside read s u w :=
  Set.EqOn.trans h' h

end AgreeOutside

/-- **The frame rule for loops.** -/
theorem agreeOutside_rounds {g : ℕ → σ → σ} {n : ℕ}
    (h : ∀ i, i < n → ∀ u, AgreeOutside read s u (g i u)) (u : σ) :
    AgreeOutside read s u (rounds g n u) := by
  induction n with
  | zero => exact AgreeOutside.refl u
  | succ n ih =>
    have hn := ih fun i hi => h i (by omega)
    exact hn.trans (h n (by omega) _)

end Tuniq
