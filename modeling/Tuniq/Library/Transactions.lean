import Mathlib

/-!
# Atomic transactions

A ledger processes transactions one after the other.  Each either succeeds and
replaces the state, or fails and leaves it as it was; nothing in between shows.
`runAll` is the state behind a sequence of transactions and `accepted` the
transactions of the sequence that succeeded.

What holds of every run is proved from what one successful transaction does.
`history_invariant` is the rule: an invariant that ties the state to the
transactions accepted so far, kept by each of them, holds behind any sequence.
`runAll_grows` is its companion for orders in which the state only grows.
-/

namespace Tuniq

variable {τ σ ε : Type*} (exec : τ → σ → Except ε σ)

/-- The state behind one transaction. -/
def attempt (s : σ) (tx : τ) : σ :=
  match exec tx s with
  | .ok s' => s'
  | .error _ => s

/-- The state behind a sequence of transactions. -/
def runAll (s : σ) (txs : List τ) : σ := txs.foldl (attempt exec) s

/-- The transactions of a sequence that succeed. -/
def accepted : σ → List τ → List τ
  | _, [] => []
  | s, tx :: txs =>
    match exec tx s with
    | .ok s' => tx :: accepted s' txs
    | .error _ => accepted s txs

variable {exec}

theorem attempt_of_ok {s s' : σ} {tx : τ} (h : exec tx s = .ok s') :
    attempt exec s tx = s' := by
  rw [attempt, h]

theorem attempt_of_error {s : σ} {tx : τ} {e : ε} (h : exec tx s = .error e) :
    attempt exec s tx = s := by
  rw [attempt, h]

@[simp] theorem runAll_nil (s : σ) : runAll exec s [] = s := rfl

@[simp] theorem runAll_cons (s : σ) (tx : τ) (txs : List τ) :
    runAll exec s (tx :: txs) = runAll exec (attempt exec s tx) txs := rfl

theorem runAll_append (s : σ) (txs txs' : List τ) :
    runAll exec s (txs ++ txs') = runAll exec (runAll exec s txs) txs' :=
  List.foldl_append

/-- What succeeded was submitted. -/
theorem mem_of_mem_accepted {s : σ} {txs : List τ} {tx : τ} (h : tx ∈ accepted exec s txs) :
    tx ∈ txs := by
  induction txs generalizing s with
  | nil => exact absurd h List.not_mem_nil
  | cons tx' txs ih =>
    rw [accepted] at h
    split at h
    · rcases List.mem_cons.mp h with rfl | hrest
      · exact List.mem_cons_self
      · exact List.mem_cons_of_mem _ (ih hrest)
    · exact List.mem_cons_of_mem _ (ih h)

/-- **The rule for histories.**  The invariant speaks of the state and of the
transactions accepted on the way to it. -/
theorem history_invariant {I : σ → List τ → Prop}
    (hstep : ∀ s history tx s', I s history → exec tx s = .ok s' → I s' (history ++ [tx]))
    {s : σ} (history : List τ) (h0 : I s history) (txs : List τ) :
    I (runAll exec s txs) (history ++ accepted exec s txs) := by
  induction txs generalizing s history with
  | nil =>
    rw [accepted, List.append_nil]
    exact h0
  | cons tx txs ih =>
    rw [runAll_cons, accepted]
    cases htx : exec tx s with
    | error e =>
      rw [attempt_of_error htx]
      exact ih history h0
    | ok s' =>
      rw [attempt_of_ok htx]
      have hrest := ih (history ++ [tx]) (hstep s history tx s' h0 htx)
      rwa [List.append_assoc] at hrest

/-- The rule for invariants of the state alone. -/
theorem runAll_invariant {I : σ → Prop}
    (hstep : ∀ s tx s', I s → exec tx s = .ok s' → I s') {s : σ} (h0 : I s) (txs : List τ) :
    I (runAll exec s txs) := by
  exact history_invariant (I := fun s _ => I s)
    (fun s _ tx s' hs htx => hstep s tx s' hs htx) [] h0 txs

/-- **The rule for growth.**  When each successful transaction leaves the state at
least as large, so does every sequence. -/
theorem runAll_grows {R : σ → σ → Prop} (hrefl : ∀ s, R s s)
    (htrans : ∀ s u v, R s u → R u v → R s v)
    (hstep : ∀ s tx s', exec tx s = .ok s' → R s s') (s : σ) (txs : List τ) :
    R s (runAll exec s txs) :=
  runAll_invariant (I := R s)
    (fun u tx u' hu htx => htrans s u u' hu (hstep u tx u' htx)) (hrefl s) txs

/-! ## Sequences that succeed as a whole -/

theorem foldlM_exec_cons {s s' : σ} {tx : τ} {txs : List τ} :
    (tx :: txs).foldlM (fun s tx => exec tx s) s = .ok s' ↔
      ∃ u, exec tx s = .ok u ∧ txs.foldlM (fun s tx => exec tx s) u = .ok s' := by
  rw [List.foldlM_cons]
  constructor
  · intro h
    cases hu : exec tx s with
    | ok u =>
      rw [hu] at h
      exact ⟨u, rfl, h⟩
    | error e =>
      rw [hu] at h
      cases h
  · rintro ⟨u, hu, h⟩
    rw [hu]
    exact h

end Tuniq
