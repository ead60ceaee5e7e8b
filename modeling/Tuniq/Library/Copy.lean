import Tuniq.Library.Iteration

/-!
# Copying in place and copying through a buffer

To copy `n` cells from `src 0, src 1, …` to `dst 0, dst 1, …` one can read a cell
and write it before reading the next, or read all of them first.  When the two
stretches overlap, the first way may read a cell it has already written.

The store here is anything with a read and a write where a write does not change
what other cells read.  Nothing is said about reading back the written cell ---
a store may drop a write to a cell it does not have --- so the result applies to
memories with unmapped addresses.

* `copyInPlace_eq_copyBuffered`: the two ways agree when no source is a destination
  of an earlier round.
* `peek_rounds_of_ne` and `peek_rounds_self`: what a loop that writes one cell a round
  leaves in a cell, for either way of copying and for every other such loop.  Reading a
  written cell back is a hypothesis about that cell.
-/

namespace Tuniq

/-- A store whose writes do not change other cells. -/
structure Cells (σ A V : Type*) where
  peek : σ → A → V
  poke : σ → A → V → σ
  peek_poke_of_ne : ∀ (s : σ) {a a' : A} (v : V), a' ≠ a → peek (poke s a v) a' = peek s a'

namespace Cells

variable {σ A V : Type*} (C : Cells σ A V)

/-- Read a cell, write it, go on to the next. -/
def copyInPlace (dst src : ℕ → A) : ℕ → σ → σ :=
  rounds fun i s => C.poke s (dst i) (C.peek s (src i))

/-- Write what the sources held at the start. -/
def copyBuffered (dst src : ℕ → A) (n : ℕ) (s : σ) : σ :=
  rounds (fun i u => C.poke u (dst i) (C.peek s (src i))) n s

/-! ## Loops that write one cell a round -/

section Rounds

variable {dst : ℕ → A} {f : ℕ → σ → V} {g : ℕ → σ → σ} {n : ℕ}

/-- Rounds with other destinations do not change a cell. -/
theorem peek_rounds_of_ne (hg : ∀ i u, g i u = C.poke u (dst i) (f i u)) {a : A} {i : ℕ} (s : σ)
    (hi : i ≤ n) (h : ∀ j, i ≤ j → j < n → a ≠ dst j) :
    C.peek (rounds g n s) a = C.peek (rounds g i s) a := by
  induction n with
  | zero =>
    obtain rfl := Nat.le_zero.mp hi
    rfl
  | succ n ih =>
    rcases Nat.le_succ_iff.mp hi with hle | rfl
    · rw [rounds, hg, C.peek_poke_of_ne _ _ (h n hle (Nat.lt_succ_self n))]
      exact ih hle fun j hij hj => h j hij (by omega)
    · rfl

/-- **What a destination holds at the end** is what its own round wrote, when no later
round has the same destination and the write was not dropped. -/
theorem peek_rounds_self (hg : ∀ i u, g i u = C.poke u (dst i) (f i u)) {i : ℕ} (s : σ)
    (hi : i < n) (hne : ∀ j, i < j → j < n → dst i ≠ dst j)
    (hback : ∀ v, C.peek (C.poke (rounds g i s) (dst i) v) (dst i) = v) :
    C.peek (rounds g n s) (dst i) = f i (rounds g i s) := by
  rw [C.peek_rounds_of_ne hg s hi fun j hij hj => hne j hij hj, rounds, hg]
  exact hback _

end Rounds

/-! ## The two ways of copying -/

/-- A cell that is not among the first `n` destinations is not changed. -/
theorem peek_copyBuffered_of_ne {dst src : ℕ → A} {n : ℕ} {a : A} (s : σ)
    (h : ∀ j, j < n → a ≠ dst j) :
    C.peek (C.copyBuffered dst src n s) a = C.peek s a :=
  C.peek_rounds_of_ne (f := fun i _ => C.peek s (src i)) (fun _ _ => rfl) s (Nat.zero_le n)
    fun j _ hj => h j hj

/-- **Copying in place is copying through a buffer** when no source is a
destination of an earlier round. -/
theorem copyInPlace_eq_copyBuffered {dst src : ℕ → A} {n : ℕ} (s : σ)
    (h : ∀ i, i < n → ∀ j, j < i → src i ≠ dst j) :
    C.copyInPlace dst src n s = C.copyBuffered dst src n s := by
  induction n with
  | zero => rfl
  | succ n ih =>
    have hn : C.copyInPlace dst src n s = C.copyBuffered dst src n s :=
      ih fun i hi => h i (by omega)
    have hread : C.peek (C.copyBuffered dst src n s) (src n) = C.peek s (src n) :=
      C.peek_copyBuffered_of_ne s (h n (by omega))
    show C.poke (C.copyInPlace dst src n s) (dst n)
        (C.peek (C.copyInPlace dst src n s) (src n)) = _
    rw [hn, hread]
    rfl

end Cells

end Tuniq
