import Mathlib

/-!
# Numerals written most significant digit first

A numeral is a list of digits to a base `B`, the most significant digit first,
as hexadecimal text and big-endian byte strings are written.  Its value is
Mathlib's `Nat.ofDigits` of the reversed list (`ofDigitsBe`).

* `ofDigitsBe_cons`, `ofDigitsBe_lt` and `ofDigitsBe_injective`: the value of a
  numeral, its bound, and that numerals of one length are told apart by it.
* `toDigitsBe`: the numeral of `n` digits of a number, the inverse of
  `ofDigitsBe` (`ofDigitsBe_toDigitsBe`, `toDigitsBe_ofDigitsBe`).
* `subDigits`: subtraction digit by digit with a borrow, the last digit first.
  `ofDigitsBe_subDigits` reads it as a subtraction modulo `B ^ n`: the borrow
  that is left over stands for one `B ^ n`.
* `foldr_invariant`: what a loop that counts down preserves.
-/

namespace Tuniq

/-! ## The value of a numeral -/

/-- The value of a numeral to the base `B`, most significant digit first. -/
def ofDigitsBe (B : ℕ) (ds : List ℕ) : ℕ := Nat.ofDigits B ds.reverse

@[simp] theorem ofDigitsBe_nil (B : ℕ) : ofDigitsBe B [] = 0 := rfl

theorem ofDigitsBe_cons (B d : ℕ) (ds : List ℕ) :
    ofDigitsBe B (d :: ds) = d * B ^ ds.length + ofDigitsBe B ds := by
  rw [ofDigitsBe, Nat.ofDigits_reverse_cons, ofDigitsBe]
  ring

theorem ofDigitsBe_concat (B d : ℕ) (ds : List ℕ) :
    ofDigitsBe B (ds ++ [d]) = B * ofDigitsBe B ds + d := by
  rw [ofDigitsBe, List.reverse_append, List.reverse_singleton, List.singleton_append,
    Nat.ofDigits_cons, ofDigitsBe]
  exact Nat.add_comm _ _

theorem ofDigitsBe_lt {B : ℕ} (hB : 1 < B) {ds : List ℕ} (h : ∀ d ∈ ds, d < B) :
    ofDigitsBe B ds < B ^ ds.length := by
  have hlt := Nat.ofDigits_lt_base_pow_length hB (l := ds.reverse)
    (fun d hd => h d (List.mem_reverse.mp hd))
  rwa [List.length_reverse] at hlt

/-- **Two numerals of one length with the same value are the same.** -/
theorem ofDigitsBe_injective {B : ℕ} (hB : 1 < B) {ds es : List ℕ}
    (hlen : ds.length = es.length) (hd : ∀ d ∈ ds, d < B) (he : ∀ e ∈ es, e < B)
    (h : ofDigitsBe B ds = ofDigitsBe B es) : ds = es := by
  have hrev : ds.reverse = es.reverse := by
    refine Nat.ofDigits_inj_of_len_eq hB ?_ ?_ ?_ h
    · rw [List.length_reverse, List.length_reverse, hlen]
    · exact fun d hmem => hd d (List.mem_reverse.mp hmem)
    · exact fun e hmem => he e (List.mem_reverse.mp hmem)
  exact List.reverse_injective hrev

/-! ## The numeral of a number -/

/-- The last `n` digits of a number. -/
def toDigitsBe (B : ℕ) : ℕ → ℕ → List ℕ
  | 0, _ => []
  | n + 1, v => toDigitsBe B n (v / B) ++ [v % B]

@[simp] theorem length_toDigitsBe (B n v : ℕ) : (toDigitsBe B n v).length = n := by
  induction n generalizing v with
  | zero => rfl
  | succ n ih => rw [toDigitsBe, List.length_append, ih, List.length_singleton]

theorem toDigitsBe_lt {B : ℕ} (hB : 0 < B) (n v : ℕ) : ∀ d ∈ toDigitsBe B n v, d < B := by
  induction n generalizing v with
  | zero => simp [toDigitsBe]
  | succ n ih =>
    intro d hd
    rw [toDigitsBe, List.mem_append, List.mem_singleton] at hd
    rcases hd with hd | rfl
    · exact ih (v / B) d hd
    · exact Nat.mod_lt v hB

theorem ofDigitsBe_toDigitsBe {B n v : ℕ} (h : v < B ^ n) :
    ofDigitsBe B (toDigitsBe B n v) = v := by
  induction n generalizing v with
  | zero =>
    rw [pow_zero] at h
    rw [toDigitsBe, ofDigitsBe_nil]
    omega
  | succ n ih =>
    have hdiv : v / B < B ^ n := Nat.div_lt_of_lt_mul (by rwa [← pow_succ'])
    rw [toDigitsBe, ofDigitsBe_concat, ih hdiv, Nat.div_add_mod]

/-- The numeral of the value of a numeral is the numeral. -/
theorem toDigitsBe_ofDigitsBe {B : ℕ} (hB : 1 < B) {ds : List ℕ} (h : ∀ d ∈ ds, d < B) :
    toDigitsBe B ds.length (ofDigitsBe B ds) = ds := by
  refine ofDigitsBe_injective hB (length_toDigitsBe B _ _) (toDigitsBe_lt (by omega) _ _) h ?_
  exact ofDigitsBe_toDigitsBe (ofDigitsBe_lt hB h)

/-! ## Subtraction with a borrow -/

/-- Subtract `ys` from `xs` digit by digit, the last digit first: the digits of
the difference and the borrow that is left over. -/
def subDigits (B : ℕ) : List ℕ → List ℕ → List ℕ × ℕ
  | x :: xs, y :: ys =>
    let r := subDigits B xs ys
    if x < y + r.2 then ((x + B - (y + r.2)) :: r.1, 1) else ((x - (y + r.2)) :: r.1, 0)
  | _, _ => ([], 0)

@[simp] theorem subDigits_nil (B : ℕ) (ys : List ℕ) : subDigits B [] ys = ([], 0) := by
  rw [subDigits]
  simp

theorem subDigits_cons (B x y : ℕ) (xs ys : List ℕ) :
    subDigits B (x :: xs) (y :: ys) =
      if x < y + (subDigits B xs ys).2 then
        ((x + B - (y + (subDigits B xs ys).2)) :: (subDigits B xs ys).1, 1)
      else ((x - (y + (subDigits B xs ys).2)) :: (subDigits B xs ys).1, 0) := rfl

theorem subDigits_borrow_le (B : ℕ) (xs ys : List ℕ) : (subDigits B xs ys).2 ≤ 1 := by
  fun_cases subDigits B xs ys
  · exact le_rfl
  · exact Nat.zero_le 1
  · exact Nat.zero_le 1

theorem length_subDigits {B : ℕ} :
    ∀ {xs ys : List ℕ}, xs.length = ys.length → (subDigits B xs ys).1.length = xs.length
  | [], _, _ => by rw [subDigits_nil]
  | x :: xs, y :: ys, h => by
    have ih := length_subDigits (B := B) (Nat.succ.inj h)
    rw [subDigits_cons]
    split
    · rw [List.length_cons, List.length_cons, ih]
    · rw [List.length_cons, List.length_cons, ih]

/-- The digits of a difference are digits. -/
theorem subDigits_lt {B : ℕ} :
    ∀ {xs ys : List ℕ}, (∀ x ∈ xs, x < B) → (∀ y ∈ ys, y < B) →
      ∀ d ∈ (subDigits B xs ys).1, d < B
  | [], _, _, _ => by simp
  | x :: xs, [], _, _ => by simp [subDigits]
  | x :: xs, y :: ys, hx, hy => by
    have ih := subDigits_lt (fun x' hx' => hx x' (List.mem_cons_of_mem _ hx'))
      (fun y' hy' => hy y' (List.mem_cons_of_mem _ hy'))
    have hxB : x < B := hx x List.mem_cons_self
    intro d hd
    rw [subDigits_cons] at hd
    split at hd
    · rcases List.mem_cons.mp hd with rfl | hd
      · omega
      · exact ih d hd
    · rcases List.mem_cons.mp hd with rfl | hd
      · omega
      · exact ih d hd

/-- One digit of a subtraction: `c` is the borrow from the digits behind it, `c'` the one
that is passed on. -/
theorem sub_digit {B n d x y c c' s sx sy : ℕ} (hd : d + (y + c) = x + B * c')
    (hs : s + sy = sx + B ^ n * c) :
    d * B ^ n + s + (y * B ^ n + sy) = x * B ^ n + sx + B ^ (n + 1) * c' := by
  calc d * B ^ n + s + (y * B ^ n + sy)
      = (d + y) * B ^ n + (s + sy) := by ring
    _ = (d + (y + c)) * B ^ n + sx := by
        rw [hs]
        ring
    _ = x * B ^ n + sx + B ^ (n + 1) * c' := by
        rw [hd]
        ring

/-- **The difference, the subtrahend and the borrow.**  What is left over in the
borrow stands for one `B ^ n`. -/
theorem ofDigitsBe_subDigits {B : ℕ} :
    ∀ {xs ys : List ℕ}, xs.length = ys.length → (∀ y ∈ ys, y < B) →
      ofDigitsBe B (subDigits B xs ys).1 + ofDigitsBe B ys =
        ofDigitsBe B xs + B ^ xs.length * (subDigits B xs ys).2
  | [], ys, h, _ => by
    have hys : ys = [] := List.eq_nil_of_length_eq_zero h.symm
    rw [subDigits_nil, hys]
    simp
  | x :: xs, y :: ys, h, hy => by
    have hlen : xs.length = ys.length := Nat.succ.inj h
    have ih := ofDigitsBe_subDigits hlen (fun y' hy' => hy y' (List.mem_cons_of_mem _ hy'))
    have hyB : y < B := hy y List.mem_cons_self
    have hborrow := subDigits_borrow_le B xs ys
    rw [subDigits_cons]
    split
    · rw [ofDigitsBe_cons, ofDigitsBe_cons, ofDigitsBe_cons, length_subDigits hlen, ← hlen]
      exact sub_digit (by omega) ih
    · rw [ofDigitsBe_cons, ofDigitsBe_cons, ofDigitsBe_cons, length_subDigits hlen, ← hlen]
      exact sub_digit (by omega) ih

/-- **Subtraction digit by digit is subtraction modulo `B ^ n`.** -/
theorem ofDigitsBe_subDigits_eq_emod {B : ℕ} (hB : 1 < B) {xs ys : List ℕ}
    (hlen : xs.length = ys.length) (hx : ∀ x ∈ xs, x < B) (hy : ∀ y ∈ ys, y < B) :
    (ofDigitsBe B (subDigits B xs ys).1 : ℤ) =
      ((ofDigitsBe B xs : ℤ) - ofDigitsBe B ys) % ((B ^ xs.length : ℕ) : ℤ) := by
  have hval := ofDigitsBe_subDigits hlen hy
  have hlt := ofDigitsBe_lt hB (subDigits_lt hx hy)
  rw [length_subDigits hlen] at hlt
  have hint : (ofDigitsBe B xs : ℤ) - ofDigitsBe B ys =
      ofDigitsBe B (subDigits B xs ys).1
        + ((B ^ xs.length : ℕ) : ℤ) * (-((subDigits B xs ys).2 : ℤ)) := by
    have hcast : ((ofDigitsBe B (subDigits B xs ys).1 + ofDigitsBe B ys : ℕ) : ℤ) =
        ((ofDigitsBe B xs + B ^ xs.length * (subDigits B xs ys).2 : ℕ) : ℤ) :=
      congrArg Nat.cast hval
    rw [Nat.cast_add, Nat.cast_add, Nat.cast_mul] at hcast
    linarith
  rw [hint, Int.add_mul_emod_self_left, Int.emod_eq_of_lt (by positivity) (by exact_mod_cast hlt)]

/-! ## Loops that count down -/

/-- **What a loop that counts down preserves.**  Before the round with index `i`
the invariant holds for `i + 1`, after it for `i`. -/
theorem foldr_invariant {σ : Type*} {n : ℕ} {f : Fin n → σ → σ} {s : σ} (P : ℕ → σ → Prop)
    (hinit : P n s) (hstep : ∀ (i : Fin n) (s : σ), P (i + 1) s → P i (f i s)) :
    P 0 (Fin.foldr n f s) := by
  induction n generalizing P with
  | zero => exact hinit
  | succ n ih =>
    rw [Fin.foldr_succ]
    refine hstep 0 _ ?_
    exact ih (fun k => P (k + 1)) hinit (fun i s h => hstep i.succ s h)

end Tuniq
