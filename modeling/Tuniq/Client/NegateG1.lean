import Tuniq.Library.Positional

/-!
# Negating a point of the curve

The on-chain verifier wants the first point of a proof negated, so the client
replaces its second coordinate `y` by `Q - y` before it builds the instruction.
`Q` is the modulus of the base field of BN254, and both are 32 bytes, most
significant first.

The subtraction is a loop from the last byte to the first.  One round takes the
byte of `Q` less the byte of `y` less the borrow in an `i16`, which the
difference never leaves (`diff_range`), and adds 256 when it is negative.
`foldr_negRound` is the invariant of the loop: when the bytes from `k` on are
done, they are the digits of the difference of the numbers that the bytes of `Q`
and of `y` spell from `k` on, and the borrow is the borrow of that difference.

`negateG1_negates` says what the function does to every 64 bytes.
-/

namespace Tuniq
namespace Client

/-- The number a string of bytes spells, most significant byte first. -/
def beNat (bs : Vector UInt8 32) : ℕ := ofDigitsBe 256 (bs.toList.map UInt8.toNat)

/-- The modulus of the base field of BN254. -/
def bn254Modulus : ℕ :=
  21888242871839275222246405745257275088696311157297823662689037894645226208583

/-! ## The function -/

/-- `Q` -/
def q : Vector UInt8 32 :=
  #v[0x30, 0x64, 0x4e, 0x72, 0xe1, 0x31, 0xa0, 0x29, 0xb8, 0x50, 0x45, 0xb6, 0x81, 0x81, 0x58,
    0x5d, 0x97, 0x81, 0x6a, 0x91, 0x68, 0x71, 0xca, 0x8d, 0x3c, 0x20, 0x8c, 0x16, 0xd8, 0x7c,
    0xfd, 0x47]

/-- `&pi_a[..32]` -/
def xOf (piA : Vector UInt8 64) : Vector UInt8 32 := Vector.ofFn fun i => piA[i.val]

/-- `&pi_a[32..64]` -/
def yOf (piA : Vector UInt8 64) : Vector UInt8 32 := Vector.ofFn fun i => piA[32 + i.val]

/-- `Q[i] as i16 - y[i] as i16 - borrow` -/
def diff (y : Vector UInt8 32) (i : Fin 32) (borrow : ℤ) : ℤ :=
  (q.get i).toNat - (y.get i).toNat - borrow

/-- One round of the loop; the state is `neg_y` and `borrow`. -/
def negRound (y : Vector UInt8 32) (i : Fin 32) (s : Vector UInt8 32 × ℤ) :
    Vector UInt8 32 × ℤ :=
  if diff y i s.2 < 0 then (s.1.set i (UInt8.ofInt (diff y i s.2 + 256)), 1)
  else (s.1.set i (UInt8.ofInt (diff y i s.2)), 0)

/-- `negate_g1`; `for i in (0..32).rev()` is the fold from the right. -/
def negateG1 (piA : Vector UInt8 64) : Vector UInt8 64 :=
  xOf piA ++ (Fin.foldr 32 (negRound (yOf piA)) (Vector.replicate 32 0, 0)).1

/-! ## The rounds -/

/-- No difference leaves an `i16`. -/
theorem diff_range (y : Vector UInt8 32) (i : Fin 32) {borrow : ℤ} (h : 0 ≤ borrow ∧ borrow ≤ 1) :
    -256 ≤ diff y i borrow ∧ diff y i borrow ≤ 255 := by
  have hq : (q.get i).toNat < 256 := (q.get i).toNat_lt
  have hy : (y.get i).toNat < 256 := (y.get i).toNat_lt
  rw [diff]
  omega

theorem toNat_ofInt_of_range {z : ℤ} (h : 0 ≤ z ∧ z < 256) : (UInt8.ofInt z).toNat = z.toNat := by
  obtain ⟨n, rfl⟩ := Int.eq_ofNat_of_zero_le h.1
  have hn : n < 256 := by exact_mod_cast h.2
  simp [UInt8.ofInt, UInt8.toNat_ofNat']
  omega

/-- The digits from position `k` on. -/
def digitsFrom (k : ℕ) (v : Vector UInt8 32) : List ℕ := (v.toList.drop k).map UInt8.toNat

theorem digitsFrom_eq_cons (v : Vector UInt8 32) (i : Fin 32) :
    digitsFrom i v = (v.get i).toNat :: digitsFrom (i + 1) v := by
  have hi : i.val < v.toList.length := by
    rw [Vector.length_toList]
    exact i.isLt
  rw [digitsFrom, List.drop_eq_getElem_cons hi, List.map_cons, Vector.getElem_toList]
  rfl

theorem digitsFrom_set (v : Vector UInt8 32) (i : Fin 32) (b : UInt8) :
    digitsFrom i (v.set i b) = b.toNat :: digitsFrom (i + 1) v := by
  have hget : (v.set i b).get i = b := Vector.getElem_set_self _
  have hdrop : digitsFrom (i + 1) (v.set i b) = digitsFrom (i + 1) v := by
    rw [digitsFrom, Vector.toList_set, List.drop_set_of_lt (Nat.lt_succ_self _), digitsFrom]
  rw [digitsFrom_eq_cons, hget, hdrop]

/-- What holds when the bytes from `k` on are done. -/
def DoneFrom (y : Vector UInt8 32) (k : ℕ) (s : Vector UInt8 32 × ℤ) : Prop :=
  digitsFrom k s.1 = (subDigits 256 (digitsFrom k q) (digitsFrom k y)).1 ∧
    s.2 = (subDigits 256 (digitsFrom k q) (digitsFrom k y)).2

/-- **One round does one digit of the subtraction.** -/
theorem doneFrom_negRound {y : Vector UInt8 32} {i : Fin 32} {s : Vector UInt8 32 × ℤ}
    (h : DoneFrom y (i + 1) s) : DoneFrom y i (negRound y i s) := by
  obtain ⟨hdigits, hborrow⟩ := h
  have hle := subDigits_borrow_le 256 (digitsFrom (i + 1) q) (digitsFrom (i + 1) y)
  have hbit : 0 ≤ s.2 ∧ s.2 ≤ 1 := by omega
  have hrange := diff_range y i hbit
  have hdiff : diff y i s.2 = (q.get i).toNat - (y.get i).toNat -
      ((subDigits 256 (digitsFrom (i + 1) q) (digitsFrom (i + 1) y)).2 : ℤ) := by
    rw [diff, hborrow]
  rw [DoneFrom, digitsFrom_eq_cons q, digitsFrom_eq_cons y, subDigits_cons, negRound]
  rcases Int.lt_or_le (diff y i s.2) 0 with hneg | hpos
  · have hlt : (q.get i).toNat < (y.get i).toNat +
        (subDigits 256 (digitsFrom (i + 1) q) (digitsFrom (i + 1) y)).2 := by omega
    rw [if_pos hneg, if_pos hlt]
    refine ⟨?_, rfl⟩
    rw [digitsFrom_set, hdigits, toNat_ofInt_of_range (by omega)]
    congr 1
    omega
  · have hge : ¬ (q.get i).toNat < (y.get i).toNat +
        (subDigits 256 (digitsFrom (i + 1) q) (digitsFrom (i + 1) y)).2 := by omega
    rw [if_neg (not_lt.mpr hpos), if_neg hge]
    refine ⟨?_, rfl⟩
    rw [digitsFrom_set, hdigits, toNat_ofInt_of_range (by omega)]
    congr 1
    omega

/-- **The loop subtracts digit by digit.** -/
theorem foldr_negRound (y : Vector UInt8 32) (s : Vector UInt8 32) :
    DoneFrom y 0 (Fin.foldr 32 (negRound y) (s, 0)) := by
  refine foldr_invariant (DoneFrom y) ?_ fun i s h => doneFrom_negRound h
  have hnil : ∀ v : Vector UInt8 32, digitsFrom 32 v = [] := by
    intro v
    rw [digitsFrom, List.drop_eq_nil_of_le (by rw [Vector.length_toList]), List.map_nil]
  rw [DoneFrom, hnil, hnil, hnil, subDigits_nil]
  exact ⟨rfl, rfl⟩

/-! ## The coordinates of the result -/

theorem xOf_append (x y : Vector UInt8 32) : xOf (x ++ y) = x := by
  ext i hi : 1
  rw [xOf, Vector.getElem_ofFn]
  exact Vector.getElem_append_left hi

theorem yOf_append (x y : Vector UInt8 32) : yOf (x ++ y) = y := by
  ext i hi : 1
  rw [yOf, Vector.getElem_ofFn, Vector.getElem_append_right (by omega) (by omega)]
  simp only [Nat.add_sub_cancel_left]

theorem append_coordinates (piA : Vector UInt8 64) : xOf piA ++ yOf piA = piA := by
  ext i hi : 1
  rcases Nat.lt_or_ge i 32 with hlt | hge
  · rw [Vector.getElem_append_left hlt, xOf, Vector.getElem_ofFn]
  · rw [Vector.getElem_append_right hi hge, yOf, Vector.getElem_ofFn]
    simp only [Nat.add_sub_cancel' hge]

theorem digitsFrom_zero_lt (v : Vector UInt8 32) : ∀ d ∈ digitsFrom 0 v, d < 256 := by
  intro d hd
  rw [digitsFrom, List.mem_map] at hd
  obtain ⟨b, -, rfl⟩ := hd
  exact b.toNat_lt

theorem length_digitsFrom_zero (v : Vector UInt8 32) : (digitsFrom 0 v).length = 32 := by
  rw [digitsFrom, List.length_map, List.drop_zero, Vector.length_toList]

theorem beNat_eq (v : Vector UInt8 32) : beNat v = ofDigitsBe 256 (digitsFrom 0 v) := rfl

theorem beNat_lt (v : Vector UInt8 32) : beNat v < 2 ^ 256 := by
  have h := ofDigitsBe_lt (by decide) (digitsFrom_zero_lt v)
  rw [length_digitsFrom_zero] at h
  exact h

theorem beNat_injective {v w : Vector UInt8 32} (h : beNat v = beNat w) : v = w := by
  have hdigits : digitsFrom 0 v = digitsFrom 0 w := by
    refine ofDigitsBe_injective (by decide) ?_ (digitsFrom_zero_lt v) (digitsFrom_zero_lt w) h
    rw [length_digitsFrom_zero, length_digitsFrom_zero]
  have hlists : v.toList = w.toList :=
    List.map_injective_iff.mpr (fun _ _ => UInt8.toNat_inj.mp) hdigits
  exact Vector.toList_inj.mp hlists

theorem beNat_q : beNat q = bn254Modulus := by decide +kernel

theorem xOf_negateG1 (piA : Vector UInt8 64) : xOf (negateG1 piA) = xOf piA := xOf_append _ _

theorem beNat_yOf_negateG1 (piA : Vector UInt8 64) :
    (beNat (yOf (negateG1 piA)) : ℤ) = ((bn254Modulus : ℤ) - beNat (yOf piA)) % 2 ^ 256 := by
  have hdone := (foldr_negRound (yOf piA) (Vector.replicate 32 0)).1
  have hlen : (digitsFrom 0 q).length = (digitsFrom 0 (yOf piA)).length := by
    rw [length_digitsFrom_zero, length_digitsFrom_zero]
  have hsub := ofDigitsBe_subDigits_eq_emod (by decide) hlen (digitsFrom_zero_lt q)
    (digitsFrom_zero_lt (yOf piA))
  rw [length_digitsFrom_zero, ← beNat_eq, ← beNat_eq, beNat_q, ← hdone] at hsub
  rw [negateG1, yOf_append]
  exact hsub

theorem sub_emod_sub_emod (a b m : ℤ) : (a - (a - b) % m) % m = b % m := by
  rw [Int.sub_emod_emod, sub_sub_cancel]

/-- **Negating twice is the identity.** -/
theorem negateG1_negateG1 (piA : Vector UInt8 64) : negateG1 (negateG1 piA) = piA := by
  have hlt : (beNat (yOf piA) : ℤ) < 2 ^ 256 := by exact_mod_cast beNat_lt (yOf piA)
  have htwice := beNat_yOf_negateG1 (negateG1 piA)
  rw [beNat_yOf_negateG1 piA, sub_emod_sub_emod, Int.emod_eq_of_lt (Int.natCast_nonneg _) hlt]
    at htwice
  have hy : yOf (negateG1 (negateG1 piA)) = yOf piA := beNat_injective (Nat.cast_injective htwice)
  rw [← append_coordinates (negateG1 (negateG1 piA)), xOf_negateG1, xOf_negateG1, hy,
    append_coordinates]

/-- **On the field, `y` becomes `Q - y`.** -/
theorem yOf_negateG1_of_field {piA : Vector UInt8 64} (hpos : 0 < beNat (yOf piA))
    (hlt : beNat (yOf piA) < bn254Modulus) :
    0 < beNat (yOf (negateG1 piA)) ∧ beNat (yOf (negateG1 piA)) < bn254Modulus ∧
      beNat (yOf piA) + beNat (yOf (negateG1 piA)) = bn254Modulus := by
  have hQ : bn254Modulus < 2 ^ 256 := by decide
  have h := beNat_yOf_negateG1 piA
  rw [Int.emod_eq_of_lt (by omega) (by omega)] at h
  omega

/-- **What `negate_g1` does to every point.**  The first coordinate stays, the
second one becomes `Q - y` modulo `2 ^ 256`; doing it twice changes nothing, and
on the nonzero elements of the field it is the negation of the field. -/
theorem negateG1_negates (piA : Vector UInt8 64) :
    xOf (negateG1 piA) = xOf piA ∧
      (beNat (yOf (negateG1 piA)) : ℤ) = ((bn254Modulus : ℤ) - beNat (yOf piA)) % 2 ^ 256 ∧
      negateG1 (negateG1 piA) = piA ∧
      (0 < beNat (yOf piA) → beNat (yOf piA) < bn254Modulus →
        0 < beNat (yOf (negateG1 piA)) ∧ beNat (yOf (negateG1 piA)) < bn254Modulus ∧
          beNat (yOf piA) + beNat (yOf (negateG1 piA)) = bn254Modulus) :=
  ⟨xOf_negateG1 piA, beNat_yOf_negateG1 piA, negateG1_negateG1 piA, yOf_negateG1_of_field⟩

/-- The point with coordinates 1 and 2, the generator of the group. -/
def generator : Vector UInt8 64 := ((Vector.replicate 64 0).set 31 1).set 63 2

theorem negateG1_negates_generator :
    0 < beNat (yOf (negateG1 generator)) ∧ beNat (yOf (negateG1 generator)) < bn254Modulus ∧
      beNat (yOf generator) + beNat (yOf (negateG1 generator)) = bn254Modulus :=
  (negateG1_negates generator).2.2.2 (by decide +kernel) (by decide +kernel)

end Client
end Tuniq
