import Mathlib

/-!
# Little-endian numbers, and stretches of a list

Everything a program does with raw bytes comes down to two things: reading a
stretch of bytes as a number, least significant byte first, and replacing a
stretch of a buffer by another one of the same length.

* `ofLe` and `toLe` are the two directions of the little-endian reading; `n` bytes of
  a number below `256 ^ n` are read back (`ofLe_toLe`, `ofLe_toLe_of_lt`).
* `window l off n` is the stretch of length `n` at `off`, and `overwrite l off bs`
  puts `bs` there.  What a stretch reads after an overwrite is settled for the
  two cases that occur: the same stretch (`window_overwrite_self`) and a
  disjoint one (`window_overwrite_of_disjoint`).
-/

namespace Tuniq

/-! ## Little-endian numbers -/

/-- The number a list of bytes spells, least significant byte first. -/
def ofLe : List UInt8 → ℕ
  | [] => 0
  | b :: bs => b.toNat + 256 * ofLe bs

/-- The `n` low bytes of a number, least significant first. -/
def toLe : ℕ → ℕ → List UInt8
  | 0, _ => []
  | n + 1, v => UInt8.ofNat v :: toLe n (v / 256)

@[simp] theorem ofLe_nil : ofLe [] = 0 := rfl

@[simp] theorem ofLe_cons (b : UInt8) (bs : List UInt8) :
    ofLe (b :: bs) = b.toNat + 256 * ofLe bs := rfl

@[simp] theorem length_toLe (n v : ℕ) : (toLe n v).length = n := by
  induction n generalizing v with
  | zero => rfl
  | succ n ih => rw [toLe, List.length_cons, ih]

/-- Reading `n` bytes of `v` back gives `v` modulo `256 ^ n`. -/
theorem ofLe_toLe (n v : ℕ) : ofLe (toLe n v) = v % 256 ^ n := by
  induction n generalizing v with
  | zero => simp [toLe, Nat.mod_one]
  | succ n ih =>
    have hb : (UInt8.ofNat v).toNat = v % 256 := by simp
    rw [toLe, ofLe_cons, ih, hb, pow_succ', Nat.mod_mul]

theorem ofLe_toLe_of_lt {n v : ℕ} (h : v < 256 ^ n) : ofLe (toLe n v) = v := by
  rw [ofLe_toLe, Nat.mod_eq_of_lt h]

theorem ofLe_lt (bs : List UInt8) : ofLe bs < 256 ^ bs.length := by
  induction bs with
  | nil => simp
  | cons b bs ih =>
    have hb : b.toNat < 256 := b.toNat_lt
    rw [ofLe_cons, List.length_cons, pow_succ']
    omega

/-- What is above the bytes written does not matter. -/
theorem toLe_mod (n v : ℕ) : toLe n (v % 256 ^ n) = toLe n v := by
  induction n generalizing v with
  | zero => rfl
  | succ n ih =>
    have hbyte : UInt8.ofNat (v % 256 ^ (n + 1)) = UInt8.ofNat v := by
      rw [← UInt8.toNat_inj, UInt8.toNat_ofNat', UInt8.toNat_ofNat', pow_succ']
      exact Nat.mod_mul_right_mod v 256 _
    have hrest : v % 256 ^ (n + 1) / 256 = v / 256 % 256 ^ n := by
      rw [pow_succ', Nat.mod_mul_right_div_self]
    rw [toLe, toLe, hbyte, hrest, ih]

theorem toLe_one (v : ℕ) : toLe 1 v = [UInt8.ofNat v] := rfl

/-! ## Stretches of a list -/

section Stretch

variable {α : Type*}

/-- The stretch of length `n` at offset `off`. -/
def window (l : List α) (off n : ℕ) : List α := (l.drop off).take n

/-- Replace the stretch at `off` by `bs`. -/
def overwrite (l : List α) (off : ℕ) (bs : List α) : List α :=
  l.take off ++ (bs ++ l.drop (off + bs.length))

theorem length_window {l : List α} {off n : ℕ} (h : off + n ≤ l.length) :
    (window l off n).length = n := by
  rw [window, List.length_take, List.length_drop]
  omega

theorem getElem?_window (l : List α) (off n i : ℕ) :
    (window l off n)[i]? = if i < n then l[off + i]? else none := by
  rw [window, List.getElem?_take]
  split
  · rw [List.getElem?_drop]
  · rfl

/-- A stretch of length one is the element standing there. -/
theorem window_one {l : List α} {off : ℕ} {a : α} (h : l[off]? = some a) :
    window l off 1 = [a] := by
  obtain ⟨hlt, ha⟩ := List.getElem?_eq_some_iff.mp h
  rw [window, List.drop_eq_getElem_cons hlt, ha]
  rfl

theorem length_overwrite {l : List α} {off : ℕ} {bs : List α}
    (h : off + bs.length ≤ l.length) : (overwrite l off bs).length = l.length := by
  rw [overwrite, List.length_append, List.length_append, List.length_take, List.length_drop]
  omega

/-- **What stands at a position after an overwrite.** -/
theorem getElem?_overwrite {l : List α} {off : ℕ} {bs : List α}
    (h : off + bs.length ≤ l.length) (i : ℕ) :
    (overwrite l off bs)[i]? =
      if off ≤ i ∧ i < off + bs.length then bs[i - off]? else l[i]? := by
  have htake : (l.take off).length = off := by
    rw [List.length_take]
    omega
  rw [overwrite]
  rcases Nat.lt_or_ge i off with hlt | hge
  · rw [List.getElem?_append_left (by omega), List.getElem?_take, if_pos hlt,
      if_neg (by omega)]
  · rw [List.getElem?_append_right (by omega), htake]
    rcases Nat.lt_or_ge i (off + bs.length) with hin | hout
    · rw [List.getElem?_append_left (by omega), if_pos ⟨hge, hin⟩]
    · rw [List.getElem?_append_right (by omega), List.getElem?_drop, if_neg (by omega)]
      congr 1
      omega

theorem window_overwrite_self {l : List α} {off : ℕ} {bs : List α}
    (h : off + bs.length ≤ l.length) : window (overwrite l off bs) off bs.length = bs := by
  apply List.ext_getElem?
  intro i
  rw [getElem?_window, getElem?_overwrite h]
  split
  · rw [if_pos (by omega)]
    congr 1
    omega
  · rw [List.getElem?_eq_none (by omega)]

/-- **An overwrite does not show in a disjoint stretch.** -/
theorem window_overwrite_of_disjoint {l : List α} {off : ℕ} {bs : List α} {off' n : ℕ}
    (h : off + bs.length ≤ l.length) (hd : off' + n ≤ off ∨ off + bs.length ≤ off') :
    window (overwrite l off bs) off' n = window l off' n := by
  apply List.ext_getElem?
  intro i
  rw [getElem?_window, getElem?_window]
  split
  · rw [getElem?_overwrite h, if_neg (by omega)]
  · rfl

/-- Overwriting the front of the second of two parts leaves the first part alone. -/
theorem overwrite_append_right (l l' : List α) (bs : List α) :
    overwrite (l ++ l') l.length bs = l ++ (bs ++ l'.drop bs.length) := by
  rw [overwrite, List.take_left, List.drop_append]
  simp

theorem window_append_left {l l' : List α} {off n : ℕ} (h : off + n ≤ l.length) :
    window (l ++ l') off n = window l off n := by
  apply List.ext_getElem?
  intro i
  rw [getElem?_window, getElem?_window]
  split
  · rw [List.getElem?_append_left (by omega)]
  · rfl

theorem window_append_right (l l' : List α) (k n : ℕ) :
    window (l ++ l') (l.length + k) n = window l' k n := by
  apply List.ext_getElem?
  intro i
  rw [getElem?_window, getElem?_window]
  split
  · rw [List.getElem?_append_right (by omega)]
    congr 1
    omega
  · rfl

theorem window_zero_length (l : List α) : window l 0 l.length = l := by
  rw [window, List.drop_zero, List.take_length]

/-- Pieces of one length stand at the multiples of it. -/
theorem window_flatten {n : ℕ} {ls : List (List α)} (h : ∀ l ∈ ls, l.length = n) {i : ℕ}
    {l : List α} (hl : ls[i]? = some l) : window ls.flatten (i * n) n = l := by
  induction ls generalizing i with
  | nil => cases hl
  | cons l' ls ih =>
    have hlen : l'.length = n := h l' List.mem_cons_self
    rw [List.flatten_cons]
    cases i with
    | zero =>
      obtain rfl := Option.some_inj.mp hl
      rw [Nat.zero_mul, window_append_left (by omega), ← hlen, window_zero_length]
    | succ i =>
      have hoff : (i + 1) * n = l'.length + i * n := by
        rw [hlen]
        ring
      rw [hoff, window_append_right]
      exact ih (fun l hmem => h l (List.mem_cons_of_mem _ hmem)) hl

end Stretch

/-! ## Numbers one after the other -/

theorem window_toLe (n v : ℕ) (l : List UInt8) : window (toLe n v ++ l) 0 n = toLe n v := by
  rw [window_append_left (by rw [length_toLe, Nat.zero_add])]
  have h := window_zero_length (toLe n v)
  rwa [length_toLe] at h

theorem window_behind_toLe (n v : ℕ) (l : List UInt8) (k m : ℕ) :
    window (toLe n v ++ l) (n + k) m = window l k m := by
  have h := window_append_right (toLe n v) l k m
  rwa [length_toLe] at h

end Tuniq
