import Mathlib

/-!
# Codecs on a stream of words

A value is written as a few words at the front of a stream and read back from
there.  A `Codec` is a writer and a reader with the law that ties them together,
`read_write`; the words themselves are left open, since a program that only
writes and reads never looks at them.

A sequence is written value after value, and read by count.  `readMany_write`
says what a reader that asks for fewer values than were written gets: the first
ones, with the rest still in the stream.

Codecs are built from those of a single word (`Codec.word`) and of an array of words
(`Codec.vector`) by putting one behind another (`Codec.pair`) and by writing a value as
another (`Codec.via`).  When all parts have a width, so has the whole
(`Codec.HasWidth`), and a stream that is too short is not read.
-/

namespace Tuniq

variable {W α β : Type*}

/-- A way to write values as words and to read them back. -/
structure Codec (W α : Type*) where
  write : α → List W
  read : List W → Option (α × List W)
  read_write : ∀ (x : α) (rest : List W), read (write x ++ rest) = some (x, rest)

namespace Codec

/-- Read `n` values, one after the other. -/
def readMany (c : Codec W α) : ℕ → List W → Option (List α × List W)
  | 0, input => some ([], input)
  | n + 1, input =>
    match c.read input with
    | none => none
    | some (x, rest) =>
      match c.readMany n rest with
      | none => none
      | some (xs, rest) => some (x :: xs, rest)

/-- Write values, one after the other. -/
def writeMany (c : Codec W α) (xs : List α) : List W := xs.flatMap c.write

/-- **What a reader that asks for the first `n` values gets.** -/
theorem readMany_write (c : Codec W α) {n : ℕ} {xs : List α} (h : n ≤ xs.length)
    (rest : List W) :
    c.readMany n (c.writeMany xs ++ rest) =
      some (xs.take n, c.writeMany (xs.drop n) ++ rest) := by
  induction n generalizing xs with
  | zero => rfl
  | succ n ih =>
    cases xs with
    | nil => exact absurd h (by simp)
    | cons x xs =>
      have hn : n ≤ xs.length := Nat.le_of_succ_le_succ h
      rw [writeMany, List.flatMap_cons, List.append_assoc, readMany, c.read_write]
      show (match c.readMany n (c.writeMany xs ++ rest) with
        | none => none
        | some (xs, rest) => some (x :: xs, rest)) = _
      rw [ih hn]
      rfl

/-- As many values as were written are read back. -/
theorem readMany_write_all (c : Codec W α) (xs : List α) (rest : List W) :
    c.readMany xs.length (c.writeMany xs ++ rest) = some (xs, rest) := by
  rw [c.readMany_write le_rfl, List.take_length, List.drop_length]
  rfl

/-! ## Building codecs -/

/-- Two values, one after the other. -/
def pair (c : Codec W α) (d : Codec W β) : Codec W (α × β) where
  write := fun p => c.write p.1 ++ d.write p.2
  read := fun input =>
    match c.read input with
    | none => none
    | some (x, rest) => (d.read rest).map fun q => ((x, q.1), q.2)
  read_write := by
    rintro ⟨x, y⟩ rest
    dsimp only
    rw [List.append_assoc, c.read_write]
    dsimp only
    rw [d.read_write]
    rfl

/-- A value that travels as another. -/
def via (c : Codec W α) (f : β → α) (g : α → Option β) (h : ∀ y, g (f y) = some y) :
    Codec W β where
  write := fun y => c.write (f y)
  read := fun input =>
    match c.read input with
    | none => none
    | some (x, rest) => (g x).map fun y => (y, rest)
  read_write := by
    intro y rest
    rw [c.read_write]
    dsimp only
    rw [h]
    rfl

/-- The words themselves. -/
def word (W : Type*) : Codec W W where
  write := fun x => [x]
  read := fun input =>
    match input with
    | [] => none
    | x :: rest => some (x, rest)
  read_write := fun _ _ => rfl

/-- An array of `n` words. -/
def vector (W : Type*) (n : ℕ) : Codec W (Vector W n) where
  write := fun v => v.toList
  read := fun input =>
    if h : n ≤ input.length then
      some (⟨(input.take n).toArray, by simp [h]⟩, input.drop n)
    else none
  read_write := by
    intro v rest
    have hlen : n ≤ (v.toList ++ rest).length := by simp
    have htake : (v.toList ++ rest).take n = v.toList := List.take_left' (by simp)
    have hdrop : (v.toList ++ rest).drop n = rest := List.drop_left' (by simp)
    rw [dif_pos hlen, hdrop]
    simp only [htake]
    rfl

/-! ## Values of one width -/

/-- Every value takes `n` words. -/
def HasWidth (c : Codec W α) (n : ℕ) : Prop :=
  ∀ input x rest, c.read input = some (x, rest) → input.length = n + rest.length

/-- **A stream that is too short is not read.** -/
theorem HasWidth.read_eq_none {c : Codec W α} {n : ℕ} (h : c.HasWidth n) {input : List W}
    (hlen : input.length < n) : c.read input = none := by
  rw [Option.eq_none_iff_forall_not_mem]
  rintro ⟨x, rest⟩ hmem
  have := h input x rest hmem
  omega

theorem hasWidth_word : (word W).HasWidth 1 := by
  intro input x rest h
  cases input with
  | nil => cases h
  | cons w input =>
    obtain ⟨-, rfl⟩ := Prod.mk.inj (Option.some_inj.mp h)
    rw [List.length_cons, Nat.add_comm]

theorem hasWidth_vector (n : ℕ) : (vector W n).HasWidth n := by
  intro input x rest h
  dsimp only [vector] at h
  split at h
  · next hlen =>
    obtain ⟨-, rfl⟩ := Prod.mk.inj (Option.some_inj.mp h)
    rw [List.length_drop]
    omega
  · cases h

theorem HasWidth.pair {c : Codec W α} {d : Codec W β} {m n : ℕ} (hc : c.HasWidth m)
    (hd : d.HasWidth n) : (c.pair d).HasWidth (m + n) := by
  rintro input ⟨x, y⟩ rest h
  dsimp only [Codec.pair] at h
  cases hx : c.read input with
  | none =>
    rw [hx] at h
    cases h
  | some p =>
    rw [hx] at h
    obtain ⟨q, hq, heq⟩ := Option.map_eq_some_iff.mp h
    obtain ⟨-, rfl⟩ := Prod.mk.inj heq
    have h1 := hc input p.1 p.2 hx
    have h2 := hd p.2 q.1 q.2 hq
    omega

theorem HasWidth.via {c : Codec W α} {n : ℕ} (hc : c.HasWidth n) {f : β → α} {g : α → Option β}
    (h : ∀ y, g (f y) = some y) : (c.via f g h).HasWidth n := by
  intro input y rest hread
  dsimp only [Codec.via] at hread
  cases hx : c.read input with
  | none =>
    rw [hx] at hread
    cases hread
  | some p =>
    rw [hx] at hread
    obtain ⟨z, -, heq⟩ := Option.map_eq_some_iff.mp hread
    obtain ⟨-, rfl⟩ := Prod.mk.inj heq
    exact hc input p.1 p.2 hx

end Codec

end Tuniq
