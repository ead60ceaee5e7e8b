import Tuniq.Coordinator.JournalFormat

/-!
# The journal of a circuit output

The other side of `decode_nullifier_from_journal`: a `PrivacyPreservingCircuitOutput`
and its risc0-serde encoding, as the decoder documents it.  A length travels as a
`u32`, so a `Vec` that can be encoded has fewer than `2 ^ 32` elements (`Vec32`).
What an account looks like is left open; its encoding is some list of words.

The position of a nullifier in the encoding depends on the length of every
ciphertext and on two counts.  `decode_encode` says that the decoder finds it, for
every output and every index.
-/

namespace Tuniq
namespace Coordinator

/-! ## The encoding -/

/-- A `Vec` whose length fits the word in front of it. -/
structure Vec32 (α : Type) where
  toList : List α
  length_lt : toList.length < 2 ^ 32

/-- `[len: u32][T; len]` -/
def encodeVec {α : Type} (encode : α → List UInt32) (xs : Vec32 α) : List UInt32 :=
  UInt32.ofNat xs.toList.length :: xs.toList.flatMap encode

def encodeU8 (b : UInt8) : List UInt32 := [b.toUInt32]

def encodeBytes32 (bs : Bytes32) : List UInt32 := bs.toList.map UInt8.toUInt32

/-- `(Nullifier, CommitmentSetDigest)` -/
def encodeEntry (entry : Bytes32 × Bytes32) : List UInt32 :=
  encodeBytes32 entry.1 ++ encodeBytes32 entry.2

/-- `PrivacyPreservingCircuitOutput`, an account given by its words. -/
structure CircuitOutput where
  publicPreStates : Vec32 (List UInt32)
  publicPostStates : Vec32 (List UInt32)
  ciphertexts : Vec32 (Vec32 UInt8)
  newCommitments : Vec32 Bytes32
  newNullifiers : Vec32 (Bytes32 × Bytes32)
  /-- `block_validity_window` and `timestamp_validity_window` -/
  validityWindows : List UInt32

namespace CircuitOutput

/-- The words of an output, its fields in order. -/
def words (o : CircuitOutput) : List UInt32 :=
  encodeVec id o.publicPreStates ++ (encodeVec id o.publicPostStates ++
    (encodeVec (encodeVec encodeU8) o.ciphertexts ++
      (encodeVec encodeBytes32 o.newCommitments ++
        (encodeVec encodeEntry o.newNullifiers ++ o.validityWindows))))

/-- The journal of an output. -/
def encode (o : CircuitOutput) : List UInt8 := wordBytes o.words

end CircuitOutput

/-! ## Reading it back -/

theorem takeWord_encodeVec {α : Type} (encode : α → List UInt32) (xs : Vec32 α)
    (rest : List UInt32) :
    takeWord (encodeVec encode xs ++ rest) =
      .ok (UInt32.ofNat xs.toList.length, xs.toList.flatMap encode ++ rest) := rfl

theorem toNat_length {α : Type} (xs : Vec32 α) :
    (UInt32.ofNat xs.toList.length).toNat = xs.toList.length :=
  UInt32.toNat_ofNat_of_lt' xs.length_lt

theorem length_eq_zero_iff {α : Type} (xs : Vec32 α) :
    UInt32.ofNat xs.toList.length = 0 ↔ xs.toList = [] := by
  rw [← UInt32.toNat_inj, toNat_length]
  exact List.length_eq_zero_iff

/-- Skipping entries of one size. -/
theorem drop_flatMap {α : Type} {encode : α → List UInt32} {n : ℕ}
    (hn : ∀ x, (encode x).length = n) {xs : List α} {k : ℕ} (hk : k ≤ xs.length)
    (rest : List UInt32) :
    (xs.flatMap encode ++ rest).drop (k * n) = (xs.drop k).flatMap encode ++ rest := by
  induction k generalizing xs with
  | zero => rw [Nat.zero_mul, List.drop_zero, List.drop_zero]
  | succ k ih =>
    cases xs with
    | nil => exact absurd hk (by simp)
    | cons x xs =>
      have hlen : (k + 1) * n = (encode x).length + k * n := by
        rw [hn, Nat.succ_mul, Nat.add_comm]
      rw [List.flatMap_cons, List.append_assoc, hlen, List.drop_append, List.drop_succ_cons]
      rw [List.drop_eq_nil_of_le (Nat.le_add_right _ _), List.nil_append,
        Nat.add_sub_cancel_left]
      exact ih (Nat.le_of_succ_le_succ hk)

theorem length_encodeBytes32 (bs : Bytes32) : (encodeBytes32 bs).length = 32 := by
  rw [encodeBytes32, List.length_map, Vector.length_toList]

theorem length_encodeEntry (entry : Bytes32 × Bytes32) : (encodeEntry entry).length = 64 := by
  rw [encodeEntry, List.length_append, length_encodeBytes32, length_encodeBytes32]

/-- A ciphertext is skipped. -/
theorem skipVec_ciphertext (ciphertext : Vec32 UInt8) (rest : List UInt32) :
    skipVec (encodeVec encodeU8 ciphertext ++ rest) = .ok rest := by
  have hone : ∀ b, (encodeU8 b).length = 1 := fun _ => rfl
  have h := drop_flatMap hone (le_refl ciphertext.toList.length) rest
  rw [Nat.mul_one, List.drop_length, List.flatMap_nil, List.nil_append] at h
  rw [skipVec, takeWord_encodeVec, ok_bind]
  dsimp only
  rw [toNat_length, h]
  rfl

/-- So are all of them. -/
theorem skipVec_ciphertexts (ciphertexts : List (Vec32 UInt8)) (rest : List UInt32) :
    iter skipVec ciphertexts.length
      (ciphertexts.flatMap (encodeVec encodeU8) ++ rest) = .ok rest := by
  induction ciphertexts with
  | nil => rfl
  | cons ciphertext ciphertexts ih =>
    rw [List.flatMap_cons, List.append_assoc, List.length_cons, iter_succ_head,
      skipVec_ciphertext, ok_bind]
    exact ih

theorem takeByte_cons (b : UInt8) (rest : List UInt32) :
    takeByte (b.toUInt32 :: rest) = .ok b := by
  have hle : b.toUInt32 ≤ 0xFF := by
    rw [UInt32.le_iff_toNat_le, UInt8.toNat_toUInt32]
    exact Nat.le_of_lt_succ b.toNat_lt
  rw [takeByte, takeWord, ok_bind]
  dsimp only
  rw [decide_eq_true hle, UInt8.toUInt8_toUInt32]
  rfl

/-- The bytes of a `[u8; 32]` are read back. -/
theorem takeBytes32_encodeBytes32 (bs : Bytes32) (rest : List UInt32) :
    takeBytes32 (encodeBytes32 bs ++ rest) = .ok bs := by
  have hround : ∀ k, k ≤ 32 → ∃ out : Bytes32, forUpTo (fun k out => do
      let b ← takeByte ((encodeBytes32 bs ++ rest).drop k)
      return out.setIfInBounds k b) k (Vector.replicate 32 0) = .ok out ∧
        ∀ i (hi : i < 32), i < k → out[i] = bs[i] := by
    intro k hk
    induction k with
    | zero => exact ⟨_, rfl, fun i hi h => absurd h (Nat.not_lt_zero i)⟩
    | succ k ih =>
      obtain ⟨out, hout, hbytes⟩ := ih (by omega)
      have hdrop : ((encodeBytes32 bs ++ rest).drop k) =
          bs[k].toUInt32 :: (encodeBytes32 bs ++ rest).drop (k + 1) := by
        have hlen := length_encodeBytes32 bs
        rw [List.drop_eq_getElem_cons (by rw [List.length_append]; omega),
          List.getElem_append_left (by omega)]
        simp [encodeBytes32]
      refine ⟨out.setIfInBounds k bs[k], forUpTo_succ_eq_ok.mpr ⟨out, hout, ?_⟩, ?_⟩
      · rw [hdrop, takeByte_cons]
        rfl
      · intro i hi hik
        rw [Vector.getElem_setIfInBounds hi]
        split
        · rename_i heq
          subst heq
          rfl
        · exact hbytes i hi (by omega)
  obtain ⟨out, hout, hbytes⟩ := hround 32 le_rfl
  rw [takeBytes32, hout]
  congr 1
  ext i hi
  exact congrArg UInt8.toNat (hbytes i hi hi)

/-- An entry of `new_nullifiers` begins with its nullifier. -/
theorem takeBytes32_entries {entries : List (Bytes32 × Bytes32)} {k : ℕ}
    {entry : Bytes32 × Bytes32} (h : entries[k]? = some entry) (rest : List UInt32) :
    takeBytes32 ((entries.flatMap encodeEntry ++ rest).drop (k * 64)) = .ok entry.1 := by
  obtain ⟨hk, rfl⟩ := List.getElem?_eq_some_iff.mp h
  rw [drop_flatMap length_encodeEntry hk.le, List.drop_eq_getElem_cons hk, List.flatMap_cons,
    List.append_assoc, encodeEntry, List.append_assoc]
  exact takeBytes32_encodeBytes32 _ _

/-- What the format says of the words of an output. -/
theorem decodeWords_words (o : CircuitOutput) (k : ℕ) :
    decodeWords o.words k =
      if o.publicPreStates.toList = [] ∧ o.publicPostStates.toList = [] then
        match o.newNullifiers.toList[k]? with
        | some entry => .ok entry.1
        | none => .error .nullifierIndexOutOfRange
      else .error .unsupportedShape := by
  rw [decodeWords, CircuitOutput.words, takeWord_encodeVec, ok_bind]
  dsimp only
  by_cases hpre : o.publicPreStates.toList = []
  · rw [decide_eq_true ((length_eq_zero_iff _).mpr hpre), hpre, List.flatMap_nil, List.nil_append]
    rw [check_true, ok_bind, takeWord_encodeVec, ok_bind]
    dsimp only
    by_cases hpost : o.publicPostStates.toList = []
    · rw [decide_eq_true ((length_eq_zero_iff _).mpr hpost), hpost, List.flatMap_nil,
        List.nil_append, check_true, ok_bind, if_pos ⟨rfl, rfl⟩]
      -- past the ciphertexts and the commitments
      rw [takeWord_encodeVec, ok_bind]
      dsimp only
      rw [toNat_length, skipVec_ciphertexts, ok_bind, takeWord_encodeVec, ok_bind]
      dsimp only
      rw [toNat_length, drop_flatMap length_encodeBytes32 le_rfl, List.drop_length,
        List.flatMap_nil, List.nil_append, takeWord_encodeVec, ok_bind]
      dsimp only
      rw [toNat_length]
      by_cases hk : k < o.newNullifiers.toList.length
      · have hentry := List.getElem?_eq_getElem hk
        rw [decide_eq_true hk, check_true, ok_bind, takeBytes32_entries hentry, hentry]
      · rw [decide_eq_false hk, check_false, error_bind,
          List.getElem?_eq_none (Nat.not_lt.mp hk)]
    · rw [decide_eq_false fun h => hpost ((length_eq_zero_iff _).mp h), if_neg fun h => hpost h.2,
        check_false, error_bind]
  · rw [decide_eq_false fun h => hpre ((length_eq_zero_iff _).mp h), if_neg fun h => hpre h.1,
      check_false, error_bind]

/-- **The decoder finds the nullifier.**  On the journal of an output, whatever the
ciphertexts, commitments and nullifiers, and for every index: the nullifier of the
entry with that index when there are no public states, and the error that says why
when there is no such entry or there are public states. -/
theorem decode_encode (t : Target) (o : CircuitOutput) (journal : Bytes t.width)
    (h : journal.toList = o.encode) (k : UInt8) :
    decodeNullifierFromJournal t journal k =
      if o.publicPreStates.toList = [] ∧ o.publicPostStates.toList = [] then
        match o.newNullifiers.toList[k.toNat]? with
        | some entry => .ok entry.1
        | none => .error (.err .nullifierIndexOutOfRange)
      else .error (.err .unsupportedShape) := by
  rw [decodeNullifierFromJournal_wordBytes h, decodeWords_words]
  split
  · cases o.newNullifiers.toList[k.toNat]? <;> rfl
  · rfl

/-! ## An output with two entries -/

/-- Two ciphertexts of different lengths, a commitment, and two nullifiers. -/
def twoEntries : CircuitOutput where
  publicPreStates := ⟨[], by decide⟩
  publicPostStates := ⟨[], by decide⟩
  ciphertexts := ⟨[⟨[1, 2, 3], by decide⟩, ⟨[], by decide⟩], by decide⟩
  newCommitments := ⟨[Vector.replicate 32 5], by decide⟩
  newNullifiers := ⟨[(Vector.replicate 32 6, Vector.replicate 32 9),
    (Vector.replicate 32 7, Vector.replicate 32 9)], by decide⟩
  validityWindows := [0, 0, 0, 0]

def twoEntriesJournal : Bytes .w64 := ⟨twoEntries.encode, by decide +kernel⟩

/-- The second nullifier is found behind the first. -/
theorem decode_encode_twoEntries :
    decodeNullifierFromJournal ⟨.w64, true⟩ twoEntriesJournal 1 = .ok (Vector.replicate 32 7) :=
  decode_encode ⟨.w64, true⟩ twoEntries twoEntriesJournal rfl 1

end Coordinator
end Tuniq
