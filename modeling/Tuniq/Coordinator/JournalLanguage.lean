import Tuniq.Coordinator.CircuitOutput

/-!
# The journals the decoder accepts

`decode_nullifier_from_journal` skips what it does not need without looking whether
it is there: a skip may lead behind the last word, and nothing fails until the next
read.  It reads something behind everything it skips, though, and no way leads back
from behind the last word.  So what it accepts is described by words alone: a
`JournalShape` says which words an accepted journal consists of, and
`decode_accepts_iff` that there are no others.

Each piece of the parser has two lemmas, one that reads what a shape wrote and one
that finds the shape of what was read.  The second kind needs words left behind a
skip (`exists_of_drop_ne_nil`), which the read that follows provides.
-/

namespace Tuniq
namespace Coordinator

/-! ## Shapes -/

/-- A length word and as many words behind it. -/
structure Block where
  len : UInt32
  content : List UInt32
  length_content : content.length = len.toNat

def Block.words (block : Block) : List UInt32 := block.len :: block.content

/-- The words of a journal with a nullifier at an index of `new_nullifiers`. -/
structure JournalShape (entryIndex : ℕ) (nullifier : Bytes32) where
  ciphertextCount : UInt32
  ciphertexts : List Block
  length_ciphertexts : ciphertexts.length = ciphertextCount.toNat
  commitmentCount : UInt32
  commitments : List UInt32
  length_commitments : commitments.length = 32 * commitmentCount.toNat
  nullifierCount : UInt32
  entryIndex_lt : entryIndex < nullifierCount.toNat
  /-- The entries in front of the one read, nullifiers and digests. -/
  entriesBefore : List UInt32
  length_entriesBefore : entriesBefore.length = 64 * entryIndex
  nullifierWords : List UInt32
  nullifierWords_le : ∀ w ∈ nullifierWords, w ≤ 0xFF
  low_bytes : nullifierWords.map UInt32.toUInt8 = nullifier.toList
  /-- The digest of the entry read, the entries behind it and the rest of the journal. -/
  rest : List UInt32

def JournalShape.words {entryIndex : ℕ} {nullifier : Bytes32}
    (shape : JournalShape entryIndex nullifier) : List UInt32 :=
  0 :: 0 :: shape.ciphertextCount :: (shape.ciphertexts.flatMap Block.words ++
    shape.commitmentCount :: (shape.commitments ++
      shape.nullifierCount :: (shape.entriesBefore ++ (shape.nullifierWords ++ shape.rest))))

/-! ## Skips -/

/-- A skip that leaves something has skipped that many words. -/
theorem exists_of_drop_ne_nil {n : ℕ} {words : List UInt32} (h : words.drop n ≠ []) :
    ∃ skipped, skipped.length = n ∧ words = skipped ++ words.drop n := by
  refine ⟨words.take n, ?_, (List.take_append_drop n words).symm⟩
  rw [List.length_take, Nat.min_eq_left]
  by_contra hlt
  exact h (List.drop_eq_nil_of_le (by omega))

theorem drop_append_of_length {n : ℕ} {skipped : List UInt32} (h : skipped.length = n)
    (rest : List UInt32) : (skipped ++ rest).drop n = rest := by
  rw [← h, List.drop_left]

theorem takeWord_eq_ok {words : List UInt32} {w : UInt32} {rest : List UInt32} :
    takeWord words = .ok (w, rest) ↔ words = w :: rest := by
  cases words <;> simp [takeWord]

theorem check_eq_ok {cond : Bool} {e : JournalDecodeError} {u : Unit} :
    check cond e = .ok u ↔ cond = true := by
  cases cond <;> simp

/-- A block is skipped. -/
theorem skipVec_words (block : Block) (rest : List UInt32) :
    skipVec (block.words ++ rest) = .ok rest := by
  rw [skipVec, Block.words, List.cons_append, takeWord, ok_bind]
  dsimp only
  rw [drop_append_of_length block.length_content]
  rfl

/-- So are several. -/
theorem iter_skipVec_words (blocks : List Block) (rest : List UInt32) :
    iter skipVec blocks.length (blocks.flatMap Block.words ++ rest) = .ok rest := by
  induction blocks with
  | nil => rfl
  | cons block blocks ih =>
    rw [List.flatMap_cons, List.append_assoc, List.length_cons, iter_succ_head, skipVec_words,
      ok_bind]
    exact ih

/-- What was skipped was a block, if something is left behind it. -/
theorem exists_block {words rest : List UInt32} (h : skipVec words = .ok rest)
    (hrest : rest ≠ []) : ∃ block : Block, words = block.words ++ rest := by
  rw [skipVec, bind_eq_ok] at h
  obtain ⟨⟨len, content⟩, hlen, h⟩ := h
  obtain rfl := takeWord_eq_ok.mp hlen
  obtain rfl := Except.ok.inj h
  obtain ⟨skipped, hskipped, hcontent⟩ := exists_of_drop_ne_nil hrest
  refine ⟨⟨len, skipped, hskipped⟩, ?_⟩
  rw [Block.words, List.cons_append]
  exact congrArg (len :: ·) hcontent

/-- Nothing is left behind skips from the end. -/
theorem iter_skipVec_nil {n : ℕ} {rest : List UInt32} (h : iter skipVec n [] = .ok rest) :
    rest = [] := by
  cases n with
  | zero => exact (Except.ok.inj h).symm
  | succ n =>
    rw [iter_succ_head] at h
    exact absurd h (by simp [skipVec, takeWord])

/-- What was skipped were blocks, if something is left behind them. -/
theorem exists_blocks {n : ℕ} {words rest : List UInt32} (h : iter skipVec n words = .ok rest)
    (hrest : rest ≠ []) :
    ∃ blocks : List Block, blocks.length = n ∧ words = blocks.flatMap Block.words ++ rest := by
  induction n generalizing words with
  | zero => exact ⟨[], rfl, Except.ok.inj h⟩
  | succ n ih =>
    rw [iter_succ_head, bind_eq_ok] at h
    obtain ⟨next, hnext, hiter⟩ := h
    have hne : next ≠ [] := by
      rintro rfl
      exact hrest (iter_skipVec_nil hiter)
    obtain ⟨block, rfl⟩ := exists_block hnext hne
    obtain ⟨blocks, hlen, rfl⟩ := ih hiter
    refine ⟨block :: blocks, by rw [List.length_cons, hlen], ?_⟩
    rw [List.flatMap_cons, List.append_assoc]

/-! ## The nullifier -/

theorem takeByte_eq_ok {words : List UInt32} {b : UInt8} :
    takeByte words = .ok b ↔ ∃ w rest, words = w :: rest ∧ w ≤ 0xFF ∧ w.toUInt8 = b := by
  simp only [takeByte, bind_eq_ok, Prod.exists, takeWord_eq_ok, check_eq_ok, exists_const,
    decide_eq_true_eq]
  exact exists_congr fun w => exists_congr fun rest => and_congr_right fun _ =>
    and_congr_right fun _ => ⟨fun h => Except.ok.inj h, fun h => congrArg _ h⟩

/-- A word that is a byte is the word of its low byte. -/
theorem toUInt32_toUInt8 {w : UInt32} (h : w ≤ 0xFF) : w.toUInt8.toUInt32 = w := by
  rw [← UInt32.toNat_inj, UInt8.toNat_toUInt32, UInt32.toNat_toUInt8]
  have hle : w.toNat ≤ 255 := UInt32.le_iff_toNat_le.mp h
  omega

theorem eq_encodeBytes32 {words : List UInt32} {n : Bytes32} (hle : ∀ w ∈ words, w ≤ 0xFF)
    (hlow : words.map UInt32.toUInt8 = n.toList) : words = encodeBytes32 n := by
  rw [encodeBytes32, ← hlow, List.map_map]
  refine (List.map_id words).symm.trans (List.map_congr_left fun w hw => ?_)
  exact (toUInt32_toUInt8 (hle w hw)).symm

/-- **The words a nullifier is read from.** -/
theorem takeBytes32_eq_ok {words : List UInt32} {n : Bytes32} :
    takeBytes32 words = .ok n ↔ ∃ nullifierWords rest, words = nullifierWords ++ rest ∧
      (∀ w ∈ nullifierWords, w ≤ 0xFF) ∧ nullifierWords.map UInt32.toUInt8 = n.toList := by
  constructor
  · intro h
    -- behind round `k`, the first `k` words are bytes and `out` has them
    have hread : ∀ i (hi : i < 32), i < 32 →
        ∃ w, words[i]? = some w ∧ w ≤ 0xFF ∧ n[i] = w.toUInt8 := by
      refine forUpTo_invariant (I := fun k out => ∀ i (hi : i < 32), i < k →
        ∃ w, words[i]? = some w ∧ w ≤ 0xFF ∧ out[i] = w.toUInt8)
        (fun i _ hi => absurd hi (Nat.not_lt_zero i)) ?_ h
      intro k hk out out' hout hround i hi hik
      obtain ⟨b, hbyte, hset⟩ := bind_eq_ok.mp hround
      obtain rfl := Except.ok.inj hset
      obtain ⟨w, rest, hdrop, hle, rfl⟩ := takeByte_eq_ok.mp hbyte
      rw [Vector.getElem_setIfInBounds hi]
      split
      · rename_i heq
        subst heq
        have hget : (words.drop k)[0]? = some w := by rw [hdrop]; rfl
        rw [List.getElem?_drop, Nat.add_zero] at hget
        exact ⟨w, hget, hle, rfl⟩
      · exact hout i hi (by omega)
    have hlong : 32 ≤ words.length := by
      obtain ⟨w, hw, -⟩ := hread 31 (by decide) (by decide)
      have hlt := (List.getElem?_eq_some_iff.mp hw).1
      omega
    have hlen : (words.take 32).length = 32 := by rw [List.length_take, Nat.min_eq_left hlong]
    have hget : ∀ i (hi : i < 32) (hi' : i < (words.take 32).length),
        (words.take 32)[i] ≤ 0xFF ∧ n[i] = ((words.take 32)[i]).toUInt8 := by
      intro i hi hi'
      obtain ⟨w, hw, hle, hn⟩ := hread i hi hi
      obtain ⟨hlt, rfl⟩ := List.getElem?_eq_some_iff.mp hw
      rw [List.getElem_take]
      exact ⟨hle, hn⟩
    refine ⟨words.take 32, words.drop 32, (List.take_append_drop 32 words).symm, ?_, ?_⟩
    · intro w hw
      obtain ⟨i, hi, rfl⟩ := List.getElem_of_mem hw
      exact (hget i (hlen ▸ hi) hi).1
    · apply List.ext_getElem
      · rw [List.length_map, hlen, Vector.length_toList]
      · intro i hi hi'
        rw [List.length_map] at hi
        rw [List.getElem_map, Vector.getElem_toList]
        exact (hget i (hlen ▸ hi) hi).2.symm
  · rintro ⟨nullifierWords, rest, rfl, hle, hlow⟩
    rw [eq_encodeBytes32 hle hlow]
    exact takeBytes32_encodeBytes32 n rest

theorem ne_nil_of_takeBytes32 {words : List UInt32} {n : Bytes32}
    (h : takeBytes32 words = .ok n) : words ≠ [] := by
  obtain ⟨nullifierWords, rest, rfl, -, hlow⟩ := takeBytes32_eq_ok.mp h
  intro hnil
  have hlen := congrArg List.length hlow
  rw [(List.append_eq_nil_iff.mp hnil).1, Vector.length_toList] at hlen
  exact absurd hlen (by decide)

/-! ## The journal -/

/-- A shape is read. -/
theorem decodeWords_shape {k : ℕ} {n : Bytes32} (shape : JournalShape k n) :
    decodeWords shape.words k = .ok n := by
  rw [decodeWords, JournalShape.words, takeWord, ok_bind]
  dsimp only
  rw [decide_eq_true rfl, check_true, ok_bind, takeWord, ok_bind]
  dsimp only
  rw [decide_eq_true rfl, check_true, ok_bind, takeWord, ok_bind]
  dsimp only
  rw [← shape.length_ciphertexts, iter_skipVec_words, ok_bind, takeWord, ok_bind]
  dsimp only
  rw [Nat.mul_comm, drop_append_of_length shape.length_commitments, takeWord, ok_bind]
  dsimp only
  rw [decide_eq_true shape.entryIndex_lt, check_true, ok_bind, Nat.mul_comm,
    drop_append_of_length shape.length_entriesBefore]
  exact takeBytes32_eq_ok.mpr ⟨_, _, rfl, shape.nullifierWords_le, shape.low_bytes⟩

/-- What is read has a shape. -/
theorem exists_shape {words : List UInt32} {k : ℕ} {n : Bytes32}
    (h : decodeWords words k = .ok n) : ∃ shape : JournalShape k n, words = shape.words := by
  simp only [decodeWords, bind_eq_ok, Prod.exists, takeWord_eq_ok, check_eq_ok, exists_const,
    decide_eq_true_eq] at h
  obtain ⟨pre, _, rfl, rfl, post, _, rfl, rfl, ciphertextCount, ciphertextWords, rfl, _,
    hciphertexts, commitmentCount, commitmentWords, rfl, nullifierCount, entryWords,
    hcommitments, hk, hnullifier⟩ := h
  -- each skip has words left behind it, from the last to the first
  have hentries : entryWords.drop (k * 64) ≠ [] := ne_nil_of_takeBytes32 hnullifier
  obtain ⟨entriesBefore, hentriesLen, hentriesEq⟩ := exists_of_drop_ne_nil hentries
  obtain ⟨commitments, hcommitmentsLen, hcommitmentsEq⟩ := exists_of_drop_ne_nil
    (show commitmentWords.drop (commitmentCount.toNat * 32) ≠ [] by simp [hcommitments])
  obtain ⟨ciphertexts, hciphertextsLen, hciphertextsEq⟩ :=
    exists_blocks hciphertexts (List.cons_ne_nil _ _)
  obtain ⟨nullifierWords, rest, hnullifierEq, hle, hlow⟩ := takeBytes32_eq_ok.mp hnullifier
  refine ⟨⟨ciphertextCount, ciphertexts, hciphertextsLen, commitmentCount, commitments,
    by rw [hcommitmentsLen, Nat.mul_comm], nullifierCount, hk, entriesBefore,
    by rw [hentriesLen, Nat.mul_comm], nullifierWords, hle, hlow, rest⟩, ?_⟩
  rw [hcommitments] at hcommitmentsEq
  rw [hnullifierEq] at hentriesEq
  rw [hciphertextsEq, hcommitmentsEq, hentriesEq, JournalShape.words]

theorem decodeWords_eq_ok {words : List UInt32} {k : ℕ} {n : Bytes32} :
    decodeWords words k = .ok n ↔ ∃ shape : JournalShape k n, words = shape.words :=
  ⟨exists_shape, fun ⟨shape, h⟩ => h ▸ decodeWords_shape shape⟩

/-! ## What the decoder accepts -/

section

variable {t : Target} {journal : Bytes t.width} {index : UInt8} {n : Bytes32}

/-- The program accepts the journals that have a shape. -/
theorem decodeNullifierFromJournal_eq_ok :
    decodeNullifierFromJournal t journal index = .ok n ↔ journal.len % 4 = 0 ∧
      ∃ shape : JournalShape index.toNat n, journalWords journal.toList = shape.words := by
  rw [decodeNullifierFromJournal_eq, ← decodeWords_eq_ok]
  split
  · rename_i haligned
    rw [and_iff_right haligned]
    cases decodeWords (journalWords journal.toList) index.toNat <;> simp [Except.mapError]
  · rename_i haligned
    simp [haligned]

/-- The words of the nullifier determine it. -/
theorem JournalShape.nullifier_eq {k k' : ℕ} {n n' : Bytes32} (shape : JournalShape k n)
    (shape' : JournalShape k' n') (h : shape.nullifierWords = shape'.nullifierWords) :
    n = n' := by
  apply Vector.toList_inj.mp
  rw [← shape.low_bytes, h, shape'.low_bytes]

/-- A shape with words appended. -/
def JournalShape.append {k : ℕ} (shape : JournalShape k n) (extra : List UInt32) :
    JournalShape k n :=
  { shape with rest := shape.rest ++ extra }

theorem JournalShape.words_append {k : ℕ} (shape : JournalShape k n) (extra : List UInt32) :
    (shape.append extra).words = shape.words ++ extra := by
  simp only [JournalShape.words, JournalShape.append, List.cons_append, List.append_assoc]

end

/-- **The journals the decoder accepts**, for every byte string, index and pointer
width: those whose words have a shape with the nullifier at that index, and no others.
What is accepted depends on no word the shape leaves open: journals with the same
nullifier words where their shapes have them decode to the same nullifier, and words
appended to an accepted journal change nothing. -/
theorem decode_accepts_iff (t : Target) (journal : Bytes t.width) (index : UInt8) :
    (∀ n, decodeNullifierFromJournal t journal index = .ok n ↔ journal.len % 4 = 0 ∧
      ∃ shape : JournalShape index.toNat n, journalWords journal.toList = shape.words) ∧
    (∀ (n n' : Bytes32) (shape : JournalShape index.toNat n)
      (shape' : JournalShape index.toNat n') (journal' : Bytes t.width),
      journal.len % 4 = 0 → journalWords journal.toList = shape.words →
      journal'.len % 4 = 0 → journalWords journal'.toList = shape'.words →
      shape.nullifierWords = shape'.nullifierWords →
      decodeNullifierFromJournal t journal' index = decodeNullifierFromJournal t journal index) ∧
    ∀ (n : Bytes32) (extra : List UInt32) (journal' : Bytes t.width),
      journal'.toList = journal.toList ++ wordBytes extra →
      decodeNullifierFromJournal t journal index = .ok n →
      decodeNullifierFromJournal t journal' index = .ok n := by
  refine ⟨fun n => decodeNullifierFromJournal_eq_ok, ?_, ?_⟩
  · intro n n' shape shape' journal' haligned hwords haligned' hwords' hsame
    obtain rfl := shape.nullifier_eq shape' hsame
    rw [decodeNullifierFromJournal_eq_ok.mpr ⟨haligned, shape, hwords⟩,
      decodeNullifierFromJournal_eq_ok.mpr ⟨haligned', shape', hwords'⟩]
  · intro n extra journal' happend hdecode
    obtain ⟨haligned, shape, hwords⟩ := decodeNullifierFromJournal_eq_ok.mp hdecode
    have haligned' : journal.toList.length % 4 = 0 := haligned
    refine decodeNullifierFromJournal_eq_ok.mpr ⟨?_, shape.append extra, ?_⟩
    · rw [Vec.len, happend, List.length_append, length_wordBytes]
      omega
    · rw [happend, journalWords_append haligned', journalWords_wordBytes, hwords,
        shape.words_append]

/-- The journal of an output, with two words more. -/
theorem decode_accepts_iff_twoEntries :
    decodeNullifierFromJournal ⟨.w64, true⟩
      ⟨twoEntriesJournal.toList ++ wordBytes [5, 6], by decide +kernel⟩ 1 =
        .ok (Vector.replicate 32 7) := by
  refine (decode_accepts_iff ⟨.w64, true⟩ twoEntriesJournal 1).2.2 _ [5, 6] _ rfl ?_
  have hwords : twoEntriesJournal.toList = wordBytes twoEntries.words := rfl
  rw [decodeNullifierFromJournal_wordBytes (t := ⟨.w64, true⟩) hwords, decodeWords_words]
  rfl

end Coordinator
end Tuniq
