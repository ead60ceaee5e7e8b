import Tuniq.Coordinator.JournalFormat

/-!
# The decoder on hostile journals

A journal is stored by anyone, and its counts and lengths can be any `u32`.  The
decoder must not panic on one, nor count for long.

No panic is left over from `decodeNullifierFromJournal_eq`, where the program is a
parser that cannot panic.  For the loop over the ciphertexts the program is cut in
three: what is in front of the loop (`journalHeader`), the loop, and what is behind
it (`afterCiphertexts`).  Round `i` begins at least `i` words behind the first
ciphertext, since every round before it has read a length; so the journal has a word
for each of them, and a round that finds none left is the last.
-/

namespace Tuniq
namespace Coordinator

section

variable (t : Target)

/-- The decoder in front of the loop: the number of ciphertexts, and where they
begin. -/
def journalHeader (journal : Bytes t.width) : Except (Stop JournalDecodeError) (ℕ × ℕ) := do
  require (journal.len % 4 = 0) .notWordAligned
  require (4 ≤ journal.len) .journalTooShort
  let word := 0
  let preLen ← readWord t journal word
  require (preLen = 0) .unsupportedShape
  let word ← liftFault (t.addUsize word 1)
  let postLen ← readWord t journal word
  require (postLen = 0) .unsupportedShape
  let word ← liftFault (t.addUsize word 1)
  let ciphertextCount ← readWord t journal word
  let word ← liftFault (t.addUsize word 1)
  return (ciphertextCount.toNat, word)

/-- The decoder behind the loop. -/
def afterCiphertexts (journal : Bytes t.width) (entryIndex : UInt8) (word : ℕ) :
    Except (Stop JournalDecodeError) Bytes32 := do
  let commitmentCount ← readWord t journal word
  let word ← liftFault (t.addUsize word 1)
  let commitments ← okOr (t.width.checkedMul (t.width.asUsize commitmentCount.toNat) 32)
    .journalTooShort
  let word ← okOr (t.width.checkedAdd word commitments) .journalTooShort
  let nullifierCount ← readWord t journal word
  let word ← liftFault (t.addUsize word 1)
  require (entryIndex.toUInt32 < nullifierCount) .nullifierIndexOutOfRange
  let entries ← okOr (t.width.checkedMul entryIndex.toNat 64) .journalTooShort
  let entryOffset ← okOr (t.width.checkedAdd word entries) .journalTooShort
  readBytes32 t journal entryOffset

/-- The number of rounds of the loop over the ciphertexts that a call begins. -/
def ciphertextRounds (journal : Bytes t.width) : ℕ :=
  match journalHeader t journal with
  | .ok (ciphertextCount, word) =>
    begun (fun _ => skipCiphertext t journal) ciphertextCount word
  | .error _ => 0

end

variable {t : Target} {journal : Bytes t.width}

/-- The decoder, cut at its loop. -/
theorem decodeNullifierFromJournal_cut (journal : Bytes t.width) (entryIndex : UInt8) :
    decodeNullifierFromJournal t journal entryIndex = (do
      let (ciphertextCount, word) ← journalHeader t journal
      let word ← forUpTo (fun _ => skipCiphertext t journal) ciphertextCount word
      afterCiphertexts t journal entryIndex word) := by
  simp only [decodeNullifierFromJournal, journalHeader, afterCiphertexts, bind_assoc, pure_bind]

/-- A word that can be read is in the journal. -/
theorem lt_of_readWord {i : ℕ} {w : UInt32} (h : readWord t journal i = .ok w) :
    i < (journalWords journal.toList).length := by
  by_contra hout
  rw [readWord_eq, List.getElem?_eq_none (Nat.not_lt.mp hout)] at h
  exact absurd h (by simp)

/-- The ciphertexts begin behind three words. -/
theorem journalHeader_eq_ok {n word : ℕ} (h : journalHeader t journal = .ok (n, word)) :
    word = 3 ∧ 3 ≤ (journalWords journal.toList).length := by
  simp only [journalHeader, bind_eq_ok] at h
  obtain ⟨-, -, -, -, pre, hpre, -, -, word₁, hword₁, post, hpost, -, -, word₂, hword₂, count,
    hcount, word₃, hword₃, hlast⟩ := h
  have hone := addUsize_one (lt_of_readWord hpre)
  rw [hone] at hword₁
  obtain rfl := Except.ok.inj hword₁
  have htwo := addUsize_one (lt_of_readWord hpost)
  rw [htwo] at hword₂
  obtain rfl := Except.ok.inj hword₂
  have hread := lt_of_readWord hcount
  rw [addUsize_one hread] at hword₃
  obtain rfl := Except.ok.inj hword₃
  exact ⟨(Prod.mk.inj (Except.ok.inj hlast)).2.symm, hread⟩

/-- A round that finishes has read a word and moved past it. -/
theorem skipCiphertext_eq_ok {word word' : ℕ} (h : skipCiphertext t journal word = .ok word') :
    word < (journalWords journal.toList).length ∧ word < word' := by
  simp only [skipCiphertext, bind_eq_ok] at h
  obtain ⟨len, hlen, word₁, hword₁, hskip⟩ := h
  have hread := lt_of_readWord hlen
  rw [addUsize_one hread] at hword₁
  obtain rfl := Except.ok.inj hword₁
  rw [PtrWidth.checkedAdd] at hskip
  split at hskip
  · obtain rfl := Except.ok.inj hskip
    exact ⟨hread, by omega⟩
  · exact absurd hskip (by simp [okOr])

/-- Whatever count the journal declares, the loop begins fewer rounds than the journal
has words. -/
theorem ciphertextRounds_le (journal : Bytes t.width) :
    ciphertextRounds t journal ≤ journal.len / 4 := by
  have hlen : (journalWords journal.toList).length = journal.len / 4 := length_journalWords _
  rw [ciphertextRounds]
  split
  · rename_i n word hheader
    obtain ⟨rfl, hthree⟩ := journalHeader_eq_ok hheader
    -- round `i` begins at word `3 + i` or later, behind words that were read
    refine begun_le (I := fun i word => 3 + i ≤ word ∧ i + 3 ≤ journal.len / 4)
      ⟨le_rfl, by omega⟩ (fun i _ word word' hi hround => ?_) (fun i word hi => by omega)
    obtain ⟨hread, hmoved⟩ := skipCiphertext_eq_ok hround
    exact ⟨by omega, by omega⟩
  · exact Nat.zero_le _

/-- **The decoder is safe on every journal.**  Whatever the bytes, the index and the
pointer width, and with overflow checked or not: it returns a nullifier or one of its
errors and never panics; it does not depend on the overflow checks, so no sum
overflows where they are off; it is its header, its loop over the ciphertexts and what
comes behind; and this loop begins at most one round for each word of the journal. -/
theorem decode_safe (w : PtrWidth) (journal : Bytes w) (entryIndex : UInt8) :
    (∀ overflowChecks, ∀ f,
      decodeNullifierFromJournal ⟨w, overflowChecks⟩ journal entryIndex ≠ .error (.fault f)) ∧
    decodeNullifierFromJournal ⟨w, true⟩ journal entryIndex =
      decodeNullifierFromJournal ⟨w, false⟩ journal entryIndex ∧
    ∀ overflowChecks,
      decodeNullifierFromJournal ⟨w, overflowChecks⟩ journal entryIndex = (do
        let (ciphertextCount, word) ← journalHeader ⟨w, overflowChecks⟩ journal
        let word ← forUpTo (fun _ => skipCiphertext ⟨w, overflowChecks⟩ journal)
          ciphertextCount word
        afterCiphertexts ⟨w, overflowChecks⟩ journal entryIndex word) ∧
      ciphertextRounds ⟨w, overflowChecks⟩ journal ≤ journal.len / 4 := by
  refine ⟨fun checks f h => ?_, ?_, fun checks =>
    ⟨decodeNullifierFromJournal_cut (t := ⟨w, checks⟩) journal entryIndex,
      ciphertextRounds_le (t := ⟨w, checks⟩) journal⟩⟩
  · rw [decodeNullifierFromJournal_eq (t := ⟨w, checks⟩)] at h
    split at h
    · cases hwords : decodeWords (journalWords journal.toList) entryIndex.toNat with
      | error e =>
        rw [hwords] at h
        exact absurd h (by simp [Except.mapError])
      | ok n =>
        rw [hwords] at h
        exact absurd h (by simp [Except.mapError])
    · exact absurd h (by simp)
  · rw [decodeNullifierFromJournal_eq (t := ⟨w, true⟩),
      decodeNullifierFromJournal_eq (t := ⟨w, false⟩)]

end Coordinator
end Tuniq
