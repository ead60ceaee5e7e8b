import Tuniq.Library.Iteration
import Tuniq.Rust.Basic

/-!
# Decoding a nullifier from a journal

The journal of a proof is a `PrivacyPreservingCircuitOutput` in risc0-serde: a
stream of little-endian `u32` words, a `u8` in a word of its own, the length of a
`Vec` in a word before its elements.  The coordinator does not decode all of it.
It walks over the fields in front of `new_nullifiers` and reads one entry there.

The walk keeps a position counted in words, and the journal is bounded in bytes,
so every read multiplies by four first.  All sums that a length from the journal
enters are checked sums and end in `JournalTooShort`; the sums `word += 1` and
`i + k` are plain ones.
-/

namespace Tuniq
namespace Coordinator

/-- `[u8; 32]`: a nullifier, a commitment, a digest, a key. -/
abbrev Bytes32 := Vector UInt8 32

/-- `JournalDecodeError` -/
inductive JournalDecodeError where
  | journalTooShort
  | notWordAligned
  | unsupportedShape
  | nullifierIndexOutOfRange
  | invalidByteWord
  deriving DecidableEq, Repr

section

variable (t : Target)

/-- `read_word`: the little-endian `u32` at word-index `i`. -/
def readWord (journal : Bytes t.width) (i : ℕ) : Except (Stop JournalDecodeError) UInt32 := do
  let off ← okOr (t.width.checkedMul i 4) .journalTooShort
  let stop ← okOr (t.width.checkedAdd off 4) .journalTooShort
  require (stop ≤ journal.len) .journalTooShort
  return UInt32.ofNat (ofLe (← liftFault (slice journal.toList off stop)))

/-- `read_u8_word`: the word has the byte in its low byte and zeros above. -/
def readU8Word (journal : Bytes t.width) (i : ℕ) : Except (Stop JournalDecodeError) UInt8 := do
  let w ← readWord t journal i
  require (w ≤ 0xFF) .invalidByteWord
  return w.toUInt8

/-- `out[k] = b` -/
def setByte (out : Bytes32) (k : ℕ) (b : UInt8) : Except Fault Bytes32 :=
  if h : k < 32 then .ok (out.set k b) else .error .indexOutOfBounds

/-- `read_bytes32`: 32 consecutive words. -/
def readBytes32 (journal : Bytes t.width) (i : ℕ) :
    Except (Stop JournalDecodeError) Bytes32 :=
  forUpTo (fun k out => do
    let at_k ← liftFault (t.addUsize i k)
    let b ← readU8Word t journal at_k
    liftFault (setByte out k b)) 32 (Vector.replicate 32 0)

/-- The body of the loop over the ciphertexts. -/
def skipCiphertext (journal : Bytes t.width) (word : ℕ) :
    Except (Stop JournalDecodeError) ℕ := do
  let innerLen ← readWord t journal word
  let word ← liftFault (t.addUsize word 1)
  okOr (t.width.checkedAdd word (t.width.asUsize innerLen.toNat)) .journalTooShort

/-- `decode_nullifier_from_journal` -/
def decodeNullifierFromJournal (journal : Bytes t.width) (entryIndex : UInt8) :
    Except (Stop JournalDecodeError) Bytes32 := do
  require (journal.len % 4 = 0) .notWordAligned
  require (4 ≤ journal.len) .journalTooShort
  let word := 0
  -- `public_pre_states` must be empty
  let preLen ← readWord t journal word
  require (preLen = 0) .unsupportedShape
  let word ← liftFault (t.addUsize word 1)
  -- `public_post_states` must be empty
  let postLen ← readWord t journal word
  require (postLen = 0) .unsupportedShape
  let word ← liftFault (t.addUsize word 1)
  -- `ciphertexts`
  let ciphertextCount ← readWord t journal word
  let word ← liftFault (t.addUsize word 1)
  let word ← forUpTo (fun _ => skipCiphertext t journal) ciphertextCount.toNat word
  -- `new_commitments`: 32 words each
  let commitmentCount ← readWord t journal word
  let word ← liftFault (t.addUsize word 1)
  let commitments ← okOr (t.width.checkedMul (t.width.asUsize commitmentCount.toNat) 32)
    .journalTooShort
  let word ← okOr (t.width.checkedAdd word commitments) .journalTooShort
  -- `new_nullifiers`: 64 words each
  let nullifierCount ← readWord t journal word
  let word ← liftFault (t.addUsize word 1)
  require (entryIndex.toUInt32 < nullifierCount) .nullifierIndexOutOfRange
  let entries ← okOr (t.width.checkedMul entryIndex.toNat 64) .journalTooShort
  let entryOffset ← okOr (t.width.checkedAdd word entries) .journalTooShort
  readBytes32 t journal entryOffset

end

end Coordinator
end Tuniq
