import Tuniq.Client.ImageId
import Tuniq.Client.NegateG1
import Tuniq.Coordinator.InstructionData
import Tuniq.Coordinator.Registry

/-!
# The instructions of the client

The client reads the answer to a wrap request and sends two instructions to the
coordinator, `initialize` with the image id and `verify_predicate` with the proof.
It writes their data by hand.

For `verify_predicate` it writes the seal with `pi_a` negated, a digest and a
nullifier.  The digest and the nullifier are constants of the program, those of one
journal, and between them the coordinator expects the index of the nullifier, one
byte that the client does not write.  So there is one byte too few, and Anchor does not
decode the arguments of any response (`clientData_never_decodes`).

The integration test of the coordinator has an encoder of its own, which writes the
byte; what it writes is decoded as it should be.  This is `testData_decodes`, a result that
stands on its own beside the one about the client.
-/

namespace Tuniq
namespace Client

open Coordinator

/-- The answer to a wrap request, with the two strings decoded from base64. -/
structure WrapResponse where
  sealBytes : List UInt8
  journal : Bytes .w64
  imageIdHex : Str

/-- The error `main` returns when a constant is not hexadecimal. -/
inductive FromHexError where
  | fromHex
  deriving DecidableEq, Repr

/-- `hex::decode`: nothing on an odd length or on other characters. -/
def hexDecode : Str → Option (List UInt8)
  | [] => some []
  | [_] => none
  | a :: b :: s => do
    let high ← toDigit16 a
    let low ← toDigit16 b
    let bytes ← hexDecode s
    return UInt8.ofNat (high * 16 + low) :: bytes

/-- `NULLIFIER_HEX` -/
def nullifierHex : Str :=
  "39e15eadcbc684bfca46f76bec4182d71cf5b26833d6e20af0b283515d9f92b2".toList

/-- The digest in the text of `main`. -/
def journalDigestHex : Str :=
  "69ccdaed14e35c57e7203f5d754e7e3e62edf35133b3e39c1e632d2d62175e84".toList

/-- The seal in the data of `verify_predicate`; the client and the test write it the same
way. -/
def writeSeal (bytes : List UInt8) : Except Fault (List UInt8) := do
  let selector ← tryIntoArray 4 (← slice bytes 0 4)
  let piA ← tryIntoArray 64 (← slice bytes 0 64)
  let piB ← slice bytes 64 192
  let piC ← slice bytes 192 256
  return selector.toList ++ ((negateG1 piA).toList ++ (piB ++ piC))

section

variable (sha256 : List UInt8 → Bytes32)

/-- The data of `initialize`. -/
def initializeData (imageId : Bytes32) (payer : Pubkey) : List UInt8 :=
  (discriminator sha256 "initialize".toList).toList ++ (imageId.toList ++ payer.toList)

/-- The data of `verify_predicate`. -/
def verifyPredicateData (resp : WrapResponse) : Except (Stop FromHexError) (List UInt8) := do
  let _ ← liftFault (parseImageId resp.imageIdHex)
  let nullifier ← liftFault (tryIntoArray 32 (← okOr (hexDecode nullifierHex) .fromHex))
  let proofSeal ← liftFault (writeSeal resp.sealBytes)
  let digest ← liftFault (unwrap (okOr (hexDecode journalDigestHex) FromHexError.fromHex))
  let journalDigest ← liftFault (tryIntoArray 32 digest)
  return (discriminator sha256 "verify_predicate".toList).toList ++
    (proofSeal ++ (journalDigest.toList ++ nullifier.toList))

/-- The data of `verify_predicate` in the integration test. -/
def testVerifyPredicateData (bytes : List UInt8) (journalDigest : Bytes32)
    (nullifierIndex : UInt8) (claimedNullifier : Bytes32) : Except Fault (List UInt8) := do
  let proofSeal ← writeSeal bytes
  return (discriminator sha256 "verify_predicate".toList).toList ++
    (proofSeal ++ (journalDigest.toList ++ (nullifierIndex :: claimedNullifier.toList)))

/-! ## What the data should say -/

/-- The arguments say what the response does: its seal with `pi_a` negated, the digest of
its journal, an index, and the nullifier the journal has there. -/
structure Carries (resp : WrapResponse) (args : VerifyPredicateData) : Prop where
  selector : args.proofSeal.selector.toList = window resp.sealBytes 0 4
  piA : ∃ piA : Vector UInt8 64, piA.toList = window resp.sealBytes 0 64 ∧
    args.proofSeal.piA = negateG1 piA
  piB : args.proofSeal.piB.toList = window resp.sealBytes 64 128
  piC : args.proofSeal.piC.toList = window resp.sealBytes 192 64
  digest : args.journalDigest = sha256 resp.journal.toList
  nullifier : decodeNullifierFromJournal sbf resp.journal args.nullifierIndex =
    .ok args.claimedNullifier

/-- The client's data decodes to arguments that say what the response does. -/
def DataDecodes (resp : WrapResponse) : Prop :=
  ∃ data args, verifyPredicateData sha256 resp = .ok data ∧
    decodeVerifyPredicate sha256 data = some args ∧ Carries sha256 resp args

end

/-! ## The client's data -/

theorem tryIntoArray_eq_ok {α : Type} {n : ℕ} {l : List α} {v : Vector α n}
    (h : tryIntoArray n l = .ok v) : v.toList = l := by
  rw [tryIntoArray] at h
  split at h
  · rw [← Except.ok.inj h]
    rfl
  · cases h

/-- What the bytes of a seal are made of. -/
theorem writeSeal_eq_ok {bytes out : List UInt8} (h : writeSeal bytes = .ok out) :
    ∃ (selector : Vector UInt8 4) (piA : Vector UInt8 64) (piB piC : List UInt8),
      selector.toList = window bytes 0 4 ∧ piA.toList = window bytes 0 64 ∧
      slice bytes 64 192 = .ok piB ∧ slice bytes 192 256 = .ok piC ∧
      out = selector.toList ++ ((negateG1 piA).toList ++ (piB ++ piC)) := by
  rw [writeSeal] at h
  obtain ⟨s4, hs4, h⟩ := bind_eq_ok.mp h
  obtain ⟨selector, hselector, h⟩ := bind_eq_ok.mp h
  obtain ⟨s64, hs64, h⟩ := bind_eq_ok.mp h
  obtain ⟨piA, hpiA, h⟩ := bind_eq_ok.mp h
  obtain ⟨piB, hpiB, h⟩ := bind_eq_ok.mp h
  obtain ⟨piC, hpiC, h⟩ := bind_eq_ok.mp h
  refine ⟨selector, piA, piB, piC, ?_, ?_, hpiB, hpiC, (Except.ok.inj h).symm⟩
  · rw [tryIntoArray_eq_ok hselector, ← (slice_eq_ok.mp hs4).2]
  · rw [tryIntoArray_eq_ok hpiA, ← (slice_eq_ok.mp hs64).2]

/-- **A seal of 256 bytes is written as Borsh writes a seal**, with `pi_a` negated. -/
theorem writeSeal_of_length {bytes : List UInt8} (h : bytes.length = 256) :
    ∃ s : Seal, writeSeal bytes = .ok (sealCodec.write s) ∧
      s.selector.toList = window bytes 0 4 ∧
      (∃ piA : Vector UInt8 64, piA.toList = window bytes 0 64 ∧ s.piA = negateG1 piA) ∧
      s.piB.toList = window bytes 64 128 ∧ s.piC.toList = window bytes 192 64 := by
  have hslice : ∀ {a b : ℕ}, a ≤ b → b ≤ 256 → slice bytes a b = .ok (window bytes a (b - a)) :=
    fun hab hb => slice_eq_ok.mpr ⟨⟨hab, by omega⟩, rfl⟩
  have hlen : ∀ {a n : ℕ}, a + n ≤ 256 → (window bytes a n).length = n :=
    fun ha => length_window (by omega)
  have harray : ∀ {a n : ℕ}, a + n ≤ 256 →
      ∃ v : Vector UInt8 n, tryIntoArray n (window bytes a n) = .ok v ∧
        v.toList = window bytes a n :=
    fun ha => ⟨_, tryIntoArray_of_length (hlen ha), rfl⟩
  obtain ⟨selector, hselector, hselector'⟩ := harray (a := 0) (n := 4) (by omega)
  obtain ⟨piA, hpiA, hpiA'⟩ := harray (a := 0) (n := 64) (by omega)
  obtain ⟨piB, -, hpiB⟩ := harray (a := 64) (n := 128) (by omega)
  obtain ⟨piC, -, hpiC⟩ := harray (a := 192) (n := 64) (by omega)
  refine ⟨⟨selector, negateG1 piA, piB, piC⟩, ?_, hselector', ⟨piA, hpiA', rfl⟩, hpiB, hpiC⟩
  rw [writeSeal, write_sealCodec, hpiB, hpiC]
  refine bind_eq_ok.mpr ⟨_, hslice (by omega) (by omega), ?_⟩
  refine bind_eq_ok.mpr ⟨_, hselector, ?_⟩
  refine bind_eq_ok.mpr ⟨_, hslice (by omega) (by omega), ?_⟩
  refine bind_eq_ok.mpr ⟨_, hpiA, ?_⟩
  refine bind_eq_ok.mpr ⟨_, hslice (by omega) (by omega), ?_⟩
  exact bind_eq_ok.mpr ⟨_, hslice (by omega) (by omega), rfl⟩

theorem length_of_slice {α : Type} {v l : List α} {a b : ℕ} (h : slice v a b = .ok l) :
    l.length = b - a := by
  obtain ⟨⟨hab, hb⟩, rfl⟩ := slice_eq_ok.mp h
  exact length_window (by omega)

theorem length_writeSeal {bytes out : List UInt8} (h : writeSeal bytes = .ok out) :
    out.length = 260 := by
  obtain ⟨selector, piA, piB, piC, -, -, hpiB, hpiC, rfl⟩ := writeSeal_eq_ok h
  have hB := length_of_slice hpiB
  have hC := length_of_slice hpiC
  rw [List.length_append, List.length_append, List.length_append, Vector.length_toList,
    Vector.length_toList, hB, hC]

variable {sha256 : List UInt8 → Bytes32}

/-- **The data has one byte less than the arguments.** -/
theorem length_verifyPredicateData {resp : WrapResponse} {data : List UInt8}
    (h : verifyPredicateData sha256 resp = .ok data) : data.length = 8 + 324 := by
  rw [verifyPredicateData] at h
  obtain ⟨imageId, -, h⟩ := bind_eq_ok.mp h
  obtain ⟨n, -, h⟩ := bind_eq_ok.mp h
  obtain ⟨nullifier, -, h⟩ := bind_eq_ok.mp h
  obtain ⟨proofSeal, hseal, h⟩ := bind_eq_ok.mp h
  obtain ⟨d, -, h⟩ := bind_eq_ok.mp h
  obtain ⟨digest, -, h⟩ := bind_eq_ok.mp h
  have hlen : proofSeal.length = 260 := by
    cases hw : writeSeal resp.sealBytes with
    | error f =>
      rw [hw] at hseal
      cases hseal
    | ok out =>
      rw [hw, liftFault_ok, Except.ok.injEq] at hseal
      rw [← hseal]
      exact length_writeSeal hw
  rw [← Except.ok.inj h, List.length_append, List.length_append, List.length_append, hlen,
    Vector.length_toList, Vector.length_toList, Vector.length_toList]

theorem decode_verifyPredicateData {resp : WrapResponse} {data : List UInt8}
    (h : verifyPredicateData sha256 resp = .ok data) :
    decodeVerifyPredicate sha256 data = none := by
  refine decodeInstruction_eq_none hasWidth_verifyPredicateCodec _ ?_
  rw [length_verifyPredicateData h]
  decide

/-- The client does write data, whatever the journal is. -/
theorem exists_verifyPredicateData {resp : WrapResponse} {imageId : Bytes32}
    (hseal : resp.sealBytes.length = 256) (himage : parseImageId resp.imageIdHex = .ok imageId) :
    ∃ data, verifyPredicateData sha256 resp = .ok data := by
  obtain ⟨s, hs, -⟩ := writeSeal_of_length hseal
  have hconst : ∀ hex : Str, (hexDecode hex).map List.length = some 32 →
      ∃ (bytes : List UInt8) (v : Bytes32), hexDecode hex = some bytes ∧
        tryIntoArray 32 bytes = .ok v := by
    intro hex hmap
    obtain ⟨bytes, hbytes, hlen⟩ := Option.map_eq_some_iff.mp hmap
    exact ⟨bytes, _, hbytes, tryIntoArray_of_length hlen⟩
  obtain ⟨n, nullifier, hn, hnullifier⟩ := hconst nullifierHex (by decide +kernel)
  obtain ⟨d, digest, hd, hdigest⟩ := hconst journalDigestHex (by decide +kernel)
  refine ⟨(discriminator sha256 "verify_predicate".toList).toList ++
    (sealCodec.write s ++ (digest.toList ++ nullifier.toList)), ?_⟩
  rw [verifyPredicateData, himage, hn, hd, hs]
  simp only [liftFault_ok, okOr_some, unwrap_ok, ok_bind, hnullifier, hdigest]
  rfl

/-- **The encoder of the integration test.**  With the index in its place the data is
decoded, and it says what the response does. -/
theorem testData_decodes {resp : WrapResponse} {index : UInt8} {nullifier : Bytes32}
    (hseal : resp.sealBytes.length = 256)
    (hn : decodeNullifierFromJournal sbf resp.journal index = .ok nullifier) :
    ∃ data args, testVerifyPredicateData sha256 resp.sealBytes (sha256 resp.journal.toList)
        index nullifier = .ok data ∧
      decodeVerifyPredicate sha256 data = some args ∧ Carries sha256 resp args := by
  obtain ⟨s, hs, hselector, hpiA, hpiB, hpiC⟩ := writeSeal_of_length hseal
  let args : VerifyPredicateData := ⟨s, sha256 resp.journal.toList, index, nullifier⟩
  have hdata : decodeVerifyPredicate sha256
      ((discriminator sha256 "verify_predicate".toList).toList ++
        (verifyPredicateCodec.write args ++ [])) = some args :=
    decodeInstruction_write "verify_predicate".toList verifyPredicateCodec args []
  rw [List.append_nil] at hdata
  refine ⟨_, args, ?_, hdata, ⟨hselector, hpiA, hpiB, hpiC, rfl, hn⟩⟩
  rw [testVerifyPredicateData, hs]
  rfl

/-- **No response's data is decoded.**  The coordinator expects the index of the nullifier
in front of the nullifier, and the client does not write it. -/
theorem clientData_never_decodes (sha256 : List UInt8 → Bytes32) (resp : WrapResponse) :
    ¬ DataDecodes sha256 resp := by
  rintro ⟨data, args, hdata, hargs, -⟩
  rw [decode_verifyPredicateData hdata] at hargs
  cases hargs

/-- A response with a journal of one entry. -/
def oneEntryResponse : WrapResponse where
  sealBytes := List.replicate 256 1
  journal := oneEntryJournal
  imageIdHex := List.replicate 64 '0'

/-- SHA-256 on what is hashed for this response: the name of the instruction and the
journal. -/
def sha256Table (bytes : List UInt8) : Bytes32 :=
  if bytes = asBytes "global:verify_predicate".toList then
    #v[0xb0, 0x29, 0xb5, 0xaf, 0x4c, 0x64, 0x64, 0x15, 0xaf, 0xec, 0x0e, 0xe2, 0x60, 0xed, 0x49,
      0x2b, 0xec, 0xaa, 0xc9, 0xa8, 0x81, 0x9d, 0xc1, 0xb1, 0x09, 0x8a, 0xa6, 0xed, 0x7f, 0xaa,
      0x58, 0x23]
  else if bytes = oneEntryJournal.toList then
    #v[0xf1, 0x0b, 0x55, 0x92, 0xa5, 0x97, 0x0b, 0xa5, 0x73, 0x55, 0xa3, 0x7c, 0x7a, 0xc6, 0xd4,
      0x95, 0xe6, 0xf1, 0x11, 0x43, 0x95, 0x1b, 0x1d, 0xb4, 0x4a, 0x01, 0x9b, 0x44, 0x41, 0x26,
      0x4c, 0xd1]
  else Vector.replicate 32 0

/-- A response with a nullifier in its journal, whose data is written and not decoded. -/
theorem oneEntryResponse_not_decoded :
    (oneEntryResponse.sealBytes.length = 256 ∧
      ∃ n, decodeNullifierFromJournal sbf oneEntryResponse.journal 0 = .ok n) ∧
      (∃ data, verifyPredicateData sha256Table oneEntryResponse = .ok data ∧
        decodeVerifyPredicate sha256Table data = none) ∧
      ¬ DataDecodes sha256Table oneEntryResponse := by
  have hlen : oneEntryResponse.sealBytes.length = 256 := List.length_replicate
  have himage : parseImageId oneEntryResponse.imageIdHex = .ok (Vector.replicate 32 0) := by
    decide +kernel
  obtain ⟨data, hdata⟩ : ∃ data, verifyPredicateData sha256Table oneEntryResponse = .ok data :=
    exists_verifyPredicateData hlen himage
  refine ⟨⟨hlen, _, decode_oneEntryJournal⟩, ⟨data, hdata, decode_verifyPredicateData hdata⟩, ?_⟩
  rintro ⟨data', args, hdata', hargs, -⟩
  rw [decode_verifyPredicateData hdata'] at hargs
  cases hargs

end Client
end Tuniq
