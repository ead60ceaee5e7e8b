import Tuniq.Client.Instructions
import Tuniq.Coordinator.Dispatch
import Tuniq.Coordinator.Submission

/-!
# The integration test, for all inputs

The integration test of the coordinator takes the three files the prover leaves, the seal,
the journal and the image id, writes the data of four instructions by hand, sends them one
after the other, and looks for a one in bytes 8 to 16 of the registry.

`integrationTest` is that test with the files, the nullifier and its index as arguments.
What it writes reaches the handlers as a submission does (`tx_integrationTest`).  So the
test passes for every proof the router accepts (`integrationTest_passes`), not only for the
one on file.
-/

namespace Tuniq
namespace Client

open Coordinator

/-! ## The data of the instructions -/

/-- The files the prover leaves. -/
structure Artifacts where
  sealBytes : List UInt8
  journal : Bytes .w64
  imageIdHex : Str

section

variable (sha256 : List UInt8 → Bytes32)

/-- The data of `store_journal`. -/
def storeJournalData (journal : Bytes .w64) : List UInt8 :=
  (discriminator sha256 "store_journal".toList).toList ++
    (toLe 4 journal.len ++ journal.toList)

/-- The instructions of `verify_and_forward_to_consumer`, one a transaction. -/
def integrationTest (arts : Artifacts) (nullifierIndex : UInt8) (claimedNullifier : Bytes32)
    (payer : Pubkey) : Except Fault (List RawInstruction) := do
  -- `assert_eq!(seal.len(), 256)`
  if arts.sealBytes.length = 256 then pure () else .error .explicitPanic
  let imageId ← parseImageId arts.imageIdHex
  let journalDigest := sha256 arts.journal.toList
  let verify ← testVerifyPredicateData sha256 arts.sealBytes journalDigest nullifierIndex
    claimedNullifier
  return [
    { program := .consumer
      data := (discriminator sha256 "initialize".toList).toList
      signer := payer
      consumer := .registry },
    { program := .coordinator
      data := (discriminator sha256 "initialize".toList).toList ++ imageId.toList
      signer := payer
      consumer := .registry },
    { program := .coordinator
      data := storeJournalData sha256 arts.journal
      signer := payer
      consumer := .registry },
    { program := .coordinator
      data := verify
      signer := payer
      consumer := .registry }]

end

/-- What the test reads of an account: bytes 8 to 16, as a number. -/
def readCount (data : List UInt8) : ℕ := ofLe (window data 8 8)

variable {sha256 : List UInt8 → Bytes32} {anchor : Anchor}

/-- What the test writes, when it does not panic. -/
theorem integrationTest_eq_ok {arts : Artifacts} {index : UInt8}
    {nullifier : Bytes32} {payer : Pubkey} {ixs : List RawInstruction}
    (h : integrationTest sha256 arts index nullifier payer = .ok ixs) :
    ∃ imageId verify, arts.sealBytes.length = 256 ∧ parseImageId arts.imageIdHex = .ok imageId ∧
      testVerifyPredicateData sha256 arts.sealBytes (sha256 arts.journal.toList) index
        nullifier = .ok verify ∧
      ixs = [
        ⟨.consumer, (discriminator sha256 "initialize".toList).toList, payer, .registry⟩,
        ⟨.coordinator, (discriminator sha256 "initialize".toList).toList ++ imageId.toList, payer,
          .registry⟩,
        ⟨.coordinator, storeJournalData sha256 arts.journal, payer, .registry⟩,
        ⟨.coordinator, verify, payer, .registry⟩] := by
  rw [integrationTest] at h
  split at h
  · rename_i hlen
    obtain ⟨imageId, himage, h⟩ := bind_eq_ok.mp h
    obtain ⟨verify, hverify, h⟩ := bind_eq_ok.mp h
    exact ⟨imageId, verify, hlen, himage, hverify, (Except.ok.inj h).symm⟩
  · cases h

/-! ## What the handlers get -/

/-- **The four instructions are a submission**: each reaches its handler, with what the test
means by it. -/
theorem tx_integrationTest (hanchor : anchor.Lawful sha256) {arts : Artifacts} {index : UInt8}
    {nullifier imageId : Bytes32} {payer : Pubkey} {proofSeal : Seal}
    {ixs : List RawInstruction} (hlen : arts.journal.len ≤ maxJournalLen)
    (himage : parseImageId arts.imageIdHex = .ok imageId)
    (hseal : writeSeal arts.sealBytes = .ok (sealCodec.write proofSeal))
    (h : integrationTest sha256 arts index nullifier payer = .ok ixs) :
    ixs.map anchor.tx = (submission payer imageId arts.journal
      ⟨proofSeal, sha256 arts.journal.toList, index, nullifier, .registry, payer⟩).map
        some := by
  obtain ⟨imageId', verify, -, himage', hverify, rfl⟩ := integrationTest_eq_ok h
  obtain rfl := Except.ok.inj (himage.symm.trans himage')
  let args : VerifyPredicateData := ⟨proofSeal, sha256 arts.journal.toList, index, nullifier⟩
  have hdata : verify = (discriminator sha256 "verify_predicate".toList).toList ++
      verifyPredicateCodec.write args := by
    rw [testVerifyPredicateData, hseal] at hverify
    exact (Except.ok.inj hverify).symm
  have hshort : arts.journal.len < 2 ^ 32 := by
    have hmax : maxJournalLen = 2048 := rfl
    omega
  have hconsumer : anchor.tx ⟨.consumer, (discriminator sha256 "initialize".toList).toList,
      payer, .registry⟩ = some (.initializeConsumer payer) := by
    rw [Anchor.tx, hanchor.initialize_consumer]
    rfl
  have hcoordinator : anchor.tx ⟨.coordinator,
      (discriminator sha256 "initialize".toList).toList ++ imageId.toList, payer, .registry⟩ =
        some (.initializeCoordinator payer imageId) := by
    have hcall := hanchor.initialize_coordinator imageId []
    rw [List.append_nil] at hcall
    rw [Anchor.tx, hcall]
    rfl
  have hstore : anchor.tx ⟨.coordinator, storeJournalData sha256 arts.journal, payer,
      .registry⟩ = some (.storeJournal arts.journal) := by
    rw [Anchor.tx, storeJournalData, hanchor.store_journal _ hshort]
    rfl
  have hlast : anchor.tx ⟨.coordinator, verify, payer, .registry⟩ =
      some (.verifyPredicate (args.toArgs payer .registry)) := by
    rw [Anchor.tx, hdata, hanchor.verify_predicate]
    rfl
  simp only [List.map_cons, List.map_nil, hconsumer, hcoordinator, hstore, hlast, submission]
  rfl

/-! ## The test -/

/-- The test does not panic on a seal of 256 bytes and an image id that parses. -/
theorem exists_integrationTest {arts : Artifacts} {imageId : Bytes32}
    (hseal : arts.sealBytes.length = 256)
    (himage : parseImageId arts.imageIdHex = .ok imageId) (index : UInt8)
    (nullifier payer : Bytes32) :
    ∃ proofSeal ixs, writeSeal arts.sealBytes = .ok (sealCodec.write proofSeal) ∧
      integrationTest sha256 arts index nullifier payer = .ok ixs := by
  obtain ⟨proofSeal, hwrite, -⟩ := writeSeal_of_length hseal
  have hrun : ∃ ixs, integrationTest sha256 arts index nullifier payer = .ok ixs := by
    rw [integrationTest, if_pos hseal, himage, ok_bind]
    dsimp only
    rw [testVerifyPredicateData, hwrite]
    exact ⟨_, rfl⟩
  obtain ⟨ixs, hixs⟩ := hrun
  exact ⟨proofSeal, ixs, hwrite, hixs⟩

/-- The count the test reads is that of the registry. -/
theorem readCount_registryData (hanchor : anchor.Lawful sha256) (registry : Registry) :
    readCount (anchor.registryData registry) = registry.verifiedCount.toNat := by
  obtain ⟨disc, hdata⟩ := hanchor.registry
  have hwindow : window (anchor.registryData registry) 8 8 =
      toLe 8 registry.verifiedCount.toNat := by
    rw [hdata, window, List.drop_left' (by simp), List.take_left' (by simp)]
  rw [readCount, hwindow]
  exact ofLe_toLe_of_lt registry.verifiedCount.toNat_lt

/-- **The integration test passes for all files** that it reads.  The seal has 256 bytes,
the image id parses, the journal commits to the nullifier and the router accepts the proof,
with `pi_a` negated, for this image id: then the test writes four instructions, each
reaches its handler, the handlers succeed one after the other from the deployment on, and
the test reads a one from the registry. -/
theorem integrationTest_passes (env : Env) (hanchor : anchor.Lawful env.sha256)
    (arts : Artifacts) (index : UInt8) (nullifier imageId : Bytes32) (payer : Pubkey)
    (hlen : arts.journal.len ≤ maxJournalLen) (hseal : arts.sealBytes.length = 256)
    (himage : parseImageId arts.imageIdHex = .ok imageId)
    (hdecode : decodeNullifierFromJournal sbf arts.journal index = .ok nullifier)
    (haccepts : ∀ proofSeal, writeSeal arts.sealBytes = .ok (sealCodec.write proofSeal) →
      env.routerAccepts proofSeal imageId (env.sha256 arts.journal.toList) = true) :
    ∃ ixs txs s registry, integrationTest env.sha256 arts index nullifier payer = .ok ixs ∧
      ixs.map anchor.tx = txs.map some ∧ execAll env txs Ledger.deployed = .ok s ∧
      s.registry = some registry ∧ readCount (anchor.registryData registry) = 1 := by
  obtain ⟨proofSeal, ixs, hwrite, hrun⟩ := exists_integrationTest hseal himage index nullifier
    payer
  let args : VerifyArgs :=
    ⟨proofSeal, env.sha256 arts.journal.toList, index, nullifier, .registry, payer⟩
  have htxs := tx_integrationTest hanchor hlen himage hwrite hrun
  obtain ⟨s, registry, hs, hregistry, hcount⟩ : ∃ s registry,
      execAll env (submission payer imageId arts.journal args) Ledger.deployed = .ok s ∧
        s.registry = some registry ∧ registry.verifiedCount = 1 :=
    execAll_submission hlen rfl hdecode (haccepts proofSeal hwrite) rfl
  refine ⟨ixs, _, s, registry, hrun, htxs, hs, hregistry, ?_⟩
  rw [readCount_registryData hanchor, hcount]
  rfl

/-! ## A run of the test -/

/-- The files behind `oneEntryResponse`. -/
def oneEntryArtifacts : Artifacts where
  sealBytes := List.replicate 256 1
  journal := oneEntryJournal
  imageIdHex := List.replicate 64 '0'

/-- A digest as it is usually written, the first byte in front. -/
def digest (n : ℕ) : Bytes32 :=
  Vector.ofFn fun i => UInt8.ofNat (n / 256 ^ (31 - i.val))

/-- SHA-256 on the names of the handlers and of the registry, and on one journal. -/
def testSha256 (bytes : List UInt8) : Bytes32 :=
  if bytes = asBytes "global:initialize".toList then
    digest 0xafaf6d1f0d989bedd46a95073281adc21bb5e0e1d773b2fbbd7ab504cdd4aa30
  else if bytes = asBytes "global:store_journal".toList then
    digest 0xa979654a3936de3bf28a9a71ed720fb9ce3c22e1fe1da6fbff2d462f20d3494f
  else if bytes = asBytes "global:record_verification".toList then
    digest 0xb37f3263014e20be475591ae268c1400bae6b6686fd28bce7bd70e14ef26997f
  else if bytes = asBytes "account:Registry".toList then
    digest 0x2fae6ef6b8b6fcda54a93c94115c96fae81919585798881d4678b5a2b997ba53
  else sha256Table bytes

/-- A router that accepts the proofs of one journal and image id. -/
def testEnv : Env where
  sha256 := testSha256
  routerAccepts := fun _ imageId digest =>
    imageId = Vector.replicate 32 0 ∧ digest = testSha256 oneEntryJournal.toList

/-- The data names the handler. -/
def Names (name : Str) (data : List UInt8) : Prop :=
  data.take 8 = (discriminator testSha256 name).toList

instance decidableNames (name : Str) (data : List UInt8) : Decidable (Names name data) :=
  inferInstanceAs (Decidable (_ = _))

/-- A `Vec<u8>` behind its length. -/
def readJournal (data : List UInt8) : Option (Bytes .w64) :=
  let len := ofLe (window data 0 4)
  if h : 4 + len ≤ data.length ∧ (window data 4 len).length ≤ PtrWidth.w64.isizeMax then
    some ⟨window data 4 len, by rw [Nat.mul_one]; exact h.2⟩
  else none

/-- A dispatch of the coordinator by name. -/
def testCoordinatorCall (data : List UInt8) : Option CoordinatorCall :=
  if Names "initialize".toList data then
    (decodeInitialize testSha256 data).map .initializeConfig
  else if Names "store_journal".toList data then
    (readJournal (data.drop 8)).map .storeJournal
  else (decodeVerifyPredicate testSha256 data).map .verifyPredicate

/-- A dispatch of the consumer by name. -/
def testConsumerCall (data : List UInt8) : Option ConsumerCall :=
  if Names "initialize".toList data then some .initializeRegistry
  else (decodeInstruction testSha256 "record_verification".toList (Codec.vector UInt8 32)
    data).map .recordVerification

/-- What Anchor generates, as far as it documents it. -/
def testAnchor : Anchor where
  coordinatorCall := testCoordinatorCall
  consumerCall := testConsumerCall
  registryData := fun registry =>
    (window (testSha256 (asBytes "account:Registry".toList)).toList 0 8) ++
      (toLe 8 registry.verifiedCount.toNat ++ registry.authority.toList)

theorem names_iff {name name' : Str} {rest : List UInt8} :
    Names name ((discriminator testSha256 name').toList ++ rest) ↔
      discriminator testSha256 name' = discriminator testSha256 name := by
  have htake : ((discriminator testSha256 name').toList ++ rest).take 8 =
      (discriminator testSha256 name').toList := List.take_left' (by simp)
  rw [Names, htake]
  exact Vector.toList_inj

theorem readJournal_append {journal : Bytes .w64} (h : journal.len < 2 ^ 32) :
    readJournal (toLe 4 journal.len ++ journal.toList) = some journal := by
  have hlen : ofLe (window (toLe 4 journal.len ++ journal.toList) 0 4) = journal.len := by
    rw [window, List.drop_zero, List.take_left' (length_toLe 4 _)]
    exact ofLe_toLe_of_lt h
  have hbytes : window (toLe 4 journal.len ++ journal.toList) 4 journal.len =
      journal.toList := by
    rw [window, List.drop_left' (length_toLe 4 _)]
    exact List.take_length
  have hmax := journal.len_le
  simp only [readJournal, hlen, hbytes, List.length_append, length_toLe]
  rw [dif_pos ⟨le_rfl, hmax⟩]

/-- It does what Anchor documents. -/
theorem lawful_testAnchor : testAnchor.Lawful testSha256 := by
  have hstore : discriminator testSha256 "store_journal".toList ≠
      discriminator testSha256 "initialize".toList := by decide +kernel
  have hverify : discriminator testSha256 "verify_predicate".toList ≠
      discriminator testSha256 "initialize".toList := by decide +kernel
  have hverify' : discriminator testSha256 "verify_predicate".toList ≠
      discriminator testSha256 "store_journal".toList := by decide +kernel
  have hrecord : discriminator testSha256 "record_verification".toList ≠
      discriminator testSha256 "initialize".toList := by decide +kernel
  have hdecode : ∀ {α : Type} (name : Str) (codec : Codec UInt8 α) (x : α),
      decodeInstruction testSha256 name codec
        ((discriminator testSha256 name).toList ++ codec.write x) = some x := by
    intro α name codec x
    have h : decodeInstruction testSha256 name codec
        ((discriminator testSha256 name).toList ++ (codec.write x ++ [])) = some x :=
      decodeInstruction_write name codec x []
    rwa [List.append_nil] at h
  have hcoordinator : testAnchor.coordinatorCall = testCoordinatorCall := rfl
  have hconsumer : testAnchor.consumerCall = testConsumerCall := rfl
  constructor
  · intro imageId rest
    rw [hcoordinator, testCoordinatorCall, if_pos (names_iff.mpr rfl)]
    exact congrArg (Option.map _)
      (decodeInstruction_write "initialize".toList (Codec.vector UInt8 32) imageId rest)
  · intro journal hlen
    have hdrop : ((discriminator testSha256 "store_journal".toList).toList ++
        (toLe 4 journal.len ++ journal.toList)).drop 8 =
          toLe 4 journal.len ++ journal.toList := List.drop_left' (by simp)
    rw [hcoordinator, testCoordinatorCall, if_neg (fun h => hstore (names_iff.mp h)),
      if_pos (names_iff.mpr rfl), hdrop, readJournal_append hlen]
    rfl
  · intro args
    rw [hcoordinator, testCoordinatorCall, if_neg (fun h => hverify (names_iff.mp h)),
      if_neg (fun h => hverify' (names_iff.mp h))]
    exact congrArg (Option.map _) (hdecode _ verifyPredicateCodec args)
  · intro rest hrest
    have hshort : decodeVerifyPredicate testSha256
        ((discriminator testSha256 "verify_predicate".toList).toList ++ rest) = none := by
      refine decodeInstruction_eq_none hasWidth_verifyPredicateCodec _ ?_
      rw [List.length_append, Vector.length_toList]
      omega
    rw [hcoordinator, testCoordinatorCall, if_neg (fun h => hverify (names_iff.mp h)),
      if_neg (fun h => hverify' (names_iff.mp h)), hshort]
    rfl
  · have hnames : Names "initialize".toList
        ((discriminator testSha256 "initialize".toList).toList ++ []) := names_iff.mpr rfl
    rw [List.append_nil] at hnames
    rw [hconsumer, testConsumerCall, if_pos hnames]
  · intro nullifier
    rw [hconsumer, testConsumerCall, if_neg (fun h => hrecord (names_iff.mp h))]
    exact congrArg (Option.map _) (hdecode _ (Codec.vector UInt8 32) nullifier)
  · have hlen : (window (testSha256 (asBytes "account:Registry".toList)).toList 0 8).length =
        8 := by simp [window]
    exact ⟨⟨⟨_⟩, hlen⟩, fun registry => rfl⟩

theorem integrationTest_passes_oneEntry :
    ∃ ixs txs s registry, integrationTest testSha256 oneEntryArtifacts 0 (Vector.replicate 32 6)
        (Vector.replicate 32 9) = .ok ixs ∧
      ixs.map testAnchor.tx = txs.map some ∧ execAll testEnv txs Ledger.deployed = .ok s ∧
      s.registry = some registry ∧ readCount (testAnchor.registryData registry) = 1 := by
  have hlen : oneEntryArtifacts.journal.len ≤ maxJournalLen := by decide +kernel
  have himage : parseImageId oneEntryArtifacts.imageIdHex = .ok (Vector.replicate 32 0) := by
    decide +kernel
  have haccepts : ∀ proofSeal, writeSeal oneEntryArtifacts.sealBytes =
      .ok (sealCodec.write proofSeal) → testEnv.routerAccepts proofSeal (Vector.replicate 32 0)
        (testEnv.sha256 oneEntryArtifacts.journal.toList) = true := by
    intro proofSeal _
    simp only [testEnv, oneEntryArtifacts, and_self, decide_true]
  exact integrationTest_passes testEnv lawful_testAnchor oneEntryArtifacts 0
    (Vector.replicate 32 6) (Vector.replicate 32 0) (Vector.replicate 32 9) hlen
    List.length_replicate himage decode_oneEntryJournal haccepts

end Client
end Tuniq
