import Tuniq.Coordinator.InstructionData

/-!
# What Anchor generates

The handlers are in the source of the two programs.  What stands between them and the
chain, Anchor generates: the dispatch, which finds the handler an instruction names and
reads its arguments, and the bytes of an account.  None of that is in the source, so it is
taken as it comes (`Anchor`), and what is relied on is what Anchor documents of it
(`Anchor.Lawful`): the discriminator of a handler with its arguments behind it in Borsh
reaches this handler with these arguments, whatever comes behind them; with fewer bytes
behind it than the arguments take, it reaches none; and an account is eight bytes of
discriminator and its fields in Borsh, in the order of their declaration.

Nothing is said of other data.  A generated dispatch knows instructions that the source
does not have.
-/

namespace Tuniq
namespace Coordinator

/-- The programs of this repository. -/
inductive Program where
  | coordinator
  | consumer
  deriving DecidableEq, Repr

/-- A handler of the coordinator, with its arguments. -/
inductive CoordinatorCall where
  | initializeConfig (imageId : Bytes32)
  | storeJournal (journal : Bytes .w64)
  | verifyPredicate (args : VerifyPredicateData)

/-- A handler of the consumer, with its arguments. -/
inductive ConsumerCall where
  | initializeRegistry
  | recordVerification (nullifier : Bytes32)

/-- An instruction: the program, the data, who signs for it, and the consumer program among
the accounts. -/
structure RawInstruction where
  program : Program
  data : List UInt8
  signer : Pubkey
  consumer : ConsumerProgram

/-- The arguments of `verify_predicate`, with what its caller chooses among the accounts. -/
def VerifyPredicateData.toArgs (data : VerifyPredicateData) (caller : Pubkey)
    (consumer : ConsumerProgram) : VerifyArgs where
  proofSeal := data.proofSeal
  journalDigest := data.journalDigest
  nullifierIndex := data.nullifierIndex
  claimedNullifier := data.claimedNullifier
  consumer := consumer
  caller := caller

/-- What a call of the coordinator is to the ledger. -/
def CoordinatorCall.tx (signer : Pubkey) (consumer : ConsumerProgram) : CoordinatorCall → Tx
  | .initializeConfig imageId => .initializeCoordinator signer imageId
  | .storeJournal journal => .storeJournal journal
  | .verifyPredicate data => .verifyPredicate (data.toArgs signer consumer)

/-- What a call of the consumer is to the ledger. -/
def ConsumerCall.tx (signer : Pubkey) : ConsumerCall → Tx
  | .initializeRegistry => .initializeConsumer signer
  | .recordVerification nullifier => .recordVerification nullifier

/-- The code Anchor generates for the two programs, as far as it is used. -/
structure Anchor where
  /-- The handler of the coordinator that the data of an instruction reaches. -/
  coordinatorCall : List UInt8 → Option CoordinatorCall
  /-- The handler of the consumer that the data of an instruction reaches. -/
  consumerCall : List UInt8 → Option ConsumerCall
  /-- The bytes of the registry account. -/
  registryData : Registry → List UInt8

/-- What Anchor documents. -/
structure Anchor.Lawful (sha256 : List UInt8 → Bytes32) (anchor : Anchor) : Prop where
  initialize_coordinator : ∀ (imageId : Bytes32) (rest : List UInt8),
    anchor.coordinatorCall
        ((discriminator sha256 "initialize".toList).toList ++ (imageId.toList ++ rest)) =
      some (.initializeConfig imageId)
  store_journal : ∀ journal : Bytes .w64, journal.len < 2 ^ 32 →
    anchor.coordinatorCall ((discriminator sha256 "store_journal".toList).toList ++
        (toLe 4 journal.len ++ journal.toList)) =
      some (.storeJournal journal)
  verify_predicate : ∀ args : VerifyPredicateData,
    anchor.coordinatorCall ((discriminator sha256 "verify_predicate".toList).toList ++
        verifyPredicateCodec.write args) =
      some (.verifyPredicate args)
  verify_predicate_short : ∀ rest : List UInt8, rest.length < 325 →
    anchor.coordinatorCall
        ((discriminator sha256 "verify_predicate".toList).toList ++ rest) = none
  initialize_consumer :
    anchor.consumerCall (discriminator sha256 "initialize".toList).toList =
      some .initializeRegistry
  record_verification : ∀ nullifier : Bytes32,
    anchor.consumerCall
        ((discriminator sha256 "record_verification".toList).toList ++ nullifier.toList) =
      some (.recordVerification nullifier)
  registry : ∃ disc : Vector UInt8 8, ∀ registry : Registry,
    anchor.registryData registry = disc.toList ++
      (toLe 8 registry.verifiedCount.toNat ++ registry.authority.toList)

/-- What an instruction is to the ledger, if its data reaches a handler. -/
def Anchor.tx (anchor : Anchor) (ix : RawInstruction) : Option Tx :=
  match ix.program with
  | .coordinator => (anchor.coordinatorCall ix.data).map (CoordinatorCall.tx ix.signer ix.consumer)
  | .consumer => (anchor.consumerCall ix.data).map (ConsumerCall.tx ix.signer)

end Coordinator
end Tuniq
