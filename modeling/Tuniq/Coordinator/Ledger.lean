import Mathlib
import Tuniq.Coordinator.JournalDecode
import Tuniq.Library.Transactions

/-!
# The coordinator's ledger

The coordinator is a program with three instructions, `initialize`,
`store_journal` and `verify_predicate`, all of which anyone may call.  Its state is
spread over accounts at program-derived addresses: one `config`, a journal account
for each digest, a spent-nullifier account for each nullifier.  An address is
determined by its seeds and different seeds have different addresses, so the state
is a record (`Ledger`) with one field for each kind of account.  The registry of
the consumer program belongs to it, since `verify_predicate` ends with a call of
`record_verification`.

Anchor checks the accounts before the handler runs.  `init` fails exactly when the
account exists, and an account that is only used must exist.  Accounts that serve
the calls into other programs are not part of the state.

What comes from outside is in `Env`, the hash function and the proofs the Verifier
Router accepts, and in `ConsumerProgram`, what a consumer program other than this
repository's does when it is called.  Such a program has no say over the accounts of
the coordinator, which is on the stack of calls and cannot be called again; it can
call the consumer of this repository, as anyone can.

A transaction that fails changes nothing (`Tuniq.Library.Transactions`).
-/

namespace Tuniq

/-- `u64::saturating_add` -/
def saturatingAdd (a b : UInt64) : UInt64 :=
  if a.toNat + b.toNat < 2 ^ 64 then a + b else 0xFFFFFFFFFFFFFFFF

theorem toNat_saturatingAdd (a b : UInt64) :
    (saturatingAdd a b).toNat = min (a.toNat + b.toNat) (2 ^ 64 - 1) := by
  rw [saturatingAdd]
  split
  · rename_i h
    rw [UInt64.toNat_add, Nat.mod_eq_of_lt h]
    omega
  · rename_i h
    show 2 ^ 64 - 1 = _
    omega

namespace Coordinator

/-- The target of on-chain programs. -/
def sbf : Target := ⟨.w64, true⟩

/-- `Pubkey` -/
abbrev Pubkey := Bytes32

/-- `verifier_router::Seal` -/
structure Seal where
  selector : Vector UInt8 4
  piA : Vector UInt8 64
  piB : Vector UInt8 128
  piC : Vector UInt8 64
  deriving DecidableEq

/-! ## Errors -/

/-- The two failures of Anchor's account checks. -/
inductive AnchorError where
  | accountAlreadyInUse
  | accountNotInitialized
  deriving DecidableEq, Repr

/-- `CoordinatorError` -/
inductive CoordinatorError where
  | journalTooLarge
  | journalDigestMismatch
  | nullifierMismatch
  deriving DecidableEq, Repr

/-- Why a transaction fails. -/
inductive TxError where
  | anchor (e : AnchorError)
  | coordinator (e : CoordinatorError)
  | journalDecode (e : JournalDecodeError)
  /-- The Verifier Router rejects the proof. -/
  | router
  /-- A foreign consumer program fails. -/
  | consumer
  | fault (f : Fault)
  deriving DecidableEq, Repr

/-! ## Accounts -/

/-- `Config` -/
structure Config where
  imageId : Bytes32
  authority : Pubkey
  verifiedCount : UInt64
  deriving DecidableEq

/-- `Registry` of the consumer program. -/
structure Registry where
  verifiedCount : UInt64
  authority : Pubkey
  deriving DecidableEq

/-- The events of successful transactions. -/
inductive Event where
  /-- `PredicateVerified` of the coordinator. -/
  | predicateVerified (by_ : Pubkey) (nullifier : Bytes32)
  /-- `VerificationRecorded` of the consumer. -/
  | verificationRecorded (nullifier : Bytes32) (count : UInt64)
  deriving DecidableEq

/-- The accounts of the coordinator and the consumer's registry.  A spent nullifier
has an account without data, so what counts is which there are. -/
structure Ledger where
  config : Option Config
  /-- The data of the journal account at a digest. -/
  journals : Bytes32 → Option (Bytes .w64)
  spent : Finset Bytes32
  registry : Option Registry
  events : List Event

/-- No account exists yet. -/
def Ledger.deployed : Ledger where
  config := none
  journals := fun _ => none
  spent := ∅
  registry := none
  events := []

/-- What the coordinator takes from outside. -/
structure Env where
  /-- `hash(bytes).to_bytes()` -/
  sha256 : List UInt8 → Bytes32
  /-- The proofs `verifier_router::cpi::verify` accepts: a seal for an image id and a
  journal digest. -/
  routerAccepts : Seal → Bytes32 → Bytes32 → Bool

/-! ## Checks -/

/-- `#[account(init, …)]` -/
def initAccount {α : Type} : Option α → Except TxError Unit
  | none => .ok ()
  | some _ => .error (.anchor .accountAlreadyInUse)

/-- `Account<'info, T>` -/
def loadAccount {α : Type} : Option α → Except TxError α
  | some a => .ok a
  | none => .error (.anchor .accountNotInitialized)

/-- `require!(cond, err)` -/
def ensure (cond : Bool) (e : TxError) : Except TxError Unit :=
  if cond then .ok () else .error e

/-- `?` on the result of the decoder. -/
def liftDecode {α : Type} : Except (Stop JournalDecodeError) α → Except TxError α
  | .ok a => .ok a
  | .error (.err e) => .error (.journalDecode e)
  | .error (.fault f) => .error (.fault f)

/-! ## The consumer -/

/-- `initialize` of the consumer. -/
def initializeConsumer (authority : Pubkey) (s : Ledger) : Except TxError Ledger := do
  initAccount s.registry
  return { s with registry := some { verifiedCount := 0, authority := authority } }

/-- `record_verification` -/
def recordVerification (nullifier : Bytes32) (s : Ledger) : Except TxError Ledger := do
  let registry ← loadAccount s.registry
  let count := saturatingAdd registry.verifiedCount 1
  return { s with
    registry := some { registry with verifiedCount := count }
    events := s.events ++ [.verificationRecorded nullifier count] }

/-- Calls of `record_verification`, one after the other. -/
def recordAll (nullifiers : List Bytes32) (s : Ledger) : Except TxError Ledger :=
  nullifiers.foldlM (fun s nullifier => recordVerification nullifier s) s

/-- The consumer program a caller names. -/
inductive ConsumerProgram where
  /-- The consumer of this repository, with its registry. -/
  | registry
  /-- Another program, which accepts or fails.  The caller's signature comes with the
  call, so it may call `record_verification` of this repository's consumer itself. -/
  | other (accepts : Bool) (forwards : List Bytes32)
  deriving DecidableEq

/-- `consumer::cpi::record_verification` -/
def ConsumerProgram.recordVerification (consumer : ConsumerProgram) (nullifier : Bytes32)
    (s : Ledger) : Except TxError Ledger :=
  match consumer with
  | .registry => Coordinator.recordVerification nullifier s
  | .other accepts forwards => do
    let s ← recordAll forwards s
    ensure accepts .consumer
    return s

/-! ## The coordinator -/

/-- `initialize` of the coordinator. -/
def initializeCoordinator (authority : Pubkey) (imageId : Bytes32) (s : Ledger) :
    Except TxError Ledger := do
  initAccount s.config
  return { s with
    config := some { imageId := imageId, authority := authority, verifiedCount := 0 } }

/-- `MAX_JOURNAL_LEN` -/
def maxJournalLen : ℕ := 2048

/-- `store_journal` -/
def storeJournal (env : Env) (journal : Bytes .w64) (s : Ledger) : Except TxError Ledger := do
  let digest := env.sha256 journal.toList
  initAccount (s.journals digest)
  ensure (journal.len ≤ maxJournalLen) (.coordinator .journalTooLarge)
  return { s with journals := Function.update s.journals digest (some journal) }

/-- The arguments and accounts of `verify_predicate` its caller chooses. -/
structure VerifyArgs where
  proofSeal : Seal
  journalDigest : Bytes32
  nullifierIndex : UInt8
  claimedNullifier : Bytes32
  consumer : ConsumerProgram
  caller : Pubkey
  deriving DecidableEq

/-- The account of a spent nullifier. -/
def Ledger.spentNullifier (s : Ledger) (nullifier : Bytes32) : Option Unit :=
  if nullifier ∈ s.spent then some () else none

/-- `verify_predicate` -/
def verifyPredicate (env : Env) (args : VerifyArgs) (s : Ledger) : Except TxError Ledger := do
  -- the accounts; the replay guard is seeded by the nullifier the caller claims
  let config ← loadAccount s.config
  let journal ← loadAccount (s.journals args.journalDigest)
  initAccount (s.spentNullifier args.claimedNullifier)
  let s := { s with spent := insert args.claimedNullifier s.spent }
  -- the handler
  let computedDigest := env.sha256 journal.toList
  ensure (computedDigest = args.journalDigest) (.coordinator .journalDigestMismatch)
  let nullifier ← liftDecode (decodeNullifierFromJournal sbf journal args.nullifierIndex)
  ensure (nullifier = args.claimedNullifier) (.coordinator .nullifierMismatch)
  ensure (env.routerAccepts args.proofSeal config.imageId args.journalDigest) .router
  let s := { s with
    config := some { config with verifiedCount := saturatingAdd config.verifiedCount 1 } }
  let s ← args.consumer.recordVerification nullifier s
  return { s with events := s.events ++ [.predicateVerified args.caller nullifier] }

/-! ## Transactions -/

/-- The instructions of the two programs, with what their callers choose. -/
inductive Tx where
  | initializeCoordinator (authority : Pubkey) (imageId : Bytes32)
  | storeJournal (journal : Bytes .w64)
  | verifyPredicate (args : VerifyArgs)
  | initializeConsumer (authority : Pubkey)
  | recordVerification (nullifier : Bytes32)

/-- What a transaction does. -/
def exec (env : Env) : Tx → Ledger → Except TxError Ledger
  | .initializeCoordinator authority imageId => initializeCoordinator authority imageId
  | .storeJournal journal => storeJournal env journal
  | .verifyPredicate args => verifyPredicate env args
  | .initializeConsumer authority => initializeConsumer authority
  | .recordVerification nullifier => recordVerification nullifier

end Coordinator
end Tuniq
