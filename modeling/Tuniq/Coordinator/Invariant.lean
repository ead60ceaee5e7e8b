import Tuniq.Coordinator.LedgerRules

/-!
# What holds of the ledger in every run

The seed of a spent-nullifier account is chosen by the caller before the handler
runs, so nothing about the account itself says that its nullifier comes from a
proof.  The link is re-established by the handler and has to survive whatever
happens later: journals are stored by anyone, and the config is written by
`initialize` and by every verification.

`Consistent` ties the ledger to the transactions accepted so far.  Each transaction
keeps it (`consistent_exec`), so it holds in every reachable ledger
(`consistent_runAll`), and the statement about spent nullifiers
(`spent_nullifiers_backed`) is read off it.
-/

namespace Tuniq
namespace Coordinator

variable {env : Env} {s s' : Ledger}

/-! ## The history -/

/-- The nullifier a `verify_predicate` claims. -/
def Tx.claimed : Tx → Option Bytes32
  | .verifyPredicate args => some args.claimedNullifier
  | _ => none

/-- The image id an `initialize` sets. -/
def Tx.imageId : Tx → Option Bytes32
  | .initializeCoordinator _ imageId => some imageId
  | _ => none

/-- The nullifiers of the `verify_predicate` transactions of a history, in order. -/
def claimedNullifiers (history : List Tx) : List Bytes32 := history.filterMap Tx.claimed

/-- The image ids of its `initialize` transactions. -/
def imageIds (history : List Tx) : List Bytes32 := history.filterMap Tx.imageId

theorem claimedNullifiers_snoc (history : List Tx) (tx : Tx) :
    claimedNullifiers (history ++ [tx]) = claimedNullifiers history ++ tx.claimed.toList := by
  rw [claimedNullifiers, List.filterMap_append, ← claimedNullifiers]
  cases h : tx.claimed <;> simp [h]

theorem imageIds_snoc (history : List Tx) (tx : Tx) :
    imageIds (history ++ [tx]) = imageIds history ++ tx.imageId.toList := by
  rw [imageIds, List.filterMap_append, ← imageIds]
  cases h : tx.imageId <;> simp [h]

/-! ## The invariant -/

/-- A nullifier that a proof stands behind: a stored journal with that digest commits
to it, and the router accepts a seal for the journal and the image id in force. -/
def Backed (env : Env) (s : Ledger) (nullifier : Bytes32) : Prop :=
  ∃ config digest journal index proofSeal, s.config = some config ∧
    s.journals digest = some journal ∧ env.sha256 journal.toList = digest ∧
    decodeNullifierFromJournal sbf journal index = .ok nullifier ∧
    env.routerAccepts proofSeal config.imageId digest = true

theorem Backed.extends {n : Bytes32} (h : Backed env s n) (hext : Extends s s') :
    Backed env s' n := by
  obtain ⟨config, digest, journal, index, proofSeal, hconfig, hjournal, hsha, hdecode, haccepts⟩ :=
    h
  obtain ⟨config', hconfig', himage⟩ := hext.config config hconfig
  refine ⟨config', digest, journal, index, proofSeal, hconfig', hext.journals _ _ hjournal, hsha,
    hdecode, ?_⟩
  rwa [himage]

/-- **The invariant**: the ledger and the transactions accepted on the way to it. -/
structure Consistent (env : Env) (s : Ledger) (history : List Tx) : Prop where
  digests : ∀ d journal, s.journals d = some journal → env.sha256 journal.toList = d
  images : imageIds history = (s.config.map Config.imageId).toList
  spent : s.spent = (claimedNullifiers history).toFinset
  once : (claimedNullifiers history).Nodup
  backed : ∀ n ∈ s.spent, Backed env s n
  count : ∀ config, s.config = some config →
    config.verifiedCount.toNat = min s.spent.card (2 ^ 64 - 1)

theorem consistent_deployed (env : Env) : Consistent env Ledger.deployed [] where
  digests := fun _ _ h => absurd h (by simp [Ledger.deployed])
  images := rfl
  spent := rfl
  once := List.nodup_nil
  backed := fun _ h => absurd h (Finset.notMem_empty _)
  count := fun _ h => absurd h (by simp [Ledger.deployed])

/-- Before `initialize` nothing is spent. -/
theorem Consistent.spent_eq_empty {history : List Tx} (h : Consistent env s history)
    (hnone : s.config = none) : s.spent = ∅ := by
  apply Finset.eq_empty_of_forall_notMem
  intro n hn
  obtain ⟨config, -, -, -, -, hconfig, -⟩ := h.backed n hn
  rw [hnone] at hconfig
  exact absurd hconfig (by simp)

/-- A transaction that leaves the coordinator's accounts alone keeps the invariant. -/
theorem Consistent.of_frame {history : List Tx} {tx : Tx} (h : Consistent env s history)
    (hext : Extends s s') (hconfig : s'.config = s.config) (hjournals : s'.journals = s.journals)
    (hspent : s'.spent = s.spent) (hclaimed : tx.claimed = none) (himage : tx.imageId = none) :
    Consistent env s' (history ++ [tx]) where
  digests := by
    rw [hjournals]
    exact h.digests
  images := by
    rw [imageIds_snoc, himage, hconfig, h.images]
    exact List.append_nil _
  spent := by
    rw [claimedNullifiers_snoc, hclaimed, hspent, h.spent]
    exact congrArg List.toFinset (List.append_nil _).symm
  once := by
    rw [claimedNullifiers_snoc, hclaimed]
    exact (List.append_nil (claimedNullifiers history)).symm ▸ h.once
  backed := by
    rw [hspent]
    exact fun n hn => (h.backed n hn).extends hext
  count := by
    rw [hconfig, hspent]
    exact h.count

/-- `initialize` keeps the invariant: nothing was spent before it. -/
theorem consistent_initializeCoordinator {history : List Tx} {authority : Pubkey}
    {imageId : Bytes32} (h : Consistent env s history)
    (hok : initializeCoordinator authority imageId s = .ok s') :
    Consistent env s' (history ++ [.initializeCoordinator authority imageId]) := by
  have hext : Extends s s' := extends_exec env (.initializeCoordinator authority imageId) hok
  obtain ⟨hnone, rfl⟩ := initializeCoordinator_eq_ok.mp hok
  have hempty := h.spent_eq_empty hnone
  have hclaimed : claimedNullifiers (history ++ [.initializeCoordinator authority imageId]) =
      claimedNullifiers history := by
    rw [claimedNullifiers_snoc]
    exact List.append_nil _
  refine ⟨h.digests, ?_, ?_, ?_, fun n hn => (h.backed n hn).extends hext, ?_⟩
  · rw [imageIds_snoc, h.images, hnone]
    rfl
  · rw [hclaimed]
    exact h.spent
  · rw [hclaimed]
    exact h.once
  · rintro config hconfig
    obtain rfl := Option.some.inj hconfig
    show 0 = min s.spent.card _
    rw [hempty, Finset.card_empty, Nat.zero_min]

/-- `store_journal` keeps the invariant: the account is named by the hash of what is
stored. -/
theorem consistent_storeJournal {history : List Tx} {journal : Bytes .w64}
    (h : Consistent env s history) (hok : storeJournal env journal s = .ok s') :
    Consistent env s' (history ++ [.storeJournal journal]) := by
  have hext : Extends s s' := extends_exec env (.storeJournal journal) hok
  obtain ⟨-, -, rfl⟩ := storeJournal_eq_ok.mp hok
  have hclaimed : claimedNullifiers (history ++ [.storeJournal journal]) =
      claimedNullifiers history := by
    rw [claimedNullifiers_snoc]
    exact List.append_nil _
  refine ⟨fun d j hj => ?_, ?_, ?_, ?_, fun n hn => (h.backed n hn).extends hext, h.count⟩
  · dsimp only at hj
    by_cases hd : d = env.sha256 journal.toList
    · rw [hd, Function.update_self] at hj
      rw [hd, Option.some.inj hj]
    · rw [Function.update_of_ne hd] at hj
      exact h.digests d j hj
  · rw [imageIds_snoc, h.images]
    exact List.append_nil _
  · rw [hclaimed]
    exact h.spent
  · rw [hclaimed]
    exact h.once

/-- `verify_predicate` keeps the invariant: the nullifier it spends is new and backed
by the proof it has just checked. -/
theorem consistent_verifyPredicate {history : List Tx} {args : VerifyArgs}
    (h : Consistent env s history) (hok : verifyPredicate env args s = .ok s') :
    Consistent env s' (history ++ [.verifyPredicate args]) := by
  have hext : Extends s s' := extends_exec env (.verifyPredicate args) hok
  obtain ⟨config, journal, registry, events, hauth, hfresh, rfl⟩ := verifyPredicate_cases hok
  have hclaimed : claimedNullifiers (history ++ [.verifyPredicate args]) =
      claimedNullifiers history ++ [args.claimedNullifier] := by
    rw [claimedNullifiers_snoc]
    rfl
  have hnew : args.claimedNullifier ∉ claimedNullifiers history := by
    intro hmem
    rw [h.spent] at hfresh
    exact hfresh (List.mem_toFinset.mpr hmem)
  refine ⟨h.digests, ?_, ?_, ?_, fun n hn => ?_, ?_⟩
  · rw [imageIds_snoc, h.images, hauth.config_eq]
    rfl
  · rw [hclaimed]
    show insert args.claimedNullifier s.spent = _
    rw [h.spent, List.toFinset_append, Finset.union_comm]
    rfl
  · rw [hclaimed]
    refine List.Nodup.append h.once (List.nodup_singleton _) ?_
    intro n hn hn'
    rw [List.mem_singleton] at hn'
    exact hnew (hn' ▸ hn)
  · rcases Finset.mem_insert.mp hn with rfl | hold
    · exact ⟨_, args.journalDigest, journal, args.nullifierIndex, args.proofSeal, rfl,
        hauth.journal_eq, hauth.digest, hauth.decodes, hauth.accepts⟩
    · exact (h.backed n hold).extends hext
  · rintro config' hconfig'
    obtain rfl := Option.some.inj hconfig'
    show (saturatingAdd config.verifiedCount 1).toNat =
      min (insert args.claimedNullifier s.spent).card _
    rw [toNat_saturatingAdd, h.count config hauth.config_eq,
      Finset.card_insert_of_notMem hfresh]
    show min (min s.spent.card (2 ^ 64 - 1) + 1) (2 ^ 64 - 1) = _
    omega

/-- **Each transaction keeps the invariant.** -/
theorem consistent_exec {history : List Tx} {tx : Tx} (h : Consistent env s history)
    (hok : exec env tx s = .ok s') : Consistent env s' (history ++ [tx]) := by
  cases tx with
  | initializeCoordinator authority imageId => exact consistent_initializeCoordinator h hok
  | storeJournal journal => exact consistent_storeJournal h hok
  | verifyPredicate args => exact consistent_verifyPredicate h hok
  | initializeConsumer authority =>
    have hext : Extends s s' := extends_exec env (.initializeConsumer authority) hok
    obtain ⟨-, rfl⟩ := initializeConsumer_eq_ok.mp hok
    exact h.of_frame hext rfl rfl rfl rfl rfl
  | recordVerification nullifier =>
    have hext : Extends s s' := extends_exec env (.recordVerification nullifier) hok
    obtain ⟨registry, -, rfl⟩ := recordVerification_eq_ok.mp hok
    exact h.of_frame hext rfl rfl rfl rfl rfl

/-- The invariant holds in every run. -/
theorem consistent_runAll (env : Env) (txs : List Tx) :
    Consistent env (runAll (exec env) Ledger.deployed txs)
      (accepted (exec env) Ledger.deployed txs) :=
  history_invariant (fun _ _ _ _ => consistent_exec) [] (consistent_deployed env) txs

/-! ## The digest check -/

theorem loadAccount_ne {α : Type} (a : Option α) (e : CoordinatorError) :
    loadAccount a ≠ .error (.coordinator e) := by
  cases a <;> simp [loadAccount]

theorem initAccount_ne {α : Type} (a : Option α) (e : CoordinatorError) :
    initAccount a ≠ .error (.coordinator e) := by
  cases a <;> simp [initAccount]

theorem liftDecode_ne {α : Type} (x : Except (Stop JournalDecodeError) α)
    (e : CoordinatorError) : liftDecode x ≠ .error (.coordinator e) := by
  rcases x with (_ | _) | _ <;> simp [liftDecode]

theorem ensure_eq_error {cond : Bool} {e e' : TxError} :
    ensure cond e = .error e' ↔ cond = false ∧ e = e' := by
  cases cond <;> simp [ensure]

theorem recordVerification_ne (consumer : ConsumerProgram) (n : Bytes32) (s : Ledger)
    (e : CoordinatorError) : consumer.recordVerification n s ≠ .error (.coordinator e) := by
  have hrecord : ∀ n s, recordVerification n s ≠ .error (.coordinator e) := by
    intro n s
    cases h : s.registry <;> simp [recordVerification, h, loadAccount]
  have hall : ∀ ns s, recordAll ns s ≠ .error (.coordinator e) := by
    intro ns
    induction ns with
    | nil => exact fun s => by simp [recordAll, pure, Except.pure]
    | cons n ns ih =>
      intro s h
      rw [recordAll, List.foldlM_cons, bind_eq_error] at h
      rcases h with h | ⟨s₁, -, h⟩
      · exact hrecord n s h
      · exact ih s₁ h
  cases consumer with
  | registry => exact hrecord n s
  | other accepts forwards =>
    intro h
    simp only [ConsumerProgram.recordVerification, bind_eq_error, hall, ensure_eq_error,
      false_or] at h
    obtain ⟨s₁, -, ⟨-, h⟩ | ⟨-, -, h⟩⟩ := h
    · exact absurd h (by simp)
    · exact absurd h (by simp [pure, Except.pure])

/-- Where journals are stored under their own hash, the hash check never fails. -/
theorem verifyPredicate_ne_journalDigestMismatch
    (hdigests : ∀ d journal, s.journals d = some journal → env.sha256 journal.toList = d)
    (args : VerifyArgs) :
    verifyPredicate env args s ≠ .error (.coordinator .journalDigestMismatch) := by
  intro h
  simp only [verifyPredicate, bind_eq_error, loadAccount_ne, initAccount_ne, liftDecode_ne,
    recordVerification_ne, ensure_eq_error, loadAccount_eq_ok, false_or] at h
  obtain ⟨config, -, journal, hjournal, -, -, h⟩ := h
  rcases h with ⟨hne, -⟩ | ⟨-, -, n, -, ⟨-, h⟩ | ⟨-, -, ⟨-, h⟩ | ⟨-, -, s₁, -, h⟩⟩⟩
  · exact of_decide_eq_false hne (hdigests _ _ hjournal)
  · exact absurd h (by simp)
  · exact absurd h (by simp)
  · exact absurd h (by simp [pure, Except.pure])

/-! ## Spent nullifiers -/

/-- **Every spent nullifier is backed by a proof, and spent once.**  In every ledger
that transactions of any outcome lead to, from the deployment on: for each spent
nullifier there is a stored journal, named by its own digest, that commits to it, and
the router accepts a seal for that digest and the image id the one `initialize` set;
the spent nullifiers are those the accepted `verify_predicate` transactions claimed, no
two of which claimed the same; the counter counts them, up to the largest `u64`; and no
`verify_predicate` fails its digest check. -/
theorem spent_nullifiers_backed (env : Env) (txs : List Tx) :
    let s := runAll (exec env) Ledger.deployed txs
    let history := accepted (exec env) Ledger.deployed txs
    (∀ n ∈ s.spent, ∃ config digest journal index proofSeal, s.config = some config ∧
      imageIds history = [config.imageId] ∧ s.journals digest = some journal ∧
      env.sha256 journal.toList = digest ∧
      decodeNullifierFromJournal sbf journal index = .ok n ∧
      env.routerAccepts proofSeal config.imageId digest = true) ∧
    s.spent = (claimedNullifiers history).toFinset ∧ (claimedNullifiers history).Nodup ∧
    (∀ config, s.config = some config →
      config.verifiedCount.toNat = min s.spent.card (2 ^ 64 - 1)) ∧
    ∀ args, verifyPredicate env args s ≠ .error (.coordinator .journalDigestMismatch) := by
  intro s history
  have h : Consistent env s history := consistent_runAll env txs
  refine ⟨fun n hn => ?_, h.spent, h.once, h.count,
    verifyPredicate_ne_journalDigestMismatch h.digests⟩
  obtain ⟨config, digest, journal, index, proofSeal, hconfig, hrest⟩ := h.backed n hn
  refine ⟨config, digest, journal, index, proofSeal, hconfig, ?_, hrest⟩
  rw [h.images, hconfig]
  rfl

end Coordinator
end Tuniq
