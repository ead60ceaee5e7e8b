import Tuniq.Coordinator.Invariant
import Tuniq.Coordinator.Replay

/-!
# What the registry counts

Two programs keep a counter.  The coordinator's counts verified predicates; the
consumer's, in the registry, counts calls of `record_verification`.  The two are the
same number when the only way to the registry is through the coordinator, and nothing
sees to that: `record_verification` takes any signer, and `verify_predicate` calls
whatever consumer program its caller names.

So the registry is described by the calls that reach it.  `Tx.recordings` are the
nullifiers a successful transaction has recorded, and `Tallies` says how a list of
recordings changes the ledger; the recordings of a run are those of its accepted
transactions, one after the other (`tallies_runAll`).  With that,
`registry_tallies` compares the two counters: they agree in every run whose accepted
transactions reach the registry only through `verify_predicate`, each of which names
it, and `registry_without_proof` shows that either half of that may fail.
-/

namespace Tuniq
namespace Coordinator

variable {env : Env} {s u s' : Ledger}

/-! ## Recordings -/

/-- The nullifier of a `VerificationRecorded` event. -/
def Event.recorded : Event → Option Bytes32
  | .verificationRecorded nullifier _ => some nullifier
  | .predicateVerified _ _ => none

/-- The nullifiers that `record_verification` has recorded, in order. -/
def recordedNullifiers (events : List Event) : List Bytes32 := events.filterMap Event.recorded

/-- The counter of the registry, if there is one. -/
def Ledger.recordedCount (s : Ledger) : ℕ :=
  (s.registry.map fun registry => registry.verifiedCount.toNat).getD 0

/-- The nullifiers a `verify_predicate` has recorded, when it succeeds. -/
def VerifyArgs.recordings (args : VerifyArgs) : List Bytes32 :=
  match args.consumer with
  | .registry => [args.claimedNullifier]
  | .other _ forwards => forwards

/-- The nullifiers a transaction has recorded, when it succeeds. -/
def Tx.recordings : Tx → List Bytes32
  | .verifyPredicate args => args.recordings
  | .recordVerification nullifier => [nullifier]
  | _ => []

/-- The recordings of a history. -/
def recordings (history : List Tx) : List Bytes32 := history.flatMap Tx.recordings

theorem recordedNullifiers_append (events events' : List Event) :
    recordedNullifiers (events ++ events') =
      recordedNullifiers events ++ recordedNullifiers events' :=
  List.filterMap_append

theorem recordings_snoc (history : List Tx) (tx : Tx) :
    recordings (history ++ [tx]) = recordings history ++ tx.recordings := by
  rw [recordings, List.flatMap_append, ← recordings, List.flatMap_singleton]

theorem recordedCount_le (s : Ledger) : s.recordedCount ≤ 2 ^ 64 - 1 := by
  rw [Ledger.recordedCount]
  cases s.registry with
  | none => exact Nat.zero_le _
  | some registry =>
    have hlt := registry.verifiedCount.toNat_lt
    show registry.verifiedCount.toNat ≤ _
    omega

/-! ## How recordings change the ledger -/

/-- The ledger `s'` is `s` with some nullifiers recorded. -/
structure Tallies (s s' : Ledger) (nullifiers : List Bytes32) : Prop where
  recorded : recordedNullifiers s'.events = recordedNullifiers s.events ++ nullifiers
  count : s'.recordedCount = min (s.recordedCount + nullifiers.length) (2 ^ 64 - 1)

/-- Nothing recorded. -/
theorem Tallies.of_eq (hevents : recordedNullifiers s'.events = recordedNullifiers s.events)
    (hcount : s'.recordedCount = s.recordedCount) : Tallies s s' [] := by
  refine ⟨by rw [hevents, List.append_nil], ?_⟩
  rw [hcount, List.length_nil, Nat.add_zero, Nat.min_eq_left (recordedCount_le s)]

theorem Tallies.refl (s : Ledger) : Tallies s s [] := .of_eq rfl rfl

theorem Tallies.trans {nullifiers nullifiers' : List Bytes32} (h : Tallies s u nullifiers)
    (h' : Tallies u s' nullifiers') : Tallies s s' (nullifiers ++ nullifiers') := by
  refine ⟨by rw [h'.recorded, h.recorded, List.append_assoc], ?_⟩
  rw [h'.count, h.count, List.length_append]
  omega

/-- `record_verification` records its nullifier. -/
theorem tallies_recordVerification {nullifier : Bytes32}
    (h : recordVerification nullifier s = .ok s') : Tallies s s' [nullifier] := by
  obtain ⟨registry, hregistry, rfl⟩ := recordVerification_eq_ok.mp h
  refine ⟨recordedNullifiers_append _ _, ?_⟩
  show (saturatingAdd registry.verifiedCount 1).toNat = _
  rw [toNat_saturatingAdd, Ledger.recordedCount, hregistry]
  rfl

theorem tallies_recordAll {nullifiers : List Bytes32}
    (h : recordAll nullifiers s = .ok s') : Tallies s s' nullifiers := by
  induction nullifiers generalizing s with
  | nil =>
    obtain rfl := Except.ok.inj h
    exact .refl _
  | cons nullifier nullifiers ih =>
    obtain ⟨s₁, hs₁, hrest⟩ := recordAll_cons_eq_ok.mp h
    exact (tallies_recordVerification hs₁).trans (ih hrest)

/-- What `verify_predicate` records depends on the consumer its caller names. -/
theorem tallies_verifyPredicate {args : VerifyArgs} (h : verifyPredicate env args s = .ok s') :
    Tallies s s' args.recordings := by
  obtain ⟨config, journal, s₁, -, -, hconsumer, rfl⟩ := verifyPredicate_eq_ok.mp h
  have hcall : Tallies s s₁ args.recordings := by
    rw [VerifyArgs.recordings]
    cases hc : args.consumer with
    | registry =>
      rw [hc] at hconsumer
      obtain ⟨hrecorded, hcount⟩ := tallies_recordVerification hconsumer
      exact ⟨hrecorded, hcount⟩
    | other accepts forwards =>
      rw [hc] at hconsumer
      obtain ⟨hrecorded, hcount⟩ :=
        tallies_recordAll (recordVerification_other_eq_ok.mp hconsumer).2
      exact ⟨hrecorded, hcount⟩
  refine ⟨?_, hcall.count⟩
  rw [← hcall.recorded]
  exact (recordedNullifiers_append _ _).trans (List.append_nil _)

/-- **What each transaction records.** -/
theorem tallies_exec {tx : Tx} (h : exec env tx s = .ok s') : Tallies s s' tx.recordings := by
  cases tx with
  | initializeCoordinator authority imageId =>
    obtain ⟨-, rfl⟩ := initializeCoordinator_eq_ok.mp h
    exact .of_eq rfl rfl
  | storeJournal journal =>
    obtain ⟨-, -, rfl⟩ := storeJournal_eq_ok.mp h
    exact .of_eq rfl rfl
  | verifyPredicate args => exact tallies_verifyPredicate h
  | initializeConsumer authority =>
    -- a registry starts at what is counted without one
    obtain ⟨hnone, rfl⟩ := initializeConsumer_eq_ok.mp h
    refine .of_eq rfl ?_
    rw [Ledger.recordedCount, Ledger.recordedCount, hnone]
    rfl
  | recordVerification nullifier => exact tallies_recordVerification h

/-- **What a run records.** -/
theorem tallies_runAll (env : Env) (s : Ledger) (txs : List Tx) :
    Tallies s (runAll (exec env) s txs) (recordings (accepted (exec env) s txs)) := by
  exact history_invariant (I := fun s' history => Tallies s s' (recordings history))
    (fun _ history tx _ hs htx => recordings_snoc history tx ▸ hs.trans (tallies_exec htx))
    [] (Tallies.refl s) txs

/-! ## The two counters -/

/-- A transaction that reaches the registry, if at all, from the coordinator, and does
reach it if it consumes a proof. -/
def Tx.ThroughCoordinator : Tx → Prop
  | .recordVerification _ => False
  | .verifyPredicate args => args.consumer = .registry
  | _ => True

theorem Tx.ThroughCoordinator.recordings_eq {tx : Tx} (h : tx.ThroughCoordinator) :
    tx.recordings = tx.claimed.toList := by
  cases tx with
  | verifyPredicate args =>
    have hconsumer : args.consumer = .registry := h
    rw [Tx.recordings, VerifyArgs.recordings, hconsumer]
    rfl
  | recordVerification nullifier => exact absurd h id
  | initializeCoordinator | storeJournal | initializeConsumer => rfl

theorem recordings_eq_claimedNullifiers {history : List Tx}
    (h : ∀ tx ∈ history, tx.ThroughCoordinator) :
    recordings history = claimedNullifiers history := by
  rw [recordings, claimedNullifiers, List.filterMap_eq_flatMap_toList]
  exact List.flatMap_congr fun tx htx => (h tx htx).recordings_eq

/-- The transactions that set both programs up. -/
def setUp (authority : Pubkey) (imageId : Bytes32) (registryAuthority : Pubkey) : List Tx :=
  [.initializeCoordinator authority imageId, .initializeConsumer registryAuthority]

/-- Once set up, both programs keep their accounts. -/
theorem exists_accounts (env : Env) (authority : Pubkey) (imageId : Bytes32)
    (registryAuthority : Pubkey) (txs : List Tx) :
    ∃ config registry,
      (runAll (exec env) Ledger.deployed
        (setUp authority imageId registryAuthority ++ txs)).config = some config ∧
      (runAll (exec env) Ledger.deployed
        (setUp authority imageId registryAuthority ++ txs)).registry = some registry := by
  rw [runAll_append]
  have hext := extends_runAll env
    (runAll (exec env) Ledger.deployed (setUp authority imageId registryAuthority)) txs
  obtain ⟨config, hconfig, -⟩ := hext.config _ rfl
  obtain ⟨registry, hregistry⟩ := Option.isSome_iff_exists.mp (hext.registry rfl)
  exact ⟨config, registry, hconfig, hregistry⟩

/-- **What the registry counts.**  In every run from the set-up on, the registry records
what the accepted transactions have recorded, in order, and counts it; the coordinator
spends what its accepted `verify_predicate` transactions claim, each once, and counts
that.  Where the accepted transactions reach the registry through the coordinator only,
and each `verify_predicate` among them names it, the recorded nullifiers are the spent
ones, each recorded once, and the counters agree. -/
theorem registry_tallies (env : Env) (authority : Pubkey) (imageId : Bytes32)
    (registryAuthority : Pubkey) (txs : List Tx) :
    let run := setUp authority imageId registryAuthority ++ txs
    let s := runAll (exec env) Ledger.deployed run
    let history := accepted (exec env) Ledger.deployed run
    ∃ config registry, s.config = some config ∧ s.registry = some registry ∧
      recordedNullifiers s.events = recordings history ∧
      registry.verifiedCount.toNat = min (recordings history).length (2 ^ 64 - 1) ∧
      s.spent = (claimedNullifiers history).toFinset ∧ (claimedNullifiers history).Nodup ∧
      config.verifiedCount.toNat = min s.spent.card (2 ^ 64 - 1) ∧
      ((∀ tx ∈ history, tx.ThroughCoordinator) →
        (recordedNullifiers s.events).Nodup ∧
        (recordedNullifiers s.events).toFinset = s.spent ∧
        registry.verifiedCount = config.verifiedCount) := by
  intro run s history
  obtain ⟨config, registry, hconfig, hregistry⟩ :=
    exists_accounts env authority imageId registryAuthority txs
  have hconsistent : Consistent env s history := consistent_runAll env run
  have htallies : Tallies Ledger.deployed s (recordings history) := tallies_runAll env _ run
  have hrecorded : recordedNullifiers s.events = recordings history := htallies.recorded
  have hcount : registry.verifiedCount.toNat = min (recordings history).length (2 ^ 64 - 1) := by
    have h := htallies.count
    rw [Ledger.recordedCount, show s.registry = some registry from hregistry,
      show Ledger.deployed.recordedCount = 0 from rfl, Nat.zero_add] at h
    exact h
  refine ⟨config, registry, hconfig, hregistry, hrecorded, hcount, hconsistent.spent,
    hconsistent.once, hconsistent.count config hconfig, fun hthrough => ?_⟩
  have hsame := recordings_eq_claimedNullifiers hthrough
  have hcard : s.spent.card = (recordings history).length := by
    rw [hconsistent.spent, List.toFinset_card_of_nodup hconsistent.once, hsame]
  refine ⟨hrecorded ▸ hsame ▸ hconsistent.once, ?_, UInt64.toNat_inj.mp ?_⟩
  · rw [hrecorded, hsame, hconsistent.spent]
  · rw [hcount, hconsistent.count config hconfig, hcard]

/-- A proof consumed by way of the coordinator, with the registry as its consumer. -/
theorem registry_tallies_oneEntry :
    let env := acceptsOnly oneEntryJournal
    let s := runAll (exec env) Ledger.deployed
      (setUp (Vector.replicate 32 0) (Vector.replicate 32 1) (Vector.replicate 32 2) ++
        [.storeJournal oneEntryJournal, .verifyPredicate
          { claim env oneEntryJournal someSeal 0 (Vector.replicate 32 6) with
            consumer := .registry }])
    ∃ config registry, s.config = some config ∧ s.registry = some registry ∧
      (recordedNullifiers s.events).toFinset = s.spent ∧
      registry.verifiedCount = config.verifiedCount := by
  intro env s
  obtain ⟨config, registry, hconfig, hregistry, -, -, -, -, -, hagree⟩ :=
    registry_tallies env (Vector.replicate 32 0) (Vector.replicate 32 1) (Vector.replicate 32 2)
      [.storeJournal oneEntryJournal, .verifyPredicate
        { claim env oneEntryJournal someSeal 0 (Vector.replicate 32 6) with
          consumer := .registry }]
  obtain ⟨-, hspent, hcount⟩ := hagree fun tx htx => by
    have hmem := mem_of_mem_accepted htx
    simp only [setUp, List.cons_append, List.nil_append, List.mem_cons, List.not_mem_nil,
      or_false] at hmem
    rcases hmem with rfl | rfl | rfl | rfl <;> simp [Tx.ThroughCoordinator]
  exact ⟨config, registry, hconfig, hregistry, hspent, hcount⟩

/-- The nullifier of `oneEntryJournal`. -/
theorem decode_oneEntryJournal :
    decodeNullifierFromJournal sbf oneEntryJournal 0 = .ok (Vector.replicate 32 6) := by
  have hwords : oneEntryJournal.toList = wordBytes oneEntry.words := rfl
  rw [decodeNullifierFromJournal_wordBytes (t := sbf) hwords, decodeWords_words]
  rfl

/-- A run in which the caller of `verify_predicate` names another consumer. -/
def otherConsumerRun (env : Env) (journal : Bytes .w64) (proofSeal : Seal) (index : UInt8)
    (n : Bytes32) : List Tx :=
  [.storeJournal journal, .verifyPredicate (claim env journal proofSeal index n)]

/-- Any accepted proof can be consumed without being recorded. -/
theorem spent_without_recording {journal : Bytes .w64} {proofSeal : Seal} {imageId n : Bytes32}
    {index : UInt8} (authority registryAuthority : Pubkey) (hlen : journal.len ≤ maxJournalLen)
    (haccepts : env.routerAccepts proofSeal imageId (env.sha256 journal.toList) = true)
    (hn : decodeNullifierFromJournal sbf journal index = .ok n) :
    ∃ txs, n ∈ (runAll (exec env) Ledger.deployed
        (setUp authority imageId registryAuthority ++ txs)).spent ∧
      recordedNullifiers (runAll (exec env) Ledger.deployed
        (setUp authority imageId registryAuthority ++ txs)).events = [] := by
  refine ⟨otherConsumerRun env journal proofSeal index n, ?_, ?_⟩
  · let config : Config := ⟨imageId, authority, 0⟩
    let ready : Ledger := { Ledger.deployed with
      config := some config
      registry := some ⟨0, registryAuthority⟩ }
    let stored : Ledger := { ready with
      journals := Function.update ready.journals (env.sha256 journal.toList) (some journal) }
    have hready : runAll (exec env) Ledger.deployed
        (setUp authority imageId registryAuthority) = ready := rfl
    have hstore : exec env (.storeJournal journal) ready = .ok stored :=
      storeJournal_eq_ok.mpr ⟨rfl, hlen, rfl⟩
    have hjournal : stored.journals (env.sha256 journal.toList) = some journal :=
      Function.update_self ..
    have hauth : Authorized env stored (claim env journal proofSeal index n) config journal :=
      ⟨rfl, hjournal, rfl, hn, haccepts⟩
    have hverify : exec env (.verifyPredicate (claim env journal proofSeal index n)) stored =
        .ok _ := verifyPredicate_of_authorized hauth (Finset.notMem_empty _) rfl
    rw [runAll_append, hready, otherConsumerRun, runAll_cons, attempt_of_ok hstore, runAll_cons,
      attempt_of_ok hverify]
    exact Finset.mem_insert_self _ _
  · have htallies := tallies_runAll env Ledger.deployed
      (setUp authority imageId registryAuthority ++ otherConsumerRun env journal proofSeal index n)
    have hnone : recordings (accepted (exec env) Ledger.deployed (setUp authority imageId
        registryAuthority ++ otherConsumerRun env journal proofSeal index n)) = [] := by
      refine List.flatMap_eq_nil_iff.mpr fun tx htx => ?_
      have hmem := mem_of_mem_accepted htx
      simp only [setUp, otherConsumerRun, List.cons_append, List.nil_append, List.mem_cons,
        List.not_mem_nil, or_false] at hmem
      rcases hmem with rfl | rfl | rfl | rfl <;> rfl
    have hrecorded := htallies.recorded
    rw [hnone] at hrecorded
    exact hrecorded

/-- **Neither is every recorded nullifier spent, nor every spent one recorded.** -/
theorem registry_without_proof :
    (¬ ∀ (env : Env) (authority : Pubkey) (imageId : Bytes32) (registryAuthority : Pubkey)
      (txs : List Tx) (n : Bytes32),
      n ∈ recordedNullifiers (runAll (exec env) Ledger.deployed
        (setUp authority imageId registryAuthority ++ txs)).events →
      n ∈ (runAll (exec env) Ledger.deployed
        (setUp authority imageId registryAuthority ++ txs)).spent) ∧
    ¬ ∀ (env : Env) (authority : Pubkey) (imageId : Bytes32) (registryAuthority : Pubkey)
      (txs : List Tx) (n : Bytes32),
      n ∈ (runAll (exec env) Ledger.deployed
        (setUp authority imageId registryAuthority ++ txs)).spent →
      n ∈ recordedNullifiers (runAll (exec env) Ledger.deployed
        (setUp authority imageId registryAuthority ++ txs)).events := by
  constructor
  · intro hall
    -- anyone calls `record_verification`
    have hmem := hall (acceptsOnly oneEntryJournal) (Vector.replicate 32 0)
      (Vector.replicate 32 1) (Vector.replicate 32 2) [.recordVerification (Vector.replicate 32 5)]
      (Vector.replicate 32 5) (List.mem_singleton.mpr rfl)
    exact Finset.notMem_empty _ hmem
  · intro hall
    have hlen : oneEntryJournal.len ≤ maxJournalLen := by decide +kernel
    have haccepts : (acceptsOnly oneEntryJournal).routerAccepts someSeal (Vector.replicate 32 1)
        ((acceptsOnly oneEntryJournal).sha256 oneEntryJournal.toList) = true := by
      simp [acceptsOnly]
    obtain ⟨txs, hspent, hrecorded⟩ := spent_without_recording (Vector.replicate 32 0)
      (Vector.replicate 32 2) hlen haccepts decode_oneEntryJournal
    have hmem := hall _ _ _ _ txs _ hspent
    rw [hrecorded] at hmem
    exact List.not_mem_nil hmem

end Coordinator
end Tuniq
