import Tuniq.Coordinator.Registry

/-!
# The events tell the state

An indexer sees the events and not the accounts.  What it can know of them is read off the
events: `verifiedNullifiers` are the nullifiers of the `PredicateVerified` events and
`recordedCounts` the counts of the `VerificationRecorded` events, both in order.

`Audited` is the invariant.  The first list has no repetition and its members are the spent
nullifiers; the second counts one, two, three, up to the largest `u64`, and the counter of
the registry is where it stands.  Every transaction keeps it (`audited_exec`), a call of a
foreign consumer that records nullifiers of its own included.  So an indexer can rebuild
the spent nullifiers and both counters (`events_tell_state`).
-/

namespace Tuniq
namespace Coordinator

variable {env : Env} {s s' : Ledger}

/-! ## What the events say -/

/-- The nullifier of a `PredicateVerified` event. -/
def Event.verified : Event → Option Bytes32
  | .predicateVerified _ nullifier => some nullifier
  | .verificationRecorded _ _ => none

/-- The count of a `VerificationRecorded` event. -/
def Event.count : Event → Option ℕ
  | .predicateVerified _ _ => none
  | .verificationRecorded _ count => some count.toNat

/-- The nullifiers reported as verified, in order. -/
def verifiedNullifiers (events : List Event) : List Bytes32 := events.filterMap Event.verified

/-- The counts reported by the registry, in order. -/
def recordedCounts (events : List Event) : List ℕ := events.filterMap Event.count

theorem verifiedNullifiers_append (events events' : List Event) :
    verifiedNullifiers (events ++ events') =
      verifiedNullifiers events ++ verifiedNullifiers events' :=
  List.filterMap_append

theorem recordedCounts_append (events events' : List Event) :
    recordedCounts (events ++ events') = recordedCounts events ++ recordedCounts events' :=
  List.filterMap_append

/-- One, two, three, up to the largest `u64`. -/
def consecutive (n : ℕ) : List ℕ := (List.range n).map fun k => min (k + 1) (2 ^ 64 - 1)

theorem consecutive_succ (n : ℕ) :
    consecutive (n + 1) = consecutive n ++ [min (n + 1) (2 ^ 64 - 1)] := by
  rw [consecutive, List.range_succ, List.map_append]
  rfl

/-! ## The invariant -/

/-- The reported counts are consecutive, and the registry stands at the last one. -/
structure Counted (s : Ledger) : Prop where
  consecutive : recordedCounts s.events = consecutive (recordedCounts s.events).length
  registry : s.recordedCount = min (recordedCounts s.events).length (2 ^ 64 - 1)

/-- **The invariant**: the events report the spent nullifiers, each once, and count. -/
structure Audited (s : Ledger) : Prop extends Counted s where
  spent : s.spent = (verifiedNullifiers s.events).toFinset
  once : (verifiedNullifiers s.events).Nodup

theorem audited_deployed : Audited Ledger.deployed where
  consecutive := rfl
  registry := rfl
  spent := rfl
  once := List.nodup_nil

/-- `record_verification` reports the next count. -/
theorem counted_recordVerification {n : Bytes32} (h : Counted s)
    (hok : recordVerification n s = .ok s') :
    Counted s' ∧ verifiedNullifiers s'.events = verifiedNullifiers s.events := by
  obtain ⟨registry, hregistry, rfl⟩ := recordVerification_eq_ok.mp hok
  have hcount : registry.verifiedCount.toNat =
      min (recordedCounts s.events).length (2 ^ 64 - 1) := by
    rw [← h.registry, Ledger.recordedCount, hregistry]
    rfl
  have hnext : (saturatingAdd registry.verifiedCount 1).toNat =
      min ((recordedCounts s.events).length + 1) (2 ^ 64 - 1) := by
    rw [toNat_saturatingAdd, hcount]
    show min (min (recordedCounts s.events).length (2 ^ 64 - 1) + 1) (2 ^ 64 - 1) = _
    omega
  have hcounts : recordedCounts (s.record registry n).events =
      recordedCounts s.events ++ [(saturatingAdd registry.verifiedCount 1).toNat] :=
    recordedCounts_append _ _
  have hlen : (recordedCounts (s.record registry n).events).length =
      (recordedCounts s.events).length + 1 := by
    rw [hcounts, List.length_append, List.length_singleton]
  refine ⟨⟨?_, ?_⟩, ?_⟩
  · rw [hlen, consecutive_succ, ← h.consecutive, hcounts, hnext]
  · rw [hlen, ← hnext]
    rfl
  · exact (verifiedNullifiers_append _ _).trans (List.append_nil _)

theorem counted_recordAll {ns : List Bytes32} (h : Counted s) (hok : recordAll ns s = .ok s') :
    Counted s' ∧ verifiedNullifiers s'.events = verifiedNullifiers s.events := by
  induction ns generalizing s with
  | nil =>
    obtain rfl := Except.ok.inj hok
    exact ⟨h, rfl⟩
  | cons n ns ih =>
    obtain ⟨s₁, hs₁, hrest⟩ := recordAll_cons_eq_ok.mp hok
    obtain ⟨hcounted, hsame⟩ := counted_recordVerification h hs₁
    obtain ⟨hcounted', hsame'⟩ := ih hcounted hrest
    exact ⟨hcounted', hsame'.trans hsame⟩

/-- Whatever the consumer. -/
theorem counted_consumer {consumer : ConsumerProgram} {n : Bytes32} (h : Counted s)
    (hok : consumer.recordVerification n s = .ok s') :
    Counted s' ∧ verifiedNullifiers s'.events = verifiedNullifiers s.events := by
  cases consumer with
  | registry => exact counted_recordVerification h hok
  | other accepts forwards =>
    exact counted_recordAll h (recordVerification_other_eq_ok.mp hok).2

/-- `verify_predicate` reports the nullifier it spends. -/
theorem audited_verifyPredicate {args : VerifyArgs} (h : Audited s)
    (hok : verifyPredicate env args s = .ok s') : Audited s' := by
  obtain ⟨config, journal, s₁, -, hfresh, hconsumer, rfl⟩ := verifyPredicate_eq_ok.mp hok
  have hstart : Counted (s.spend config args.claimedNullifier) := ⟨h.consecutive, h.registry⟩
  obtain ⟨hcounted, hsame⟩ := counted_consumer hstart hconsumer
  obtain ⟨registry, events, rfl⟩ := (records_consumer hconsumer).frame
  have hverified : verifiedNullifiers (events ++
      [.predicateVerified args.caller args.claimedNullifier]) =
        verifiedNullifiers s.events ++ [args.claimedNullifier] := by
    rw [verifiedNullifiers_append, hsame]
    rfl
  have hcounts : recordedCounts (events ++
      [.predicateVerified args.caller args.claimedNullifier]) = recordedCounts events := by
    rw [recordedCounts_append]
    exact List.append_nil _
  refine ⟨⟨?_, ?_⟩, ?_, ?_⟩
  · show recordedCounts (events ++ _) = consecutive (recordedCounts (events ++ _)).length
    rw [hcounts]
    exact hcounted.consecutive
  · show _ = min (recordedCounts (events ++ _)).length _
    rw [hcounts]
    exact hcounted.registry
  · show insert args.claimedNullifier s.spent = (verifiedNullifiers (events ++ _)).toFinset
    rw [hverified, List.toFinset_append, ← h.spent]
    exact Finset.insert_eq _ _ |>.trans (Finset.union_comm _ _)
  · show (verifiedNullifiers (events ++ _)).Nodup
    rw [hverified]
    rw [h.spent, List.mem_toFinset] at hfresh
    exact List.nodup_append.mpr ⟨h.once, List.nodup_singleton _, by
      intro n hn m hm heq
      rw [List.mem_singleton.mp hm] at heq
      exact hfresh (heq ▸ hn)⟩

/-- **Each transaction keeps the invariant.** -/
theorem audited_exec {tx : Tx} (h : Audited s) (hok : exec env tx s = .ok s') : Audited s' := by
  cases tx with
  | initializeCoordinator authority imageId =>
    obtain ⟨-, rfl⟩ := initializeCoordinator_eq_ok.mp hok
    exact ⟨⟨h.consecutive, h.registry⟩, h.spent, h.once⟩
  | storeJournal journal =>
    obtain ⟨-, -, rfl⟩ := storeJournal_eq_ok.mp hok
    exact ⟨⟨h.consecutive, h.registry⟩, h.spent, h.once⟩
  | verifyPredicate args => exact audited_verifyPredicate h hok
  | initializeConsumer authority =>
    obtain ⟨hnone, rfl⟩ := initializeConsumer_eq_ok.mp hok
    have hzero : s.recordedCount = 0 := by
      rw [Ledger.recordedCount, hnone]
      rfl
    exact ⟨⟨h.consecutive, hzero.symm.trans h.registry⟩, h.spent, h.once⟩
  | recordVerification n =>
    obtain ⟨hcounted, hsame⟩ := counted_recordVerification h.toCounted hok
    obtain ⟨registry, -, rfl⟩ := recordVerification_eq_ok.mp hok
    refine ⟨hcounted, ?_, ?_⟩
    · rw [hsame]
      exact h.spent
    · rw [hsame]
      exact h.once

/-- The invariant holds in every run. -/
theorem audited_runAll (env : Env) (txs : List Tx) :
    Audited (runAll (exec env) Ledger.deployed txs) :=
  runAll_invariant (fun _ _ _ => audited_exec) audited_deployed txs

/-- **The events tell the state.**  Behind any transactions of anybody the nullifiers
reported as verified are the spent ones, each reported once, and the counter of the config
is their number; the counts reported by the registry are one, two, three and so on, and its
counter is where they stand, both up to the largest `u64`. -/
theorem events_tell_state (env : Env) (txs : List Tx) :
    let s := runAll (exec env) Ledger.deployed txs
    (verifiedNullifiers s.events).Nodup ∧
      (∀ n, n ∈ s.spent ↔ n ∈ verifiedNullifiers s.events) ∧
      (∀ config, s.config = some config →
        config.verifiedCount.toNat = min (verifiedNullifiers s.events).length (2 ^ 64 - 1)) ∧
      recordedCounts s.events = consecutive (recordedCounts s.events).length ∧
      ∀ registry, s.registry = some registry →
        registry.verifiedCount.toNat = min (recordedCounts s.events).length (2 ^ 64 - 1) := by
  intro s
  have haudit : Audited s := audited_runAll env txs
  have hinv : Consistent env s _ := consistent_runAll env txs
  refine ⟨haudit.once, fun n => ?_, fun config hconfig => ?_, haudit.consecutive,
    fun registry hregistry => ?_⟩
  · rw [haudit.spent, List.mem_toFinset]
  · rw [hinv.count config hconfig, haudit.spent, List.toFinset_card_of_nodup haudit.once]
  · rw [← haudit.registry, Ledger.recordedCount, hregistry]
    rfl

end Coordinator
end Tuniq
