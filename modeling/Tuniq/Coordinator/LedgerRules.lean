import Tuniq.Coordinator.Ledger

/-!
# What a transaction can do

One lemma for each instruction says when it succeeds and what the ledger is then.
`verify_predicate` is the interesting one.  What it checks is of two kinds: the
checks of `Authorized` read the config, the journal and the proof, and say that the
proof of the journal commits to the claimed nullifier; the other two are that the
nullifier is not spent and that the consumer accepts.

From these, `Extends` is what every transaction respects: a config stays with its
image id, a journal stays where it is, a spent nullifier stays spent, and the
registry stays.
-/

namespace Tuniq
namespace Coordinator

variable {env : Env} {s s' : Ledger}

/-! ## Checks -/

theorem initAccount_eq_ok {α : Type} {a : Option α} {u : Unit} :
    initAccount a = .ok u ↔ a = none := by
  cases a <;> simp [initAccount]

theorem loadAccount_eq_ok {α : Type} {a : Option α} {x : α} :
    loadAccount a = .ok x ↔ a = some x := by
  cases a <;> simp [loadAccount]

theorem ensure_eq_ok {cond : Bool} {e : TxError} {u : Unit} :
    ensure cond e = .ok u ↔ cond = true := by
  cases cond <;> simp [ensure]

theorem liftDecode_eq_ok {α : Type} {x : Except (Stop JournalDecodeError) α} {a : α} :
    liftDecode x = .ok a ↔ x = .ok a := by
  rcases x with (_ | _) | _ <;> simp [liftDecode]

theorem spentNullifier_eq_none {n : Bytes32} : s.spentNullifier n = none ↔ n ∉ s.spent := by
  rw [Ledger.spentNullifier]
  split <;> simp_all

/-! ## The instructions -/

theorem initializeCoordinator_eq_ok {authority : Pubkey} {imageId : Bytes32} :
    initializeCoordinator authority imageId s = .ok s' ↔
      s.config = none ∧ s' = { s with
        config := some { imageId := imageId, authority := authority, verifiedCount := 0 } } := by
  simp only [initializeCoordinator, bind_eq_ok, initAccount_eq_ok, exists_const]
  exact and_congr_right fun _ => ⟨fun h => (Except.ok.inj h).symm, fun h => congrArg _ h.symm⟩

theorem storeJournal_eq_ok {journal : Bytes .w64} :
    storeJournal env journal s = .ok s' ↔
      s.journals (env.sha256 journal.toList) = none ∧ journal.len ≤ maxJournalLen ∧
        s' = { s with journals :=
          Function.update s.journals (env.sha256 journal.toList) (some journal) } := by
  simp only [storeJournal, bind_eq_ok, initAccount_eq_ok, ensure_eq_ok, exists_const,
    decide_eq_true_eq]
  exact and_congr_right fun _ => and_congr_right fun _ =>
    ⟨fun h => (Except.ok.inj h).symm, fun h => congrArg _ h.symm⟩

theorem initializeConsumer_eq_ok {authority : Pubkey} :
    initializeConsumer authority s = .ok s' ↔
      s.registry = none ∧
        s' = { s with registry := some { verifiedCount := 0, authority := authority } } := by
  simp only [initializeConsumer, bind_eq_ok, initAccount_eq_ok, exists_const]
  exact and_congr_right fun _ => ⟨fun h => (Except.ok.inj h).symm, fun h => congrArg _ h.symm⟩

/-- The ledger behind `record_verification`, on a registry. -/
def Ledger.record (s : Ledger) (registry : Registry) (nullifier : Bytes32) : Ledger :=
  { s with
    registry := some { registry with
      verifiedCount := saturatingAdd registry.verifiedCount 1 }
    events := s.events ++
      [.verificationRecorded nullifier (saturatingAdd registry.verifiedCount 1)] }

theorem recordVerification_eq_ok {nullifier : Bytes32} :
    recordVerification nullifier s = .ok s' ↔
      ∃ registry, s.registry = some registry ∧ s' = s.record registry nullifier := by
  simp only [recordVerification, bind_eq_ok, loadAccount_eq_ok]
  exact exists_congr fun _ => and_congr_right fun _ =>
    ⟨fun h => (Except.ok.inj h).symm, fun h => congrArg _ h.symm⟩

theorem recordAll_cons_eq_ok {nullifier : Bytes32} {nullifiers : List Bytes32} :
    recordAll (nullifier :: nullifiers) s = .ok s' ↔
      ∃ s₁, recordVerification nullifier s = .ok s₁ ∧ recordAll nullifiers s₁ = .ok s' := by
  rw [recordAll, List.foldlM_cons, bind_eq_ok]
  rfl

theorem recordVerification_other_eq_ok {accepts : Bool} {forwards : List Bytes32}
    {nullifier : Bytes32} :
    (ConsumerProgram.other accepts forwards).recordVerification nullifier s = .ok s' ↔
      accepts = true ∧ recordAll forwards s = .ok s' := by
  simp only [ConsumerProgram.recordVerification, bind_eq_ok, ensure_eq_ok, exists_const]
  constructor
  · rintro ⟨s₁, hs₁, haccepts, h⟩
    obtain rfl := Except.ok.inj h
    exact ⟨haccepts, hs₁⟩
  · rintro ⟨haccepts, h⟩
    exact ⟨s', h, haccepts, rfl⟩

/-- The registry is the consumer's own account, and an account stays. -/
structure Records (s s' : Ledger) : Prop where
  frame : ∃ registry events, s' = { s with registry := registry, events := events }
  registry : s.registry.isSome → s'.registry.isSome

theorem Records.refl (s : Ledger) : Records s s := ⟨⟨_, _, rfl⟩, id⟩

theorem Records.trans {s u v : Ledger} (h : Records s u) (h' : Records u v) : Records s v := by
  refine ⟨?_, fun hs => h'.registry (h.registry hs)⟩
  obtain ⟨_, _, rfl⟩ := h.frame
  obtain ⟨registry, events, rfl⟩ := h'.frame
  exact ⟨registry, events, rfl⟩

theorem records_recordVerification {nullifier : Bytes32}
    (h : recordVerification nullifier s = .ok s') : Records s s' := by
  obtain ⟨registry, -, rfl⟩ := recordVerification_eq_ok.mp h
  exact ⟨⟨_, _, rfl⟩, fun _ => rfl⟩

theorem records_recordAll {nullifiers : List Bytes32} (h : recordAll nullifiers s = .ok s') :
    Records s s' := by
  induction nullifiers generalizing s with
  | nil =>
    obtain rfl := Except.ok.inj h
    exact .refl _
  | cons nullifier nullifiers ih =>
    obtain ⟨s₁, hs₁, hrest⟩ := recordAll_cons_eq_ok.mp h
    exact (records_recordVerification hs₁).trans (ih hrest)

/-- Whatever the consumer, it has no say over the coordinator's accounts. -/
theorem records_consumer {consumer : ConsumerProgram} {nullifier : Bytes32}
    (h : consumer.recordVerification nullifier s = .ok s') : Records s s' := by
  cases consumer with
  | registry => exact records_recordVerification h
  | other accepts forwards =>
    exact records_recordAll (recordVerification_other_eq_ok.mp h).2

/-- What `verify_predicate` checks besides the replay guard: the journal named by the
digest commits to the claimed nullifier at the given index, and the router accepts
its proof. -/
structure Authorized (env : Env) (s : Ledger) (args : VerifyArgs) (config : Config)
    (journal : Bytes .w64) : Prop where
  config_eq : s.config = some config
  journal_eq : s.journals args.journalDigest = some journal
  digest : env.sha256 journal.toList = args.journalDigest
  decodes : decodeNullifierFromJournal sbf journal args.nullifierIndex = .ok args.claimedNullifier
  accepts : env.routerAccepts args.proofSeal config.imageId args.journalDigest = true

/-- The ledger with a nullifier spent and counted. -/
def Ledger.spend (s : Ledger) (config : Config) (nullifier : Bytes32) : Ledger :=
  { s with
    config := some { config with verifiedCount := saturatingAdd config.verifiedCount 1 }
    spent := insert nullifier s.spent }

/-- **When `verify_predicate` succeeds**, and the ledger it leaves. -/
theorem verifyPredicate_eq_ok {args : VerifyArgs} :
    verifyPredicate env args s = .ok s' ↔
      ∃ config journal s₁, Authorized env s args config journal ∧
        args.claimedNullifier ∉ s.spent ∧
        args.consumer.recordVerification args.claimedNullifier
          (s.spend config args.claimedNullifier) = .ok s₁ ∧
        s' = { s₁ with
          events := s₁.events ++ [.predicateVerified args.caller args.claimedNullifier] } := by
  simp only [verifyPredicate, bind_eq_ok, loadAccount_eq_ok, initAccount_eq_ok, ensure_eq_ok,
    liftDecode_eq_ok, spentNullifier_eq_none, exists_const, decide_eq_true_eq]
  constructor
  · rintro ⟨config, hconfig, journal, hjournal, hspent, hdigest, n, hdecode, rfl, haccepts, s₁,
      hconsumer, h⟩
    exact ⟨config, journal, s₁, ⟨hconfig, hjournal, hdigest, hdecode, haccepts⟩, hspent,
      hconsumer, (Except.ok.inj h).symm⟩
  · rintro ⟨config, journal, s₁, ⟨hconfig, hjournal, hdigest, hdecode, haccepts⟩, hspent,
      hconsumer, rfl⟩
    exact ⟨config, hconfig, journal, hjournal, hspent, hdigest, _, hdecode, rfl, haccepts, s₁,
      hconsumer, rfl⟩

/-- What a successful `verify_predicate` does to the coordinator's accounts. -/
theorem verifyPredicate_cases {args : VerifyArgs} (h : verifyPredicate env args s = .ok s') :
    ∃ config journal registry events, Authorized env s args config journal ∧
      args.claimedNullifier ∉ s.spent ∧
      s' = { s.spend config args.claimedNullifier with
        registry := registry, events := events } := by
  obtain ⟨config, journal, s₁, hauth, hspent, hconsumer, rfl⟩ := verifyPredicate_eq_ok.mp h
  obtain ⟨registry, events, rfl⟩ := (records_consumer hconsumer).frame
  exact ⟨config, journal, registry, _, hauth, hspent, rfl⟩

/-- With a consumer that accepts, the checks are all there is. -/
theorem verifyPredicate_of_authorized {args : VerifyArgs} {config : Config}
    {journal : Bytes .w64} (hauth : Authorized env s args config journal)
    (hspent : args.claimedNullifier ∉ s.spent) (hconsumer : args.consumer = .other true []) :
    verifyPredicate env args s = .ok { s.spend config args.claimedNullifier with
      events := s.events ++ [.predicateVerified args.caller args.claimedNullifier] } := by
  refine verifyPredicate_eq_ok.mpr ⟨config, journal, _, hauth, hspent, ?_, rfl⟩
  rw [hconsumer]
  rfl

/-! ## What stays -/

/-- What every transaction respects. -/
structure Extends (s s' : Ledger) : Prop where
  config : ∀ config, s.config = some config →
    ∃ config', s'.config = some config' ∧ config'.imageId = config.imageId
  journals : ∀ d journal, s.journals d = some journal → s'.journals d = some journal
  spent : s.spent ⊆ s'.spent
  registry : s.registry.isSome → s'.registry.isSome

theorem Extends.refl (s : Ledger) : Extends s s :=
  ⟨fun config h => ⟨config, h, rfl⟩, fun _ _ h => h, Finset.Subset.refl _, id⟩

theorem Extends.trans {s u v : Ledger} (h : Extends s u) (h' : Extends u v) : Extends s v where
  config := by
    intro config hconfig
    obtain ⟨config', hconfig', himage⟩ := h.config config hconfig
    obtain ⟨config'', hconfig'', himage'⟩ := h'.config config' hconfig'
    exact ⟨config'', hconfig'', himage'.trans himage⟩
  journals := fun d journal hj => h'.journals d journal (h.journals d journal hj)
  spent := h.spent.trans h'.spent
  registry := fun hs => h'.registry (h.registry hs)

/-- Each transaction. -/
theorem extends_exec (env : Env) (tx : Tx) (h : exec env tx s = .ok s') : Extends s s' := by
  cases tx with
  | initializeCoordinator authority imageId =>
    obtain ⟨hnone, rfl⟩ := initializeCoordinator_eq_ok.mp h
    refine ⟨fun config hconfig => ?_, fun _ _ hj => hj, Finset.Subset.refl _, id⟩
    rw [hnone] at hconfig
    exact absurd hconfig (by simp)
  | storeJournal journal =>
    obtain ⟨hnone, -, rfl⟩ := storeJournal_eq_ok.mp h
    refine ⟨fun config hconfig => ⟨config, hconfig, rfl⟩, fun d j hj => ?_,
      Finset.Subset.refl _, id⟩
    -- the new journal has an account of its own
    have hne : d ≠ env.sha256 journal.toList := by
      rintro rfl
      rw [hnone] at hj
      exact absurd hj (by simp)
    exact (Function.update_of_ne hne _ _).trans hj
  | verifyPredicate args =>
    obtain ⟨config, journal, s₁, hauth, -, hconsumer, rfl⟩ := verifyPredicate_eq_ok.mp h
    have hrecords := records_consumer hconsumer
    obtain ⟨registry, events, rfl⟩ := hrecords.frame
    refine ⟨fun config' hconfig' => ?_, fun _ _ hj => hj, Finset.subset_insert _ _,
      hrecords.registry⟩
    obtain rfl := Option.some.inj (hconfig'.symm.trans hauth.config_eq)
    exact ⟨_, rfl, rfl⟩
  | initializeConsumer authority =>
    obtain ⟨-, rfl⟩ := initializeConsumer_eq_ok.mp h
    exact ⟨fun config hconfig => ⟨config, hconfig, rfl⟩, fun _ _ hj => hj,
      Finset.Subset.refl _, fun _ => rfl⟩
  | recordVerification nullifier =>
    obtain ⟨registry, -, rfl⟩ := recordVerification_eq_ok.mp h
    exact ⟨fun config hconfig => ⟨config, hconfig, rfl⟩, fun _ _ hj => hj,
      Finset.Subset.refl _, fun _ => rfl⟩

/-- **Every run extends the ledger it starts from.** -/
theorem extends_runAll (env : Env) (s : Ledger) (txs : List Tx) :
    Extends s (runAll (exec env) s txs) :=
  runAll_grows Extends.refl (fun _ _ _ => Extends.trans) (fun _ tx _ => extends_exec env tx) s txs

end Coordinator
end Tuniq
