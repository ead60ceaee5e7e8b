import Tuniq.Coordinator.LedgerRules

/-!
# What stays for ever

Neither program has an instruction that closes an account, writes a journal or a nullifier
account again, or changes an image id or an authority.  What is left to change are the
counters of the two mutable accounts, and these do not go back.

`Permanent s s'` says this of two ledgers, and `ledger_permanent` of any ledger and the one
behind any transactions: whatever anyone sends later, accepted or not, what a client has
read stays as it was.
-/

namespace Tuniq
namespace Coordinator

variable {env : Env} {s s' : Ledger}

/-- What a later ledger keeps of an earlier one.  The mutable accounts keep their fields,
except for the counters, which do not go back; the events stay in front. -/
structure Permanent (s s' : Ledger) : Prop where
  journals : ∀ d journal, s.journals d = some journal → s'.journals d = some journal
  spent : s.spent ⊆ s'.spent
  config : ∀ config, s.config = some config →
    ∃ count, s'.config = some { config with verifiedCount := count } ∧
      config.verifiedCount.toNat ≤ count.toNat
  registry : ∀ registry, s.registry = some registry →
    ∃ count, s'.registry = some { registry with verifiedCount := count } ∧
      registry.verifiedCount.toNat ≤ count.toNat
  events : s.events <+: s'.events

theorem Permanent.refl (s : Ledger) : Permanent s s where
  journals := fun _ _ h => h
  spent := Finset.Subset.refl _
  config := fun config h => ⟨config.verifiedCount, h, le_rfl⟩
  registry := fun registry h => ⟨registry.verifiedCount, h, le_rfl⟩
  events := List.prefix_rfl

theorem Permanent.trans {s u v : Ledger} (h : Permanent s u) (h' : Permanent u v) :
    Permanent s v where
  journals := fun d journal hj => h'.journals d journal (h.journals d journal hj)
  spent := h.spent.trans h'.spent
  config := by
    intro config hconfig
    obtain ⟨count, hcount, hle⟩ := h.config config hconfig
    obtain ⟨count', hcount', hle'⟩ := h'.config _ hcount
    exact ⟨count', hcount', hle.trans hle'⟩
  registry := by
    intro registry hregistry
    obtain ⟨count, hcount, hle⟩ := h.registry registry hregistry
    obtain ⟨count', hcount', hle'⟩ := h'.registry _ hcount
    exact ⟨count', hcount', hle.trans hle'⟩
  events := h.events.trans h'.events

/-- A counter that counts one more does not go back, at the largest `u64` neither. -/
theorem le_saturatingAdd_one (a : UInt64) : a.toNat ≤ (saturatingAdd a 1).toNat := by
  have ha := a.toNat_lt
  rw [toNat_saturatingAdd]
  show a.toNat ≤ min (a.toNat + 1) (2 ^ 64 - 1)
  omega

/-! ## Each transaction -/

theorem permanent_recordVerification {n : Bytes32} (h : recordVerification n s = .ok s') :
    Permanent s s' := by
  obtain ⟨registry, hregistry, rfl⟩ := recordVerification_eq_ok.mp h
  refine { Permanent.refl s with registry := fun x hx => ?_, events := List.prefix_append _ _ }
  obtain rfl := Option.some.inj (hregistry.symm.trans hx)
  exact ⟨_, rfl, le_saturatingAdd_one _⟩

theorem permanent_recordAll {ns : List Bytes32} (h : recordAll ns s = .ok s') :
    Permanent s s' := by
  induction ns generalizing s with
  | nil =>
    obtain rfl := Except.ok.inj h
    exact .refl _
  | cons n ns ih =>
    obtain ⟨s₁, hs₁, hrest⟩ := recordAll_cons_eq_ok.mp h
    exact (permanent_recordVerification hs₁).trans (ih hrest)

/-- Whatever the consumer. -/
theorem permanent_consumer {consumer : ConsumerProgram} {n : Bytes32}
    (h : consumer.recordVerification n s = .ok s') : Permanent s s' := by
  cases consumer with
  | registry => exact permanent_recordVerification h
  | other accepts forwards =>
    exact permanent_recordAll (recordVerification_other_eq_ok.mp h).2

/-- `verify_predicate` spends, calls the consumer, and reports. -/
theorem permanent_verifyPredicate {args : VerifyArgs} (h : verifyPredicate env args s = .ok s') :
    Permanent s s' := by
  obtain ⟨config, journal, s₁, hauth, -, hconsumer, rfl⟩ := verifyPredicate_eq_ok.mp h
  have hspend : Permanent s (s.spend config args.claimedNullifier) := by
    refine { Permanent.refl s with
      spent := Finset.subset_insert _ _
      config := fun x hx => ?_ }
    obtain rfl := Option.some.inj (hauth.config_eq.symm.trans hx)
    exact ⟨_, rfl, le_saturatingAdd_one _⟩
  have hreport : Permanent s₁ { s₁ with
      events := s₁.events ++ [.predicateVerified args.caller args.claimedNullifier] } :=
    { Permanent.refl s₁ with events := List.prefix_append _ _ }
  exact (hspend.trans (permanent_consumer hconsumer)).trans hreport

/-- **Each transaction keeps what there is.** -/
theorem permanent_exec {tx : Tx} (h : exec env tx s = .ok s') : Permanent s s' := by
  cases tx with
  | initializeCoordinator authority imageId =>
    obtain ⟨hnone, rfl⟩ := initializeCoordinator_eq_ok.mp h
    refine { Permanent.refl s with config := fun x hx => ?_ }
    rw [hnone] at hx
    cases hx
  | storeJournal journal =>
    have hext := extends_exec env _ h
    obtain ⟨-, -, rfl⟩ := storeJournal_eq_ok.mp h
    exact { Permanent.refl s with journals := hext.journals }
  | verifyPredicate args => exact permanent_verifyPredicate h
  | initializeConsumer authority =>
    obtain ⟨hnone, rfl⟩ := initializeConsumer_eq_ok.mp h
    refine { Permanent.refl s with registry := fun x hx => ?_ }
    rw [hnone] at hx
    cases hx
  | recordVerification n => exact permanent_recordVerification h

/-- **What is on the ledger stays**, whatever is sent later.  No run removes a journal or a
nullifier, changes an image id or an authority, sets a counter back or takes an event
away. -/
theorem ledger_permanent (env : Env) (s : Ledger) (txs : List Tx) :
    Permanent s (runAll (exec env) s txs) :=
  runAll_grows Permanent.refl (fun _ _ _ => Permanent.trans) (fun _ _ _ => permanent_exec) s txs

end Coordinator
end Tuniq
