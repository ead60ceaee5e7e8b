import Tuniq.Coordinator.Replay

/-!
# Racing requests

Anyone may submit `verify_predicate` requests, so they arrive in any order, some of
them twice and some for the same nullifier.  The order decides who gets a nullifier,
but not what the ledger is afterwards.

The reason is how little a request reads.  Journals and image id are the same before
and after every request; the counter is written but never read; so whether a request
succeeds depends on the requests before it only through the spent set, and there only
through its own nullifier.  `Serves` says what the accepted requests of a run do
to the ledger, and `order_irrelevant` follows: the ledger is determined by which
requests are valid at the start.
-/

namespace Tuniq
namespace Coordinator

variable {env : Env} {s s₁ s' : Ledger}

/-- A request is valid against a ledger: alone, it succeeds there. -/
def Valid (env : Env) (s : Ledger) (args : VerifyArgs) : Prop :=
  ∃ s', verifyPredicate env args s = .ok s'

/-- The consumer accepts whatever happens, from the ledger `s` on. -/
def AlwaysAccepts (s : Ledger) (consumer : ConsumerProgram) : Prop :=
  ∀ s₁ nullifier, Extends s s₁ → ∃ s₂, consumer.recordVerification nullifier s₁ = .ok s₂

/-- The consumer of this repository does, once its registry exists. -/
theorem alwaysAccepts_registry (h : s.registry.isSome) : AlwaysAccepts s .registry := by
  intro s₁ nullifier hext
  obtain ⟨registry, hregistry⟩ := Option.isSome_iff_exists.mp (hext.registry h)
  exact ⟨_, recordVerification_eq_ok.mpr ⟨registry, hregistry, rfl⟩⟩

/-- A request that passes every check but the replay guard. -/
def IsAuthorized (env : Env) (s : Ledger) (args : VerifyArgs) : Prop :=
  ∃ config journal, Authorized env s args config journal

theorem extends_spend {config : Config} {n : Bytes32} (h : s.config = some config) :
    Extends s (s.spend config n) where
  config := by
    intro config' hconfig'
    obtain rfl := Option.some.inj (hconfig'.symm.trans h)
    exact ⟨_, rfl, rfl⟩
  journals := fun _ _ hj => hj
  spent := Finset.subset_insert _ _
  registry := id

/-- With such a consumer, validity is a matter of the checks. -/
theorem valid_iff {args : VerifyArgs} (haccepts : AlwaysAccepts s args.consumer)
    (hext : Extends s s₁) :
    Valid env s₁ args ↔ IsAuthorized env s₁ args ∧ args.claimedNullifier ∉ s₁.spent := by
  constructor
  · rintro ⟨s', h⟩
    obtain ⟨config, journal, -, hauth, hspent, -⟩ := verifyPredicate_eq_ok.mp h
    exact ⟨⟨config, journal, hauth⟩, hspent⟩
  · rintro ⟨⟨config, journal, hauth⟩, hspent⟩
    obtain ⟨s₂, hs₂⟩ := haccepts _ args.claimedNullifier
      (hext.trans (extends_spend hauth.config_eq))
    exact ⟨_, verifyPredicate_eq_ok.mpr ⟨config, journal, s₂, hauth, hspent, hs₂, rfl⟩⟩

/-! ## What the accepted requests do -/

/-- A config with `k` more verifications counted. -/
def Config.countBy (k : ℕ) (config : Config) : Config :=
  { config with
    verifiedCount := UInt64.ofNat (min (config.verifiedCount.toNat + k) (2 ^ 64 - 1)) }

theorem Config.countBy_zero (config : Config) : config.countBy 0 = config := by
  have hlt := config.verifiedCount.toNat_lt
  rw [countBy, Nat.add_zero, Nat.min_eq_left (by omega), UInt64.ofNat_toNat]

theorem Config.toNat_countBy (config : Config) (k : ℕ) :
    (config.countBy k).verifiedCount.toNat =
      min (config.verifiedCount.toNat + k) (2 ^ 64 - 1) := by
  apply UInt64.toNat_ofNat_of_lt'
  show min _ (2 ^ 64 - 1) < 2 ^ 64
  omega

/-- One more. -/
theorem Config.countBy_succ (config : Config) (k : ℕ) :
    { config.countBy k with
      verifiedCount := saturatingAdd (config.countBy k).verifiedCount 1 } =
        config.countBy (k + 1) := by
  rw [Config.mk.injEq]
  refine ⟨rfl, rfl, UInt64.toNat_inj.mp ?_⟩
  rw [toNat_saturatingAdd, toNat_countBy, toNat_countBy]
  show min (min _ (2 ^ 64 - 1) + 1) (2 ^ 64 - 1) = _
  omega

/-- The ledger `s₁` is `s` with some requests served: each nullifier they claim is newly
spent, once, and counted; nothing else of the coordinator's changes. -/
structure Serves (env : Env) (s s₁ : Ledger) (served : List VerifyArgs) : Prop where
  journals : s₁.journals = s.journals
  config : s₁.config = s.config.map (Config.countBy served.length)
  spent : s₁.spent = s.spent ∪ (served.map VerifyArgs.claimedNullifier).toFinset
  once : (served.map VerifyArgs.claimedNullifier).Nodup
  fresh : ∀ args ∈ served, args.claimedNullifier ∉ s.spent
  authorized : ∀ args ∈ served, IsAuthorized env s args

theorem Serves.refl (env : Env) (s : Ledger) : Serves env s s [] where
  journals := rfl
  config := by
    cases h : s.config with
    | none => rfl
    | some config => exact congrArg some config.countBy_zero.symm
  spent := (Finset.union_empty _).symm
  once := List.nodup_nil
  fresh := fun _ h => absurd h List.not_mem_nil
  authorized := fun _ h => absurd h List.not_mem_nil

/-- Serving requests does not change which requests pass the checks. -/
theorem Serves.isAuthorized_iff {served : List VerifyArgs} (h : Serves env s s₁ served)
    (args : VerifyArgs) : IsAuthorized env s₁ args ↔ IsAuthorized env s args := by
  have hconfig := h.config
  constructor
  · rintro ⟨config₁, journal, hauth⟩
    rw [hauth.config_eq] at hconfig
    obtain ⟨config, hs, rfl⟩ := Option.map_eq_some_iff.mp hconfig.symm
    exact ⟨config, journal, hs, h.journals ▸ hauth.journal_eq, hauth.digest, hauth.decodes,
      hauth.accepts⟩
  · rintro ⟨config, journal, hauth⟩
    rw [hauth.config_eq] at hconfig
    exact ⟨_, journal, hconfig, h.journals ▸ hauth.journal_eq, hauth.digest, hauth.decodes,
      hauth.accepts⟩

/-- **One more request served.** -/
theorem serves_verifyPredicate {served : List VerifyArgs} {args : VerifyArgs}
    (h : Serves env s s₁ served) (hok : verifyPredicate env args s₁ = .ok s') :
    Serves env s s' (served ++ [args]) := by
  obtain ⟨config₁, journal, registry, events, hauth, hfresh, rfl⟩ := verifyPredicate_cases hok
  have hmap : (served ++ [args]).map VerifyArgs.claimedNullifier =
      served.map VerifyArgs.claimedNullifier ++ [args.claimedNullifier] := List.map_append
  have hnew : args.claimedNullifier ∉ s.spent ∧
      args.claimedNullifier ∉ served.map VerifyArgs.claimedNullifier := by
    rw [h.spent, Finset.mem_union, not_or, List.mem_toFinset] at hfresh
    exact hfresh
  refine ⟨h.journals, ?_, ?_, ?_, ?_, ?_⟩
  · have hconfig := h.config
    rw [hauth.config_eq] at hconfig
    obtain ⟨config, hs, rfl⟩ := Option.map_eq_some_iff.mp hconfig.symm
    rw [hs, List.length_append]
    exact congrArg some (config.countBy_succ served.length)
  · show insert args.claimedNullifier s₁.spent = _
    rw [h.spent, hmap, List.toFinset_append, ← Finset.union_assoc,
      Finset.union_comm _ (List.toFinset [_])]
    rfl
  · rw [hmap]
    refine List.Nodup.append h.once (List.nodup_singleton _) ?_
    intro n hn hn'
    rw [List.mem_singleton] at hn'
    exact hnew.2 (hn' ▸ hn)
  · intro args' hmem
    rcases List.mem_append.mp hmem with hold | hlast
    · exact h.fresh args' hold
    · rw [List.mem_singleton.mp hlast]
      exact hnew.1
  · intro args' hmem
    rcases List.mem_append.mp hmem with hold | hlast
    · exact h.authorized args' hold
    · rw [List.mem_singleton.mp hlast]
      exact (h.isAuthorized_iff args).mp ⟨config₁, journal, hauth⟩

/-- A run of requests serves those it accepts. -/
theorem serves_runAll (env : Env) (s : Ledger) (requests : List VerifyArgs) :
    Serves env s (runAll (verifyPredicate env) s requests)
      (accepted (verifyPredicate env) s requests) :=
  history_invariant (fun _ _ _ _ => serves_verifyPredicate) [] (Serves.refl env s) requests

/-- The run extends the ledger. -/
theorem extends_requests (env : Env) (s : Ledger) (requests : List VerifyArgs) :
    Extends s (runAll (verifyPredicate env) s requests) :=
  runAll_grows Extends.refl (fun _ _ _ => Extends.trans)
    (fun _ args _ h => extends_exec env (.verifyPredicate args) h) s requests

/-! ## The order of requests -/

/-- The accepted requests are valid ones. -/
theorem valid_of_mem_accepted {requests : List VerifyArgs}
    (haccepts : ∀ args ∈ requests, AlwaysAccepts s args.consumer) {args : VerifyArgs}
    (hmem : args ∈ accepted (verifyPredicate env) s requests) : Valid env s args := by
  have hserves := serves_runAll env s requests
  exact (valid_iff (haccepts args (mem_of_mem_accepted hmem)) (Extends.refl s)).mpr
    ⟨hserves.authorized args hmem, hserves.fresh args hmem⟩

/-- A valid request leaves its nullifier spent, by itself or by one before it. -/
theorem claimed_mem_spent {requests : List VerifyArgs}
    (haccepts : ∀ args ∈ requests, AlwaysAccepts s args.consumer) {args : VerifyArgs}
    (hmem : args ∈ requests) (hvalid : Valid env s args) :
    args.claimedNullifier ∈ (runAll (verifyPredicate env) s requests).spent := by
  obtain ⟨before, after, rfl⟩ := List.append_of_mem hmem
  have hserves := serves_runAll env s before
  have hext := extends_requests env s before
  rw [runAll_append, runAll_cons]
  by_cases hspent : args.claimedNullifier ∈ (runAll (verifyPredicate env) s before).spent
  · have hrest := extends_requests env (runAll (verifyPredicate env) s before) (args :: after)
    exact hrest.spent hspent
  · obtain ⟨hauth, -⟩ := (valid_iff (haccepts args hmem) (Extends.refl s)).mp hvalid
    obtain ⟨s', hs'⟩ := (valid_iff (haccepts args hmem) hext).mpr
      ⟨(hserves.isAuthorized_iff args).mpr hauth, hspent⟩
    rw [attempt_of_ok hs']
    apply (extends_requests env s' after).spent
    obtain ⟨_, _, _, _, -, -, rfl⟩ := verifyPredicate_cases hs'
    exact Finset.mem_insert_self _ _

/-- **What is spent behind a run of requests.** -/
theorem mem_spent_iff {requests : List VerifyArgs}
    (haccepts : ∀ args ∈ requests, AlwaysAccepts s args.consumer) {n : Bytes32} :
    n ∈ (runAll (verifyPredicate env) s requests).spent ↔
      n ∈ s.spent ∨ ∃ args ∈ requests, args.claimedNullifier = n ∧ Valid env s args := by
  constructor
  · intro h
    rw [(serves_runAll env s requests).spent, Finset.mem_union, List.mem_toFinset,
      List.mem_map] at h
    rcases h with hold | ⟨args, hmem, rfl⟩
    · exact Or.inl hold
    · exact Or.inr ⟨args, mem_of_mem_accepted hmem, rfl, valid_of_mem_accepted haccepts hmem⟩
  · rintro (hold | ⟨args, hmem, rfl, hvalid⟩)
    · exact (extends_requests env s requests).spent hold
    · exact claimed_mem_spent haccepts hmem hvalid

/-- The number of accepted requests is the number of newly spent nullifiers. -/
theorem length_accepted (env : Env) (s : Ledger) (requests : List VerifyArgs) :
    (accepted (verifyPredicate env) s requests).length =
      ((runAll (verifyPredicate env) s requests).spent \ s.spent).card := by
  have h := serves_runAll env s requests
  have hdisjoint : Disjoint ((accepted (verifyPredicate env) s requests).map
      VerifyArgs.claimedNullifier).toFinset s.spent := by
    rw [Finset.disjoint_left]
    intro n hn
    obtain ⟨args, hmem, rfl⟩ := List.mem_map.mp (List.mem_toFinset.mp hn)
    exact h.fresh args hmem
  rw [h.spent, Finset.union_sdiff_left, Finset.sdiff_eq_self_of_disjoint hdisjoint,
    List.toFinset_card_of_nodup h.once, List.length_map]

/-- **The order of requests does not matter.**  From any ledger that transactions lead
to, any list of `verify_predicate` requests, naming consumers that accept, leads in
every order to the same spent set and the same config; what is newly spent is what the
requests valid at the start claim; only those succeed, and exactly one of those with the
same nullifier. -/
theorem order_irrelevant (env : Env) (txs : List Tx) {requests requests' : List VerifyArgs}
    (hperm : requests'.Perm requests)
    (haccepts : ∀ args ∈ requests,
      AlwaysAccepts (runAll (exec env) Ledger.deployed txs) args.consumer) :
    let s := runAll (exec env) Ledger.deployed txs
    (runAll (verifyPredicate env) s requests').spent =
      (runAll (verifyPredicate env) s requests).spent ∧
    (runAll (verifyPredicate env) s requests').config =
      (runAll (verifyPredicate env) s requests).config ∧
    (∀ n, n ∈ (runAll (verifyPredicate env) s requests').spent ↔
      n ∈ s.spent ∨ ∃ args ∈ requests, args.claimedNullifier = n ∧ Valid env s args) ∧
    (∀ args ∈ accepted (verifyPredicate env) s requests', Valid env s args) ∧
    ∀ args ∈ requests, Valid env s args →
      ((accepted (verifyPredicate env) s requests').map VerifyArgs.claimedNullifier).count
        args.claimedNullifier = 1 := by
  intro s
  have haccepts' : ∀ args ∈ requests', AlwaysAccepts s args.consumer :=
    fun args hmem => haccepts args (hperm.mem_iff.mp hmem)
  have hspent' : ∀ n, n ∈ (runAll (verifyPredicate env) s requests').spent ↔
      n ∈ s.spent ∨ ∃ args ∈ requests, args.claimedNullifier = n ∧ Valid env s args := by
    intro n
    rw [mem_spent_iff haccepts']
    simp only [hperm.mem_iff]
  have hspent : (runAll (verifyPredicate env) s requests').spent =
      (runAll (verifyPredicate env) s requests).spent := by
    ext n
    rw [hspent' n, mem_spent_iff haccepts]
  have hserves' := serves_runAll env s requests'
  refine ⟨hspent, ?_, hspent', fun args => valid_of_mem_accepted haccepts', ?_⟩
  · rw [hserves'.config, (serves_runAll env s requests).config, length_accepted,
      length_accepted, hspent]
  · intro args hmem hvalid
    refine List.count_eq_one_of_mem hserves'.once ?_
    have hnew := claimed_mem_spent haccepts' (hperm.mem_iff.mpr hmem) hvalid
    obtain ⟨-, hfresh⟩ := (valid_iff (haccepts args hmem) (Extends.refl s)).mp hvalid
    rw [hserves'.spent, Finset.mem_union, List.mem_toFinset] at hnew
    exact hnew.resolve_left hfresh

/-- A request for the nullifier of `oneEntryJournal`, by some caller. -/
def raceRequest (caller : Pubkey) : VerifyArgs :=
  { claim (acceptsOnly oneEntryJournal) oneEntryJournal someSeal 0 (Vector.replicate 32 6) with
    consumer := .registry
    caller := caller }

/-- The transactions before the race. -/
def raceSetUp : List Tx :=
  [.initializeConsumer (Vector.replicate 32 2),
    .initializeCoordinator (Vector.replicate 32 0) (Vector.replicate 32 1),
    .storeJournal oneEntryJournal]

theorem isSome_registry_raceSetUp (env : Env) :
    (runAll (exec env) Ledger.deployed raceSetUp).registry.isSome := by
  rw [raceSetUp, runAll_cons]
  exact (extends_runAll env _ _).registry rfl

/-- Two callers race for one nullifier: the ledger does not show who was first. -/
theorem order_irrelevant_race :
    let env := acceptsOnly oneEntryJournal
    let s := runAll (exec env) Ledger.deployed raceSetUp
    let alice := Vector.replicate 32 3
    let bob := Vector.replicate 32 4
    (runAll (verifyPredicate env) s [raceRequest bob, raceRequest alice]).spent =
      (runAll (verifyPredicate env) s [raceRequest alice, raceRequest bob]).spent := by
  refine (order_irrelevant (acceptsOnly oneEntryJournal) raceSetUp
    (List.Perm.swap (raceRequest (Vector.replicate 32 3)) (raceRequest (Vector.replicate 32 4)) [])
    fun args hmem => ?_).1
  have hconsumer : args.consumer = .registry := by
    rcases List.mem_cons.mp hmem with rfl | hmem
    · rfl
    · rw [List.mem_singleton.mp hmem]
      rfl
  rw [hconsumer]
  exact alwaysAccepts_registry (isSome_registry_raceSetUp _)

end Coordinator
end Tuniq
