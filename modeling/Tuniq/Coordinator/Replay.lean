import Tuniq.Coordinator.CircuitOutput
import Tuniq.Coordinator.LedgerRules

/-!
# One proof, one use

The replay guard is an account for one nullifier, the one a caller picks from the
journal by its index.  A journal may carry several, and `verify_predicate` spends
only the one picked.  So the guard covers the whole proof exactly when there is
nothing else to pick:

* in a run in which each verified journal carries one nullifier, no two accepted
  proofs have a nullifier in common, and so none is accepted twice
  (`one_use_of_single`);
* any journal that carries two and has an accepted seal can be verified once for
  each of them (`not_oneUse_of_two`).
-/

namespace Tuniq
namespace Coordinator

variable {env : Env}

/-- The nullifiers in `new_nullifiers` of a journal. -/
def newNullifiers (journal : Bytes .w64) : Set Bytes32 :=
  {n | ∃ index, decodeNullifierFromJournal sbf journal index = .ok n}

/-- **One proof, one use**, in a run from the deployment: two `verify_predicate`
transactions that succeed, one after the other, have journals without a nullifier in
common. -/
def OneUse (env : Env) (txs : List Tx) : Prop :=
  ∀ (before between after : List Tx) (args args' : VerifyArgs) (s₁ s₂ : Ledger)
    (journal journal' : Bytes .w64),
    txs = before ++ .verifyPredicate args :: (between ++ .verifyPredicate args' :: after) →
    verifyPredicate env args (runAll (exec env) Ledger.deployed before) = .ok s₁ →
    (runAll (exec env) Ledger.deployed before).journals args.journalDigest = some journal →
    verifyPredicate env args' (runAll (exec env) Ledger.deployed
      (before ++ .verifyPredicate args :: between)) = .ok s₂ →
    (runAll (exec env) Ledger.deployed
      (before ++ .verifyPredicate args :: between)).journals args'.journalDigest =
        some journal' →
    Disjoint (newNullifiers journal) (newNullifiers journal')

/-- Each accepted `verify_predicate` of the run names a journal that carries one
nullifier.  Those that fail may name any. -/
def SingleNullifiers (env : Env) (txs : List Tx) : Prop :=
  ∀ (before after : List Tx) (args : VerifyArgs) (s' : Ledger) (journal : Bytes .w64),
    txs = before ++ .verifyPredicate args :: after →
    verifyPredicate env args (runAll (exec env) Ledger.deployed before) = .ok s' →
    (runAll (exec env) Ledger.deployed before).journals args.journalDigest = some journal →
    (newNullifiers journal).Subsingleton

/-- The nullifier an accepted transaction claims is one of its journal. -/
theorem claimed_mem_newNullifiers {s s' : Ledger} {args : VerifyArgs} {journal : Bytes .w64}
    (h : verifyPredicate env args s = .ok s')
    (hjournal : s.journals args.journalDigest = some journal) :
    args.claimedNullifier ∈ newNullifiers journal := by
  obtain ⟨config, journal', registry, events, hauth, -⟩ := verifyPredicate_cases h
  obtain rfl := Option.some.inj (hauth.journal_eq.symm.trans hjournal)
  exact ⟨args.nullifierIndex, hauth.decodes⟩

/-- Journals with one nullifier each are used once. -/
theorem oneUse_of_singleNullifiers {txs : List Tx} (h : SingleNullifiers env txs) :
    OneUse env txs := by
  intro before between after args args' s₁ s₂ journal journal' htxs hok hjournal hok' hjournal'
  have hmem := claimed_mem_newNullifiers hok hjournal
  have hmem' := claimed_mem_newNullifiers hok' hjournal'
  have hsingle := h before _ args s₁ journal htxs hok hjournal
  have hsingle' := h (before ++ .verifyPredicate args :: between) after args' s₂ journal'
    (by rw [htxs, List.append_assoc, List.cons_append]) hok' hjournal'
  -- what the first one spent is still spent when the second one succeeds
  have hexec : exec env (.verifyPredicate args) (runAll (exec env) Ledger.deployed before) =
      .ok s₁ := hok
  have hrun : runAll (exec env) Ledger.deployed (before ++ .verifyPredicate args :: between) =
      runAll (exec env) s₁ between := by
    rw [runAll_append, runAll_cons, attempt_of_ok hexec]
  have hspent : args.claimedNullifier ∈ s₁.spent := by
    obtain ⟨config, -, registry, events, -, -, rfl⟩ := verifyPredicate_cases hok
    exact Finset.mem_insert_self _ _
  have hfresh : args'.claimedNullifier ∉ (runAll (exec env) s₁ between).spent := by
    rw [hrun] at hok'
    obtain ⟨-, -, -, -, -, hfresh, -⟩ := verifyPredicate_cases hok'
    exact hfresh
  rw [Set.disjoint_left]
  intro n hn hn'
  have hn : n = args.claimedNullifier := hsingle hn hmem
  have hn' : n = args'.claimedNullifier := hsingle' hn' hmem'
  rw [← hn', hn] at hfresh
  exact hfresh ((extends_runAll env s₁ between).spent hspent)

/-! ## Two nullifiers, two uses -/

/-- The transactions that verify a journal twice. -/
def twoUses (imageId : Bytes32) (journal : Bytes .w64) (args args' : VerifyArgs) : List Tx :=
  [.initializeCoordinator (Vector.replicate 32 0) imageId, .storeJournal journal,
    .verifyPredicate args, .verifyPredicate args']

/-- The arguments that claim a nullifier of a journal, with a consumer that accepts. -/
def claim (env : Env) (journal : Bytes .w64) (proofSeal : Seal) (index : UInt8)
    (nullifier : Bytes32) : VerifyArgs where
  proofSeal := proofSeal
  journalDigest := env.sha256 journal.toList
  nullifierIndex := index
  claimedNullifier := nullifier
  consumer := .other true []
  caller := Vector.replicate 32 0

/-- A journal with two nullifiers is verified once for each. -/
theorem not_oneUse_of_two {journal : Bytes .w64} {proofSeal : Seal} {imageId : Bytes32}
    {index index' : UInt8} {n n' : Bytes32} (hlen : journal.len ≤ maxJournalLen)
    (haccepts : env.routerAccepts proofSeal imageId (env.sha256 journal.toList) = true)
    (hn : decodeNullifierFromJournal sbf journal index = .ok n)
    (hn' : decodeNullifierFromJournal sbf journal index' = .ok n') (hne : n ≠ n') :
    ¬ OneUse env (twoUses imageId journal (claim env journal proofSeal index n)
      (claim env journal proofSeal index' n')) := by
  intro hone
  -- the ledger with the journal stored
  let config : Config := ⟨imageId, Vector.replicate 32 0, 0⟩
  let stored : Ledger := { Ledger.deployed with
    config := some config
    journals := Function.update Ledger.deployed.journals (env.sha256 journal.toList)
      (some journal) }
  have hinit : exec env (.initializeCoordinator (Vector.replicate 32 0) imageId)
      Ledger.deployed = .ok { Ledger.deployed with config := some config } :=
    initializeCoordinator_eq_ok.mpr ⟨rfl, rfl⟩
  have hstore : exec env (.storeJournal journal)
      { Ledger.deployed with config := some config } = .ok stored :=
    storeJournal_eq_ok.mpr ⟨rfl, hlen, rfl⟩
  have hstored : runAll (exec env) Ledger.deployed
      [.initializeCoordinator (Vector.replicate 32 0) imageId, .storeJournal journal] =
        stored := by
    rw [runAll_cons, attempt_of_ok hinit, runAll_cons, attempt_of_ok hstore, runAll_nil]
  have hjournal : stored.journals (env.sha256 journal.toList) = some journal :=
    Function.update_self ..
  -- the first claim
  have hauth : Authorized env stored (claim env journal proofSeal index n) config journal :=
    ⟨rfl, hjournal, rfl, hn, haccepts⟩
  have hfirst : exec env (.verifyPredicate (claim env journal proofSeal index n)) stored = .ok _ :=
    verifyPredicate_of_authorized hauth (Finset.notMem_empty _) rfl
  -- the second, of another nullifier
  have hauth' : Authorized env { stored.spend config n with
        events := stored.events ++ [.predicateVerified (Vector.replicate 32 0) n] }
      (claim env journal proofSeal index' n') { config with
        verifiedCount := saturatingAdd config.verifiedCount 1 } journal :=
    ⟨rfl, hjournal, rfl, hn', haccepts⟩
  have hfresh : n' ∉ (stored.spend config n).spent := by
    intro hmem
    rcases Finset.mem_insert.mp hmem with heq | hempty
    · exact hne heq.symm
    · exact Finset.notMem_empty _ hempty
  have hsecond := verifyPredicate_of_authorized hauth' hfresh rfl
  have hboth : runAll (exec env) Ledger.deployed
      ([.initializeCoordinator (Vector.replicate 32 0) imageId, .storeJournal journal] ++
        .verifyPredicate (claim env journal proofSeal index n) :: []) =
      { stored.spend config n with
        events := stored.events ++ [.predicateVerified (Vector.replicate 32 0) n] } := by
    rw [runAll_append, hstored, runAll_cons, attempt_of_ok hfirst]
    rfl
  have hdisjoint := hone
    [.initializeCoordinator (Vector.replicate 32 0) imageId, .storeJournal journal] [] []
    (claim env journal proofSeal index n) (claim env journal proofSeal index' n') _ _
    journal journal rfl (by rw [hstored]; exact hfirst) (by rw [hstored]; exact hjournal)
    (by rw [hboth]; exact hsecond) (by rw [hboth]; exact hjournal)
  exact Set.disjoint_left.mp hdisjoint ⟨index, hn⟩ ⟨index, hn⟩

/-- **One proof is used once where a proof has one nullifier.**  In every run whose
accepted `verify_predicate` transactions name journals with one nullifier each, two accepted
proofs have no nullifier in common.  Where a proof has two, it may be used twice: a
journal that can be stored, whose proof the router accepts and that carries two
nullifiers is verified twice in some run that stores no other journal. -/
theorem one_use_of_single (env : Env) :
    (∀ txs, SingleNullifiers env txs → OneUse env txs) ∧
    ∀ (journal : Bytes .w64) (proofSeal : Seal) (imageId : Bytes32),
      journal.len ≤ maxJournalLen →
      env.routerAccepts proofSeal imageId (env.sha256 journal.toList) = true →
      ¬ (newNullifiers journal).Subsingleton →
      ∃ txs, (∀ j, Tx.storeJournal j ∈ txs → j = journal) ∧ ¬ OneUse env txs := by
  refine ⟨fun txs => oneUse_of_singleNullifiers, ?_⟩
  intro journal proofSeal imageId hlen haccepts hmany
  obtain ⟨n, ⟨index, hn⟩, n', ⟨index', hn'⟩, hne⟩ := Set.not_subsingleton_iff.mp hmany
  refine ⟨_, ?_, not_oneUse_of_two hlen haccepts hn hn' hne⟩
  intro j hj
  simpa [twoUses] using hj

/-! ## Two journals -/

/-- A journal account holds what a `store_journal` of the run stored. -/
theorem storeJournal_mem {P : Bytes .w64 → Prop} {s : Ledger} {txs : List Tx}
    (hs : ∀ d journal, s.journals d = some journal → P journal)
    (htxs : ∀ journal, Tx.storeJournal journal ∈ txs → P journal) {d : Bytes32}
    {journal : Bytes .w64} (h : (runAll (exec env) s txs).journals d = some journal) :
    P journal := by
  induction txs generalizing s with
  | nil => exact hs d journal h
  | cons tx txs ih =>
    refine ih (s := attempt (exec env) s tx) ?_ (fun j hj => htxs j (List.mem_cons_of_mem _ hj)) h
    cases htx : exec env tx s with
    | error e =>
      rw [attempt_of_error htx]
      exact hs
    | ok s' =>
      rw [attempt_of_ok htx]
      cases tx with
      | initializeCoordinator authority imageId =>
        obtain ⟨-, rfl⟩ := initializeCoordinator_eq_ok.mp htx
        exact hs
      | storeJournal j =>
        obtain ⟨-, -, rfl⟩ := storeJournal_eq_ok.mp htx
        intro d' j' hj'
        dsimp only at hj'
        by_cases hd : d' = env.sha256 j.toList
        · rw [hd, Function.update_self] at hj'
          exact htxs j' (Option.some.inj hj' ▸ List.mem_cons_self)
        · rw [Function.update_of_ne hd] at hj'
          exact hs d' j' hj'
      | verifyPredicate args =>
        obtain ⟨config, -, registry, events, -, -, rfl⟩ := verifyPredicate_cases htx
        exact hs
      | initializeConsumer authority =>
        obtain ⟨-, rfl⟩ := initializeConsumer_eq_ok.mp htx
        exact hs
      | recordVerification nullifier =>
        obtain ⟨registry, -, rfl⟩ := recordVerification_eq_ok.mp htx
        exact hs

/-- A run that stores journals with one nullifier verifies no others. -/
theorem singleNullifiers_of_stored {txs : List Tx}
    (h : ∀ journal, Tx.storeJournal journal ∈ txs → (newNullifiers journal).Subsingleton) :
    SingleNullifiers env txs := by
  intro before after args _ journal htxs _ hjournal
  refine storeJournal_mem (P := fun j => (newNullifiers j).Subsingleton) ?_ ?_ hjournal
  · exact fun d j hj => absurd hj (by simp [Ledger.deployed])
  · intro j hj
    exact h j (htxs ▸ List.mem_append_left _ hj)

/-- The journal of an output with one entry carries one nullifier. -/
theorem subsingleton_newNullifiers {o : CircuitOutput} {journal : Bytes .w64}
    (h : journal.toList = o.encode) (hlen : o.newNullifiers.toList.length = 1) :
    (newNullifiers journal).Subsingleton := by
  have hfirst : ∀ n ∈ newNullifiers journal,
      o.newNullifiers.toList[0]?.map Prod.fst = some n := by
    rintro n ⟨index, hn⟩
    rw [decodeNullifierFromJournal_wordBytes (t := sbf) h, decodeWords_words] at hn
    split at hn
    · cases hentry : o.newNullifiers.toList[index.toNat]? with
      | none =>
        rw [hentry] at hn
        exact absurd hn (by simp [Except.mapError])
      | some entry =>
        rw [hentry] at hn
        have hlt := (List.getElem?_eq_some_iff.mp hentry).1
        obtain hzero : index.toNat = 0 := by omega
        rw [hzero] at hentry
        rw [hentry]
        exact congrArg some (Except.ok.inj hn)
    · exact absurd hn (by simp [Except.mapError])
  intro n hn n' hn'
  exact Option.some.inj ((hfirst n hn).symm.trans (hfirst n' hn'))

/-- An output with one entry. -/
def oneEntry : CircuitOutput := { twoEntries with
  newNullifiers := ⟨[(Vector.replicate 32 6, Vector.replicate 32 9)], by decide⟩ }

def oneEntryJournal : Bytes .w64 := ⟨oneEntry.encode, by decide +kernel⟩

/-- A router that accepts the proofs of one journal, and a hash that is good enough to
tell it from others: its first bytes. -/
def acceptsOnly (journal : Bytes .w64) : Env where
  sha256 := fun bytes => Vector.ofFn fun i => bytes.getD i 0
  routerAccepts := fun _ _ digest => digest = Vector.ofFn fun i => journal.toList.getD i 0

/-- The seal of a proof. -/
def someSeal : Seal :=
  ⟨Vector.replicate 4 1, Vector.replicate 64 2, Vector.replicate 128 3, Vector.replicate 64 4⟩

/-- A journal with one entry, verified twice: the second time fails. -/
theorem one_use_of_single_oneEntry :
    OneUse (acceptsOnly oneEntryJournal) (twoUses (Vector.replicate 32 1) oneEntryJournal
      (claim (acceptsOnly oneEntryJournal) oneEntryJournal someSeal 0 (Vector.replicate 32 6))
      (claim (acceptsOnly oneEntryJournal) oneEntryJournal someSeal 0
        (Vector.replicate 32 6))) := by
  refine (one_use_of_single (acceptsOnly oneEntryJournal)).1 _ (singleNullifiers_of_stored ?_)
  intro journal hjournal
  obtain rfl : journal = oneEntryJournal := by simpa [twoUses] using hjournal
  exact subsingleton_newNullifiers (o := oneEntry) rfl rfl

/-- Both nullifiers of `twoEntriesJournal` can be claimed. -/
theorem decode_twoEntriesJournal (index : UInt8) :
    decodeNullifierFromJournal sbf twoEntriesJournal index =
      (decodeWords twoEntries.words index.toNat).mapError .err :=
  decodeNullifierFromJournal_wordBytes (t := sbf) rfl index

/-- **A proof may be used twice.** -/
theorem two_uses_of_one_proof :
    ¬ ∀ (env : Env) (txs : List Tx),
      Set.InjOn env.sha256 {bytes | ∃ journal, Tx.storeJournal journal ∈ txs ∧
        journal.toList = bytes} → OneUse env txs := by
  intro hall
  have hfirst : decodeNullifierFromJournal sbf twoEntriesJournal 0 =
      .ok (Vector.replicate 32 6) := by
    refine (decode_twoEntriesJournal 0).trans ?_
    rw [decodeWords_words]
    rfl
  have hsecond : decodeNullifierFromJournal sbf twoEntriesJournal 1 =
      .ok (Vector.replicate 32 7) := by
    refine (decode_twoEntriesJournal 1).trans ?_
    rw [decodeWords_words]
    rfl
  have hlen : twoEntriesJournal.len ≤ maxJournalLen := by decide +kernel
  have haccepts : (acceptsOnly twoEntriesJournal).routerAccepts someSeal (Vector.replicate 32 1)
      ((acceptsOnly twoEntriesJournal).sha256 twoEntriesJournal.toList) = true := by
    simp [acceptsOnly]
  have hnot := not_oneUse_of_two hlen haccepts hfirst hsecond (by decide)
  refine hnot (hall _ _ ?_)
  -- only one journal is stored
  have hstored : ∀ bytes, (∃ journal, Tx.storeJournal journal ∈ twoUses (Vector.replicate 32 1)
      twoEntriesJournal (claim (acceptsOnly twoEntriesJournal) twoEntriesJournal someSeal 0
        (Vector.replicate 32 6)) (claim (acceptsOnly twoEntriesJournal) twoEntriesJournal
        someSeal 1 (Vector.replicate 32 7)) ∧ journal.toList = bytes) →
      bytes = twoEntriesJournal.toList := by
    rintro bytes ⟨journal, hmem, rfl⟩
    obtain rfl : journal = twoEntriesJournal := by simpa [twoUses] using hmem
    rfl
  intro bytes hbytes bytes' hbytes' _
  exact (hstored bytes hbytes).trans (hstored bytes' hbytes').symm

end Coordinator
end Tuniq
