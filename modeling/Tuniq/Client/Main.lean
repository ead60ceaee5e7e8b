import Tuniq.Client.IntegrationTest
import Tuniq.Library.Session

/-!
# A run of the devnet client

`main` of the client sets up the Verifier Router and both programs and then submits one
proof.  Each set-up transaction may fail, "may already exist, continuing"; everything else
that fails ends the program, and what was sent before stays.

What the cluster makes of a transaction is not in the source.  `Rpc` is the client's view
of it, with a state of its own, and `Rpc.Serves` what is relied on: the cluster runs what it
is sent on the ledger, and is asked by nobody else meanwhile.  An answer may be an error
although the transaction went through; a success it does report took place.

`main_only_sets_up` says what a run comes to, for every response and every cluster: it does
not end with success, since the data of its last transaction reaches no handler
(`verifyPredicateData_eq_ok`), and it has changed nothing but the registry and the config,
if these were not there.
-/

namespace Tuniq
namespace Client

open Coordinator Session

/-! ## The cluster -/

/-- What the client sends: an instruction of the Verifier Router, by its data, or one of the
programs of this repository. -/
inductive Sent where
  | router (data : List UInt8)
  | program (ix : RawInstruction)

/-- The calls of an RPC client.  Each answers whether it succeeded. -/
structure Rpc (κ : Type) where
  getBalance : κ → Bool × κ
  getLatestBlockhash : κ → Bool × κ
  sendAndConfirm : Sent → κ → Bool × κ

/-- The handlers an instruction can name. -/
def handlers : Program → List Str
  | .coordinator => ["initialize".toList, "store_journal".toList, "verify_predicate".toList]
  | .consumer => ["initialize".toList, "record_verification".toList]

/-- The data names a handler. -/
def NamesHandler (sha256 : List UInt8 → Bytes32) (ix : RawInstruction) : Prop :=
  ∃ name ∈ handlers ix.program, ∃ rest, ix.data = (discriminator sha256 name).toList ++ rest

/-- What an instruction does to the ledger, if its data reaches a handler. -/
def Runs (env : Env) (anchor : Anchor) (ix : RawInstruction) (s s' : Ledger) : Prop :=
  ∃ tx, anchor.tx ix = some tx ∧ exec env tx s = .ok s'

/-- The cluster runs the programs of this repository, for this client alone. -/
structure Rpc.Serves {κ : Type} (rpc : Rpc κ) (env : Env) (anchor : Anchor)
    (ledger : κ → Ledger) : Prop where
  getBalance : ∀ k, ledger (rpc.getBalance k).2 = ledger k
  getLatestBlockhash : ∀ k, ledger (rpc.getLatestBlockhash k).2 = ledger k
  router : ∀ data k, ledger (rpc.sendAndConfirm (.router data) k).2 = ledger k
  program : ∀ ix k, NamesHandler env.sha256 ix →
    ledger (rpc.sendAndConfirm (.program ix) k).2 = ledger k ∨
      Runs env anchor ix (ledger k) (ledger (rpc.sendAndConfirm (.program ix) k).2)
  success : ∀ ix k, NamesHandler env.sha256 ix → (rpc.sendAndConfirm (.program ix) k).1 = true →
    Runs env anchor ix (ledger k) (ledger (rpc.sendAndConfirm (.program ix) k).2)

/-! ## The program -/

/-- Why `main` returns an error. -/
inductive ClientError where
  /-- The response cannot be read or decoded. -/
  | response
  | fromHex
  | keypair
  | rpc
  deriving DecidableEq, Repr

/-- `?` on the result of `hex::decode`. -/
def liftHex {α : Type} : Except (Stop FromHexError) α → Except (Stop ClientError) α
  | .ok a => .ok a
  | .error (.err .fromHex) => .error (.err .fromHex)
  | .error (.fault f) => .error (.fault f)

theorem liftHex_eq_ok {α : Type} {x : Except (Stop FromHexError) α} {a : α} :
    liftHex x = .ok a ↔ x = .ok a := by
  rcases x with (⟨⟨⟩⟩ | f) | b <;> simp [liftHex]

theorem okOr_eq_ok {ε α : Type} {x : Option α} {e : ε} {a : α} :
    okOr x e = .ok a ↔ x = some a := by
  cases x <;> simp

theorem liftFault_eq_ok {ε α : Type} {x : Except Fault α} {a : α} :
    (liftFault x : Except (Stop ε) α) = .ok a ↔ x = .ok a := by
  cases x <;> simp

/-- A call that ends the program with its error. -/
def orReturn {κ : Type} (op : κ → Bool × κ) (k : κ) : Except (Stop ClientError) Unit × κ :=
  (require (op k).1 .rpc, (op k).2)

theorem orReturn_eq_ok {κ : Type} {op : κ → Bool × κ} {k : κ} {u : Unit} :
    (orReturn op k).1 = .ok u ↔ (op k).1 = true := by
  rw [orReturn]
  cases (op k).1 <;> simp

section

variable {κ : Type} (rpc : Rpc κ) (sha256 : List UInt8 → Bytes32)

/-- The seal starts with the selector. -/
def readSelector (bytes : List UInt8) : Except Fault (Vector UInt8 4) := do
  let bytes ← slice bytes 0 4
  tryIntoArray 4 bytes

/-- `NULLIFIER_HEX`, as bytes. -/
def readNullifier : Except (Stop FromHexError) Bytes32 := do
  let bytes ← okOr (hexDecode nullifierHex) .fromHex
  liftFault (tryIntoArray 32 bytes)

/-- `main`, given the response and the payer's key, if they can be read.  The last
instruction's data is computed as `verifyPredicateData` does, which reads the constants
again. -/
def main (response : Option WrapResponse) (keypair : Option Pubkey) :
    Session κ (Stop ClientError) Unit := do
  let resp ← lift (okOr response .response)
  let imageId ← lift (liftFault (parseImageId resp.imageIdHex))
  let _ ← lift (liftHex readNullifier)
  let selector ← lift (liftFault (readSelector resp.sealBytes))
  let payer ← lift (okOr keypair .keypair)
  ask (orReturn rpc.getBalance)
  ask (orReturn rpc.getLatestBlockhash)
  -- the Verifier Router
  ask (orReturn rpc.getLatestBlockhash)
  tell (orReturn (rpc.sendAndConfirm
    (.router (discriminator sha256 "initialize".toList).toList)))
  ask (orReturn rpc.getLatestBlockhash)
  tell (orReturn (rpc.sendAndConfirm
    (.router ((discriminator sha256 "add_verifier".toList).toList ++ selector.toList))))
  -- the consumer
  tell (orReturn (rpc.sendAndConfirm (.program
    ⟨.consumer, (discriminator sha256 "initialize".toList).toList, payer, .registry⟩)))
  -- the coordinator
  ask (orReturn rpc.getLatestBlockhash)
  tell (orReturn (rpc.sendAndConfirm (.program
    ⟨.coordinator, initializeData sha256 imageId payer, payer, .registry⟩)))
  -- the proof
  let data ← lift (liftHex (verifyPredicateData sha256 resp))
  ask (orReturn rpc.getLatestBlockhash)
  ask (orReturn (rpc.sendAndConfirm (.program ⟨.coordinator, data, payer, .registry⟩)))

end

/-! ## What a run may change -/

/-- The ledger `s'` is `s` with what the client sets up, where it was not there. -/
structure SetsUp (response : Option WrapResponse) (keypair : Option Pubkey) (s s' : Ledger) :
    Prop where
  journals : s'.journals = s.journals
  spent : s'.spent = s.spent
  events : s'.events = s.events
  config : s'.config = s.config ∨ s.config = none ∧ ∃ resp imageId payer,
    response = some resp ∧ parseImageId resp.imageIdHex = .ok imageId ∧ keypair = some payer ∧
      s'.config = some { imageId := imageId, authority := payer, verifiedCount := 0 }
  registry : s'.registry = s.registry ∨ s.registry = none ∧ ∃ payer,
    keypair = some payer ∧ s'.registry = some { verifiedCount := 0, authority := payer }

variable {response : Option WrapResponse} {keypair : Option Pubkey}

theorem SetsUp.refl (s : Ledger) : SetsUp response keypair s s :=
  ⟨rfl, rfl, rfl, Or.inl rfl, Or.inl rfl⟩

theorem SetsUp.trans {s u v : Ledger} (h : SetsUp response keypair s u)
    (h' : SetsUp response keypair u v) : SetsUp response keypair s v where
  journals := h'.journals.trans h.journals
  spent := h'.spent.trans h.spent
  events := h'.events.trans h.events
  config := by
    rcases h.config with hsame | hnew
    · rw [← hsame]
      exact h'.config
    · obtain ⟨hnone, resp, imageId, payer, hresp, himage, hpayer, hu⟩ := hnew
      rcases h'.config with hsame' | ⟨hnone', -⟩
      · exact Or.inr ⟨hnone, resp, imageId, payer, hresp, himage, hpayer, hsame'.trans hu⟩
      · rw [hnone'] at hu
        cases hu
  registry := by
    rcases h.registry with hsame | hnew
    · rw [← hsame]
      exact h'.registry
    · obtain ⟨hnone, payer, hpayer, hu⟩ := hnew
      rcases h'.registry with hsame' | ⟨hnone', -⟩
      · exact Or.inr ⟨hnone, payer, hpayer, hsame'.trans hu⟩
      · rw [hnone'] at hu
        cases hu

theorem SetsUp.of_eq {s s' : Ledger} (h : s' = s) : SetsUp response keypair s s' := by
  rw [h]
  exact .refl s

/-! ## The instructions -/

variable {env : Env} {anchor : Anchor} {payer : Pubkey} {s s' : Ledger}

theorem setsUp_consumer (hanchor : anchor.Lawful env.sha256) (hpayer : keypair = some payer)
    (h : Runs env anchor ⟨.consumer, (discriminator env.sha256 "initialize".toList).toList,
      payer, .registry⟩ s s') : SetsUp response keypair s s' := by
  obtain ⟨tx, htx, hexec⟩ := h
  rw [Anchor.tx, hanchor.initialize_consumer] at htx
  obtain rfl := Option.some.inj htx
  obtain ⟨hnone, rfl⟩ := initializeConsumer_eq_ok.mp hexec
  have hsame : SetsUp response keypair s s := .refl s
  exact { hsame with registry := Or.inr ⟨hnone, payer, hpayer, rfl⟩ }

theorem setsUp_coordinator (hanchor : anchor.Lawful env.sha256) {resp : WrapResponse}
    {imageId : Bytes32} (hresp : response = some resp)
    (himage : parseImageId resp.imageIdHex = .ok imageId) (hpayer : keypair = some payer)
    (h : Runs env anchor ⟨.coordinator, initializeData env.sha256 imageId payer, payer,
      .registry⟩ s s') : SetsUp response keypair s s' := by
  obtain ⟨tx, htx, hexec⟩ := h
  rw [Anchor.tx, initializeData, hanchor.initialize_coordinator] at htx
  obtain rfl := Option.some.inj htx
  obtain ⟨hnone, rfl⟩ := initializeCoordinator_eq_ok.mp hexec
  have hsame : SetsUp response keypair s s := .refl s
  exact { hsame with
    config := Or.inr ⟨hnone, resp, imageId, payer, hresp, himage, hpayer, rfl⟩ }

/-- The data of the last instruction names `verify_predicate`, and 324 bytes are behind the
name. -/
theorem verifyPredicateData_eq_ok {sha256 : List UInt8 → Bytes32} {resp : WrapResponse}
    {data : List UInt8} (h : verifyPredicateData sha256 resp = .ok data) :
    ∃ rest, data = (discriminator sha256 "verify_predicate".toList).toList ++ rest ∧
      rest.length = 324 := by
  have hlen := length_verifyPredicateData h
  rw [verifyPredicateData] at h
  obtain ⟨imageId, -, h⟩ := bind_eq_ok.mp h
  obtain ⟨n, -, h⟩ := bind_eq_ok.mp h
  obtain ⟨nullifier, -, h⟩ := bind_eq_ok.mp h
  obtain ⟨proofSeal, -, h⟩ := bind_eq_ok.mp h
  obtain ⟨d, -, h⟩ := bind_eq_ok.mp h
  obtain ⟨digest, -, h⟩ := bind_eq_ok.mp h
  have hdata := (Except.ok.inj h).symm
  refine ⟨_, hdata, ?_⟩
  rw [hdata, List.length_append, Vector.length_toList] at hlen
  omega

/-! ## A run -/

section

variable {κ : Type} {rpc : Rpc κ} {ledger : κ → Ledger}

/-- A run keeps to the set-up, and returns no value. -/
theorem keeps_main (hserves : rpc.Serves env anchor ledger)
    (hanchor : anchor.Lawful env.sha256) (response : Option WrapResponse)
    (keypair : Option Pubkey) :
    Keeps (fun k k' => SetsUp response keypair (ledger k) (ledger k'))
      (main rpc env.sha256 response keypair) fun _ => False := by
  have hrefl : ∀ k, SetsUp response keypair (ledger k) (ledger k) := fun k => SetsUp.refl _
  have htrans : ∀ x y z, SetsUp response keypair (ledger x) (ledger y) →
      SetsUp response keypair (ledger y) (ledger z) →
      SetsUp response keypair (ledger x) (ledger z) := fun _ _ _ => SetsUp.trans
  have hbalance : Keeps (fun k k' => SetsUp response keypair (ledger k) (ledger k'))
      (ask (orReturn rpc.getBalance)) fun _ => True :=
    keeps_ask (fun k => .of_eq (hserves.getBalance k)) fun _ _ _ => trivial
  have hblockhash : Keeps (fun k k' => SetsUp response keypair (ledger k) (ledger k'))
      (ask (orReturn rpc.getLatestBlockhash)) fun _ => True :=
    keeps_ask (fun k => .of_eq (hserves.getLatestBlockhash k)) fun _ _ _ => trivial
  have hrouter : ∀ data, Keeps (fun k k' => SetsUp response keypair (ledger k) (ledger k'))
      (tell (orReturn (rpc.sendAndConfirm (.router data)))) fun _ => True :=
    fun data => keeps_tell fun k => .of_eq (hserves.router data k)
  unfold main
  refine .bind htrans (keeps_lift hrefl _) fun resp hresp => ?_
  refine .bind htrans (keeps_lift hrefl _) fun imageId himage => ?_
  refine .bind htrans (keeps_lift hrefl _) fun _ _ => ?_
  refine .bind htrans (keeps_lift hrefl _) fun selector _ => ?_
  refine .bind htrans (keeps_lift hrefl _) fun payer hpayer => ?_
  refine .bind htrans hbalance fun _ _ => .bind htrans hblockhash fun _ _ => ?_
  -- the Verifier Router
  refine .bind htrans hblockhash fun _ _ => .bind htrans (hrouter _) fun _ _ => ?_
  refine .bind htrans hblockhash fun _ _ => .bind htrans (hrouter _) fun _ _ => ?_
  -- the consumer
  refine .bind htrans (keeps_tell fun k => ?_) fun _ _ => .bind htrans hblockhash fun _ _ => ?_
  · refine (hserves.program _ k ⟨_, List.mem_cons_self, [], (List.append_nil _).symm⟩).elim
      .of_eq ?_
    exact setsUp_consumer hanchor (okOr_eq_ok.mp hpayer)
  -- the coordinator
  refine .bind htrans (keeps_tell fun k => ?_) fun _ _ => ?_
  · refine (hserves.program _ k ⟨_, List.mem_cons_self, _, rfl⟩).elim .of_eq ?_
    exact setsUp_coordinator hanchor (okOr_eq_ok.mp hresp) (liftFault_eq_ok.mp himage)
      (okOr_eq_ok.mp hpayer)
  -- the proof: its data reaches no handler
  refine .bind htrans (keeps_lift hrefl _) fun data hdata => .bind htrans hblockhash fun _ _ => ?_
  obtain ⟨rest, hnamed, hrest⟩ := verifyPredicateData_eq_ok (liftHex_eq_ok.mp hdata)
  have hnames : NamesHandler env.sha256 ⟨.coordinator, data, payer, .registry⟩ :=
    ⟨"verify_predicate".toList, by simp [handlers], rest, hnamed⟩
  have hnone : ∀ s s', ¬ Runs env anchor ⟨.coordinator, data, payer, .registry⟩ s s' := by
    rintro s s' ⟨tx, htx, -⟩
    rw [Anchor.tx, hnamed, hanchor.verify_predicate_short rest (by omega)] at htx
    cases htx
  refine keeps_ask (fun k => ?_) fun k _ hok => ?_
  · exact .of_eq ((hserves.program _ k hnames).resolve_right (hnone _ _))
  · exact hnone _ _ (hserves.success _ k hnames (orReturn_eq_ok.mp hok))

/-- **The client sets up and does nothing else.**  On every cluster and for every response
and key, a run does not end with success; it leaves the journals, the spent nullifiers and
the events as they are, and the config and the registry too unless they were not there. -/
theorem main_only_sets_up (hserves : rpc.Serves env anchor ledger)
    (hanchor : anchor.Lawful env.sha256) (response : Option WrapResponse)
    (keypair : Option Pubkey) (k : κ) :
    (∀ u, (main rpc env.sha256 response keypair k).1 ≠ .ok u) ∧
      SetsUp response keypair (ledger k)
        (ledger (main rpc env.sha256 response keypair k).2) := by
  obtain ⟨hmove, hvalue⟩ := keeps_main hserves hanchor response keypair k
  exact ⟨fun u hu => hvalue u hu, hmove⟩

end

/-- A cluster that runs what it is sent, on the ledger alone. -/
def testRpc : Rpc Ledger where
  getBalance := fun s => (true, s)
  getLatestBlockhash := fun s => (true, s)
  sendAndConfirm := fun sent s =>
    match sent with
    | .router _ => (true, s)
    | .program ix =>
      match testAnchor.tx ix with
      | none => (false, s)
      | some tx =>
        match exec testEnv tx s with
        | .ok s' => (true, s')
        | .error _ => (false, s)

theorem serves_testRpc : testRpc.Serves testEnv testAnchor id := by
  have hsend : ∀ ix s, testRpc.sendAndConfirm (.program ix) s = (false, s) ∨
      ∃ s', testRpc.sendAndConfirm (.program ix) s = (true, s') ∧
        Runs testEnv testAnchor ix s s' := by
    intro ix s
    simp only [testRpc]
    split
    · exact Or.inl rfl
    · rename_i tx htx
      split
      · rename_i s' hs'
        exact Or.inr ⟨s', rfl, tx, htx, hs'⟩
      · exact Or.inl rfl
  refine ⟨fun _ => rfl, fun _ => rfl, fun _ _ => rfl, fun ix s _ => ?_, fun ix s _ hok => ?_⟩
  · rcases hsend ix s with hfail | ⟨s', hs', hruns⟩
    · rw [hfail]
      exact Or.inl rfl
    · rw [hs']
      exact Or.inr hruns
  · rcases hsend ix s with hfail | ⟨s', hs', hruns⟩
    · rw [hfail] at hok
      cases hok
    · rw [hs']
      exact hruns

/-- On a fresh cluster the set-up is all that is left of a run. -/
theorem main_only_sets_up_oneEntry :
    let run := main testRpc testSha256 (some oneEntryResponse) (some (Vector.replicate 32 9))
      Ledger.deployed
    (∀ u, run.1 ≠ .ok u) ∧
      SetsUp (some oneEntryResponse) (some (Vector.replicate 32 9)) Ledger.deployed run.2 ∧
      run.2.config = some ⟨Vector.replicate 32 0, Vector.replicate 32 9, 0⟩ ∧
      run.2.registry = some ⟨0, Vector.replicate 32 9⟩ := by
  have hrun := main_only_sets_up serves_testRpc lawful_testAnchor (some oneEntryResponse)
    (some (Vector.replicate 32 9)) Ledger.deployed
  exact ⟨hrun.1, hrun.2, by decide +kernel, by decide +kernel⟩

end Client
end Tuniq
