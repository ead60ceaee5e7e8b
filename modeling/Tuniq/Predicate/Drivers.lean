import Tuniq.Interpreter.Portability
import Tuniq.Library.Codec
import Tuniq.Predicate.Loader
import Tuniq.Predicate.Setup

/-!
# The drivers

Two programs run a text on a balance and a threshold.

* The **harness** runs it on the host: `run_predicate`.
* The **prover** runs it in the guest: `prove_predicate` writes the text and the
  input buffer to the guest's input, the guest's `main` reads them back, runs the
  machine and commits `(r0, true)` when `vm.run()` returned `Ok(r0)` and
  `(u64::MAX, false)` when it returned an error; the prover decodes the pair from
  the journal of the verified receipt and returns its second component.

How values travel between prover and guest is the business of a serialiser, and
enters as a parameter with the one law a serialiser has: what was written is read
back (`Serde`).  A journal of a verified receipt is what the guest committed.

The lengths travel as `u32`.  `readInput_proverInput` is the round trip for texts
that fit the guest's memory, and `bytecode_eq_take` what any text comes to: the
guest gets its first words.
-/

namespace Tuniq
namespace Vm

variable {t : Target} {S : Type} {c : Bool}

/-- The outcome of a run, the preparation included. -/
def Outcome [Syscalls t S] (x : Except Fault (Vm t S)) (r : Halt t S) : Prop :=
  (∃ vm, x = .ok vm ∧ Halts step vm r) ∨ ∃ f, x = .error f ∧ r = .panic f

theorem outcome_ok [Syscalls t S] {vm : Vm t S} {r : Halt t S} :
    Outcome (.ok vm) r ↔ Halts step vm r := by
  constructor
  · rintro (⟨u, hu, h⟩ | ⟨f, hf, -⟩)
    · obtain rfl := Except.ok.inj hu
      exact h
    · exact absurd hf (by simp)
  · exact fun h => Or.inl ⟨vm, rfl, h⟩

theorem Outcome.unique [Syscalls t S] {x : Except Fault (Vm t S)} {r r' : Halt t S}
    (h : Outcome x r) (h' : Outcome x r') : r = r' := by
  cases x with
  | ok vm => exact Halts.unique (outcome_ok.mp h) (outcome_ok.mp h')
  | error f =>
    have hpanic : ∀ {r : Halt t S}, Outcome (.error f) r → r = .panic f := by
      rintro r (⟨vm, hvm, -⟩ | ⟨g, hg, rfl⟩)
      · exact absurd hvm (by simp)
      · obtain rfl := Except.error.inj hg
        rfl
    rw [hpanic h, hpanic h']

/-! ## The harness -/

/-- `run_predicate` of the harness, up to `vm.run()`. -/
def runPredicate (c : Bool) (text : Vec .w64 8 UInt64) (balance threshold : UInt64) :
    Except Fault (HostVm c) :=
  prepareVm ⟨.w64, c⟩ unwrapWrite text (buildInputBuffer balance threshold) {}

/-- `main` of the guest, from what it read up to `vm.run()`. -/
def guestVm (c : Bool) (bytecode : Vec .w32 8 UInt64) (inputBuffer : List UInt8) :
    Except Fault (GuestVm c) :=
  prepareVm ⟨.w32, c⟩ ignoreRefusal bytecode inputBuffer {}

theorem length_buildInputBuffer (balance threshold : UInt64) :
    (buildInputBuffer balance threshold).length = 64 := by
  simp only [buildInputBuffer, List.length_append, length_toLe, List.length_replicate]

theorem buildInputBuffer_fits (balance threshold : UInt64) :
    (buildInputBuffer balance threshold).length ≤ regionSize - 8 := by
  rw [length_buildInputBuffer]
  decide

/-- The machine the harness runs. -/
theorem runPredicate_eq (text : Vec .w64 8 UInt64) (balance threshold : UInt64) :
    runPredicate c text balance threshold = .ok (start text inputRegs
      (inputMemory .w64 _ (buildInputBuffer_fits balance threshold)) {}) :=
  prepareVm_eq (t := ⟨.w64, c⟩) (fun _ _ => rfl) text _ _

/-- The machine the guest runs. -/
theorem guestVm_eq (text : Vec .w32 8 UInt64) (balance threshold : UInt64) :
    guestVm c text (buildInputBuffer balance threshold) = .ok (start text inputRegs
      (inputMemory .w32 _ (buildInputBuffer_fits balance threshold)) {}) :=
  prepareVm_eq (t := ⟨.w32, c⟩) (fun _ _ => rfl) text _ _

/-- The program finds the balance behind the buffer's header. -/
theorem load_balance (balance threshold : UInt64) :
    (inputMemory t.width _ (buildInputBuffer_fits balance threshold)).load t .b8 (bufPtr + 16) =
      .ok (some balance) := by
  rw [load_inputMemory _ 24 .b8 (by decide) (by decide), heapBytes, buildInputBuffer]
  rw [show Width.size .b8 = 8 from rfl, window_behind_toLe 8 _ _ 16, List.append_assoc,
    window_behind_toLe 8 _ _ 8, List.append_assoc, window_behind_toLe 8 _ _ 0, List.append_assoc,
    window_toLe, ofLe_toLe_of_lt balance.toNat_lt, UInt64.ofNat_toNat]

/-- The threshold follows. -/
theorem load_threshold (balance threshold : UInt64) :
    (inputMemory t.width _ (buildInputBuffer_fits balance threshold)).load t .b8 (bufPtr + 24) =
      .ok (some threshold) := by
  rw [load_inputMemory _ 32 .b8 (by decide) (by decide), heapBytes, buildInputBuffer]
  rw [show Width.size .b8 = 8 from rfl, window_behind_toLe 8 _ _ 24, List.append_assoc,
    window_behind_toLe 8 _ _ 16, List.append_assoc, window_behind_toLe 8 _ _ 8, List.append_assoc,
    window_behind_toLe 8 _ _ 0, List.append_assoc,
    window_toLe, ofLe_toLe_of_lt threshold.toNat_lt, UInt64.ofNat_toNat]

/-- A text that fits the guest, on the host. -/
def onHost (text : Vec .w32 8 UInt64) : Vec .w64 8 UInt64 :=
  ⟨text.toList, text.size_le.trans (PtrWidth.le_isizeMax _)⟩

/-! ## The guest's input -/

/-- The serialiser of the proving machine: how the values that travel between prover
and guest are written as words and read back. -/
structure Serde (W : Type) where
  u32 : Codec W UInt32
  u64 : Codec W UInt64
  u8 : Codec W UInt8
  result : Codec W (UInt64 × Bool)

/-! ### A serialiser

The format of the proving machine: a stream of `u32` words, one for a `u32`, a
`u8` or a `bool`, two for a `u64` with the low one first. -/

def wordsOfU64 (x : UInt64) : UInt32 × UInt32 := (x.toUInt32, (x >>> 32).toUInt32)

def u64OfWords (p : UInt32 × UInt32) : UInt64 := UInt64.ofNat (p.1.toNat + 2 ^ 32 * p.2.toNat)

theorem u64OfWords_wordsOfU64 (x : UInt64) : u64OfWords (wordsOfU64 x) = x := by
  apply UInt64.toNat_inj.mp
  have hx := x.toNat_lt
  have hlo : x.toUInt32.toNat = x.toNat % 2 ^ 32 := x.toNat_toUInt32
  have hhi : (x >>> 32).toUInt32.toNat = x.toNat / 2 ^ 32 := by
    rw [UInt64.toNat_toUInt32, UInt64.toNat_shiftRight, Nat.shiftRight_eq_div_pow]
    show x.toNat / 2 ^ 32 % 2 ^ 32 = _
    omega
  rw [u64OfWords, wordsOfU64, hlo, hhi, UInt64.toNat_ofNat_of_lt' (by
    show _ < 2 ^ 64
    omega)]
  omega

def u8OfWord (w : UInt32) : Option UInt8 := if w < 256 then some w.toUInt8 else none

theorem u8OfWord_toUInt32 (x : UInt8) : u8OfWord x.toUInt32 = some x := by
  have hlt : x.toUInt32 < 256 := by
    rw [UInt32.lt_iff_toNat_lt, UInt8.toNat_toUInt32]
    exact x.toNat_lt
  rw [u8OfWord, if_pos hlt, UInt8.toUInt8_toUInt32]

def boolOfWord (w : UInt32) : Option Bool :=
  if w = 0 then some false else if w = 1 then some true else none

/-- The word format. -/
def wordSerde : Serde UInt32 :=
  let u64 := ((Codec.word UInt32).pair (.word UInt32)).via wordsOfU64
    (fun p => some (u64OfWords p)) fun x => congrArg some (u64OfWords_wordsOfU64 x)
  let bool := (Codec.word UInt32).via (fun b : Bool => if b then 1 else 0) boolOfWord (by decide)
  { u32 := .word UInt32
    u64 := u64
    u8 := (Codec.word UInt32).via UInt8.toUInt32 u8OfWord u8OfWord_toUInt32
    result := u64.pair bool }

variable {W : Type}

/-- `env::read()` panics when there is nothing to read. -/
def expectRead {α : Type} : Option α → Except Fault α
  | some a => .ok a
  | none => .error .explicitPanic

theorem expectRead_eq_ok {α : Type} {x : Option α} {a : α} :
    expectRead x = .ok a ↔ x = some a := by
  cases x <;> simp [expectRead]

/-- What the guest's `main` reads: the bytecode and the input buffer. -/
def readInput (σ : Serde W) (input : List W) :
    Except Fault (Vec .w32 8 UInt64 × Bytes .w32) := do
  let (bytecodeLen, input) ← expectRead (σ.u32.read input)
  let (words, input) ← expectRead (σ.u64.readMany bytecodeLen.toNat input)
  let bytecode ← collectVec .w32 8 words
  let (bufLen, input) ← expectRead (σ.u32.read input)
  let (bytes, _) ← expectRead (σ.u8.readMany bufLen.toNat input)
  let inputBuffer ← collectVec .w32 1 bytes
  return (bytecode, inputBuffer)

/-- `main` of the guest, up to `vm.run()`. -/
def guestMain (c : Bool) (σ : Serde W) (input : List W) : Except Fault (GuestVm c) := do
  let (bytecode, inputBuffer) ← readInput σ input
  guestVm c bytecode inputBuffer.toList

/-- The pair the guest commits, if it comes to that. -/
def committed : Halt t S → Option (UInt64 × Bool)
  | .ok r0 _ => some (r0, true)
  | .err _ _ => some (0xFFFFFFFFFFFFFFFF, false)
  | .panic _ => none

/-! ## The prover -/

/-- What `prove_predicate` writes to the guest's input. -/
def proverInput (σ : Serde W) (bytecode : Vec .w64 8 UInt64) (balance threshold : UInt64) :
    List W :=
  σ.u32.write (UInt32.ofNat bytecode.len) ++ (σ.u64.writeMany bytecode.toList ++
    (σ.u32.write (UInt32.ofNat (buildInputBuffer balance threshold).length) ++
      (σ.u8.writeMany (buildInputBuffer balance threshold) ++ [])))

/-- `prove_predicate` returns `Ok(success)`: the guest's run ended in a commitment,
and `success` is what the journal decodes to. -/
def ProvesPredicate (c : Bool) (σ : Serde W) (bytecode : Vec .w64 8 UInt64)
    (balance threshold : UInt64) (success : Bool) : Prop :=
  ∃ r pair r0, Outcome (guestMain c σ (proverInput σ bytecode balance threshold)) r ∧
    committed r = some pair ∧
    (σ.result.read (σ.result.write pair ++ [])).map Prod.fst = some (r0, success)

/-- **The guest reads back what the prover wrote**, when the text fits its memory. -/
theorem readInput_proverInput (σ : Serde W) (text : Vec .w32 8 UInt64)
    (balance threshold : UInt64) :
    ∃ buf : Bytes .w32, buf.toList = buildInputBuffer balance threshold ∧
      readInput σ (proverInput σ (onHost text) balance threshold) = .ok (text, buf) := by
  have hsize : text.toList.length * 8 ≤ 2 ^ 31 - 1 := text.size_le
  have hlen : (UInt32.ofNat (onHost text).len).toNat = text.toList.length :=
    UInt32.toNat_ofNat_of_lt' (by
      show text.toList.length < 2 ^ 32
      omega)
  have hbuf : (buildInputBuffer balance threshold).length * 1 ≤ PtrWidth.w32.isizeMax := by
    rw [length_buildInputBuffer]
    decide
  have hbufLen : (UInt32.ofNat (buildInputBuffer balance threshold).length).toNat =
      (buildInputBuffer balance threshold).length := by
    rw [length_buildInputBuffer]
    rfl
  refine ⟨⟨buildInputBuffer balance threshold, hbuf⟩, rfl, ?_⟩
  refine bind_eq_ok.mpr ⟨_, expectRead_eq_ok.mpr (σ.u32.read_write _ _), ?_⟩
  dsimp only
  rw [hlen]
  refine bind_eq_ok.mpr ⟨_, expectRead_eq_ok.mpr (σ.u64.readMany_write_all _ _), ?_⟩
  refine bind_eq_ok.mpr ⟨text, collectVec_eq_ok.mpr rfl, ?_⟩
  refine bind_eq_ok.mpr ⟨_, expectRead_eq_ok.mpr (σ.u32.read_write _ _), ?_⟩
  dsimp only
  rw [hbufLen]
  refine bind_eq_ok.mpr ⟨_, expectRead_eq_ok.mpr (σ.u8.readMany_write_all _ _), ?_⟩
  exact bind_eq_ok.mpr ⟨⟨_, hbuf⟩, collectVec_eq_ok.mpr rfl, rfl⟩

/-- The guest of such a text is the machine it would run itself. -/
theorem guestMain_eq (σ : Serde W) (text : Vec .w32 8 UInt64) (balance threshold : UInt64) :
    guestMain c σ (proverInput σ (onHost text) balance threshold) =
      guestVm c text (buildInputBuffer balance threshold) := by
  obtain ⟨buf, hbuf, hread⟩ := readInput_proverInput σ text balance threshold
  rw [guestMain, hread, ← hbuf]
  rfl

/-- **Whatever the text, the guest gets its first words**: as many as the length cast
to `u32` says. -/
theorem bytecode_eq_take (σ : Serde W) {text : Vec .w64 8 UInt64} {balance threshold : UInt64}
    {bytecode : Vec .w32 8 UInt64} {buf : Bytes .w32}
    (h : readInput σ (proverInput σ text balance threshold) = .ok (bytecode, buf)) :
    bytecode.toList = text.toList.take (text.len % 2 ^ 32) := by
  have hlen : (UInt32.ofNat text.len).toNat = text.len % 2 ^ 32 := UInt32.toNat_ofNat'
  simp only [readInput, bind_eq_ok] at h
  obtain ⟨_, hlenRead, _, hwords, words, hvec, _, _, _, _, _, _, h⟩ := h
  rw [proverInput, σ.u32.read_write, expectRead_eq_ok] at hlenRead
  obtain rfl := Option.some.inj hlenRead
  have hle : text.len % 2 ^ 32 ≤ text.toList.length := Nat.mod_le _ _
  dsimp only at hwords
  rw [hlen, σ.u64.readMany_write hle, expectRead_eq_ok] at hwords
  obtain rfl := Option.some.inj hwords
  obtain rfl : words = bytecode := (Prod.mk.inj (Except.ok.inj h)).1
  exact collectVec_eq_ok.mp hvec

end Vm
end Tuniq
