import Tuniq.Interpreter.Casts
import Tuniq.Interpreter.StepRules

/-!
# The 32-bit arithmetic

The 32-bit arms truncate their operands to `u32` or `i32`, compute, and widen the
result to the 64 bits of a register.  Where they computed on `u32` the widening fills
the upper half with zeros.  Where they computed on `i32` it extends the sign: so do
`neg32` and the two forms of `arsh32`, three arms out of twenty-three.

`Vm.Writes32` is what a 32-bit arm should do at a machine: write a value without an
upper half that any machine with the same low halves would write.  `Vm.Fits32` is the
condition on the registers under which it does (`alu32_writes_iff`).

The arms are reduced to two shapes, a value computed from the destination and the
immediate (`writes32_iff_imm`) and one computed from two registers
(`writes32_iff_reg`).  A division past its zero test is one of the two, and so is a
negation that does not overflow.
-/

namespace Tuniq

/-! ## The instructions -/

/-- The registers a 32-bit arm reads: `none` when the opcode is not one of the
twenty-three of `mov`, `add`, `sub`, `mul`, `div`, `neg`, `or`, `and`, `xor`, `lsh`,
`rsh` and `arsh`. -/
def Insn.operands32 (i : Insn) : Option (List ℕ) :=
  match i.opcode with
  | 0xB4 => some []
  | 0xBC => some [i.src]
  | 0x84 => some [i.dst]
  | 0x04 | 0x14 | 0x24 | 0x34 | 0x44 | 0x54 | 0xA4 | 0x64 | 0x74 | 0xC4 => some [i.dst]
  | 0x0C | 0x1C | 0x2C | 0x3C | 0x4C | 0x5C | 0xAC | 0x6C | 0x7C | 0xCC =>
      some [i.dst, i.src]
  | _ => none

/-- The low halves of the destination whose result needs no sign: all of them, but for
`neg32` and `arsh32`. -/
def Insn.Unsigned32 (i : Insn) (a : UInt32) : Prop :=
  (i.opcode = 0x84 → a.toNat = 0 ∨ 2 ^ 31 < a.toNat) ∧
    (i.opcode = 0xC4 ∨ i.opcode = 0xCC → a.toNat < 2 ^ 31)

theorem Insn.unsigned32_of_ne {i : Insn}
    (h : i.opcode ≠ 0x84 ∧ i.opcode ≠ 0xC4 ∧ i.opcode ≠ 0xCC) (a : UInt32) :
    i.Unsigned32 a :=
  ⟨fun hop => absurd hop h.1, fun hop => (not_or.mpr h.2 hop).elim⟩

theorem Insn.unsigned32_of_neg {i : Insn} (h : i.opcode = 0x84) (a : UInt32) :
    i.Unsigned32 a ↔ a.toNat = 0 ∨ 2 ^ 31 < a.toNat := by
  constructor
  · intro hu
    exact hu.1 h
  · intro ha
    refine ⟨fun _ => ha, fun hop => ?_⟩
    rw [h] at hop
    exact absurd hop (by decide)

theorem Insn.unsigned32_of_arsh {i : Insn} (h : i.opcode = 0xC4 ∨ i.opcode = 0xCC)
    (a : UInt32) : i.Unsigned32 a ↔ a.toNat < 2 ^ 31 := by
  constructor
  · intro hu
    exact hu.2 h
  · intro ha
    refine ⟨fun hop => ?_, fun _ => ha⟩
    rw [hop] at h
    exact absurd h (by decide)

/-! ## Signs of results -/

/-- A number below `2 ^ 31` is one whose sign is not set. -/
theorem lt_iff_msb (x : UInt32) : x.toNat < 2 ^ 31 ↔ x.toBitVec.msb = false := by
  rw [BitVec.msb_eq_decide, decide_eq_false_iff_not, Nat.not_le]
  rfl

/-- The negation of an `i32` has an unsigned result for zero and for the negative
numbers that have one. -/
theorem neg32_lt_iff (a : UInt32) :
    (immU64 (-a.toInt32)).toNat < 2 ^ 32 ↔ a.toNat = 0 ∨ 2 ^ 31 < a.toNat := by
  have hlt := a.toNat_lt
  have hneg : (immU32 (-a.toInt32)).toNat = (2 ^ 32 - a.toNat) % 2 ^ 32 := by
    show (-a).toNat = _
    rw [UInt32.toNat_neg]
    rfl
  rw [immU64_lt_iff, hneg]
  omega

/-- An arithmetic shift keeps the sign. -/
theorem arsh32_lt_iff (a : UInt32) (s : Int32) :
    (immU64 (a.toInt32 >>> s)).toNat < 2 ^ 32 ↔ a.toNat < 2 ^ 31 := by
  rw [immU64_lt_iff, lt_iff_msb, lt_iff_msb]
  show (a.toBitVec.sshiftRight' (s.toBitVec.smod 32)).msb = false ↔ _
  rw [BitVec.msb_sshiftRight']

/-! ## The shapes of the arms -/

/-- What the arm of a 32-bit instruction computes, by the registers it reads. -/
inductive Arm32 (i : Insn) : List ℕ → Prop where
  | movImm {f : UInt64 → Int32 → UInt64} (v : UInt32) (ha : i.action = .aluImm f)
      (hf : ∀ a, f a i.imm = v.toUInt64) (hu : ∀ a, i.Unsigned32 a) : Arm32 i []
  | movReg {f : UInt64 → UInt64 → UInt64} (ha : i.action = .aluReg f)
      (hf : ∀ a b, f a b = b.toUInt32.toUInt64) (hu : ∀ a, i.Unsigned32 a) :
      Arm32 i [i.src]
  | imm {f : UInt64 → Int32 → UInt64} (g : UInt32 → UInt32) (ha : i.action = .aluImm f)
      (hf : ∀ a, f a i.imm = (g a.toUInt32).toUInt64) (hu : ∀ a, i.Unsigned32 a) :
      Arm32 i [i.dst]
  | reg {f : UInt64 → UInt64 → UInt64} (g : UInt32 → UInt32 → UInt32)
      (ha : i.action = .aluReg f)
      (hf : ∀ a b, f a b = (g a.toUInt32 b.toUInt32).toUInt64) (hu : ∀ a, i.Unsigned32 a) :
      Arm32 i [i.dst, i.src]
  | divImm {z : Int32 → Bool} {f : UInt64 → Int32 → UInt64} (g : UInt32 → UInt32)
      (ha : i.action = .divImm z f)
      (hf : ∀ a, f a i.imm = (g a.toUInt32).toUInt64) (hu : ∀ a, i.Unsigned32 a) :
      Arm32 i [i.dst]
  | divReg {f : UInt64 → UInt64 → UInt64} (g : UInt32 → UInt32 → UInt32)
      (ha : i.action = .divReg (fun b => b.toUInt32 == 0) f)
      (hf : ∀ a b, f a b = (g a.toUInt32 b.toUInt32).toUInt64) (hu : ∀ a, i.Unsigned32 a) :
      Arm32 i [i.dst, i.src]
  | neg {f : UInt64 → UInt64}
      (ha : i.action = .neg (fun a => a.toUInt32.toInt32 == Int32.minValue) f)
      (hf : ∀ a, f a = immU64 (-a.toUInt32.toInt32))
      (hu : ∀ a, i.Unsigned32 a ↔ a.toNat = 0 ∨ 2 ^ 31 < a.toNat) : Arm32 i [i.dst]
  | arshImm {f : UInt64 → Int32 → UInt64} (s : Int32) (ha : i.action = .aluImm f)
      (hf : ∀ a, f a i.imm = immU64 (a.toUInt32.toInt32 >>> s))
      (hu : ∀ a, i.Unsigned32 a ↔ a.toNat < 2 ^ 31) : Arm32 i [i.dst]
  | arshReg {f : UInt64 → UInt64 → UInt64} (s : UInt32 → Int32) (ha : i.action = .aluReg f)
      (hf : ∀ a b, f a b = immU64 (a.toUInt32.toInt32 >>> s b.toUInt32))
      (hu : ∀ a, i.Unsigned32 a ↔ a.toNat < 2 ^ 31) : Arm32 i [i.dst, i.src]

/-- **The twenty-three arms.** -/
theorem Insn.arm32 {i : Insn} {ops : List ℕ} (h : i.operands32 = some ops) :
    Arm32 i ops := by
  have hplain : ∀ {op : UInt8}, i.opcode = op → op ≠ 0x84 ∧ op ≠ 0xC4 ∧ op ≠ 0xCC →
      ∀ a, i.Unsigned32 a := by
    intro op hop hne
    rw [← hop] at hne
    exact Insn.unsigned32_of_ne hne
  unfold Insn.operands32 at h
  split at h
  case h_24 => exact absurd h (by simp)
  all_goals
    rename_i hop
    obtain rfl := Option.some.inj h
    have ha := action_of_opcode hop
  case h_1 => exact .movImm (immU32 i.imm) ha (fun _ => rfl) (hplain hop (by decide))
  case h_2 => exact .movReg ha (fun _ _ => rfl) (hplain hop (by decide))
  case h_3 => exact .neg ha (fun _ => rfl) (unsigned32_of_neg hop)
  case h_4 => exact .imm (· + immU32 i.imm) ha (fun _ => rfl) (hplain hop (by decide))
  case h_5 => exact .imm (· - immU32 i.imm) ha (fun _ => rfl) (hplain hop (by decide))
  case h_6 => exact .imm (· * immU32 i.imm) ha (fun _ => rfl) (hplain hop (by decide))
  case h_7 => exact .divImm (· / immU32 i.imm) ha (fun _ => rfl) (hplain hop (by decide))
  case h_8 => exact .imm (· ||| immU32 i.imm) ha (fun _ => rfl) (hplain hop (by decide))
  case h_9 => exact .imm (· &&& immU32 i.imm) ha (fun _ => rfl) (hplain hop (by decide))
  case h_10 => exact .imm (· ^^^ immU32 i.imm) ha (fun _ => rfl) (hplain hop (by decide))
  case h_11 =>
    exact .imm (· <<< (immU32 i.imm &&& 31)) ha (fun _ => rfl) (hplain hop (by decide))
  case h_12 =>
    exact .imm (· >>> (immU32 i.imm &&& 31)) ha (fun _ => rfl) (hplain hop (by decide))
  case h_13 =>
    exact .arshImm (immU32 i.imm &&& 31).toInt32 ha (fun _ => rfl)
      (unsigned32_of_arsh (Or.inl hop))
  case h_14 => exact .reg (· + ·) ha (fun _ _ => rfl) (hplain hop (by decide))
  case h_15 => exact .reg (· - ·) ha (fun _ _ => rfl) (hplain hop (by decide))
  case h_16 => exact .reg (· * ·) ha (fun _ _ => rfl) (hplain hop (by decide))
  case h_17 => exact .divReg (· / ·) ha (fun _ _ => rfl) (hplain hop (by decide))
  case h_18 => exact .reg (· ||| ·) ha (fun _ _ => rfl) (hplain hop (by decide))
  case h_19 => exact .reg (· &&& ·) ha (fun _ _ => rfl) (hplain hop (by decide))
  case h_20 => exact .reg (· ^^^ ·) ha (fun _ _ => rfl) (hplain hop (by decide))
  case h_21 =>
    exact .reg (fun a b => a <<< (b &&& 31)) ha (fun _ _ => rfl) (hplain hop (by decide))
  case h_22 =>
    exact .reg (fun a b => a >>> (b &&& 31)) ha (fun _ _ => rfl) (hplain hop (by decide))
  case h_23 =>
    exact .arshReg (fun b => (b &&& 31).toInt32) ha (fun _ _ => rfl)
      (unsigned32_of_arsh (Or.inr hop))

/-! ## The law -/

namespace Vm

variable {t : Target} {S : Type}

/-- The low half of a register. -/
def low32 (vm : Vm t S) (r : ℕ) : Option UInt32 := (vm.regs[r]?).map UInt64.toUInt32

theorem low32_eq_some {vm : Vm t S} {r : ℕ} {a : UInt32} :
    vm.low32 r = some a ↔ ∃ v, vm.regs[r]? = some v ∧ v.toUInt32 = a := by
  rw [low32, Option.map_eq_some_iff]

theorem low32_of_lt (vm : Vm t S) {r : ℕ} (hr : r < 11) :
    vm.low32 r = some vm.regs[r].toUInt32 := by
  rw [low32, Vector.getElem?_eq_getElem hr]
  rfl

/-- Registers with equal low halves. -/
theorem low32_inj {vm vm' : Vm t S} {r : ℕ} (h : vm'.low32 r = vm.low32 r) (hr : r < 11) :
    vm'.regs[r].toUInt32 = vm.regs[r].toUInt32 := by
  rw [low32_of_lt vm' hr, low32_of_lt vm hr] at h
  exact Option.some.inj h

section

variable [Syscalls t S]

/-- What a 32-bit instruction should do: the destination gets a value whose upper half
is zero, the same one on every machine whose operands have these low halves, and
nothing else changes but the program counter. -/
def Writes32 (vm : Vm t S) (i : Insn) (ops : List ℕ) : Prop :=
  ∃ (hd : i.dst < 11) (v : UInt64), v.toNat < 2 ^ 32 ∧
    ∀ vm' : Vm t S, vm'.fetch = some i → (∀ r ∈ ops, vm'.low32 r = vm.low32 r) →
      vm'.step = .ok { vm'.advance with regs := vm'.regs.set i.dst v hd }

/-- The condition on the registers: those that are named exist, and the result needs no
sign. -/
def Fits32 (vm : Vm t S) (i : Insn) (ops : List ℕ) : Prop :=
  i.dst < 11 ∧ (∀ r ∈ ops, r < 11) ∧ ∀ a, vm.low32 i.dst = some a → i.Unsigned32 a

/-- An arm that assigns a value computed from the low halves, when its registers
exist. -/
theorem writes32_iff_of_step {vm : Vm t S} {i : Insn} {ops : List ℕ} {v : UInt64}
    (hi : vm.fetch = some i) (hd : i.dst < 11)
    (hstep : ∀ vm' : Vm t S, vm'.fetch = some i → (∀ r ∈ ops, vm'.low32 r = vm.low32 r) →
      vm'.step = .ok { vm'.advance with regs := vm'.regs.set i.dst v hd }) :
    vm.Writes32 i ops ↔ v.toNat < 2 ^ 32 := by
  constructor
  · rintro ⟨_, v', hv', hstep'⟩
    have h := (hstep vm hi fun _ _ => rfl).symm.trans (hstep' vm hi fun _ _ => rfl)
    have hregs := congrArg (fun u => (Vm.regs u)[i.dst]) (Except.ok.inj h)
    rw [Vector.getElem_set_self, Vector.getElem_set_self] at hregs
    rwa [hregs]
  · intro hv
    exact ⟨hd, v, hv, hstep⟩

/-- An arm that stops does not do its work. -/
theorem not_writes32_of_error {vm : Vm t S} {i : Insn} {ops : List ℕ} {r : Halt t S}
    (hi : vm.fetch = some i) (h : vm.step = .error r) : ¬ vm.Writes32 i ops := by
  rintro ⟨_, v, -, hstep⟩
  rw [hstep vm hi fun _ _ => rfl] at h
  exact absurd h (by simp)

theorem perform_aluImm (vm : Vm t S) {i : Insn} (f : UInt64 → Int32 → UInt64)
    (hd : i.dst < 11) :
    vm.perform i (.aluImm f) =
      .ok { vm with regs := vm.regs.set i.dst (f vm.regs[i.dst] i.imm) hd } := by
  rw [perform, reg_of_lt vm hd]
  exact setReg_eq_ok.mpr ⟨hd, rfl⟩

theorem perform_aluReg (vm : Vm t S) {i : Insn} (f : UInt64 → UInt64 → UInt64)
    (hd : i.dst < 11) (hs : i.src < 11) :
    vm.perform i (.aluReg f) =
      .ok { vm with regs := vm.regs.set i.dst (f vm.regs[i.dst] vm.regs[i.src]) hd } := by
  rw [perform, reg_of_lt vm hd, reg_of_lt vm hs]
  exact setReg_eq_ok.mpr ⟨hd, rfl⟩

theorem perform_aluImm_of_le (vm : Vm t S) {i : Insn} (f : UInt64 → Int32 → UInt64)
    (hd : 11 ≤ i.dst) : ∃ r, vm.perform i (.aluImm f) = .error r := by
  refine ⟨.panic .indexOutOfBounds, ?_⟩
  rw [perform, reg_eq_error.mpr ⟨hd, rfl⟩]
  rfl

theorem perform_aluReg_of_le (vm : Vm t S) {i : Insn} (f : UInt64 → UInt64 → UInt64)
    (h : 11 ≤ i.dst ∨ 11 ≤ i.src) : ∃ r, vm.perform i (.aluReg f) = .error r := by
  refine ⟨.panic .indexOutOfBounds, ?_⟩
  rw [perform]
  rcases Nat.lt_or_ge i.src 11 with hs | hs
  · have hd : 11 ≤ i.dst := h.resolve_right (Nat.not_le.mpr hs)
    rw [reg_of_lt vm hs, reg_eq_error.mpr ⟨hd, rfl⟩]
    rfl
  · rw [reg_eq_error.mpr ⟨hs, rfl⟩]
    rfl

/-- **Arms that compute from the destination and the immediate.** -/
theorem writes32_iff_imm {vm : Vm t S} {i : Insn} {ops : List ℕ}
    {f : UInt64 → Int32 → UInt64} {g : UInt32 → UInt64} (hi : vm.fetch = some i)
    (hrun : ∀ vm' : Vm t S, vm'.fetch = some i → (∀ r ∈ ops, vm'.low32 r = vm.low32 r) →
      vm'.step = vm'.advance.perform i (.aluImm f))
    (hf : ∀ a, f a i.imm = g a.toUInt32) (hops : ∀ r ∈ ops, r = i.dst)
    (hdep : i.dst ∈ ops ∨ ∀ a b, g a = g b)
    (hg : ∀ a, (g a).toNat < 2 ^ 32 ↔ i.Unsigned32 a) :
    vm.Writes32 i ops ↔ vm.Fits32 i ops := by
  rcases Nat.lt_or_ge i.dst 11 with hd | hd
  · have hstep : ∀ vm' : Vm t S, vm'.fetch = some i →
        (∀ r ∈ ops, vm'.low32 r = vm.low32 r) →
        vm'.step = .ok { vm'.advance with
          regs := vm'.regs.set i.dst (g vm.regs[i.dst].toUInt32) hd } := by
      intro vm' hi' hlow
      have hval : g vm'.regs[i.dst].toUInt32 = g vm.regs[i.dst].toUInt32 := by
        rcases hdep with hmem | hconst
        · rw [low32_inj (hlow _ hmem) hd]
        · exact hconst _ _
      rw [hrun vm' hi' hlow, perform_aluImm _ _ hd, hf]
      show Except.ok { vm'.advance with
        regs := vm'.regs.set i.dst (g vm'.regs[i.dst].toUInt32) hd } = _
      rw [hval]
    rw [writes32_iff_of_step hi hd hstep, hg]
    constructor
    · intro hu
      refine ⟨hd, fun r hr => (hops r hr) ▸ hd, fun a ha => ?_⟩
      rw [low32_of_lt vm hd, Option.some.injEq] at ha
      exact ha ▸ hu
    · rintro ⟨-, -, hu⟩
      exact hu _ (low32_of_lt vm hd)
  · obtain ⟨r, hr⟩ := perform_aluImm_of_le vm.advance f hd
    rw [← hrun vm hi fun _ _ => rfl] at hr
    refine iff_of_false (not_writes32_of_error hi hr) fun hfits => ?_
    exact absurd hfits.1 (Nat.not_lt.mpr hd)

/-- **Arms that compute from two registers.** -/
theorem writes32_iff_reg {vm : Vm t S} {i : Insn} {ops : List ℕ}
    {f : UInt64 → UInt64 → UInt64} {g : UInt32 → UInt32 → UInt64} (hi : vm.fetch = some i)
    (hrun : ∀ vm' : Vm t S, vm'.fetch = some i → (∀ r ∈ ops, vm'.low32 r = vm.low32 r) →
      vm'.step = vm'.advance.perform i (.aluReg f))
    (hf : ∀ a b, f a b = g a.toUInt32 b.toUInt32) (hsrc : i.src ∈ ops)
    (hops : ∀ r ∈ ops, r = i.dst ∨ r = i.src)
    (hdep : i.dst ∈ ops ∨ ∀ a b c, g a c = g b c)
    (hg : ∀ a b, (g a b).toNat < 2 ^ 32 ↔ i.Unsigned32 a) :
    vm.Writes32 i ops ↔ vm.Fits32 i ops := by
  by_cases hds : i.dst < 11 ∧ i.src < 11
  · obtain ⟨hd, hs⟩ := hds
    have hstep : ∀ vm' : Vm t S, vm'.fetch = some i →
        (∀ r ∈ ops, vm'.low32 r = vm.low32 r) →
        vm'.step = .ok { vm'.advance with
          regs := vm'.regs.set i.dst
            (g vm.regs[i.dst].toUInt32 vm.regs[i.src].toUInt32) hd } := by
      intro vm' hi' hlow
      have hval : g vm'.regs[i.dst].toUInt32 vm'.regs[i.src].toUInt32 =
          g vm.regs[i.dst].toUInt32 vm.regs[i.src].toUInt32 := by
        rw [low32_inj (hlow _ hsrc) hs]
        rcases hdep with hmem | hconst
        · rw [low32_inj (hlow _ hmem) hd]
        · exact hconst _ _ _
      rw [hrun vm' hi' hlow, perform_aluReg _ _ hd hs, hf]
      show Except.ok { vm'.advance with
        regs := vm'.regs.set i.dst
          (g vm'.regs[i.dst].toUInt32 vm'.regs[i.src].toUInt32) hd } = _
      rw [hval]
    rw [writes32_iff_of_step hi hd hstep, hg]
    constructor
    · intro hu
      refine ⟨hd, fun r hr => ?_, fun a ha => ?_⟩
      · rcases hops r hr with rfl | rfl
        · exact hd
        · exact hs
      · rw [low32_of_lt vm hd, Option.some.injEq] at ha
        exact ha ▸ hu
    · rintro ⟨-, -, hu⟩
      exact hu _ (low32_of_lt vm hd)
  · have hle : 11 ≤ i.dst ∨ 11 ≤ i.src := by omega
    obtain ⟨r, hr⟩ := perform_aluReg_of_le vm.advance f hle
    rw [← hrun vm hi fun _ _ => rfl] at hr
    refine iff_of_false (not_writes32_of_error hi hr) fun hfits => ?_
    exact hds ⟨hfits.1, hfits.2.1 _ hsrc⟩

/-! ## Divisions and negations -/

/-- A division past its zero test. -/
theorem perform_divImm (vm : Vm t S) {i : Insn} {z : Int32 → Bool}
    (f : UInt64 → Int32 → UInt64) (hz : z i.imm = false) :
    vm.perform i (.divImm z f) = vm.perform i (.aluImm f) := by
  rw [perform, perform, hz]
  rfl

theorem perform_divReg (vm : Vm t S) {i : Insn} {z : UInt64 → Bool}
    (f : UInt64 → UInt64 → UInt64) (hz : ∀ b, vm.regs[i.src]? = some b → z b = false) :
    vm.perform i (.divReg z f) = vm.perform i (.aluReg f) := by
  rw [perform, perform]
  rcases Nat.lt_or_ge i.src 11 with hs | hs
  · rw [reg_of_lt vm hs]
    show (if z vm.regs[i.src] = true then _ else _) = _
    rw [hz _ (Vector.getElem?_eq_getElem hs), if_neg Bool.false_ne_true]
    rfl
  · rw [reg_eq_error.mpr ⟨hs, rfl⟩]
    rfl

/-- A negation that does not overflow. -/
theorem perform_neg (vm : Vm t S) {i : Insn} {m : UInt64 → Bool} (f : UInt64 → UInt64)
    (hm : ∀ a, vm.regs[i.dst]? = some a → ¬ (t.overflowChecks ∧ m a)) :
    vm.perform i (.neg m f) = vm.perform i (.aluImm fun a _ => f a) := by
  rw [perform, perform]
  rcases Nat.lt_or_ge i.dst 11 with hd | hd
  · rw [reg_of_lt vm hd]
    exact if_neg (hm _ (Vector.getElem?_eq_getElem hd))
  · rw [reg_eq_error.mpr ⟨hd, rfl⟩]
    rfl

theorem writes32_iff_divImm {vm : Vm t S} {i : Insn} {z : Int32 → Bool}
    {f : UInt64 → Int32 → UInt64} {g : UInt32 → UInt32} (hi : vm.fetch = some i)
    (hno : ∀ u, vm.step ≠ .error (.err .divisionByZero u)) (ha : i.action = .divImm z f)
    (hf : ∀ a, f a i.imm = (g a.toUInt32).toUInt64) (hu : ∀ a, i.Unsigned32 a) :
    vm.Writes32 i [i.dst] ↔ vm.Fits32 i [i.dst] := by
  have hz : z i.imm = false := by
    by_contra hz
    refine hno vm.advance ?_
    rw [step_of_fetch hi, ha, perform, if_pos (by simpa using hz)]
  refine writes32_iff_imm (g := fun a => (g a).toUInt64) hi (fun vm' hi' _ => ?_) hf
    (fun r hr => List.mem_singleton.mp hr) (Or.inl (List.mem_singleton_self _))
    fun a => iff_of_true (g a).toNat_lt (hu a)
  rw [step_of_fetch hi', ha, perform_divImm _ f hz]

theorem writes32_iff_divReg {vm : Vm t S} {i : Insn} {f : UInt64 → UInt64 → UInt64}
    {g : UInt32 → UInt32 → UInt32} (hi : vm.fetch = some i)
    (hno : ∀ u, vm.step ≠ .error (.err .divisionByZero u))
    (ha : i.action = .divReg (fun b => b.toUInt32 == 0) f)
    (hf : ∀ a b, f a b = (g a.toUInt32 b.toUInt32).toUInt64) (hu : ∀ a, i.Unsigned32 a) :
    vm.Writes32 i [i.dst, i.src] ↔ vm.Fits32 i [i.dst, i.src] := by
  have hz : ∀ b, vm.low32 i.src = some b → (b == 0) = false := by
    intro b hb
    by_contra hz
    obtain ⟨v, hv, rfl⟩ := low32_eq_some.mp hb
    refine hno vm.advance ?_
    have hreg : vm.advance.reg i.src = .ok v := reg_eq_ok.mpr hv
    rw [step_of_fetch hi, ha, perform, hreg]
    exact if_pos (by simpa using hz)
  refine writes32_iff_reg (g := fun a b => (g a b).toUInt64) hi (fun vm' hi' hlow => ?_) hf
    (by simp) (by simp) (Or.inl (by simp)) fun a b => iff_of_true (g a b).toNat_lt (hu a)
  rw [step_of_fetch hi', ha]
  refine perform_divReg _ f fun b hb => hz _ ?_
  rw [← hlow i.src (by simp)]
  exact low32_eq_some.mpr ⟨b, hb, rfl⟩

theorem writes32_iff_neg {vm : Vm t S} {i : Insn} {f : UInt64 → UInt64}
    (hi : vm.fetch = some i)
    (ha : i.action = .neg (fun a => a.toUInt32.toInt32 == Int32.minValue) f)
    (hf : ∀ a, f a = immU64 (-a.toUInt32.toInt32))
    (hu : ∀ a, i.Unsigned32 a ↔ a.toNat = 0 ∨ 2 ^ 31 < a.toNat) :
    vm.Writes32 i [i.dst] ↔ vm.Fits32 i [i.dst] := by
  by_cases hmin : t.overflowChecks = true ∧
      ∃ a, vm.low32 i.dst = some a ∧ a.toInt32 = Int32.minValue
  · -- the overflow check stops the step, and `2 ^ 31` is no value that fits
    obtain ⟨hchecks, a, hlow, hmin⟩ := hmin
    obtain ⟨v, hv, rfl⟩ := low32_eq_some.mp hlow
    have hreg : vm.advance.reg i.dst = .ok v := reg_eq_ok.mpr hv
    have hstep : vm.step = .error (.panic .arithmeticOverflow) := by
      rw [step_of_fetch hi, ha, perform, hreg]
      exact if_pos ⟨hchecks, by simpa using hmin⟩
    refine iff_of_false (not_writes32_of_error hi hstep) fun hfits => ?_
    have hbad := (hu _).mp (hfits.2.2 _ hlow)
    have hval : v.toUInt32 = UInt32.ofNat (2 ^ 31) := congrArg Int32.toUInt32 hmin
    rw [hval] at hbad
    exact absurd hbad (by decide)
  · refine writes32_iff_imm (g := fun a => immU64 (-a.toInt32)) hi (fun vm' hi' hlow => ?_)
      (f := fun a _ => f a) (fun a => hf a) (fun r hr => List.mem_singleton.mp hr)
      (Or.inl (List.mem_singleton_self _)) fun a => (neg32_lt_iff a).trans (hu a).symm
    rw [step_of_fetch hi', ha]
    refine perform_neg _ f fun a hreg hneg => hmin ⟨hneg.1, a.toUInt32, ?_, ?_⟩
    · rw [← hlow i.dst (List.mem_singleton_self _)]
      exact low32_eq_some.mpr ⟨a, hreg, rfl⟩
    · simpa using hneg.2

/-- **When a 32-bit instruction writes a 32-bit value.**  For each of the twenty-three
instructions and every machine on which it does not return `DivisionByZero`: it writes
a destination value whose upper half is zero and that only the low halves of its
operands decide, and changes no other register, if and only if the registers it names
exist and the result needs no sign --- for `neg32` the low half of the destination is
zero or above `2 ^ 31`, for `arsh32` it is below `2 ^ 31`, and for the others
whatever it is. -/
theorem alu32_writes_iff {vm : Vm t S} {i : Insn} {ops : List ℕ} (hi : vm.fetch = some i)
    (hops : i.operands32 = some ops)
    (hno : ∀ u, vm.step ≠ .error (.err .divisionByZero u)) :
    vm.Writes32 i ops ↔ vm.Fits32 i ops := by
  have hrun : ∀ {a : Action}, i.action = a → ∀ vm' : Vm t S, vm'.fetch = some i →
      (∀ r ∈ ops, vm'.low32 r = vm.low32 r) → vm'.step = vm'.advance.perform i a := by
    rintro a rfl vm' hi' -
    exact step_of_fetch hi'
  cases Insn.arm32 hops with
  | movImm v ha hf hu =>
    exact writes32_iff_imm (g := fun _ => v.toUInt64) hi (hrun ha) hf (by simp)
      (Or.inr fun _ _ => rfl) fun a => iff_of_true v.toNat_lt (hu a)
  | movReg ha hf hu =>
    exact writes32_iff_reg (g := fun _ b => b.toUInt64) hi (hrun ha) hf (by simp) (by simp)
      (Or.inr fun _ _ _ => rfl) fun a b => iff_of_true b.toNat_lt (hu a)
  | imm g ha hf hu =>
    exact writes32_iff_imm (g := fun a => (g a).toUInt64) hi (hrun ha) hf (by simp)
      (Or.inl (by simp)) fun a => iff_of_true (g a).toNat_lt (hu a)
  | reg g ha hf hu =>
    exact writes32_iff_reg (g := fun a b => (g a b).toUInt64) hi (hrun ha) hf (by simp)
      (by simp) (Or.inl (by simp)) fun a b => iff_of_true (g a b).toNat_lt (hu a)
  | divImm g ha hf hu => exact writes32_iff_divImm hi hno ha hf hu
  | divReg g ha hf hu => exact writes32_iff_divReg hi hno ha hf hu
  | neg ha hf hu => exact writes32_iff_neg hi ha hf hu
  | arshImm s ha hf hu =>
    exact writes32_iff_imm (g := fun a => immU64 (a.toInt32 >>> s)) hi (hrun ha) hf (by simp)
      (Or.inl (by simp)) fun a => (arsh32_lt_iff a s).trans (hu a).symm
  | arshReg s ha hf hu =>
    exact writes32_iff_reg (g := fun a b => immU64 (a.toInt32 >>> s b)) hi (hrun ha) hf
      (by simp) (by simp) (Or.inl (by simp)) fun a b => (arsh32_lt_iff a (s b)).trans (hu a).symm

end

/-- `add32 r1, -1; exit`, with `r1 = 1`. -/
def addMinusOne : Vm ⟨.w64, true⟩ GuestSyscalls :=
  start ⟨[0xFFFFFFFF00000104, 0x95], by decide⟩ (Regs.put (Vector.replicate 11 0) .r1 1)
    Memory.empty {}

/-- An addition writes 32 bits, also when the sum wraps. -/
theorem alu32_writes_addMinusOne :
    addMinusOne.Writes32 (decode 0xFFFFFFFF00000104) [1] := by
  have hi : addMinusOne.fetch = some (decode 0xFFFFFFFF00000104) := rfl
  have hops : (decode 0xFFFFFFFF00000104).operands32 = some [1] := rfl
  have hd : (decode 0xFFFFFFFF00000104).dst < 11 := by decide
  have hu : ∀ a, (decode 0xFFFFFFFF00000104).Unsigned32 a :=
    Insn.unsigned32_of_ne (by decide)
  have hstep := (step_of_fetch hi).trans (perform_aluImm addMinusOne.advance
    (fun a imm => (a.toUInt32 + immU32 imm).toUInt64) hd)
  have hno : ∀ u, addMinusOne.step ≠ .error (.err .divisionByZero u) := by
    intro u h
    rw [hstep] at h
    exact absurd h (by simp)
  exact (alu32_writes_iff hi hops hno).mpr ⟨hd, by simp, fun a _ => hu a⟩

/-- `neg32 r1; exit`, with `r1 = 1`. -/
def negateOne : Vm ⟨.w64, true⟩ GuestSyscalls :=
  start ⟨[0x184, 0x95], by decide⟩ (Regs.put (Vector.replicate 11 0) .r1 1)
    Memory.empty {}

/-- **A 32-bit negation writes 64 bits**: of `1` it makes `0xFFFFFFFFFFFFFFFF`. -/
theorem neg32_fills_upper_half :
    ¬ ∀ (vm : Vm ⟨.w64, true⟩ GuestSyscalls) (i : Insn) (ops : List ℕ),
      vm.fetch = some i → i.operands32 = some ops →
      (∀ u, vm.step ≠ .error (.err .divisionByZero u)) → vm.Writes32 i ops := by
  intro hall
  have hi : negateOne.fetch = some (decode 0x184) := rfl
  have hu := (decode 0x184).unsigned32_of_neg rfl
  have hno : ∀ u, negateOne.step ≠ .error (.err .divisionByZero u) := by
    intro u h
    have hr6 : observe step (fun v => v.regs.get .r6) 1 negateOne = some 0 := by
      decide +kernel
    obtain ⟨v, hv, -⟩ := observe_eq_some.mp hr6
    obtain ⟨v', hv', hstep⟩ := iter_succ_eq_ok.mp hv
    obtain rfl := Except.ok.inj hv'
    rw [h] at hstep
    exact absurd hstep (by simp)
  have hwrites := hall negateOne (decode 0x184) [1] hi rfl hno
  have hfits := (writes32_iff_neg hi rfl (fun _ => rfl) hu).mp hwrites
  have hlow : negateOne.low32 1 = some 1 := rfl
  exact absurd ((hu 1).mp (hfits.2.2 1 hlow)) (by decide)

end Vm
end Tuniq
