import Tuniq.Interpreter.Casts
import Tuniq.Interpreter.StepRules

/-!
# Loading a constant of two words

`LDDW` carries a constant of 64 bits in the immediates of two words.  The interpreter
takes the low half with `i.imm as u64`, which extends its sign, and then puts the high
half in with an or.  Where bit 31 of the constant is set, the ones above it are there
already, and an or removes nothing.

So the constant is loaded when its bit 31 is zero, or when all the ones belong there,
and in no other case (`lddw_loads_iff`).
-/

namespace Tuniq

/-! ## The value loaded -/

/-- A half of a word, with only ones. -/
theorem or_ones {h : ℕ} (hlt : h < 2 ^ 32) : h ||| (2 ^ 32 - 1) = 2 ^ 32 - 1 := by
  apply Nat.eq_of_testBit_eq
  intro i
  rw [Nat.testBit_or, Nat.testBit_two_pow_sub_one]
  by_cases hi : i < 32
  · simp [hi]
  · have hpow : h < 2 ^ i :=
      lt_of_lt_of_le hlt (Nat.pow_le_pow_right (by decide) (Nat.le_of_not_lt hi))
    rw [Nat.testBit_lt_two_pow hpow]
    simp [hi]

/-- Two halves that do not overlap. -/
theorem or_low_half (h : ℕ) {l : ℕ} (hl : l < 2 ^ 32) :
    h * 2 ^ 32 ||| l = h * 2 ^ 32 + l := by
  rw [← Nat.shiftLeft_eq, Nat.shiftLeft_add_eq_or_of_lt hl]

/-- A high half put on top of ones. -/
theorem or_signExtended {h l : ℕ} (hh : h < 2 ^ 32) (hl : l < 2 ^ 32) :
    h * 2 ^ 32 ||| ((2 ^ 32 - 1) * 2 ^ 32 + l) = (2 ^ 32 - 1) * 2 ^ 32 + l := by
  rw [← or_low_half _ hl, ← Nat.or_assoc, ← Nat.shiftLeft_eq, ← Nat.shiftLeft_eq,
    ← Nat.shiftLeft_or_distrib, or_ones hh]

/-- What `LDDW` puts in its register. -/
def lddwValue (imm : Int32) (hiWord : UInt64) : UInt64 :=
  ((hiWord >>> 32) <<< 32) ||| immU64 imm

/-- The immediate of the second word is its upper half. -/
theorem toNat_immU32_decode (word : UInt64) :
    (immU32 (decode word).imm).toNat = word.toNat / 2 ^ 32 := by
  have hlt := word.toNat_lt
  show (word >>> 32).toUInt32.toNat = _
  rw [UInt64.toNat_toUInt32, UInt64.toNat_shiftRight]
  show word.toNat >>> 32 % 2 ^ 32 = _
  rw [Nat.shiftRight_eq_div_pow]
  omega

theorem toNat_lddwValue (imm : Int32) (hiWord : UInt64) :
    (lddwValue imm hiWord).toNat =
      if (immU32 imm).toNat < 2 ^ 31 then
        (immU32 (decode hiWord).imm).toNat * 2 ^ 32 + (immU32 imm).toNat
      else (2 ^ 32 - 1) * 2 ^ 32 + (immU32 imm).toNat := by
  have hlo := (immU32 imm).toNat_lt
  have hhi := (immU32 (decode hiWord).imm).toNat_lt
  have hshift : ((hiWord >>> 32) <<< 32).toNat =
      (immU32 (decode hiWord).imm).toNat * 2 ^ 32 := by
    rw [UInt64.toNat_shiftLeft, UInt64.toNat_shiftRight, toNat_immU32_decode]
    show (hiWord.toNat >>> 32) <<< 32 % 2 ^ 64 = _
    have hlt := hiWord.toNat_lt
    rw [Nat.shiftRight_eq_div_pow, Nat.shiftLeft_eq]
    omega
  rw [lddwValue, UInt64.toNat_or, hshift, toNat_immU64]
  split
  · rename_i hset
    rw [if_neg (by omega), Nat.add_comm, show 2 ^ 64 - 2 ^ 32 = (2 ^ 32 - 1) * 2 ^ 32 by norm_num,
      or_signExtended hhi hlo]
  · rename_i hclear
    rw [if_pos (by omega), Nat.add_zero, or_low_half _ hlo]

/-- **The constants that survive.** -/
theorem lddwValue_eq_iff {imm : Int32} {hiWord c : UInt64}
    (hlo : immU32 imm = c.toUInt32)
    (hhi : immU32 (decode hiWord).imm = (c >>> 32).toUInt32) :
    lddwValue imm hiWord = c ↔ c.toNat % 2 ^ 32 < 2 ^ 31 ∨ 2 ^ 64 - 2 ^ 32 ≤ c.toNat := by
  have hlt := c.toNat_lt
  have hlo' : (immU32 imm).toNat = c.toNat % 2 ^ 32 := by
    rw [hlo, UInt64.toNat_toUInt32]
  have hhi' : (immU32 (decode hiWord).imm).toNat = c.toNat / 2 ^ 32 := by
    rw [hhi, UInt64.toNat_toUInt32, UInt64.toNat_shiftRight]
    show c.toNat >>> 32 % 2 ^ 32 = _
    rw [Nat.shiftRight_eq_div_pow]
    omega
  rw [← UInt64.toNat_inj, toNat_lddwValue, hlo', hhi']
  split <;> omega

/-! ## The instruction -/

/-- The only arm that takes two words is `0x18`. -/
theorem Insn.action_eq_lddw {i : Insn} (h : i.action = .lddw) : i.opcode = 0x18 := by
  rw [Insn.action] at h
  split at h <;> first | assumption | cases h

namespace Vm

variable {t : Target} {S : Type} [Syscalls t S]

/-- `LDDW` sets its register and moves past both words. -/
theorem step_of_lddw {vm : Vm t S} {i : Insn} {hiWord : UInt64} {d : Reg}
    (hi : vm.fetch = some i) (hop : i.opcode = 0x18) (hdst : i.dst = d)
    (hword : vm.text.toList[vm.pc + 1]? = some hiWord) :
    vm.step = .ok { vm with
      pc := vm.pc + 2, regs := vm.regs.put d (lddwValue i.imm hiWord) } := by
  have haction : i.action = .lddw := Insn.action_of_opcode hop
  have hnext : vm.advance.text.toList[vm.advance.pc]? = some hiWord := hword
  rw [step_of_fetch hi, haction, perform, hnext]
  obtain ⟨k, hk⟩ := d
  obtain rfl : i.dst = k := hdst
  exact setReg_eq_ok.mpr ⟨hk, rfl⟩

/-- **When `LDDW` loads its constant.**  On every machine whose next two words are the
`LDDW` of a constant `c` into a register: the step leaves `c` there, advances the
program counter by two and changes nothing else, if and only if bit 31 of `c` is zero
or the upper half of `c` has ones only. -/
theorem lddw_loads_iff {vm : Vm t S} {i : Insn} {hiWord c : UInt64} {d : Reg}
    (hi : vm.fetch = some i) (hop : i.opcode = 0x18) (hdst : i.dst = d)
    (hlo : immU32 i.imm = c.toUInt32) (hword : vm.text.toList[vm.pc + 1]? = some hiWord)
    (hhi : immU32 (decode hiWord).imm = (c >>> 32).toUInt32) :
    vm.step = .ok { vm with pc := vm.pc + 2, regs := vm.regs.put d c } ↔
      c.toNat % 2 ^ 32 < 2 ^ 31 ∨ 2 ^ 64 - 2 ^ 32 ≤ c.toNat := by
  rw [step_of_lddw hi hop hdst hword, ← lddwValue_eq_iff hlo hhi, Except.ok.injEq]
  constructor
  · intro h
    have hregs := congrArg (fun u => (Vm.regs u)[(d : ℕ)]) h
    simpa [Regs.put] using hregs
  · intro h
    rw [h]

/-- `lddw r1, 0x0000000340000000; exit` -/
def heapConstant : Vm ⟨.w64, true⟩ GuestSyscalls :=
  start ⟨[0x4000000000000118, 0x0000000300000000, 0x95], by decide⟩ (Vector.replicate 11 0)
    Memory.empty {}

/-- A constant whose bit 31 is zero is loaded. -/
theorem lddw_loads_heapConstant :
    heapConstant.step = .ok { heapConstant with
      pc := heapConstant.pc + 2, regs := heapConstant.regs.put .r1 0x0000000340000000 } := by
  have hfetch : heapConstant.fetch = some (decode 0x4000000000000118) := rfl
  have hword : heapConstant.text.toList[heapConstant.pc + 1]? = some 0x0000000300000000 := rfl
  have hlo : immU32 (decode 0x4000000000000118).imm = UInt64.toUInt32 0x0000000340000000 := rfl
  have hhi : immU32 (decode 0x0000000300000000).imm =
      ((0x0000000340000000 : UInt64) >>> 32).toUInt32 := rfl
  exact (lddw_loads_iff hfetch rfl rfl hlo hword hhi).mpr (Or.inl (by decide))

/-- `lddw r1, 0x0000000380000000; exit` -/
def signedConstant : Vm ⟨.w64, true⟩ GuestSyscalls :=
  start ⟨[0x8000000000000118, 0x0000000300000000, 0x95], by decide⟩ (Vector.replicate 11 0)
    Memory.empty {}

/-- **A constant whose bit 31 is set is not loaded**: `0x0000000380000000` becomes
`0xFFFFFFFF80000000`. -/
theorem lddw_loses_high_half :
    ¬ ∀ (vm : Vm ⟨.w64, true⟩ GuestSyscalls) (i : Insn) (hiWord c : UInt64) (d : Reg),
      vm.fetch = some i → i.opcode = 0x18 → i.dst = d → immU32 i.imm = c.toUInt32 →
      vm.text.toList[vm.pc + 1]? = some hiWord →
      immU32 (decode hiWord).imm = (c >>> 32).toUInt32 →
      vm.step = .ok { vm with pc := vm.pc + 2, regs := vm.regs.put d c } := by
  intro hall
  have h := hall signedConstant (decode 0x8000000000000118) 0x0000000300000000
    0x0000000380000000 .r1 rfl rfl rfl rfl rfl rfl
  have hloaded : observe step (fun u => u.regs.get .r1) 1 signedConstant =
      some 0xFFFFFFFF80000000 := by
    decide +kernel
  have hshown : observe step (fun u => u.regs.get .r1) 1 signedConstant =
      some 0x0000000380000000 :=
    observe_eq_some.mpr ⟨_, iter_succ_eq_ok.mpr ⟨_, rfl, h⟩, rfl⟩
  rw [hloaded] at hshown
  exact absurd hshown (by decide)

end Vm
end Tuniq
