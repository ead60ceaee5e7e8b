import Tuniq.Interpreter.Instruction

/-!
# Casts of immediates

An immediate is an `i32`, and every arm casts it its own way.  The widening cast
`imm as u64` extends the sign, so it is the one to compare the others with: truncated
again it is the immediate (`toUInt32_immU64`), and above bit 31 it has zeros or ones
only (`toNat_immU64`).
-/

namespace Tuniq

/-- Sign extension, in numbers. -/
theorem toNat_immU64 (imm : Int32) :
    (immU64 imm).toNat =
      (immU32 imm).toNat + if 2 ^ 31 ≤ (immU32 imm).toNat then 2 ^ 64 - 2 ^ 32 else 0 := by
  have hext : (immU64 imm).toNat = (imm.toBitVec.signExtend 64).toNat := rfl
  have hlt : imm.toBitVec.toNat < 2 ^ 32 := imm.toBitVec.isLt
  have hmsb : imm.toBitVec.msb = decide (2 ^ 31 ≤ imm.toBitVec.toNat) :=
    BitVec.msb_eq_decide imm.toBitVec
  rw [hext, BitVec.toNat_signExtend, BitVec.toNat_setWidth, Nat.mod_eq_of_lt (by omega), hmsb]
  simp only [decide_eq_true_eq]
  rfl

/-- The upper half is zero when the sign is not set. -/
theorem immU64_lt_iff (imm : Int32) :
    (immU64 imm).toNat < 2 ^ 32 ↔ (immU32 imm).toNat < 2 ^ 31 := by
  have hlt := (immU32 imm).toNat_lt
  rw [toNat_immU64]
  split <;> omega

@[simp] theorem toUInt32_immU64 (imm : Int32) : (immU64 imm).toUInt32 = immU32 imm := by
  have hlt := (immU32 imm).toNat_lt
  rw [← UInt32.toNat_inj, UInt64.toNat_toUInt32, toNat_immU64]
  split <;> omega

@[simp] theorem toUInt8_immU64 (imm : Int32) : (immU64 imm).toUInt8 = imm.toInt8.toUInt8 := by
  have hcast : imm.toInt8.toUInt8.toNat = (imm.toBitVec.signExtend 8).toNat := rfl
  rw [← UInt8.toNat_inj, hcast, BitVec.signExtend_eq_setWidth_of_le _ (by decide),
    BitVec.toNat_setWidth, UInt64.toNat_toUInt8, toNat_immU64]
  show _ = (immU32 imm).toNat % 2 ^ 8
  split <;> omega

@[simp] theorem toUInt16_immU64 (imm : Int32) :
    (immU64 imm).toUInt16 = imm.toInt16.toUInt16 := by
  have hcast : imm.toInt16.toUInt16.toNat = (imm.toBitVec.signExtend 16).toNat := rfl
  rw [← UInt16.toNat_inj, hcast, BitVec.signExtend_eq_setWidth_of_le _ (by decide),
    BitVec.toNat_setWidth, UInt64.toNat_toUInt16, toNat_immU64]
  show _ = (immU32 imm).toNat % 2 ^ 16
  split <;> omega

end Tuniq
