import Tuniq.Interpreter.Alu32
import Tuniq.Interpreter.Forms
import Tuniq.Library.Ebpf

/-!
# The opcode table and the instruction set

The interpreter lists its opcodes one by one and computes each result with casts of its
own.  The instruction set of `Tuniq.Library.Ebpf` has no such list: it reads the class, the
source and the operation off the bits of the opcode and computes on bit vectors.

`Insn.means` compares the two, opcode by opcode: each arm is the arm of the operation its
bits say.  There are two reservations.  The four opcodes of `unsupported`, the 32-bit
remainders and the byte swaps, are not in the list.  And `neg32` and `arsh32` extend a sign
where they should fill with zeros, so their results agree where there is no sign to extend,
the condition `Insn.Unsigned32` of `Tuniq.Interpreter.Alu32`.  The value `LDDW` loads is not
looked at here.
-/

namespace Tuniq

open Ebpf (AluOp JumpOp Form Size)

/-! ## Results -/

/-- A shift by an amount that was cut to `u32` and masked. -/
theorem toNat_amount64 (b : UInt64) :
    ((b.toUInt32 &&& 63).toUInt64.toBitVec % 64).toNat = b.toBitVec.toNat % 64 := by
  have hmask : (b.toUInt32 &&& 63).toNat = b.toNat % 64 := by
    rw [UInt32.toNat_and, UInt64.toNat_toUInt32]
    show b.toNat % 2 ^ 32 &&& 2 ^ 6 - 1 = _
    rw [Nat.and_two_pow_sub_one_eq_mod]
    omega
  have hwide : (b.toUInt32 &&& 63).toUInt64.toBitVec.toNat = b.toNat % 64 := by
    rw [← hmask]
    exact UInt32.toNat_toUInt64 _
  rw [BitVec.toNat_umod, hwide]
  show b.toNat % 64 % 64 = b.toNat % 64
  omega

theorem toNat_amount32 (b : UInt64) :
    ((b.toUInt32 &&& 31).toBitVec % 32).toNat = (b.toBitVec.setWidth 32).toNat % 32 := by
  have hmask : (b.toUInt32 &&& 31).toBitVec.toNat = b.toUInt32.toNat % 32 := by
    show (b.toUInt32 &&& 31).toNat = _
    rw [UInt32.toNat_and]
    show b.toUInt32.toNat &&& 2 ^ 5 - 1 = _
    rw [Nat.and_two_pow_sub_one_eq_mod]
  rw [BitVec.toNat_umod, hmask]
  show b.toUInt32.toNat % 32 % 32 = b.toUInt32.toNat % 32
  omega

theorem result_lsh (a b : UInt64) :
    AluOp.lsh.result true a.toBitVec b.toBitVec =
      some (a <<< (b.toUInt32 &&& 63).toUInt64).toBitVec := by
  show some (a.toBitVec <<< (b.toBitVec.toNat % 64)) =
    some (a.toBitVec <<< ((b.toUInt32 &&& 63).toUInt64.toBitVec % 64).toNat)
  rw [toNat_amount64]

theorem result_rsh (a b : UInt64) :
    AluOp.rsh.result true a.toBitVec b.toBitVec =
      some (a >>> (b.toUInt32 &&& 63).toUInt64).toBitVec := by
  show some (a.toBitVec >>> (b.toBitVec.toNat % 64)) =
    some (a.toBitVec >>> ((b.toUInt32 &&& 63).toUInt64.toBitVec % 64).toNat)
  rw [toNat_amount64]

theorem result_lsh32 (a b : UInt64) :
    AluOp.lsh.result false a.toBitVec b.toBitVec =
      some (a.toUInt32 <<< (b.toUInt32 &&& 31)).toUInt64.toBitVec := by
  show some ((a.toBitVec.setWidth 32 <<< ((b.toBitVec.setWidth 32).toNat % 32)).setWidth 64) =
    some ((a.toBitVec.setWidth 32 <<<
      ((b.toUInt32 &&& 31).toBitVec % 32).toNat).setWidth 64)
  rw [toNat_amount32]

theorem result_rsh32 (a b : UInt64) :
    AluOp.rsh.result false a.toBitVec b.toBitVec =
      some (a.toUInt32 >>> (b.toUInt32 &&& 31)).toUInt64.toBitVec := by
  show some ((a.toBitVec.setWidth 32 >>> ((b.toBitVec.setWidth 32).toNat % 32)).setWidth 64) =
    some ((a.toBitVec.setWidth 32 >>>
      ((b.toUInt32 &&& 31).toBitVec % 32).toNat).setWidth 64)
  rw [toNat_amount32]

/-- A signed remainder of a number without a sign. -/
theorem toNat_smod_of_lt {n : ℕ} {x y : BitVec n} (hx : x.msb = false) (hy : y.msb = false) :
    (x.smod y).toNat = (x % y).toNat := by
  rw [BitVec.smod_eq, hx, hy]
  rfl

theorem result_arsh (a b : UInt64) :
    AluOp.arsh.result true a.toBitVec b.toBitVec =
      some (a.toInt64 >>> (b.toUInt32 &&& 63).toUInt64.toInt64).toUInt64.toBitVec := by
  have hmsb : (b.toUInt32 &&& 63).toUInt64.toBitVec.msb = false := by
    show ((b.toUInt32 &&& 63).toBitVec.setWidth 64).msb = false
    rw [BitVec.msb_setWidth]
    exact BitVec.getLsbD_of_ge _ _ (by decide)
  show some (a.toBitVec.sshiftRight (b.toBitVec.toNat % 64)) =
    some (a.toBitVec.sshiftRight ((b.toUInt32 &&& 63).toUInt64.toBitVec.smod 64).toNat)
  rw [toNat_smod_of_lt hmsb (by decide), toNat_amount64]

/-- Where the shifted number has no sign, nothing is extended. -/
theorem result_arsh32 {a : UInt64} (b : UInt64) (ha : a.toUInt32.toNat < 2 ^ 31) :
    AluOp.arsh.result false a.toBitVec b.toBitVec =
      some (a.toUInt32.toInt32 >>> (b.toUInt32 &&& 31).toInt32).toInt64.toUInt64.toBitVec := by
  have hmsb : (b.toUInt32 &&& 31).toBitVec.msb = false := by
    have hlt : (b.toUInt32 &&& 31).toNat ≤ 31 := by
      rw [UInt32.toNat_and]
      exact Nat.and_le_right
    exact (lt_iff_msb _).mp (by omega)
  have hsign : (a.toBitVec.setWidth 32).msb = false := (lt_iff_msb a.toUInt32).mp ha
  show some ((((a.toBitVec.setWidth 32).sshiftRight
      ((b.toBitVec.setWidth 32).toNat % 32))).setWidth 64) =
    some ((a.toBitVec.setWidth 32).sshiftRight
      ((b.toUInt32 &&& 31).toBitVec.smod 32).toNat |>.signExtend 64)
  rw [toNat_smod_of_lt hmsb (by decide), toNat_amount32,
    BitVec.signExtend_eq_setWidth_of_msb_false]
  rw [BitVec.msb_sshiftRight, hsign]

theorem result_neg32 {a : UInt64} (b : Ebpf.Word)
    (ha : a.toUInt32.toNat = 0 ∨ 2 ^ 31 < a.toUInt32.toNat) :
    AluOp.neg.result false a.toBitVec b =
      some (-a.toUInt32.toInt32).toInt64.toUInt64.toBitVec := by
  have hsign : (-a.toBitVec.setWidth 32).msb = false := by
    refine (lt_iff_msb (-a.toUInt32)).mp ?_
    have hlt := a.toUInt32.toNat_lt
    rw [UInt32.toNat_neg]
    show (2 ^ 32 - _) % 2 ^ 32 < _
    omega
  show some ((-a.toBitVec.setWidth 32).setWidth 64) = some ((-a.toBitVec.setWidth 32).signExtend 64)
  rw [BitVec.signExtend_eq_setWidth_of_msb_false hsign]

/-- A divisor of the interpreter is zero when that of the instruction set is. -/
theorem beq_zero_iff (b : UInt64) : (b == 0) = true ↔ b.toBitVec = 0 := by
  rw [beq_iff_eq, ← UInt64.toBitVec_inj]
  rfl

theorem beq_zero32_iff (b : UInt64) :
    (b.toUInt32 == 0) = true ↔ b.toBitVec.setWidth 32 = 0 := by
  rw [beq_iff_eq, ← UInt32.toBitVec_inj]
  rfl

theorem result_div (a b : UInt64) :
    AluOp.div.result true a.toBitVec b.toBitVec =
      if b == 0 then none else some (a / b).toBitVec :=
  (if_congr (beq_zero_iff b) rfl rfl).symm

theorem result_mod (a b : UInt64) :
    AluOp.mod.result true a.toBitVec b.toBitVec =
      if b == 0 then none else some (a % b).toBitVec :=
  (if_congr (beq_zero_iff b) rfl rfl).symm

theorem result_div32 (a b : UInt64) :
    AluOp.div.result false a.toBitVec b.toBitVec =
      if b.toUInt32 == 0 then none
      else some (a.toUInt32 / b.toUInt32).toUInt64.toBitVec := by
  rw [if_congr (beq_zero32_iff b) rfl rfl]
  show Option.map _ (if b.toBitVec.setWidth 32 = 0 then none else some _) = _
  split
  · rfl
  · rfl

/-! ## Comparisons -/

theorem holds_eq (a b : UInt64) : JumpOp.eq.holds a.toBitVec b.toBitVec = (a == b) := by
  rw [JumpOp.holds, Bool.eq_iff_iff, beq_iff_eq, beq_iff_eq, UInt64.toBitVec_inj]

theorem holds_ne (a b : UInt64) : JumpOp.ne.holds a.toBitVec b.toBitVec = (a != b) :=
  congrArg (! ·) (holds_eq a b)

theorem holds_set (a b : UInt64) :
    JumpOp.set.holds a.toBitVec b.toBitVec = (a &&& b != 0) :=
  holds_ne (a &&& b) 0

theorem slt_eq (a b : UInt64) :
    a.toBitVec.slt b.toBitVec = decide (a.toInt64 < b.toInt64) := by
  rw [Bool.eq_iff_iff, decide_eq_true_eq]
  rfl

theorem sle_eq (a b : UInt64) :
    a.toBitVec.sle b.toBitVec = decide (a.toInt64 ≤ b.toInt64) := by
  rw [Bool.eq_iff_iff, decide_eq_true_eq]
  rfl

/-! ## The table -/

/-- The opcodes of the instruction set the interpreter does not know: the 32-bit
remainders and the byte swaps. -/
def unsupported : List UInt8 := [0x94, 0x9C, 0xD4, 0xDC]

/-- The size of an access. -/
def Width.access : Width → Size
  | .b1 => .byte
  | .b2 => .half
  | .b4 => .word
  | .b8 => .double

@[simp] theorem Width.bytes_access (n : Width) : n.access.bytes = n.size := by
  cases n <;> rfl

/-- What a shape has to do with a form: it computes what the form says, at the words the
second operand stands for. -/
inductive Action.Means (i : Insn) : Action → Option Form → Prop
  | aluImm {f : UInt64 → Int32 → UInt64} (wide : Bool) (op : AluOp)
      (h : ∀ a : UInt64, i.Unsigned32 a.toUInt32 →
        op.result wide a.toBitVec (immU64 i.imm).toBitVec = some (f a i.imm).toBitVec) :
      Means i (.aluImm f) (some (.alu wide op .imm))
  | aluReg {f : UInt64 → UInt64 → UInt64} (wide : Bool) (op : AluOp)
      (h : ∀ a b : UInt64, i.Unsigned32 a.toUInt32 →
        op.result wide a.toBitVec b.toBitVec = some (f a b).toBitVec) :
      Means i (.aluReg f) (some (.alu wide op .reg))
  | divImm {z : Int32 → Bool} {f : UInt64 → Int32 → UInt64} (wide : Bool) (op : AluOp)
      (h : ∀ a : UInt64, op.result wide a.toBitVec (immU64 i.imm).toBitVec =
        if z i.imm then none else some (f a i.imm).toBitVec) :
      Means i (.divImm z f) (some (.alu wide op .imm))
  | divReg {z : UInt64 → Bool} {f : UInt64 → UInt64 → UInt64} (wide : Bool) (op : AluOp)
      (h : ∀ a b : UInt64, op.result wide a.toBitVec b.toBitVec =
        if z b then none else some (f a b).toBitVec) :
      Means i (.divReg z f) (some (.alu wide op .reg))
  | neg {z : UInt64 → Bool} {f : UInt64 → UInt64} (wide : Bool)
      (h : ∀ (a : UInt64) (b : Ebpf.Word), i.Unsigned32 a.toUInt32 →
        AluOp.neg.result wide a.toBitVec b = some (f a).toBitVec) :
      Means i (.neg z f) (some (.alu wide .neg .imm))
  | lddw : Means i .lddw (some .wideImm)
  | load (n : Width) : Means i (.load n) (some (.load n.access))
  | storeReg (n : Width) : Means i (.storeReg n) (some (.store n.access .reg))
  | storeImm (n : Width) : Means i (.storeImm n) (some (.store n.access .imm))
  | jump : Means i .jump (some .jump)
  | jumpImm {c : UInt64 → Int32 → Bool} (op : JumpOp)
      (h : ∀ a : UInt64, op.holds a.toBitVec (immU64 i.imm).toBitVec = c a i.imm) :
      Means i (.jumpImm c) (some (.jumpIf op .imm))
  | jumpReg {c : UInt64 → UInt64 → Bool} (op : JumpOp)
      (h : ∀ a b : UInt64, op.holds a.toBitVec b.toBitVec = c a b) :
      Means i (.jumpReg c) (some (.jumpIf op .reg))
  | call : Means i .call (some (.call .imm))
  | syscall : Means i .syscall (some (.call .reg))
  | exit : Means i .exit (some .exit)
  | unknown : Means i .unknown none

/-- Whether the table has no line for an opcode. -/
def unlisted (op : UInt8) : Bool :=
  match (⟨op, 0, 0, 0, 0⟩ : Insn).action with
  | .unknown => true
  | _ => false

/-- The opcodes that stand for something are in the table. -/
theorem form_of_unlisted :
    ∀ op < 256, unlisted (UInt8.ofNat op) = true → UInt8.ofNat op ∉ unsupported →
      Form.decode op = none := by
  decide +kernel

theorem Insn.form_of_unknown {i : Insn} (haction : i.action = .unknown)
    (h : i.opcode ∉ unsupported) : Form.decode i.opcode.toNat = none := by
  have hunlisted : unlisted i.opcode = true := by
    have hop : (⟨i.opcode, 0, 0, 0, 0⟩ : Insn).action = .unknown := haction
    rw [unlisted, hop]
  have hform := form_of_unlisted i.opcode.toNat i.opcode.toNat_lt
  rw [UInt8.ofNat_toNat] at hform
  exact hform hunlisted h

/-- **The arms are the operations their opcodes say.** -/
theorem Insn.means {i : Insn} (h : i.opcode ∉ unsupported) :
    i.action.Means i (Form.decode i.opcode.toNat) := by
  have h32 := toUInt32_immU64 i.imm
  generalize haction : i.action = a
  have hunknown : a = .unknown → Form.decode i.opcode.toNat = none :=
    fun ha => form_of_unknown (haction.trans ha) h
  unfold Insn.action at haction
  split at haction
  case h_88 =>
    rw [hunknown haction.symm, ← haction]
    exact .unknown
  all_goals
    rename_i hop
    rw [hop, ← haction]
  case h_1 => exact .aluImm true .mov fun _ _ => rfl
  case h_2 => exact .aluReg true .mov fun _ _ _ => rfl
  case h_3 => exact .aluImm false .mov fun _ _ => by rw [← h32]; rfl
  case h_4 => exact .aluReg false .mov fun _ _ _ => rfl
  case h_5 => exact .lddw
  case h_6 => exact .aluImm true .add fun _ _ => rfl
  case h_7 => exact .aluReg true .add fun _ _ _ => rfl
  case h_8 => exact .aluImm false .add fun _ _ => by rw [← h32]; rfl
  case h_9 => exact .aluReg false .add fun _ _ _ => rfl
  case h_10 => exact .aluImm true .sub fun _ _ => rfl
  case h_11 => exact .aluReg true .sub fun _ _ _ => rfl
  case h_12 => exact .aluImm false .sub fun _ _ => by rw [← h32]; rfl
  case h_13 => exact .aluReg false .sub fun _ _ _ => rfl
  case h_14 => exact .aluImm true .mul fun _ _ => rfl
  case h_15 => exact .aluReg true .mul fun _ _ _ => rfl
  case h_16 => exact .aluImm false .mul fun _ _ => by rw [← h32]; rfl
  case h_17 => exact .aluReg false .mul fun _ _ _ => rfl
  case h_18 => exact .divImm true .div fun a => result_div a _
  case h_19 => exact .divReg true .div result_div
  case h_20 => exact .divImm false .div fun a => by rw [← h32]; exact result_div32 a _
  case h_21 => exact .divReg false .div result_div32
  case h_22 => exact .divImm true .mod fun a => result_mod a _
  case h_23 => exact .divReg true .mod result_mod
  case h_24 => exact .neg true fun _ _ _ => rfl
  case h_25 => exact .neg false fun _ b hu => result_neg32 b ((unsigned32_of_neg hop _).mp hu)
  case h_26 => exact .aluImm true .or fun _ _ => rfl
  case h_27 => exact .aluReg true .or fun _ _ _ => rfl
  case h_28 => exact .aluImm false .or fun _ _ => by rw [← h32]; rfl
  case h_29 => exact .aluReg false .or fun _ _ _ => rfl
  case h_30 => exact .aluImm true .and fun _ _ => rfl
  case h_31 => exact .aluReg true .and fun _ _ _ => rfl
  case h_32 => exact .aluImm false .and fun _ _ => by rw [← h32]; rfl
  case h_33 => exact .aluReg false .and fun _ _ _ => rfl
  case h_34 => exact .aluImm true .xor fun _ _ => rfl
  case h_35 => exact .aluReg true .xor fun _ _ _ => rfl
  case h_36 => exact .aluImm false .xor fun _ _ => by rw [← h32]; rfl
  case h_37 => exact .aluReg false .xor fun _ _ _ => rfl
  case h_38 => exact .aluImm true .lsh fun a _ => by rw [← h32]; exact result_lsh a _
  case h_39 => exact .aluReg true .lsh fun a b _ => result_lsh a b
  case h_40 => exact .aluImm false .lsh fun a _ => by rw [← h32]; exact result_lsh32 a _
  case h_41 => exact .aluReg false .lsh fun a b _ => result_lsh32 a b
  case h_42 => exact .aluImm true .rsh fun a _ => by rw [← h32]; exact result_rsh a _
  case h_43 => exact .aluReg true .rsh fun a b _ => result_rsh a b
  case h_44 => exact .aluImm false .rsh fun a _ => by rw [← h32]; exact result_rsh32 a _
  case h_45 => exact .aluReg false .rsh fun a b _ => result_rsh32 a b
  case h_46 => exact .aluImm true .arsh fun a _ => by rw [← h32]; exact result_arsh a _
  case h_47 => exact .aluReg true .arsh fun a b _ => result_arsh a b
  case h_48 =>
    refine .aluImm false .arsh fun a hu => ?_
    rw [← h32]
    exact result_arsh32 _ ((unsigned32_of_arsh (Or.inl hop) _).mp hu)
  case h_49 =>
    refine .aluReg false .arsh fun a b hu => ?_
    exact result_arsh32 b ((unsigned32_of_arsh (Or.inr hop) _).mp hu)
  case h_50 => exact .load .b1
  case h_51 => exact .load .b2
  case h_52 => exact .load .b4
  case h_53 => exact .load .b8
  case h_54 => exact .storeReg .b1
  case h_55 => exact .storeReg .b2
  case h_56 => exact .storeReg .b4
  case h_57 => exact .storeReg .b8
  case h_58 => exact .storeImm .b1
  case h_59 => exact .storeImm .b2
  case h_60 => exact .storeImm .b4
  case h_61 => exact .storeImm .b8
  case h_62 => exact .jump
  case h_63 => exact .jumpImm .eq fun a => holds_eq a _
  case h_64 => exact .jumpReg .eq holds_eq
  case h_65 => exact .jumpImm .ne fun a => holds_ne a _
  case h_66 => exact .jumpReg .ne holds_ne
  case h_67 => exact .jumpImm .gt fun _ => rfl
  case h_68 => exact .jumpReg .gt fun _ _ => rfl
  case h_69 => exact .jumpImm .ge fun _ => rfl
  case h_70 => exact .jumpReg .ge fun _ _ => rfl
  case h_71 => exact .jumpImm .lt fun _ => rfl
  case h_72 => exact .jumpReg .lt fun _ _ => rfl
  case h_73 => exact .jumpImm .le fun _ => rfl
  case h_74 => exact .jumpReg .le fun _ _ => rfl
  case h_75 => exact .jumpImm .set fun a => holds_set a _
  case h_76 => exact .jumpReg .set holds_set
  case h_77 => exact .jumpImm .sgt fun a => slt_eq _ a
  case h_78 => exact .jumpReg .sgt fun a b => slt_eq b a
  case h_79 => exact .jumpImm .sge fun a => sle_eq _ a
  case h_80 => exact .jumpReg .sge fun a b => sle_eq b a
  case h_81 => exact .jumpImm .slt fun a => slt_eq a _
  case h_82 => exact .jumpReg .slt fun a b => slt_eq a b
  case h_83 => exact .jumpImm .sle fun a => sle_eq a _
  case h_84 => exact .jumpReg .sle fun a b => sle_eq a b
  case h_85 => exact .call
  case h_86 => exact .syscall
  case h_87 => exact .exit

end Tuniq
