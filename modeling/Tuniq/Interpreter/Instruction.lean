import Tuniq.Interpreter.Memory

/-!
# Instructions

An instruction word is split into five fields by `decode`, and the opcode says
what the fields mean.  The interpreter's `match` on the opcode has more than a
hundred arms, but the arms come in few **shapes**: assign a value computed from
the destination and an immediate, compare and jump, load, store, and so on.

`Action` lists the shapes, `Insn.action` is the opcode table --- one line for
each arm of the source, in its order, with the arm's own casts --- and what a
shape does to the machine is defined once, in `Tuniq.Interpreter.Vm`.  A
property of every arm of one shape is then proved once, and a property of one
arm is read off its line of the table.

The shapes keep the order of checks: a division tests its divisor before it
touches the destination register, a load touches the destination only after the
access succeeded.
-/

namespace Tuniq

/-- `Insn`: the fields of an instruction word. -/
structure Insn where
  opcode : UInt8
  dst : ℕ
  src : ℕ
  off : Int16
  imm : Int32
  deriving DecidableEq

/-- `decode`. -/
def decode (word : UInt64) : Insn where
  opcode := (word &&& 0xFF).toUInt8
  dst := ((word >>> 8) &&& 0x0F).toNat
  src := ((word >>> 12) &&& 0x0F).toNat
  off := ((word >>> 16) &&& 0xFFFF).toUInt16.toInt16
  imm := (word >>> 32).toUInt32.toInt32

/-! ## Casts -/

/-- `imm as u64`: sign extension. -/
def immU64 (imm : Int32) : UInt64 := imm.toInt64.toUInt64

/-- `imm as u32`. -/
def immU32 (imm : Int32) : UInt32 := imm.toUInt32

/-- `off as u64`: sign extension. -/
def offU64 (off : Int16) : UInt64 := off.toInt64.toUInt64

/-! ## Shapes -/

/-- The shapes of the arms of the interpreter. -/
inductive Action where
  /-- `regs[dst] = f(regs[dst], imm)` -/
  | aluImm (f : UInt64 → Int32 → UInt64)
  /-- `regs[dst] = f(regs[dst], regs[src])` -/
  | aluReg (f : UInt64 → UInt64 → UInt64)
  /-- As `aluImm`, after returning `DivisionByZero` when the divisor is zero. -/
  | divImm (isZero : Int32 → Bool) (f : UInt64 → Int32 → UInt64)
  /-- As `aluReg`, after returning `DivisionByZero` when the divisor is zero. -/
  | divReg (isZero : UInt64 → Bool) (f : UInt64 → UInt64 → UInt64)
  /-- `regs[dst] = -regs[dst]`, overflowing on the values `isMin` holds of. -/
  | neg (isMin : UInt64 → Bool) (f : UInt64 → UInt64)
  /-- The two-word load of a constant. -/
  | lddw
  | load (n : Width)
  | storeReg (n : Width)
  | storeImm (n : Width)
  /-- `ja` -/
  | jump
  /-- `if cond(regs[dst], imm) { jump }` -/
  | jumpImm (cond : UInt64 → Int32 → Bool)
  /-- `if cond(regs[dst], regs[src]) { jump }` -/
  | jumpReg (cond : UInt64 → UInt64 → Bool)
  | call
  | syscall
  | exit
  | unknown

/-- The width of a store. -/
def Action.storeWidth : Action → Option Width
  | .storeReg n => some n
  | .storeImm n => some n
  | _ => none

/-- The arms of `Vm::run`, by opcode. -/
def Insn.action (i : Insn) : Action :=
  match i.opcode with
  -- MOV
  | 0xB7 => .aluImm fun _ imm => immU64 imm
  | 0xBF => .aluReg fun _ b => b
  | 0xB4 => .aluImm fun _ imm => (immU32 imm).toUInt64
  | 0xBC => .aluReg fun _ b => b.toUInt32.toUInt64
  -- LDDW
  | 0x18 => .lddw
  -- ADD
  | 0x07 => .aluImm fun a imm => a + immU64 imm
  | 0x0F => .aluReg fun a b => a + b
  | 0x04 => .aluImm fun a imm => (a.toUInt32 + immU32 imm).toUInt64
  | 0x0C => .aluReg fun a b => (a.toUInt32 + b.toUInt32).toUInt64
  -- SUB
  | 0x17 => .aluImm fun a imm => a - immU64 imm
  | 0x1F => .aluReg fun a b => a - b
  | 0x14 => .aluImm fun a imm => (a.toUInt32 - immU32 imm).toUInt64
  | 0x1C => .aluReg fun a b => (a.toUInt32 - b.toUInt32).toUInt64
  -- MUL
  | 0x27 => .aluImm fun a imm => a * immU64 imm
  | 0x2F => .aluReg fun a b => a * b
  | 0x24 => .aluImm fun a imm => (a.toUInt32 * immU32 imm).toUInt64
  | 0x2C => .aluReg fun a b => (a.toUInt32 * b.toUInt32).toUInt64
  -- DIV
  | 0x37 => .divImm (fun imm => immU64 imm == 0) fun a imm => a / immU64 imm
  | 0x3F => .divReg (fun b => b == 0) fun a b => a / b
  | 0x34 => .divImm (fun imm => immU32 imm == 0) fun a imm =>
      (a.toUInt32 / immU32 imm).toUInt64
  | 0x3C => .divReg (fun b => b.toUInt32 == 0) fun a b => (a.toUInt32 / b.toUInt32).toUInt64
  -- MOD
  | 0x97 => .divImm (fun imm => immU64 imm == 0) fun a imm => a % immU64 imm
  | 0x9F => .divReg (fun b => b == 0) fun a b => a % b
  -- NEG
  | 0x87 => .neg (fun a => a.toInt64 == Int64.minValue) fun a => (-a.toInt64).toUInt64
  | 0x84 => .neg (fun a => a.toUInt32.toInt32 == Int32.minValue) fun a =>
      (-a.toUInt32.toInt32).toInt64.toUInt64
  -- OR
  | 0x47 => .aluImm fun a imm => a ||| immU64 imm
  | 0x4F => .aluReg fun a b => a ||| b
  | 0x44 => .aluImm fun a imm => (a.toUInt32 ||| immU32 imm).toUInt64
  | 0x4C => .aluReg fun a b => (a.toUInt32 ||| b.toUInt32).toUInt64
  -- AND
  | 0x57 => .aluImm fun a imm => a &&& immU64 imm
  | 0x5F => .aluReg fun a b => a &&& b
  | 0x54 => .aluImm fun a imm => (a.toUInt32 &&& immU32 imm).toUInt64
  | 0x5C => .aluReg fun a b => (a.toUInt32 &&& b.toUInt32).toUInt64
  -- XOR
  | 0xA7 => .aluImm fun a imm => a ^^^ immU64 imm
  | 0xAF => .aluReg fun a b => a ^^^ b
  | 0xA4 => .aluImm fun a imm => (a.toUInt32 ^^^ immU32 imm).toUInt64
  | 0xAC => .aluReg fun a b => (a.toUInt32 ^^^ b.toUInt32).toUInt64
  -- LSH
  | 0x67 => .aluImm fun a imm => a <<< (immU32 imm &&& 63).toUInt64
  | 0x6F => .aluReg fun a b => a <<< (b.toUInt32 &&& 63).toUInt64
  | 0x64 => .aluImm fun a imm => (a.toUInt32 <<< (immU32 imm &&& 31)).toUInt64
  | 0x6C => .aluReg fun a b => (a.toUInt32 <<< (b.toUInt32 &&& 31)).toUInt64
  -- RSH (logical)
  | 0x77 => .aluImm fun a imm => a >>> (immU32 imm &&& 63).toUInt64
  | 0x7F => .aluReg fun a b => a >>> (b.toUInt32 &&& 63).toUInt64
  | 0x74 => .aluImm fun a imm => (a.toUInt32 >>> (immU32 imm &&& 31)).toUInt64
  | 0x7C => .aluReg fun a b => (a.toUInt32 >>> (b.toUInt32 &&& 31)).toUInt64
  -- ARSH (arithmetic right shift)
  | 0xC7 => .aluImm fun a imm => (a.toInt64 >>> (immU32 imm &&& 63).toUInt64.toInt64).toUInt64
  | 0xCF => .aluReg fun a b => (a.toInt64 >>> (b.toUInt32 &&& 63).toUInt64.toInt64).toUInt64
  | 0xC4 => .aluImm fun a imm =>
      (a.toUInt32.toInt32 >>> (immU32 imm &&& 31).toInt32).toInt64.toUInt64
  | 0xCC => .aluReg fun a b =>
      (a.toUInt32.toInt32 >>> (b.toUInt32 &&& 31).toInt32).toInt64.toUInt64
  -- LOADS
  | 0x71 => .load .b1
  | 0x69 => .load .b2
  | 0x61 => .load .b4
  | 0x79 => .load .b8
  -- STORES (reg)
  | 0x73 => .storeReg .b1
  | 0x6B => .storeReg .b2
  | 0x63 => .storeReg .b4
  | 0x7B => .storeReg .b8
  -- STORES (imm)
  | 0x72 => .storeImm .b1
  | 0x6A => .storeImm .b2
  | 0x62 => .storeImm .b4
  | 0x7A => .storeImm .b8
  -- JUMPS
  | 0x05 => .jump
  -- jeq
  | 0x15 => .jumpImm fun a imm => a == immU64 imm
  | 0x1D => .jumpReg fun a b => a == b
  -- jne
  | 0x55 => .jumpImm fun a imm => a != immU64 imm
  | 0x5D => .jumpReg fun a b => a != b
  -- jgt (unsigned)
  | 0x25 => .jumpImm fun a imm => a > immU64 imm
  | 0x2D => .jumpReg fun a b => a > b
  -- jge (unsigned)
  | 0x35 => .jumpImm fun a imm => a ≥ immU64 imm
  | 0x3D => .jumpReg fun a b => a ≥ b
  -- jlt (unsigned)
  | 0xA5 => .jumpImm fun a imm => a < immU64 imm
  | 0xAD => .jumpReg fun a b => a < b
  -- jle (unsigned)
  | 0xB5 => .jumpImm fun a imm => a ≤ immU64 imm
  | 0xBD => .jumpReg fun a b => a ≤ b
  -- jset
  | 0x45 => .jumpImm fun a imm => a &&& immU64 imm != 0
  | 0x4D => .jumpReg fun a b => a &&& b != 0
  -- jsgt (signed)
  | 0x65 => .jumpImm fun a imm => a.toInt64 > imm.toInt64
  | 0x6D => .jumpReg fun a b => a.toInt64 > b.toInt64
  -- jsge (signed)
  | 0x75 => .jumpImm fun a imm => a.toInt64 ≥ imm.toInt64
  | 0x7D => .jumpReg fun a b => a.toInt64 ≥ b.toInt64
  -- jslt (signed)
  | 0xC5 => .jumpImm fun a imm => a.toInt64 < imm.toInt64
  | 0xCD => .jumpReg fun a b => a.toInt64 < b.toInt64
  -- jsle (signed)
  | 0xD5 => .jumpImm fun a imm => a.toInt64 ≤ imm.toInt64
  | 0xDD => .jumpReg fun a b => a.toInt64 ≤ b.toInt64
  -- CALL / EXIT
  | 0x85 => .call
  | 0x8D => .syscall
  | 0x95 => .exit
  | _ => .unknown

/-- The line of the opcode table for an instruction. -/
theorem Insn.action_of_opcode {i : Insn} {op : UInt8} (h : i.opcode = op) :
    i.action = ({ i with opcode := op } : Insn).action := by
  rw [Insn.action, Insn.action, h]

/-- The only arm that exits is `0x95`. -/
theorem Insn.action_eq_exit_iff {i : Insn} : i.action = .exit ↔ i.opcode = 0x95 := by
  constructor
  · intro h
    rw [Insn.action] at h
    split at h <;> first | assumption | cases h
  · intro h
    rw [Insn.action, h]
    rfl

/-- The only arm that can push a frame is `0x85`. -/
theorem Insn.action_eq_call_iff {i : Insn} : i.action = .call ↔ i.opcode = 0x85 := by
  constructor
  · intro h
    rw [Insn.action] at h
    split at h <;> first | assumption | cases h
  · intro h
    rw [Insn.action, h]
    rfl

/-- The only other arm that reaches the syscall table is `0x8D`. -/
theorem Insn.action_eq_syscall_iff {i : Insn} : i.action = .syscall ↔ i.opcode = 0x8D := by
  constructor
  · intro h
    rw [Insn.action] at h
    split at h <;> first | assumption | cases h
  · intro h
    rw [Insn.action, h]
    rfl

end Tuniq
