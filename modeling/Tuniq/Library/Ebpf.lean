import Tuniq.Library.Bytes
import Tuniq.Library.Copy

/-!
# The eBPF instruction set

The meaning of an eBPF program, in the terms of the instruction set rather than of any
implementation of it.  A word has five fields.  Three bits of the opcode are its class, one
says whether the second operand is the immediate or a register, and four name the
operation; for the loads and stores two bits are the size.  `Form.decode` reads these
fields, so no opcode is listed here.

Registers are bit vectors, memory is a partial map from addresses to bytes (`Store`), and
the 32-bit operations are the 64-bit ones on the low halves, with zeros above.

What the instruction set leaves to its users is a `Dialect`: how deep calls nest, which of
the two kinds of call a call instruction makes, what a caller finds in its registers when
a call is over, and what the helper functions do.  A division by zero ends the run, as it
does in the dialects that check for it.
-/

namespace Tuniq
namespace Ebpf

/-! ## Words -/

abbrev Word := BitVec 64

def opcode (w : Word) : BitVec 8 := w.extractLsb' 0 8

def dst (w : Word) : BitVec 4 := w.extractLsb' 8 4

def src (w : Word) : BitVec 4 := w.extractLsb' 12 4

def offset (w : Word) : BitVec 16 := w.extractLsb' 16 16

def imm (w : Word) : BitVec 32 := w.extractLsb' 32 32

/-- The word at a place of a program, if the place is one of the program. -/
def fetch (program : List Word) (pc : ℤ) : Option Word :=
  if 0 ≤ pc then program[pc.toNat]? else none

/-! ## Operations -/

inductive AluOp where
  | add
  | sub
  | mul
  | div
  | or
  | and
  | lsh
  | rsh
  | neg
  | mod
  | xor
  | mov
  | arsh
  deriving DecidableEq, Repr

/-- The operations a jump compares with; the signed ones begin with an `s`. -/
inductive JumpOp where
  | eq
  | gt
  | ge
  | set
  | ne
  | sgt
  | sge
  | lt
  | le
  | slt
  | sle
  deriving DecidableEq, Repr

/-- The sizes of an access, of one, two, four and eight bytes. -/
inductive Size where
  | byte
  | half
  | word
  | double
  deriving DecidableEq, Repr

/-- Where the second operand comes from. -/
inductive Source where
  | imm
  | reg
  deriving DecidableEq, Repr

def Size.bytes : Size → ℕ
  | .byte => 1
  | .half => 2
  | .word => 4
  | .double => 8

/-- What an operation computes at a width, and nothing when it divides by zero.  A shift
goes by its amount modulo the width. -/
def AluOp.eval {n : ℕ} (op : AluOp) (a b : BitVec n) : Option (BitVec n) :=
  match op with
  | .add => some (a + b)
  | .sub => some (a - b)
  | .mul => some (a * b)
  | .div => if b = 0 then none else some (a / b)
  | .or => some (a ||| b)
  | .and => some (a &&& b)
  | .lsh => some (a <<< (b.toNat % n))
  | .rsh => some (a >>> (b.toNat % n))
  | .neg => some (-a)
  | .mod => if b = 0 then none else some (a % b)
  | .xor => some (a ^^^ b)
  | .mov => some b
  | .arsh => some (a.sshiftRight (b.toNat % n))

/-- The operation on whole registers, or on their low halves. -/
def AluOp.result (op : AluOp) (wide : Bool) (a b : Word) : Option Word :=
  if wide then op.eval a b
  else (op.eval (a.setWidth 32) (b.setWidth 32)).map fun c => c.setWidth 64

def JumpOp.holds (op : JumpOp) (a b : Word) : Bool :=
  match op with
  | .eq => a == b
  | .gt => b.ult a
  | .ge => b.ule a
  | .set => a &&& b != 0
  | .ne => a != b
  | .sgt => b.slt a
  | .sge => b.sle a
  | .lt => a.ult b
  | .le => a.ule b
  | .slt => a.slt b
  | .sle => a.sle b

/-- The low 16, 32 or 64 bits, as they stand or with their bytes reversed. -/
def swapBytes (source : Source) (bits : ℕ) (a : Word) : Word :=
  match source with
  | .imm => BitVec.ofNat 64 (ofLe (toLe (bits / 8) a.toNat))
  | .reg => BitVec.ofNat 64 (ofLe (toLe (bits / 8) a.toNat).reverse)

/-! ## Opcodes -/

/-- What an opcode stands for. -/
inductive Form where
  | alu (wide : Bool) (op : AluOp) (source : Source)
  | swap (source : Source)
  | wideImm
  | load (n : Size)
  | store (n : Size) (source : Source)
  | jump
  | jumpIf (op : JumpOp) (source : Source)
  | call (source : Source)
  | exit
  deriving DecidableEq, Repr

def AluOp.decode (code : ℕ) : Option AluOp :=
  match code with
  | 0x0 => some .add
  | 0x1 => some .sub
  | 0x2 => some .mul
  | 0x3 => some .div
  | 0x4 => some .or
  | 0x5 => some .and
  | 0x6 => some .lsh
  | 0x7 => some .rsh
  | 0x8 => some .neg
  | 0x9 => some .mod
  | 0xa => some .xor
  | 0xb => some .mov
  | 0xc => some .arsh
  | _ => none

def JumpOp.decode (code : ℕ) : Option JumpOp :=
  match code with
  | 0x1 => some .eq
  | 0x2 => some .gt
  | 0x3 => some .ge
  | 0x4 => some .set
  | 0x5 => some .ne
  | 0x6 => some .sgt
  | 0x7 => some .sge
  | 0xa => some .lt
  | 0xb => some .le
  | 0xc => some .slt
  | 0xd => some .sle
  | _ => none

/-- The size and the mode of a load or a store; there is one mode. -/
def Size.decode (op : ℕ) : Option Size :=
  match op / 8 with
  | 0xc => some .word
  | 0xd => some .half
  | 0xe => some .byte
  | 0xf => some .double
  | _ => none

def Form.decodeAlu (wide : Bool) (code : ℕ) (source : Source) : Option Form :=
  match code, source with
  | 0x8, .reg => none
  | 0xd, source => if wide then none else some (.swap source)
  | code, source => (AluOp.decode code).map fun op => .alu wide op source

def Form.decodeJump (code : ℕ) (source : Source) : Option Form :=
  match code, source with
  | 0x0, .imm => some .jump
  | 0x8, source => some (.call source)
  | 0x9, .imm => some .exit
  | code, source => (JumpOp.decode code).map fun op => .jumpIf op source

/-- The form of an opcode: its class is in the low three bits, its source in the next one
and its operation in the high four. -/
def Form.decode (op : ℕ) : Option Form :=
  let source := if op / 8 % 2 = 0 then .imm else .reg
  match op % 8 with
  | 0 => if op = 0x18 then some .wideImm else none
  | 1 => (Size.decode op).map .load
  | 2 => (Size.decode op).map fun n => .store n .imm
  | 3 => (Size.decode op).map fun n => .store n .reg
  | 4 => decodeAlu false (op / 16) source
  | 5 => decodeJump (op / 16) source
  | 7 => decodeAlu true (op / 16) source
  | _ => none

/-! ## Machines -/

abbrev RegFile := Fin 11 → Word

/-- Memory, as far as it is mapped. -/
abbrev Store := Word → Option UInt8

namespace Store

/-- A byte, `0` where none is mapped. -/
def peek (m : Store) (a : Word) : UInt8 := (m a).getD 0

/-- The bytes at an address, if all of them are mapped. -/
def read (m : Store) (a : Word) (n : ℕ) : Option (List UInt8) :=
  if ∀ i < n, (m (a + BitVec.ofNat 64 i)).isSome then
    some ((List.range n).map fun i => m.peek (a + BitVec.ofNat 64 i))
  else none

/-- The memory with other bytes at an address, if all of these are mapped. -/
def write (m : Store) (a : Word) (bs : List UInt8) : Option Store :=
  if ∀ i < bs.length, (m (a + BitVec.ofNat 64 i)).isSome then
    some fun x => if (x - a).toNat < bs.length then bs[(x - a).toNat]? else m x
  else none

/-- One byte set, if it is mapped. -/
def poke (m : Store) (a : Word) (b : UInt8) : Store :=
  fun x => if x = a ∧ (m a).isSome then some b else m x

/-- The memory as a store of bytes. -/
def cells : Cells Store Word UInt8 where
  peek := peek
  poke := poke
  peek_poke_of_ne := by
    intro m a a' b hne
    rw [peek, poke, if_neg (fun h => hne h.1), peek]

end Store

/-- The state of a run. -/
structure Machine (D : Type) where
  regs : RegFile
  pc : ℤ
  frames : List (ℤ × RegFile)
  store : Store
  data : D

/-- The two kinds of call. -/
inductive Callee where
  | function
  | helper
  deriving DecidableEq, Repr

/-- What the instruction set leaves open. -/
structure Dialect (D : Type) where
  maxDepth : ℕ
  callee : Source → BitVec 4 → Callee
  /-- The registers of a caller when its callee has returned. -/
  restore : (caller callee : RegFile) → RegFile
  helper : BitVec 32 → RegFile → Store → D → RegFile × Store × D

/-- How a run ends. -/
inductive Outcome where
  | exit (r0 : Word)
  | illegal (op : BitVec 8)
  | outOfProgram
  | divisionByZero
  | access (a : Word) (n : Size)
  | callDepth
  deriving DecidableEq, Repr

namespace Machine

variable {D : Type}

def setReg (s : Machine D) (r : Fin 11) (v : Word) : Machine D :=
  { s with regs := Function.update s.regs r v }

def jump (s : Machine D) (d : ℤ) : Machine D := { s with pc := s.pc + d }

/-- The second operand. -/
def operand (s : Machine D) (w : Word) (r : Fin 11) (source : Source) : Word :=
  match source with
  | .imm => (imm w).signExtend 64
  | .reg => s.regs r

end Machine

section

variable {D : Type} (dialect : Dialect D) (program : List Word)

/-- There is a first register. -/
local instance neZero_registers : NeZero 11 := ⟨Nat.succ_ne_zero 10⟩

/-- What an instruction does to a machine whose program counter has gone past it. -/
def exec (s : Machine D) (w : Word) (d r : Fin 11) :
    Form → Except (Outcome × Machine D) (Machine D)
  | .alu wide op source =>
    match op.result wide (s.regs d) (s.operand w r source) with
    | none => .error (.divisionByZero, s)
    | some v => .ok (s.setReg d v)
  | .swap source =>
    if imm w = 16 ∨ imm w = 32 ∨ imm w = 64 then
      .ok (s.setReg d (swapBytes source (imm w).toNat (s.regs d)))
    else .error (.illegal (opcode w), s)
  | .wideImm =>
    match fetch program s.pc with
    | none => .error (.outOfProgram, s)
    | some high => .ok ((s.jump 1).setReg d (imm high ++ imm w))
  | .load n =>
    let a := s.regs r + (offset w).signExtend 64
    match s.store.read a n.bytes with
    | none => .error (.access a n, s)
    | some bs => .ok (s.setReg d (BitVec.ofNat 64 (ofLe bs)))
  | .store n source =>
    let a := s.regs d + (offset w).signExtend 64
    match s.store.write a (toLe n.bytes (s.operand w r source).toNat) with
    | none => .error (.access a n, s)
    | some m => .ok { s with store := m }
  | .jump => .ok (s.jump (offset w).toInt)
  | .jumpIf op source =>
    if op.holds (s.regs d) (s.operand w r source) then .ok (s.jump (offset w).toInt) else .ok s
  | .call source =>
    match dialect.callee source (src w) with
    | .helper =>
      let r := dialect.helper (imm w) s.regs s.store s.data
      .ok { s with regs := r.1, store := r.2.1, data := r.2.2 }
    | .function =>
      if dialect.maxDepth ≤ s.frames.length then .error (.callDepth, s)
      else .ok ({ s with frames := (s.pc, s.regs) :: s.frames }.jump (imm w).toInt)
  | .exit =>
    match s.frames with
    | [] => .error (.exit (s.regs 0), s)
    | (pc, caller) :: frames =>
      .ok { s with regs := dialect.restore caller s.regs, pc := pc, frames := frames }

/-- One step.  A word that names a register there is not is as illegal as one whose opcode
stands for nothing. -/
def step (s : Machine D) : Except (Outcome × Machine D) (Machine D) :=
  match fetch program s.pc with
  | none => .error (.outOfProgram, s)
  | some w =>
    if h : (dst w).toNat < 11 ∧ (src w).toNat < 11 then
      match Form.decode (opcode w).toNat with
      | none => .error (.illegal (opcode w), s.jump 1)
      | some form => exec dialect program (s.jump 1) w ⟨_, h.1⟩ ⟨_, h.2⟩ form
    else .error (.illegal (opcode w), s.jump 1)

end

/-! ## What a step is, by what it reads -/

section

variable {D : Type} {dialect : Dialect D} {program : List Word} {s : Machine D} {w : Word}
  {d r : Fin 11}

theorem exec_alu {wide : Bool} {op : AluOp} {source : Source} {v : Word}
    (h : op.result wide (s.regs d) (s.operand w r source) = some v) :
    exec dialect program s w d r (.alu wide op source) = .ok (s.setReg d v) := by
  rw [exec, h]

theorem exec_alu_of_none {wide : Bool} {op : AluOp} {source : Source}
    (h : op.result wide (s.regs d) (s.operand w r source) = none) :
    exec dialect program s w d r (.alu wide op source) = .error (.divisionByZero, s) := by
  rw [exec, h]

theorem exec_wideImm {high : Word} (h : fetch program s.pc = some high) :
    exec dialect program s w d r .wideImm = .ok ((s.jump 1).setReg d (imm high ++ imm w)) := by
  rw [exec, h]

theorem exec_wideImm_of_none (h : fetch program s.pc = none) :
    exec dialect program s w d r .wideImm = .error (.outOfProgram, s) := by
  rw [exec, h]

theorem exec_load {n : Size} {bs : List UInt8}
    (h : s.store.read (s.regs r + (offset w).signExtend 64) n.bytes = some bs) :
    exec dialect program s w d r (.load n) = .ok (s.setReg d (BitVec.ofNat 64 (ofLe bs))) := by
  rw [exec, h]

theorem exec_load_of_none {n : Size}
    (h : s.store.read (s.regs r + (offset w).signExtend 64) n.bytes = none) :
    exec dialect program s w d r (.load n) =
      .error (.access (s.regs r + (offset w).signExtend 64) n, s) := by
  rw [exec, h]

theorem exec_store {n : Size} {source : Source} {m : Store}
    (h : s.store.write (s.regs d + (offset w).signExtend 64)
      (toLe n.bytes (s.operand w r source).toNat) = some m) :
    exec dialect program s w d r (.store n source) = .ok { s with store := m } := by
  rw [exec, h]

theorem exec_store_of_none {n : Size} {source : Source}
    (h : s.store.write (s.regs d + (offset w).signExtend 64)
      (toLe n.bytes (s.operand w r source).toNat) = none) :
    exec dialect program s w d r (.store n source) =
      .error (.access (s.regs d + (offset w).signExtend 64) n, s) := by
  rw [exec, h]

theorem exec_call_helper {source : Source} (h : dialect.callee source (src w) = .helper) :
    exec dialect program s w d r (.call source) =
      .ok { s with
        regs := (dialect.helper (imm w) s.regs s.store s.data).1
        store := (dialect.helper (imm w) s.regs s.store s.data).2.1
        data := (dialect.helper (imm w) s.regs s.store s.data).2.2 } := by
  rw [exec, h]

theorem exec_call_function {source : Source} (h : dialect.callee source (src w) = .function)
    (hdepth : s.frames.length < dialect.maxDepth) :
    exec dialect program s w d r (.call source) =
      .ok ({ s with frames := (s.pc, s.regs) :: s.frames }.jump (imm w).toInt) := by
  rw [exec, h]
  exact if_neg (Nat.not_le.mpr hdepth)

theorem exec_call_of_le {source : Source} (h : dialect.callee source (src w) = .function)
    (hdepth : dialect.maxDepth ≤ s.frames.length) :
    exec dialect program s w d r (.call source) = .error (.callDepth, s) := by
  rw [exec, h]
  exact if_pos hdepth

theorem step_of_fetch (hfetch : fetch program s.pc = some w) (hd : (dst w).toNat < 11)
    (hr : (src w).toNat < 11) {form : Form} (h : Form.decode (opcode w).toNat = some form) :
    step dialect program s = exec dialect program (s.jump 1) w ⟨_, hd⟩ ⟨_, hr⟩ form := by
  rw [step, hfetch]
  dsimp only
  rw [dif_pos ⟨hd, hr⟩, h]

theorem step_of_illegal (hfetch : fetch program s.pc = some w)
    (h : Form.decode (opcode w).toNat = none) :
    step dialect program s = .error (.illegal (opcode w), s.jump 1) := by
  rw [step, hfetch]
  dsimp only
  rw [h]
  exact ite_self _

end

end Ebpf
end Tuniq
