import Tuniq.Interpreter.Instruction
import Tuniq.Interpreter.Syscalls

/-!
# The virtual machine

`Vm::run` is a loop that fetches a word, decodes it, advances the program
counter and executes one arm.  Here it is the machine `Vm.step`: a step either
continues with a new state or stops the loop with a `Halt`, which says whether
`run` returns `Ok`, returns an error, or does not return because of a fault.
`run` itself is `Halts Vm.step`, so a run that never stops is simply one with no
outcome.

An error leaves the machine in the state it was raised in, so `Halt.err` carries
that state; a fault does not.

The call stack is a list with the newest frame first.
-/

namespace Tuniq

/-- `SbpfError`. -/
inductive SbpfError where
  | unknownOpcode (op : UInt8)
  | outOfBounds (pc : ℕ)
  | divisionByZero
  | invalidMemoryAccess (addr : UInt64) (size : ℕ)
  | callStackOverflow
  | badExit
  deriving DecidableEq, Repr

/-- `MAX_CALL_DEPTH`. -/
def maxCallDepth : ℕ := 64

/-- The register file `r0, …, r10`. -/
abbrev Regs := Vector UInt64 11

/-- The number of a register. -/
abbrev Reg := Fin 11

/-! The registers that are known by their names. -/

def Reg.r0 : Reg := 0
def Reg.r1 : Reg := 1
def Reg.r2 : Reg := 2
def Reg.r3 : Reg := 3
def Reg.r4 : Reg := 4
def Reg.r6 : Reg := 6
def Reg.r10 : Reg := 10

def Regs.get (regs : Regs) (r : Reg) : UInt64 := regs[r]

def Regs.put (regs : Regs) (r : Reg) (v : UInt64) : Regs := regs.set r v r.isLt

theorem Regs.get_put_self (regs : Regs) (r : Reg) (v : UInt64) : (regs.put r v).get r = v :=
  Vector.getElem_set_self _

theorem Regs.get_put_of_ne (regs : Regs) {r r' : Reg} (v : UInt64) (h : r' ≠ r) :
    (regs.put r v).get r' = regs.get r' :=
  Vector.getElem_set_ne _ _ fun heq => h (Fin.ext heq.symm)

/-- `Vm`: the registers, the program, the frames of the active internal calls,
the memory, the syscall implementation and the data returned to the caller. -/
structure Vm (t : Target) (S : Type) where
  regs : Regs
  pc : ℕ
  text : Vec t.width 8 UInt64
  callStack : List (ℕ × Regs)
  mem : Memory t.width
  syscalls : S
  returnData : List UInt8

/-- How `Vm::run` stops: with `Ok(r0)`, with an error, or with a fault. -/
inductive Halt (t : Target) (S : Type) where
  | ok (r0 : UInt64) (vm : Vm t S)
  | err (e : SbpfError) (vm : Vm t S)
  | panic (f : Fault)

/-- What `Vm::run` gives its caller: a value, an error, or nothing. -/
def Halt.result {t : Target} {S : Type} : Halt t S → Except (Stop SbpfError) UInt64
  | .ok r0 _ => .ok r0
  | .err e _ => .error (.err e)
  | .panic f => .error (.fault f)

theorem Halt.result_eq_ok {t : Target} {S : Type} {r : Halt t S} {r0 : UInt64} :
    r.result = .ok r0 ↔ ∃ vm, r = .ok r0 vm := by
  cases r <;> simp [Halt.result]

theorem Halt.result_eq_fault {t : Target} {S : Type} {r : Halt t S} {f : Fault} :
    r.result = .error (.fault f) ↔ r = .panic f := by
  cases r <;> simp [Halt.result]

namespace Vm

variable {t : Target} {S : Type}

/-- Run a computation that can only fault inside a step. -/
def liftHalt {α : Type} : Except Fault α → Except (Halt t S) α
  | .ok a => .ok a
  | .error f => .error (.panic f)

@[simp] theorem liftHalt_ok {α : Type} (a : α) :
    (liftHalt (.ok a) : Except (Halt t S) α) = .ok a := rfl

@[simp] theorem liftHalt_error {α : Type} (f : Fault) :
    (liftHalt (.error f) : Except (Halt t S) α) = .error (.panic f) := rfl

/-- `Vm::new`: all registers zero but `r10`, the top of the stack. -/
def new (t : Target) (text : Vec t.width 8 UInt64) (mem : Memory t.width) (syscalls : S) :
    Except Fault (Vm t S) := do
  let top ← t.addU64 mem.stackBase (UInt64.ofNat mem.stack.len)
  return { regs := (Vector.replicate 11 0).set 10 top
           pc := 0
           text := text
           callStack := []
           mem := mem
           syscalls := syscalls
           returnData := [] }

/-- A machine before its first step, with the registers its caller chose. -/
def start (text : Vec t.width 8 UInt64) (regs : Regs) (mem : Memory t.width) (syscalls : S) :
    Vm t S where
  regs := regs
  pc := 0
  text := text
  callStack := []
  mem := mem
  syscalls := syscalls
  returnData := []

/-! ## Registers and the program counter -/

/-- `self.regs[r]`. -/
def reg (vm : Vm t S) (r : ℕ) : Except (Halt t S) UInt64 :=
  match vm.regs[r]? with
  | some v => .ok v
  | none => .error (.panic .indexOutOfBounds)

/-- `self.regs[r] = v`. -/
def setReg (vm : Vm t S) (r : ℕ) (v : UInt64) : Except (Halt t S) (Vm t S) :=
  if h : r < 11 then .ok { vm with regs := vm.regs.set r v }
  else .error (.panic .indexOutOfBounds)

/-- `self.pc = (self.pc as i64 + d) as usize`. -/
def jumpBy (vm : Vm t S) (d : ℤ) : Except (Halt t S) (Vm t S) := do
  let target ← liftHalt (t.addI64 (Int.bmod vm.pc (2 ^ 64)) d)
  return { vm with pc := t.width.usizeOfI64 target }

/-! ## Syscalls -/

/-- The hashes of `dispatch_syscall`. -/
inductive Hash where
  | solLog
  | solPanic
  | solMemcpy
  | solMemset
  | solMemmove
  | solSetReturnData
  | unknown
  deriving DecidableEq, Repr

/-- The table of `dispatch_syscall`: murmur3 hashes of the names. -/
def Hash.ofU32 (hash : UInt32) : Hash :=
  match hash with
  | 0x686093bb => .solLog
  | 0x52ba5096 => .solPanic
  | 0xa92366c4 => .solMemcpy
  | 0x3770fb22 => .solMemset
  | 0x0d667e63 => .solMemmove
  | 0x5b839aba => .solSetReturnData
  | 5 => .solSetReturnData
  | _ => .unknown

/-- `self.regs[0] = 0`. -/
def zeroR0 (vm : Vm t S) : Vm t S := { vm with regs := vm.regs.set 0 0 }

/-- What each arm of `dispatch_syscall` does. -/
def performSyscall [Syscalls t S] (vm : Vm t S) : Hash → Except (Halt t S) (Vm t S)
  | .solLog => .ok vm.zeroR0
  | .solPanic =>
    -- just zero return; the trait's diverging `sol_panic` is not called
    .ok vm.zeroR0
  | .solMemcpy => do
    let r ← liftHalt (Syscalls.solMemcpy vm.syscalls vm.regs[1] vm.regs[2] vm.regs[3] vm.mem)
    return ({ vm with syscalls := r.1, mem := r.2 } : Vm t S).zeroR0
  | .solMemset => do
    let r ← liftHalt
      (Syscalls.solMemset vm.syscalls vm.regs[1] vm.regs[2].toUInt8 vm.regs[3] vm.mem)
    return ({ vm with syscalls := r.1, mem := r.2 } : Vm t S).zeroR0
  | .solMemmove => do
    let r ← liftHalt (Syscalls.solMemmove vm.syscalls vm.regs[1] vm.regs[2] vm.regs[3] vm.mem)
    return ({ vm with syscalls := r.1, mem := r.2 } : Vm t S).zeroR0
  | .solSetReturnData => do
    let len := t.width.asUsize vm.regs[2].toNat
    let data ← liftHalt (Memory.collectBytes t len (vm.mem.readOrZero t vm.regs[1]))
    return ({ vm with returnData := data } : Vm t S).zeroR0
  | .unknown =>
    -- unknown syscall: preserve r0, do not clobber error codes
    .ok vm

/-- `dispatch_syscall`. -/
def dispatchSyscall [Syscalls t S] (vm : Vm t S) (hash : UInt32) :
    Except (Halt t S) (Vm t S) :=
  vm.performSyscall (Hash.ofU32 hash)

/-! ## One step -/

/-- What an arm of each shape does.  The program counter of `vm` has already
been advanced past the fetched word. -/
def perform [Syscalls t S] (vm : Vm t S) (i : Insn) : Action → Except (Halt t S) (Vm t S)
  | .aluImm f => do
    let a ← vm.reg i.dst
    vm.setReg i.dst (f a i.imm)
  | .aluReg f => do
    let b ← vm.reg i.src
    let a ← vm.reg i.dst
    vm.setReg i.dst (f a b)
  | .divImm isZero f =>
    if isZero i.imm then .error (.err .divisionByZero vm)
    else do
      let a ← vm.reg i.dst
      vm.setReg i.dst (f a i.imm)
  | .divReg isZero f => do
    let b ← vm.reg i.src
    if isZero b then .error (.err .divisionByZero vm)
    else
      let a ← vm.reg i.dst
      vm.setReg i.dst (f a b)
  | .neg isMin f => do
    let a ← vm.reg i.dst
    if t.overflowChecks ∧ isMin a then .error (.panic .arithmeticOverflow)
    else vm.setReg i.dst (f a)
  | .lddw =>
    match vm.text.toList[vm.pc]? with
    | none => .error (.err (.outOfBounds vm.pc) vm)
    | some hiWord =>
      let lo := immU64 i.imm
      let hi := hiWord >>> 32
      ({ vm with pc := vm.pc + 1 } : Vm t S).setReg i.dst ((hi <<< 32) ||| lo)
  | .load n => do
    let b ← vm.reg i.src
    let addr := b + offU64 i.off
    match ← liftHalt (vm.mem.load t n addr) with
    | none => .error (.err (.invalidMemoryAccess addr n.size) vm)
    | some v => vm.setReg i.dst v
  | .storeReg n => do
    let a ← vm.reg i.dst
    let addr := a + offU64 i.off
    let b ← vm.reg i.src
    match ← liftHalt (vm.mem.storeReg t n addr b) with
    | none => .error (.err (.invalidMemoryAccess addr n.size) vm)
    | some m => return { vm with mem := m }
  | .storeImm n => do
    let a ← vm.reg i.dst
    let addr := a + offU64 i.off
    match ← liftHalt (vm.mem.storeImm t n addr i.imm) with
    | none => .error (.err (.invalidMemoryAccess addr n.size) vm)
    | some m => return { vm with mem := m }
  | .jump => vm.jumpBy i.off.toInt
  | .jumpImm cond => do
    let a ← vm.reg i.dst
    if cond a i.imm then vm.jumpBy i.off.toInt else return vm
  | .jumpReg cond => do
    let a ← vm.reg i.dst
    let b ← vm.reg i.src
    if cond a b then vm.jumpBy i.off.toInt else return vm
  | .call =>
    if i.src = 1 then vm.dispatchSyscall (immU32 i.imm)
    else if maxCallDepth ≤ vm.callStack.length then .error (.err .callStackOverflow vm)
    else
      ({ vm with callStack := (vm.pc, vm.regs) :: vm.callStack } : Vm t S).jumpBy i.imm.toInt
  | .syscall => vm.dispatchSyscall (immU32 i.imm)
  | .exit =>
    match vm.callStack with
    | (retPc, savedRegs) :: rest =>
      .ok { vm with regs := savedRegs.set 0 vm.regs[0], pc := retPc, callStack := rest }
    | [] => .error (.ok vm.regs[0] vm)
  | .unknown => .error (.err (.unknownOpcode i.opcode) vm)

/-- The instruction at the program counter, if there is one. -/
def fetch (vm : Vm t S) : Option Insn := (vm.text.toList[vm.pc]?).map decode

/-- The state an arm starts in: the program counter points past the word. -/
def advance (vm : Vm t S) : Vm t S := { vm with pc := vm.pc + 1 }

/-- One round of the loop of `Vm::run`. -/
def step [Syscalls t S] (vm : Vm t S) : Except (Halt t S) (Vm t S) :=
  match vm.fetch with
  | none => .error (.err (.outOfBounds vm.pc) vm)
  | some i => vm.advance.perform i i.action

end Vm

end Tuniq
