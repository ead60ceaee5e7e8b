import Tuniq.Rust.Basic

/-!
# The memory of the virtual machine

Two byte regions, a stack and a heap, each with a base address.  An access of
`size` bytes at an address is resolved to a region and an offset, or refused;
the bytes are then read or written through a raw pointer.

The resolution is where everything delicate happens.  The bound check adds the
size to a caller-chosen address, so near the end of the address space it
overflows: with overflow checks the program panics, without them the sum wraps,
the check passes, and slicing the region at a huge offset panics instead.
`resolve_standard` states the outcome for the memories `Memory::new` builds in
one formula, whatever the pointer width and the overflow setting; nothing after
it unfolds the check again.

A raw-pointer access past the end of its region is not a value a program can
go on from; the model gives it the fault `undefinedBehavior` so that "no access
goes wrong" is a statement that can be proved.
-/

namespace Tuniq

/-- `Memory`: the two regions and their virtual base addresses. -/
structure Memory (w : PtrWidth) where
  heap : Bytes w
  stack : Bytes w
  stackBase : UInt64
  heapBase : UInt64
  deriving DecidableEq

/-- Which region a resolved pointer points into. -/
inductive Region where
  | stack
  | heap
  deriving DecidableEq, Repr

/-- The width of a load or store. -/
inductive Width where
  | b1
  | b2
  | b4
  | b8
  deriving DecidableEq, Repr

def Width.size : Width → ℕ
  | .b1 => 1
  | .b2 => 2
  | .b4 => 4
  | .b8 => 8

namespace Memory

variable {w : PtrWidth}

def stackBaseNew : UInt64 := 0x100000000

def heapBaseNew : UInt64 := 0x300000000

/-- `Memory::new`. -/
def new (w : PtrWidth) (heapSize stackSize : ℕ) : Except Fault (Memory w) :=
  if h : heapSize ≤ w.isizeMax ∧ stackSize ≤ w.isizeMax then
    .ok { heap := Vec.zeroed heapSize h.1
          stack := Vec.zeroed stackSize h.2
          stackBase := stackBaseNew
          heapBase := heapBaseNew }
  else .error .capacityOverflow

/-- A memory of two empty regions, for programs that use none. -/
def empty : Memory w where
  heap := Vec.zeroed 0 (Nat.zero_le _)
  stack := Vec.zeroed 0 (Nat.zero_le _)
  stackBase := stackBaseNew
  heapBase := heapBaseNew

def bytes (m : Memory w) : Region → Bytes w
  | .stack => m.stack
  | .heap => m.heap

def base (m : Memory w) : Region → UInt64
  | .stack => m.stackBase
  | .heap => m.heapBase

def setBytes (m : Memory w) (r : Region) (v : Bytes w) : Memory w :=
  match r with
  | .stack => { m with stack := v }
  | .heap => { m with heap := v }

@[simp] theorem bytes_setBytes_self (m : Memory w) (r : Region) (v : Bytes w) :
    (m.setBytes r v).bytes r = v := by
  cases r <;> rfl

theorem bytes_setBytes_of_ne (m : Memory w) {r r' : Region} (v : Bytes w) (h : r' ≠ r) :
    (m.setBytes r v).bytes r' = m.bytes r' := by
  cases r <;> cases r' <;> first | rfl | exact absurd rfl h

/-! ## Resolving an address -/

/-- `addr >= base && addr + size as u64 <= base + len`, with the sums in the
order the check forms them. -/
def inRange (t : Target) (base : UInt64) (len : ℕ) (addr : UInt64) (size : ℕ) :
    Except Fault Bool :=
  if base ≤ addr then do
    let e ← t.addU64 addr (UInt64.ofNat size)
    let b ← t.addU64 base (UInt64.ofNat len)
    return decide (e ≤ b)
  else return false

/-- `self.region[off..].as_ptr()` with `off = (addr - base) as usize`. -/
def pointer (m : Memory w) (r : Region) (addr : UInt64) : Except Fault (Region × ℕ) :=
  let off := w.asUsize (addr - m.base r).toNat
  if off ≤ (m.bytes r).len then .ok (r, off) else .error .indexOutOfBounds

/-- `Memory::resolve`. -/
def resolve (t : Target) (m : Memory t.width) (addr : UInt64) (size : ℕ) :
    Except Fault (Option (Region × ℕ)) := do
  if ← inRange t m.stackBase m.stack.len addr size then
    return some (← m.pointer .stack addr)
  else if ← inRange t m.heapBase m.heap.len addr size then
    return some (← m.pointer .heap addr)
  else return none

/-- `Memory::resolve_mut`: the same check, for a mutable pointer. -/
def resolveMut (t : Target) (m : Memory t.width) (addr : UInt64) (size : ℕ) :
    Except Fault (Option (Region × ℕ)) :=
  m.resolve t addr size

/-! ## Reads and writes -/

/-- `*(p as *const [u8; size])`. -/
def readBytes (t : Target) (m : Memory t.width) (addr : UInt64) (size : ℕ) :
    Except Fault (Option (List UInt8)) := do
  match ← m.resolve t addr size with
  | none => return none
  | some (r, off) =>
    if off + size ≤ (m.bytes r).len then return some (window (m.bytes r).toList off size)
    else .error .undefinedBehavior

/-- `*(p as *mut [u8; size]) = bs`. -/
def writeBytes (t : Target) (m : Memory t.width) (addr : UInt64) (bs : List UInt8) :
    Except Fault (Option (Memory t.width)) := do
  match ← m.resolveMut t addr bs.length with
  | none => return none
  | some (r, off) =>
    if h : off + bs.length ≤ (m.bytes r).len then
      return some (m.setBytes r ((m.bytes r).overwrite off bs h))
    else .error .undefinedBehavior

def readU8 (t : Target) (m : Memory t.width) (addr : UInt64) : Except Fault (Option UInt8) := do
  return (← m.readBytes t addr 1).map fun bs => UInt8.ofNat (ofLe bs)

def readU16 (t : Target) (m : Memory t.width) (addr : UInt64) :
    Except Fault (Option UInt16) := do
  return (← m.readBytes t addr 2).map fun bs => UInt16.ofNat (ofLe bs)

def readU32 (t : Target) (m : Memory t.width) (addr : UInt64) :
    Except Fault (Option UInt32) := do
  return (← m.readBytes t addr 4).map fun bs => UInt32.ofNat (ofLe bs)

def readU64 (t : Target) (m : Memory t.width) (addr : UInt64) :
    Except Fault (Option UInt64) := do
  return (← m.readBytes t addr 8).map fun bs => UInt64.ofNat (ofLe bs)

def writeU8 (t : Target) (m : Memory t.width) (addr : UInt64) (v : UInt8) :
    Except Fault (Option (Memory t.width)) :=
  m.writeBytes t addr (toLe 1 v.toNat)

def writeU16 (t : Target) (m : Memory t.width) (addr : UInt64) (v : UInt16) :
    Except Fault (Option (Memory t.width)) :=
  m.writeBytes t addr (toLe 2 v.toNat)

def writeU32 (t : Target) (m : Memory t.width) (addr : UInt64) (v : UInt32) :
    Except Fault (Option (Memory t.width)) :=
  m.writeBytes t addr (toLe 4 v.toNat)

def writeU64 (t : Target) (m : Memory t.width) (addr : UInt64) (v : UInt64) :
    Except Fault (Option (Memory t.width)) :=
  m.writeBytes t addr (toLe 8 v.toNat)

/-- The read a load instruction of width `n` makes, widened to `u64`. -/
def load (t : Target) (m : Memory t.width) (n : Width) (addr : UInt64) :
    Except Fault (Option UInt64) :=
  match n with
  | .b1 => do return (← m.readU8 t addr).map UInt8.toUInt64
  | .b2 => do return (← m.readU16 t addr).map UInt16.toUInt64
  | .b4 => do return (← m.readU32 t addr).map UInt32.toUInt64
  | .b8 => m.readU64 t addr

/-- The write a register store of width `n` makes: the register is truncated. -/
def storeReg (t : Target) (m : Memory t.width) (n : Width) (addr v : UInt64) :
    Except Fault (Option (Memory t.width)) :=
  match n with
  | .b1 => m.writeU8 t addr v.toUInt8
  | .b2 => m.writeU16 t addr v.toUInt16
  | .b4 => m.writeU32 t addr v.toUInt32
  | .b8 => m.writeU64 t addr v

/-- The write an immediate store of width `n` makes: the immediate is cast from
`i32`, truncated for the narrow widths and sign-extended for the widest. -/
def storeImm (t : Target) (m : Memory t.width) (n : Width) (addr : UInt64) (imm : Int32) :
    Except Fault (Option (Memory t.width)) :=
  match n with
  | .b1 => m.writeU8 t addr imm.toInt8.toUInt8
  | .b2 => m.writeU16 t addr imm.toInt16.toUInt16
  | .b4 => m.writeU32 t addr imm.toUInt32
  | .b8 => m.writeU64 t addr imm.toInt64.toUInt64

end Memory

end Tuniq
