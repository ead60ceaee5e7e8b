import Tuniq.Library.Iteration
import Tuniq.Interpreter.Memory

/-!
# Memory syscalls

The interpreter hands `sol_memcpy_`, `sol_memset_` and `sol_memmove_` to an
implementation of the `Syscalls` trait, which receives the memory mutably and
returns nothing.  There are two implementations.

* `GuestSyscalls` runs inside the proving machine.  Its `sol_memcpy` copies
  byte by byte, each byte read after the previous one was written; its
  `sol_memmove` reads everything first.
* `StubSyscalls` runs in the host's conformance harness.  Both of its copies
  read everything first.

All of them treat a byte that cannot be read as `0` and drop a write that is
refused.  Copying through a buffer allocates it, so a length no allocation can
have is a panic; copying byte by byte has no such limit.

The trait's other two methods, `sol_log` and `sol_panic`, are never called by
the interpreter and do not occur here.
-/

namespace Tuniq

/-- `Syscalls`: what the interpreter calls, with the implementation's own state. -/
class Syscalls (t : Target) (S : Type) where
  solMemcpy : S → (dst src n : UInt64) → Memory t.width → Except Fault (S × Memory t.width)
  solMemset : S → (dst : UInt64) → (val : UInt8) → (n : UInt64) → Memory t.width →
    Except Fault (S × Memory t.width)
  solMemmove : S → (dst src n : UInt64) → Memory t.width → Except Fault (S × Memory t.width)

namespace Memory

variable (t : Target)

/-- `mem.read_u8(base + i).unwrap_or(0)`. -/
def readOrZero (m : Memory t.width) (base : UInt64) (i : ℕ) : Except Fault UInt8 := do
  let a ← t.addU64 base (UInt64.ofNat i)
  return (← m.readU8 t a).getD 0

/-- `let _ = mem.write_u8(base + i, b)`. -/
def writeIgnored (m : Memory t.width) (base : UInt64) (i : ℕ) (b : UInt8) :
    Except Fault (Memory t.width) := do
  let a ← t.addU64 base (UInt64.ofNat i)
  return (← m.writeU8 t a b).getD m

/-- `(0..n).map(read).collect::<Vec<u8>>()`: the vector is allocated first. -/
def collectBytes (n : ℕ) (read : ℕ → Except Fault UInt8) : Except Fault (List UInt8) :=
  if n ≤ t.width.isizeMax then
    forUpTo (fun i acc => do return acc ++ [← read i]) n []
  else .error .capacityOverflow

/-- `for (i, b) in bytes.into_iter().enumerate() { let _ = mem.write_u8(dst + i, b); }` -/
def writeAll (m : Memory t.width) (dst : UInt64) (bs : List UInt8) :
    Except Fault (Memory t.width) :=
  forUpTo (fun i m => m.writeIgnored t dst i (bs.getD i 0)) bs.length m

/-- Read the whole source, then write it. -/
def bufferedCopy (m : Memory t.width) (dst src n : UInt64) : Except Fault (Memory t.width) := do
  let bs ← collectBytes t n.toNat (m.readOrZero t src)
  m.writeAll t dst bs

/-- Read a byte, write it, go on to the next. -/
def forwardCopy (m : Memory t.width) (dst src n : UInt64) : Except Fault (Memory t.width) :=
  forUpTo (fun i m => do m.writeIgnored t dst i (← m.readOrZero t src i)) n.toNat m

/-- `for i in 0..n { let _ = mem.write_u8(dst + i, val); }` -/
def fill (m : Memory t.width) (dst : UInt64) (val : UInt8) (n : UInt64) :
    Except Fault (Memory t.width) :=
  forUpTo (fun i m => m.writeIgnored t dst i val) n.toNat m

end Memory

/-- `GuestSyscalls`, the implementation inside the proving machine. -/
structure GuestSyscalls where
  deriving DecidableEq

instance (t : Target) : Syscalls t GuestSyscalls where
  solMemcpy s dst src n m := do return (s, ← m.forwardCopy t dst src n)
  solMemset s dst val n m := do return (s, ← m.fill t dst val n)
  solMemmove s dst src n m := do return (s, ← m.bufferedCopy t dst src n)

/-- `StubSyscalls`, the implementation in the conformance harness. -/
structure StubSyscalls where
  deriving DecidableEq

instance (t : Target) : Syscalls t StubSyscalls where
  solMemcpy s dst src n m := do return (s, ← m.bufferedCopy t dst src n)
  solMemset s dst val n m := do return (s, ← m.fill t dst val n)
  solMemmove s dst src n m := do return (s, ← m.bufferedCopy t dst src n)

end Tuniq
