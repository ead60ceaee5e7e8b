import Tuniq.Interpreter.FlatMemory
import Tuniq.Interpreter.InstructionSet
import Tuniq.Interpreter.WideConstants
import Tuniq.Library.Simulation

/-!
# The interpreter runs eBPF

`Tuniq.Library.Ebpf` says what a program means.  This module shows that the interpreter
runs it: a state stands for a machine of the instruction set (`Vm.machine`), and a step of
the one is a step of the other.

What the instruction set leaves open is settled by `dialect`: sixty-four nested calls, a
caller that finds all its registers as they were but `r0`, and the syscalls, which here
work on one flat memory.

Three things can keep the two apart, and each has a name.

* The interpreter faults where a sum or a negation overflows, or a register is named that
  there is not.  The instruction set knows no faults, so nothing is said of the run from
  there on.
* Seven instructions are not what their opcodes say: the four the interpreter does not
  know, `neg32` and `arsh32` on numbers with a sign, and `LDDW` of a constant whose bit 31
  is set.  A state where the next instruction is none of them is `Vm.Regular`.
* The two regions of the memory must not touch (`Layout.Apart`).
-/

namespace Tuniq

/-! ## The fields of a word -/

theorem opcode_decode (word : UInt64) :
    Ebpf.opcode word.toBitVec = (decode word).opcode.toBitVec := by
  refine BitVec.eq_of_toNat_eq ?_
  show _ = (word &&& 0xFF).toUInt8.toNat
  rw [UInt64.toNat_toUInt8, UInt64.toNat_and]
  show _ = (word.toNat &&& 2 ^ 8 - 1) % 2 ^ 8
  rw [Nat.and_two_pow_sub_one_eq_mod, Nat.mod_mod]
  exact BitVec.extractLsb'_toNat _ _ _

theorem dst_decode (word : UInt64) : (Ebpf.dst word.toBitVec).toNat = (decode word).dst := by
  show _ = ((word >>> 8) &&& 0x0F).toNat
  rw [UInt64.toNat_and]
  show _ = (word >>> 8).toNat &&& 2 ^ 4 - 1
  rw [Nat.and_two_pow_sub_one_eq_mod]
  exact BitVec.extractLsb'_toNat _ _ _

theorem src_decode (word : UInt64) : (Ebpf.src word.toBitVec).toNat = (decode word).src := by
  show _ = ((word >>> 12) &&& 0x0F).toNat
  rw [UInt64.toNat_and]
  show _ = (word >>> 12).toNat &&& 2 ^ 4 - 1
  rw [Nat.and_two_pow_sub_one_eq_mod]
  exact BitVec.extractLsb'_toNat _ _ _

theorem offset_decode (word : UInt64) :
    Ebpf.offset word.toBitVec = (decode word).off.toBitVec := by
  refine BitVec.eq_of_toNat_eq ?_
  show _ = ((word >>> 16) &&& 0xFFFF).toUInt16.toNat
  rw [UInt64.toNat_toUInt16, UInt64.toNat_and]
  show _ = ((word >>> 16).toNat &&& 2 ^ 16 - 1) % 2 ^ 16
  rw [Nat.and_two_pow_sub_one_eq_mod, Nat.mod_mod]
  exact BitVec.extractLsb'_toNat _ _ _

theorem imm_decode (word : UInt64) : Ebpf.imm word.toBitVec = (decode word).imm.toBitVec := by
  refine BitVec.eq_of_toNat_eq ?_
  show _ = (word >>> 32).toUInt32.toNat
  rw [UInt64.toNat_toUInt32]
  exact BitVec.extractLsb'_toNat _ _ _

namespace Vm

/-! ## The dialect -/

/-- The syscalls on one flat memory, with the data they return. -/
def helper (t : Target) (regs : Ebpf.RegFile) (m : Ebpf.Store) (data : List UInt8) :
    Hash → Ebpf.RegFile × Ebpf.Store × List UInt8 :=
  let at1 := fun i => regs Reg.r1 + BitVec.ofNat 64 i
  let at2 := fun i => regs Reg.r2 + BitVec.ofNat 64 i
  let zeroed := Function.update regs Reg.r0 0
  fun
  | .solLog | .solPanic => (zeroed, m, data)
  | .solMemcpy => (zeroed, Ebpf.Store.cells.copyInPlace at1 at2 (regs Reg.r3).toNat m, data)
  | .solMemset =>
    (zeroed, rounds (fun i u => u.poke (at1 i) (UInt8.ofBitVec ((regs Reg.r2).setWidth 8)))
      (regs Reg.r3).toNat m, data)
  | .solMemmove => (zeroed, Ebpf.Store.cells.copyBuffered at1 at2 (regs Reg.r3).toNat m, data)
  | .solSetReturnData =>
    (zeroed, m, (List.range (t.width.asUsize (regs Reg.r2).toNat)).map fun i => m.peek (at1 i))
  | .unknown => (regs, m, data)

/-- What the interpreter makes of the open ends of the instruction set. -/
def dialect (t : Target) : Ebpf.Dialect (List UInt8) where
  maxDepth := maxCallDepth
  callee
    | .imm, marker => if marker = 1 then .helper else .function
    | .reg, _ => .helper
  restore caller callee := Function.update caller Reg.r0 (callee Reg.r0)
  helper hash regs m data := helper t regs m data (Hash.ofU32 (UInt32.ofBitVec hash))

end Vm

/-! ## The machine of a state -/

/-- The registers as bit vectors. -/
def Regs.file (regs : Regs) : Ebpf.RegFile := fun r => (regs.get r).toBitVec

theorem Regs.file_put (regs : Regs) (r : Reg) (v : UInt64) :
    (regs.put r v).file = Function.update regs.file r v.toBitVec := by
  funext r'
  by_cases hr : r' = r
  · subst hr
    rw [Function.update_self, file, Regs.get_put_self]
  · rw [Function.update_of_ne hr, file, Regs.get_put_of_ne regs v hr]
    rfl

namespace Vm

variable {t : Target} {S : Type}

/-- The words of the program. -/
def words (vm : Vm t S) : List Ebpf.Word := vm.text.toList.map UInt64.toBitVec

/-- The machine a state stands for. -/
def machine (vm : Vm t S) : Ebpf.Machine (List UInt8) where
  regs := vm.regs.file
  pc := vm.pc
  frames := vm.callStack.map fun frame => ((frame.1 : ℤ), frame.2.file)
  store := vm.mem.flat
  data := vm.returnData

theorem fetch_words (vm : Vm t S) (k : ℕ) :
    Ebpf.fetch vm.words k = (vm.text.toList[k]?).map UInt64.toBitVec := by
  rw [Ebpf.fetch, if_pos (Int.natCast_nonneg k), words, List.getElem?_map]
  rfl

end Vm

/-- What an error of the interpreter says in the words of the instruction set. -/
def SbpfError.Means : SbpfError → Ebpf.Outcome → Prop
  | .unknownOpcode op, o => o = .illegal op.toBitVec
  | .outOfBounds _, o => o = .outOfProgram
  | .divisionByZero, o => o = .divisionByZero
  | .invalidMemoryAccess addr size, o =>
    ∃ n : Width, size = n.size ∧ o = .access addr.toBitVec n.access
  | .callStackOverflow, o => o = .callDepth
  | .badExit, _ => False

namespace Vm

variable {t : Target} {S : Type}

/-- A state of the run from `vm₀` and the machine it stands for.  Where a jump has left the
program the two may disagree about where they are. -/
structure Models (vm₀ vm : Vm t S) (s : Ebpf.Machine (List UInt8)) : Prop where
  text : vm.text = vm₀.text
  layout : vm.mem.layout = vm₀.mem.layout
  state : s = { vm.machine with pc := s.pc }
  place : s.pc = vm.pc ∨ vm.text.len ≤ vm.pc ∧ Ebpf.fetch vm.words s.pc = none

theorem models_machine {vm₀ vm : Vm t S} (htext : vm.text = vm₀.text)
    (hlayout : vm.mem.layout = vm₀.mem.layout) : Models vm₀ vm vm.machine :=
  ⟨htext, hlayout, rfl, Or.inl rfl⟩

/-- Both runs stop, for the same reason and in the same state. -/
def SameEnd (vm₀ : Vm t S) : Halt t S → Ebpf.Outcome × Ebpf.Machine (List UInt8) → Prop
  | .ok r0 vm, e => e.1 = .exit r0.toBitVec ∧ Models vm₀ vm e.2
  | .err err vm, e => err.Means e.1 ∧ Models vm₀ vm e.2
  | .panic _, _ => False

/-- The next instruction is what its opcode says. -/
def Regular (vm : Vm t S) : Prop :=
  ∀ i, vm.fetch = some i →
    i.dst < 11 ∧ i.src < 11 ∧ i.opcode ∉ unsupported ∧
      (∀ a, vm.regs[i.dst]? = some a → i.Unsigned32 a.toUInt32) ∧
      (i.opcode = 0x18 → ∀ word, vm.text.toList[vm.pc + 1]? = some word →
        (immU32 i.imm).toNat < 2 ^ 31 ∨ word.toNat / 2 ^ 32 = 2 ^ 32 - 1)

end Vm

/-- An instruction that is what its opcode says in every state: it names registers there
are, and is none of the seven that may not be. -/
def Insn.Plain (i : Insn) : Prop :=
  i.dst < 11 ∧ i.src < 11 ∧ i.opcode ∉ unsupported ∧ i.opcode ∉ [0x84, 0xC4, 0xCC] ∧
    (i.opcode = 0x18 → (immU32 i.imm).toNat < 2 ^ 31)

instance (i : Insn) : Decidable i.Plain := inferInstanceAs (Decidable (_ ∧ _))

namespace Vm

variable {t : Target} {S : Type}

/-- A program of such instructions never meets another one. -/
theorem regular_of_plain {vm : Vm t S} (h : ∀ word ∈ vm.text.toList, (decode word).Plain) :
    vm.Regular := by
  intro i hi
  obtain ⟨word, hword, rfl⟩ := Option.map_eq_some_iff.mp hi
  obtain ⟨hd, hr, hop, hsigned, hwide⟩ := h word (List.mem_of_getElem? hword)
  refine ⟨hd, hr, hop, fun a _ => Insn.unsigned32_of_ne ?_ _, fun hlddw _ _ => Or.inl (hwide hlddw)⟩
  exact ⟨fun h84 => hsigned (by simp [h84]), fun hC4 => hsigned (by simp [hC4]),
    fun hCC => hsigned (by simp [hCC])⟩

/-! ## The machine under its operations -/

/-- A register of the machine, written. -/
theorem machine_setReg (vm : Vm t S) (r : Reg) (v : UInt64) :
    ∃ vm', vm.setReg r v = .ok vm' ∧ vm'.machine = vm.machine.setReg r v.toBitVec ∧
      vm'.text = vm.text ∧ vm'.mem = vm.mem := by
  refine ⟨_, setReg_eq_ok.mpr ⟨r.isLt, rfl⟩, ?_, rfl, rfl⟩
  rw [Ebpf.Machine.setReg, machine]
  exact congrArg (fun regs => { vm.machine with regs := regs }) (Regs.file_put vm.regs r v)

theorem related_write (vm : Vm t S) {vm₀ : Vm t S} (htext : vm.text = vm₀.text)
    (hlayout : vm.mem.layout = vm₀.mem.layout) (r : Reg) (v : UInt64) :
    Related (Models vm₀) (SameEnd vm₀) (vm.setReg r v)
      (.ok (vm.machine.setReg r v.toBitVec)) := by
  obtain ⟨vm', hvm', hmachine, htext', hmem⟩ := machine_setReg vm r v
  rw [hvm', ← hmachine]
  exact .ok (models_machine (htext'.trans htext) (by rw [hmem, hlayout]))

/-- A jump, out of the program as well. -/
theorem related_jump (vm : Vm t S) {vm₀ : Vm t S} (htext : vm.text = vm₀.text)
    (hlayout : vm.mem.layout = vm₀.mem.layout) (hpc : vm.pc ≤ vm.text.len) {d : ℤ}
    (hd : -2 ^ 31 ≤ d ∧ d < 2 ^ 31) :
    Related (Models vm₀) (SameEnd vm₀) (vm.jumpBy d) (.ok (vm.machine.jump d)) := by
  rw [jumpBy_of_le hpc hd]
  have hlen : vm.text.len * 8 ≤ t.width.isizeMax := vm.text.size_le
  have hcard := t.width.usizeCard_eq
  have hmax := t.width.le_isizeMax
  refine .ok ⟨htext, hlayout, rfl, ?_⟩
  show (vm.pc : ℤ) + d = (t.width.usizeOfI64 (vm.pc + d) : ℕ) ∨
    vm.text.len ≤ t.width.usizeOfI64 (vm.pc + d) ∧ Ebpf.fetch vm.words (vm.pc + d) = none
  unfold PtrWidth.usizeOfI64
  rcases lt_or_ge ((vm.pc : ℤ) + d) 0 with hneg | hpos
  · have hwrap : ((vm.pc : ℤ) + d) % (t.width.usizeCard : ℤ) = vm.pc + d + t.width.usizeCard := by
      rw [← Int.add_emod_right, Int.emod_eq_of_lt (by omega) (by omega)]
    refine Or.inr ⟨?_, by rw [Ebpf.fetch, if_neg (by omega)]⟩
    rw [hwrap]
    omega
  · have hfits : ((vm.pc : ℤ) + d) % (t.width.usizeCard : ℤ) = vm.pc + d :=
      Int.emod_eq_of_lt hpos (by omega)
    rw [hfits]
    omega

/-! ## The syscalls -/

section

variable {vm₀ vm : Vm t GuestSyscalls} {s : Ebpf.Machine (List UInt8)}

theorem machine_zeroR0 (vm : Vm t S) :
    vm.zeroR0.machine = { vm.machine with regs := Function.update vm.regs.file Reg.r0 0 } :=
  congrArg (fun regs => { vm.machine with regs := regs }) (Regs.file_put vm.regs .r0 0)

/-- What the end of a syscall has in common with the end of a helper. -/
theorem models_zeroR0 (vm' : Vm t S) {vm₀ : Vm t S} {m : Ebpf.Store}
    (htext : vm'.text = vm₀.text) (hlayout : vm'.mem.layout = vm₀.mem.layout)
    (hm : vm'.mem.flat = m) :
    Models vm₀ vm'.zeroR0
      { vm'.machine with regs := Function.update vm'.regs.file Reg.r0 0, store := m } := by
  have hmachine := machine_zeroR0 vm'
  rw [← hm]
  exact hmachine ▸ models_machine htext hlayout

/-- A syscall that runs `x` on the memory. -/
theorem memory_syscall {x : Except Fault (Memory t.width)} {m : Memory t.width}
    (hx : x = .ok m) :
    (do
      let r ← liftHalt (do return (vm.syscalls, ← x))
      return ({ vm with syscalls := r.1, mem := r.2 } : Vm t GuestSyscalls).zeroR0 :
        Except (Halt t GuestSyscalls) (Vm t GuestSyscalls)) =
      .ok ({ vm with mem := m } : Vm t GuestSyscalls).zeroR0 := by
  rw [hx]
  rfl

/-- **The syscalls are the helpers** of the dialect. -/
theorem related_helper (htext : vm.text = vm₀.text) (hlayout : vm.mem.layout = vm₀.mem.layout)
    {k : Hash} (hsafe : vm.SyscallSafe k) :
    Related (Models vm₀) (SameEnd vm₀) (vm.performSyscall k)
      (.ok { vm.machine with
        regs := (helper t vm.regs.file vm.mem.flat vm.returnData k).1
        store := (helper t vm.regs.file vm.mem.flat vm.returnData k).2.1
        data := (helper t vm.regs.file vm.mem.flat vm.returnData k).2.2 }) := by
  cases k with
  | unknown => exact .ok (models_machine htext hlayout)
  | solLog | solPanic => exact .ok (models_zeroR0 vm htext hlayout rfl)
  | solMemcpy =>
    have hcopy := Memory.forwardCopy_of_safe hsafe.1 hsafe.2
    have hlayout' := Memory.layout_pokes (m := vm.mem) (n := (vm.regs.get .r3).toNat)
      (g := fun i u => u.poke (byteAddr (vm.regs.get .r1) i)
        (u.peek (byteAddr (vm.regs.get .r2) i)))
      fun i u => ⟨_, rfl⟩
    have hstep : vm.performSyscall .solMemcpy = _ := memory_syscall hcopy
    rw [hstep]
    exact .ok (models_zeroR0 { vm with mem := _ } htext (hlayout'.trans hlayout)
      (Memory.flat_copyInPlace vm.mem _ _ _))
  | solMemset =>
    have hfill : vm.mem.fill t (vm.regs.get .r1) (vm.regs.get .r2).toUInt8 (vm.regs.get .r3) = _ :=
      Memory.fill_of_safe hsafe
    have hlayout' := Memory.layout_pokes (m := vm.mem) (n := (vm.regs.get .r3).toNat)
      (g := fun i u => u.poke (byteAddr (vm.regs.get .r1) i) (vm.regs.get .r2).toUInt8)
      fun i u => ⟨_, rfl⟩
    have hstep : vm.performSyscall .solMemset = _ := memory_syscall hfill
    rw [hstep]
    exact .ok (models_zeroR0 { vm with mem := _ } htext (hlayout'.trans hlayout)
      (Memory.flat_rounds _ (fun _ _ => (vm.regs.get .r2).toUInt8) (fun _ _ => rfl) _ vm.mem))
  | solMemmove =>
    obtain ⟨hn, hdst, hsrc⟩ := hsafe
    have hcopy := Memory.bufferedCopy_of_safe hn hdst hsrc
    have hlayout' := Memory.layout_pokes (m := vm.mem) (n := (vm.regs.get .r3).toNat)
      (g := fun i u => u.poke (byteAddr (vm.regs.get .r1) i)
        (vm.mem.peek (byteAddr (vm.regs.get .r2) i)))
      fun i u => ⟨_, rfl⟩
    have hstep : vm.performSyscall .solMemmove = _ := memory_syscall hcopy
    rw [hstep]
    exact .ok (models_zeroR0 { vm with mem := _ } htext (hlayout'.trans hlayout)
      (Memory.flat_copyBuffered vm.mem _ _ _))
  | solSetReturnData =>
    have hread := Memory.collectBytes_of_safe hsafe.1 hsafe.2
    have hstep : vm.performSyscall .solSetReturnData = .ok
        ({ vm with returnData :=
          ((List.range (t.width.asUsize (vm.regs.get .r2).toNat)).map
            fun i => vm.mem.peek (byteAddr (vm.regs.get .r1) i)) } :
          Vm t GuestSyscalls).zeroR0 := by
      show (liftHalt (Memory.collectBytes t (t.width.asUsize (vm.regs.get .r2).toNat)
        (vm.mem.readOrZero t (vm.regs.get .r1))) >>= _) = _
      rw [hread]
      rfl
    rw [hstep]
    simp only [Memory.byteAddr_eq]
    exact .ok (models_zeroR0 _ htext hlayout rfl)

/-! ## The arms -/

/-- The constant of a wide load is made of two immediates. -/
theorem toBitVec_lddwValue {word hiWord : UInt64}
    (h : (immU32 (decode word).imm).toNat < 2 ^ 31 ∨ hiWord.toNat / 2 ^ 32 = 2 ^ 32 - 1) :
    (lddwValue (decode word).imm hiWord).toBitVec =
      Ebpf.imm hiWord.toBitVec ++ Ebpf.imm word.toBitVec := by
  have hlo := (immU32 (decode word).imm).toNat_lt
  refine BitVec.eq_of_toNat_eq ?_
  rw [BitVec.toNat_append, imm_decode, imm_decode]
  show (lddwValue (decode word).imm hiWord).toNat =
    (immU32 (decode hiWord).imm).toNat <<< 32 ||| (immU32 (decode word).imm).toNat
  rw [Nat.shiftLeft_eq, or_low_half _ hlo, toNat_lddwValue, toNat_immU32_decode hiWord]
  split
  · rfl
  · rename_i hclear
    rw [h.resolve_left hclear]

/-! What a load and a store come to, by what the memory says. -/

theorem perform_load {i : Insn} {n : Width} {b : UInt64} {v : Option UInt64}
    (hsrc : vm.reg i.src = .ok b) (hv : vm.mem.load t n (b + offU64 i.off) = .ok v) :
    vm.perform i (.load n) =
      v.elim (.error (.err (.invalidMemoryAccess (b + offU64 i.off) n.size) vm))
        (vm.setReg i.dst) := by
  rw [perform, hsrc, ok_bind]
  dsimp only
  rw [hv]
  cases v <;> rfl

theorem perform_storeReg {i : Insn} {n : Width} {a b : UInt64} {m : Option (Memory t.width)}
    (hdst : vm.reg i.dst = .ok a) (hsrc : vm.reg i.src = .ok b)
    (hm : vm.mem.writeBytes t (a + offU64 i.off) (Memory.regBytes n b) = .ok m) :
    vm.perform i (.storeReg n) =
      m.elim (.error (.err (.invalidMemoryAccess (a + offU64 i.off) n.size) vm))
        fun m => .ok { vm with mem := m } := by
  rw [perform, hdst, ok_bind, hsrc, ok_bind, Memory.storeReg_eq, hm]
  cases m <;> rfl

theorem perform_storeImm {i : Insn} {n : Width} {a : UInt64} {m : Option (Memory t.width)}
    (hdst : vm.reg i.dst = .ok a)
    (hm : vm.mem.writeBytes t (a + offU64 i.off) (Memory.regBytes n (immU64 i.imm)) = .ok m) :
    vm.perform i (.storeImm n) =
      m.elim (.error (.err (.invalidMemoryAccess (a + offU64 i.off) n.size) vm))
        fun m => .ok { vm with mem := m } := by
  rw [Memory.regBytes_immU64] at hm
  rw [perform, hdst, ok_bind]
  dsimp only
  rw [Memory.storeImm_eq, hm]
  cases m <;> rfl

/-- A store writes the low bytes of the second operand. -/
theorem related_store (htext : vm.text = vm₀.text) (hlayout : vm.mem.layout = vm₀.mem.layout)
    (hstd : vm.mem.Standard) (hapart : vm.mem.layout.Apart) {word : Ebpf.Word} {i : Insn}
    {d r : Reg} {n : Width} {a : Action} {source : Ebpf.Source} {addr v : UInt64}
    (haddr : vm.machine.regs d + (Ebpf.offset word).signExtend 64 = addr.toBitVec)
    (hv : vm.machine.operand word r source = v.toBitVec)
    (hsafe : vm.mem.layout.Safe addr.toNat n.size)
    (hperform : ∀ {m}, vm.mem.writeBytes t addr (Memory.regBytes n v) = .ok m →
      vm.perform i a = m.elim (.error (.err (.invalidMemoryAccess addr n.size) vm))
        fun m => .ok { vm with mem := m }) :
    Related (Models vm₀) (SameEnd vm₀) (vm.perform i a)
      (Ebpf.exec (dialect t) vm.words vm.machine word d r (.store n.access source)) := by
  obtain ⟨m, hwrite, hflat, hlayout'⟩ := Memory.store_flat hstd hapart hsafe v
  rw [hperform hwrite]
  have hmachine : vm.machine.store.write
      (vm.machine.regs d + (Ebpf.offset word).signExtend 64)
      (toLe n.access.bytes (vm.machine.operand word r source).toNat) = m.map Memory.flat := by
    rw [haddr, hv, Width.bytes_access]
    exact hflat
  cases m with
  | none =>
    rw [Ebpf.exec_store_of_none hmachine, haddr]
    exact .error ⟨⟨n, rfl, rfl⟩, models_machine htext hlayout⟩
  | some m =>
    rw [Ebpf.exec_store hmachine]
    exact .ok (models_machine htext ((hlayout' m rfl).trans hlayout))

theorem related_call (htext : vm.text = vm₀.text) (hlayout : vm.mem.layout = vm₀.mem.layout)
    (hpc : vm.pc ≤ vm.text.len) {word : UInt64} {d r : Reg}
    (hsafe : vm.ActionSafe (decode word) .call) :
    Related (Models vm₀) (SameEnd vm₀) (vm.perform (decode word) .call)
      (Ebpf.exec (dialect t) vm.words vm.machine word.toBitVec d r (.call .imm)) := by
  have hmarker : Ebpf.src word.toBitVec = 1 ↔ (decode word).src = 1 := by
    rw [← src_decode, ← BitVec.toNat_inj]
    rfl
  have hframes : vm.machine.frames.length = vm.callStack.length := List.length_map _
  rw [perform]
  by_cases hsrc : (decode word).src = 1
  · rw [if_pos hsrc, Ebpf.exec_call_helper (if_pos (hmarker.mpr hsrc)), imm_decode]
    exact related_helper htext hlayout (hsafe hsrc)
  · have hcallee : (dialect t).callee .imm (Ebpf.src word.toBitVec) = .function :=
      if_neg (mt hmarker.mp hsrc)
    rw [if_neg hsrc]
    by_cases hdepth : maxCallDepth ≤ vm.callStack.length
    · rw [if_pos hdepth, Ebpf.exec_call_of_le hcallee (hframes ▸ hdepth)]
      exact .error ⟨rfl, models_machine htext hlayout⟩
    · have hcall : -2 ^ 31 ≤ (decode word).imm.toInt ∧ (decode word).imm.toInt < 2 ^ 31 :=
        ⟨(decode word).imm.le_toInt, (decode word).imm.toInt_lt⟩
      rw [if_neg hdepth, Ebpf.exec_call_function hcallee (hframes ▸ Nat.lt_of_not_le hdepth),
        imm_decode]
      exact related_jump { vm with callStack := (vm.pc, vm.regs) :: vm.callStack } htext
        hlayout hpc hcall

theorem related_exit (htext : vm.text = vm₀.text) (hlayout : vm.mem.layout = vm₀.mem.layout)
    {i : Insn} {word : Ebpf.Word} {d r : Reg} :
    Related (Models vm₀) (SameEnd vm₀) (vm.perform i .exit)
      (Ebpf.exec (dialect t) vm.words vm.machine word d r .exit) := by
  rw [perform, Ebpf.exec]
  cases hstack : vm.callStack with
  | nil =>
    have hframes : vm.machine.frames = [] := congrArg (List.map _) hstack
    rw [hframes]
    exact .error ⟨rfl, models_machine htext hlayout⟩
  | cons frame rest =>
    obtain ⟨retPc, savedRegs⟩ := frame
    have hframes : vm.machine.frames = ((retPc : ℤ), savedRegs.file) ::
        rest.map fun frame => ((frame.1 : ℤ), frame.2.file) := congrArg (List.map _) hstack
    have hregs : Function.update savedRegs.file Reg.r0 (vm.regs.file Reg.r0) =
        (savedRegs.put .r0 (vm.regs.get .r0)).file := (Regs.file_put _ _ _).symm
    rw [hframes]
    show Related _ _ (.ok { vm with
      regs := savedRegs.put .r0 (vm.regs.get .r0), pc := retPc, callStack := rest })
        (.ok { vm.machine with
          regs := Function.update savedRegs.file Reg.r0 (vm.regs.file Reg.r0), pc := retPc
          frames := rest.map fun (frame : ℕ × Regs) => ((frame.1 : ℤ), frame.2.file) })
    rw [hregs]
    exact .ok (models_machine htext hlayout)

/-- **An arm does what the form of its opcode says.**  The registers are `d` and `r`, and
the program counter has been advanced. -/
theorem related_exec (htext : vm.text = vm₀.text) (hlayout : vm.mem.layout = vm₀.mem.layout)
    (hstd : vm.mem.Standard) (hapart : vm.mem.layout.Apart) (hpc : vm.pc ≤ vm.text.len)
    {word : UInt64} {d r : Reg} (hd : (decode word).dst = d) (hr : (decode word).src = r)
    {a : Action} {form : Ebpf.Form} (hmeans : a.Means (decode word) (some form))
    (hsafe : vm.ActionSafe (decode word) a)
    (hlow : (decode word).Unsigned32 (vm.regs.get d).toUInt32)
    (hwide : a = .lddw → ∀ hiWord, vm.text.toList[vm.pc]? = some hiWord →
      (immU32 (decode word).imm).toNat < 2 ^ 31 ∨ hiWord.toNat / 2 ^ 32 = 2 ^ 32 - 1) :
    Related (Models vm₀) (SameEnd vm₀) (vm.perform (decode word) a)
      (Ebpf.exec (dialect t) vm.words vm.machine word.toBitVec d r form) := by
  have himm : vm.machine.operand word.toBitVec r .imm = (immU64 (decode word).imm).toBitVec :=
    congrArg (fun v => v.signExtend 64) (imm_decode word)
  have hoff : (Ebpf.offset word.toBitVec).signExtend 64 = (offU64 (decode word).off).toBitVec :=
    congrArg (fun v => v.signExtend 64) (offset_decode word)
  have hself : Models vm₀ vm vm.machine := models_machine htext hlayout
  have hregd : vm.reg (decode word).dst = .ok (vm.regs.get d) := by
    rw [hd, reg_of_lt vm d.isLt]
    rfl
  have hregr : vm.reg (decode word).src = .ok (vm.regs.get r) := by
    rw [hr, reg_of_lt vm r.isLt]
    rfl
  have hset : ∀ v, Related (Models vm₀) (SameEnd vm₀) (vm.setReg (decode word).dst v)
      (.ok (vm.machine.setReg d v.toBitVec)) := by
    intro v
    rw [hd]
    exact related_write vm htext hlayout d v
  have hjump : -2 ^ 31 ≤ (decode word).off.toInt ∧ (decode word).off.toInt < 2 ^ 31 := by
    have hlt := (decode word).off.toInt_lt
    have hle := (decode word).off.le_toInt
    constructor <;> omega
  have haddr : ∀ k : Reg, vm.machine.regs k + (Ebpf.offset word.toBitVec).signExtend 64 =
      (vm.regs.get k + offU64 (decode word).off).toBitVec :=
    fun k => congrArg (vm.machine.regs k + ·) hoff
  cases hmeans with
  | aluImm wide op h =>
    rename_i f
    have hresult : op.result wide (vm.machine.regs d) (vm.machine.operand word.toBitVec r .imm) =
        some (f (vm.regs.get d) (decode word).imm).toBitVec := by
      rw [himm]
      exact h _ hlow
    rw [perform, hregd, ok_bind, Ebpf.exec_alu hresult]
    exact hset _
  | aluReg wide op h =>
    rename_i f
    have hresult : op.result wide (vm.machine.regs d) (vm.machine.operand word.toBitVec r .reg) =
        some (f (vm.regs.get d) (vm.regs.get r)).toBitVec := h _ _ hlow
    rw [perform, hregr, ok_bind, hregd, ok_bind, Ebpf.exec_alu hresult]
    exact hset _
  | divImm wide op h =>
    rename_i z f
    have hresult : op.result wide (vm.machine.regs d) (vm.machine.operand word.toBitVec r .imm) =
        if z (decode word).imm then none
        else some (f (vm.regs.get d) (decode word).imm).toBitVec := by
      rw [himm]
      exact h _
    rw [perform]
    cases hz : z (decode word).imm with
    | true =>
      rw [hz, if_pos rfl] at hresult
      rw [Ebpf.exec_alu_of_none hresult]
      exact .error ⟨rfl, hself⟩
    | false =>
      rw [hz, if_neg (by simp)] at hresult
      rw [if_neg (by simp), hregd, Ebpf.exec_alu hresult]
      exact hset _
  | divReg wide op h =>
    rename_i z f
    have hresult : op.result wide (vm.machine.regs d) (vm.machine.operand word.toBitVec r .reg) =
        if z (vm.regs.get r) then none
        else some (f (vm.regs.get d) (vm.regs.get r)).toBitVec := h _ _
    rw [perform, hregr, ok_bind]
    cases hz : z (vm.regs.get r) with
    | true =>
      rw [hz, if_pos rfl] at hresult
      rw [Ebpf.exec_alu_of_none hresult]
      exact .error ⟨rfl, hself⟩
    | false =>
      rw [hz, if_neg (by simp)] at hresult
      rw [if_neg (by simp), hregd, Ebpf.exec_alu hresult]
      exact hset _
  | neg wide h =>
    rename_i z f
    obtain ⟨v, hv, hfits⟩ := hsafe
    obtain rfl : vm.regs.get d = v := Except.ok.inj (hregd.symm.trans (reg_eq_ok.mpr hv))
    have hresult : Ebpf.AluOp.neg.result wide (vm.machine.regs d)
        (vm.machine.operand word.toBitVec r .imm) = some (f (vm.regs.get d)).toBitVec :=
      h _ _ hlow
    rw [perform, hregd, ok_bind, if_neg hfits, Ebpf.exec_alu hresult]
    exact hset _
  | lddw =>
    have hfetch : Ebpf.fetch vm.words vm.machine.pc = _ := fetch_words vm vm.pc
    rw [perform]
    cases hword : vm.text.toList[vm.pc]? with
    | none =>
      rw [hword] at hfetch
      rw [Ebpf.exec_wideImm_of_none hfetch]
      exact .error ⟨rfl, hself⟩
    | some hiWord =>
      have hvalue := toBitVec_lddwValue (hwide rfl hiWord hword)
      rw [hword] at hfetch
      rw [Ebpf.exec_wideImm hfetch, ← hvalue]
      show Related _ _ (({ vm with pc := vm.pc + 1 } : Vm t GuestSyscalls).setReg
        (decode word).dst (lddwValue (decode word).imm hiWord)) _
      rw [hd]
      exact related_write { vm with pc := vm.pc + 1 } htext hlayout d _
  | load n =>
    obtain ⟨v, hv, hsafe', -⟩ := hsafe
    obtain rfl : vm.regs.get r = v := Except.ok.inj (hregr.symm.trans (reg_eq_ok.mpr hv))
    rw [perform_load hregr (Memory.load_flat hstd hapart hsafe')]
    have hmachine : vm.machine.store.read
        (vm.machine.regs r + (Ebpf.offset word.toBitVec).signExtend 64) n.access.bytes =
          vm.mem.flat.read (vm.regs.get r + offU64 (decode word).off).toBitVec n.size := by
      rw [haddr, Width.bytes_access]
      rfl
    cases hread : vm.mem.flat.read (vm.regs.get r + offU64 (decode word).off).toBitVec n.size with
    | none =>
      rw [Ebpf.exec_load_of_none (hmachine.trans hread), haddr]
      exact .error ⟨⟨n, rfl, rfl⟩, hself⟩
    | some bs =>
      rw [Ebpf.exec_load (hmachine.trans hread)]
      exact hset _
  | storeReg n =>
    obtain ⟨v, hv, -, hsafe'⟩ := hsafe
    obtain rfl : vm.regs.get d = v := Except.ok.inj (hregd.symm.trans (reg_eq_ok.mpr hv))
    exact related_store htext hlayout hstd hapart (haddr d) rfl hsafe'
      (perform_storeReg hregd hregr)
  | storeImm n =>
    obtain ⟨v, hv, hsafe'⟩ := hsafe
    obtain rfl : vm.regs.get d = v := Except.ok.inj (hregd.symm.trans (reg_eq_ok.mpr hv))
    exact related_store htext hlayout hstd hapart (haddr d) himm hsafe' (perform_storeImm hregd)
  | jump =>
    rw [perform, Ebpf.exec, offset_decode]
    exact related_jump vm htext hlayout hpc hjump
  | jumpImm op h =>
    rw [perform, hregd, ok_bind, Ebpf.exec, himm, offset_decode]
    show Related _ _ _ (if op.holds (vm.regs.get d).toBitVec _ = true then _ else _)
    rw [h]
    split
    · exact related_jump vm htext hlayout hpc hjump
    · exact .ok hself
  | jumpReg op h =>
    rw [perform, hregd, ok_bind, hregr, ok_bind, Ebpf.exec, offset_decode]
    show Related _ _ _ (if op.holds (vm.regs.get d).toBitVec (vm.regs.get r).toBitVec = true
      then _ else _)
    rw [h]
    split
    · exact related_jump vm htext hlayout hpc hjump
    · exact .ok hself
  | call => exact related_call htext hlayout hpc hsafe
  | syscall =>
    rw [perform, Ebpf.exec_call_helper rfl, imm_decode]
    exact related_helper htext hlayout hsafe
  | exit => exact related_exit htext hlayout

/-! ## Steps -/

theorem words_eq (h : Models vm₀ vm s) : vm.words = vm₀.words :=
  congrArg (fun text => text.toList.map UInt64.toBitVec) h.text

/-- Where there is no instruction, there is none for the machine either. -/
theorem fetch_eq_none (h : Models vm₀ vm s) (hfetch : vm.fetch = none) :
    Ebpf.fetch vm₀.words s.pc = none := by
  rw [← words_eq h]
  rcases h.place with hpc | ⟨-, hnone⟩
  · rw [hpc, fetch_words]
    rw [fetch, Option.map_eq_none_iff] at hfetch
    rw [hfetch]
    rfl
  · exact hnone

/-- Where there is one, the two agree about where they are. -/
theorem eq_machine (h : Models vm₀ vm s) {i : Insn} (hfetch : vm.fetch = some i) :
    s = vm.machine := by
  have hlt := pc_lt_of_fetch hfetch
  rcases h.place with hpc | ⟨hout, -⟩
  · rw [h.state, hpc]
    rfl
  · omega

/-- **A step of the interpreter is a step of the instruction set**, when it cannot fault and
its instruction is what the opcode says. -/
theorem related_ebpf (h : Models vm₀ vm s) (hstd : vm₀.mem.Standard)
    (hapart : vm₀.mem.layout.Apart) (hregular : vm.Regular) (hsafe : vm.StepSafe) :
    Related (Models vm₀) (SameEnd vm₀) vm.step (Ebpf.step (dialect t) vm₀.words s) := by
  cases hfetch : vm.fetch with
  | none =>
    rw [step, hfetch, Ebpf.step, fetch_eq_none h hfetch]
    exact .error ⟨rfl, h⟩
  | some i =>
    have hlt := pc_lt_of_fetch hfetch
    obtain ⟨hd, hr, hop, hlow, hwide⟩ := hregular i hfetch
    obtain rfl := eq_machine h hfetch
    obtain ⟨word, hword, rfl⟩ := Option.map_eq_some_iff.mp hfetch
    have hfetch' : Ebpf.fetch vm₀.words vm.machine.pc = some word.toBitVec := by
      rw [← words_eq h]
      show Ebpf.fetch vm.words vm.pc = _
      rw [fetch_words, hword]
      rfl
    have hd' : (Ebpf.dst word.toBitVec).toNat < 11 := by rwa [dst_decode]
    have hr' : (Ebpf.src word.toBitVec).toNat < 11 := by rwa [src_decode]
    have hself : Models vm₀ vm.advance vm.advance.machine := models_machine h.text h.layout
    have hmeans := Insn.means hop
    have hopcode : (decode word).opcode.toNat = (Ebpf.opcode word.toBitVec).toNat := by
      rw [opcode_decode]
      rfl
    rw [step_of_fetch hfetch]
    rw [hopcode] at hmeans
    cases hform : Ebpf.Form.decode (Ebpf.opcode word.toBitVec).toNat with
    | none =>
      rw [hform] at hmeans
      rw [Ebpf.step_of_illegal hfetch' hform, opcode_decode]
      generalize (decode word).action = a at hmeans
      cases hmeans
      exact .error ⟨rfl, hself⟩
    | some form =>
      rw [hform] at hmeans
      rw [Ebpf.step_of_fetch hfetch' hd' hr' hform, ← words_eq h]
      have hreg : vm.regs[(decode word).dst]? = some (vm.regs.get ⟨_, hd'⟩) := by
        rw [← dst_decode]
        exact Vector.getElem?_eq_getElem hd'
      refine related_exec (d := ⟨_, hd'⟩) (r := ⟨_, hr'⟩) hself.text hself.layout
        ((Memory.standard_congr h.layout).mpr hstd) (by rw [hself.layout]; exact hapart) hlt
        (dst_decode word).symm (src_decode word).symm hmeans (hsafe _ hfetch) (hlow _ hreg) ?_
      intro haction hiWord hhi
      exact hwide (Insn.action_eq_lddw haction) hiWord hhi

/-! ## Runs -/

/-- The run stops by a fault. -/
def Faults (r : Halt t S) : Prop := ∃ f, r = .panic f

/-- The interpreter and the instruction set run in lockstep until the interpreter faults. -/
theorem lockstep_ebpf (hstd : vm₀.mem.Standard) (hapart : vm₀.mem.layout.Apart)
    (hregular : ∀ vm, Reaches step vm₀ vm → vm.Regular) :
    LockstepUnless Faults (step : Vm t GuestSyscalls → _) (Ebpf.step (dialect t) vm₀.words)
      (fun vm s => Reaches step vm₀ vm ∧ Models vm₀ vm s) (SameEnd vm₀) := by
  rintro vm s ⟨hreach, h⟩
  have htrap : vm.mem.Traps t := Or.inr ((Memory.standard_congr h.layout).mpr hstd)
  by_cases hsafe : vm.StepSafe
  · have hrel := related_ebpf h hstd hapart (hregular vm hreach) hsafe
    refine Or.inr ?_
    cases hstep : vm.step with
    | error r =>
      obtain ⟨r', hr', hQ⟩ := hrel.exists_error hstep
      rw [hr']
      exact .error hQ
    | ok vm' =>
      obtain ⟨s', hs', hR⟩ := hrel.exists_ok hstep
      rw [hs']
      exact .ok ⟨hreach.trans ((Reaches.refl vm').head hstep), hR⟩
  · have hpanic : ∃ f, vm.step = .error (.panic f) := by
      by_contra hnone
      exact hsafe ((step_noPanic_iff htrap).mp fun f hf => hnone ⟨f, hf⟩)
    obtain ⟨f, hf⟩ := hpanic
    exact Or.inl ⟨_, ⟨f, rfl⟩, hf⟩

/-- **The interpreter runs eBPF.**  On a standard memory whose regions do not touch, and as
long as the next instruction is what its opcode says: a run that stops without a fault
stops as the instruction set says, with the same `r0` or for the same reason, and with the
same registers, memory, frames and return data; a run the instruction set stops, the
interpreter stops in the same way or with a fault; a run that goes on for ever goes on for
ever; and the states in between stand for the machines in between. -/
theorem interpreter_runs_ebpf (vm : Vm t GuestSyscalls) (hstd : vm.mem.Standard)
    (hapart : vm.mem.layout.Apart) (hregular : ∀ vm', Reaches step vm vm' → vm'.Regular) :
    (∀ r, Halts step vm r → Faults r ∨
      ∃ e, Halts (Ebpf.step (dialect t) vm.words) vm.machine e ∧ SameEnd vm r e) ∧
    (∀ e, Halts (Ebpf.step (dialect t) vm.words) vm.machine e →
      (∃ r, Faults r ∧ Halts step vm r) ∨ ∃ r, Halts step vm r ∧ SameEnd vm r e) ∧
    (Diverges step vm → Diverges (Ebpf.step (dialect t) vm.words) vm.machine) ∧
    ∀ vm', Reaches step vm vm' →
      ∃ s, Reaches (Ebpf.step (dialect t) vm.words) vm.machine s ∧ Models vm vm' s := by
  have hlock := lockstep_ebpf hstd hapart hregular
  have hstart : Reaches step vm vm ∧ Models vm vm vm.machine :=
    ⟨Reaches.refl vm, models_machine rfl rfl⟩
  refine ⟨fun r hr => hlock.halts hstart hr, fun e he => hlock.halts_back hstart he,
    hlock.simulates.diverges hstart, fun vm' hvm' => ?_⟩
  obtain ⟨s, hs, -, hmodels⟩ := hlock.simulates.reaches hstart hvm'
  exact ⟨s, hs, hmodels⟩

/-- A run keeps its program. -/
theorem text_of_reaches {vm vm' : Vm t GuestSyscalls} (h : Reaches step vm vm') :
    vm'.text = vm.text :=
  h.invariant (I := fun u => u.text = vm.text) (fun _ _ hu hs => (text_step hs).trans hu) rfl

/-- `stdw [r10 - 8], 7; ldxdw r0, [r10 - 8]; exit` -/
def storeLoadText : Vec .w64 8 UInt64 :=
  ⟨[0x00000007FFF80A7A, 0x00000000FFF8A079, 0x95], by decide⟩

/-- The machine that runs it, on a stack of eight bytes. -/
def storeLoad : Vm ⟨.w64, true⟩ GuestSyscalls :=
  start storeLoadText (Regs.put (Vector.replicate 11 0) .r10 0x100000008) Memory.smallMemory {}

theorem plain_storeLoad : ∀ word ∈ storeLoadText.toList, (decode word).Plain := by
  simp only [storeLoadText, List.forall_mem_cons]
  exact ⟨by decide +kernel, by decide +kernel, by decide +kernel, List.forall_mem_nil _⟩

theorem regular_storeLoad {vm : Vm ⟨.w64, true⟩ GuestSyscalls} (h : Reaches step storeLoad vm) :
    vm.Regular := by
  have htext : vm.text = storeLoadText := text_of_reaches h
  refine regular_of_plain ?_
  rw [htext]
  exact plain_storeLoad

theorem interpreter_runs_ebpf_storeLoad :
    ∃ e, Halts (Ebpf.step (dialect ⟨.w64, true⟩) storeLoad.words) storeLoad.machine e ∧
      e.1 = .exit 7 := by
  obtain ⟨r, hr, hresult⟩ := halts_of_outcome
    (by decide +kernel : outcome step Halt.result 2 storeLoad = some (.ok 7))
  have hstd : storeLoad.mem.Standard := ⟨rfl, rfl⟩
  have hapart : storeLoad.mem.layout.Apart := by decide +kernel
  obtain ⟨vm, rfl⟩ := Halt.result_eq_ok.mp hresult
  have hruns := interpreter_runs_ebpf storeLoad hstd hapart fun _ => regular_storeLoad
  rcases hruns.1 _ hr with ⟨f, hf⟩ | ⟨e, he, hexit, -⟩
  · exact absurd hf (by simp)
  · exact ⟨e, he, hexit⟩

end

end Vm
end Tuniq
