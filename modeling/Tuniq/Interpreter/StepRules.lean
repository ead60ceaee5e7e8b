import Tuniq.Library.Pushdown
import Tuniq.Interpreter.Vm

/-!
# What a step can do

Every property of whole runs starts from the same question: what may one step
change?  The answers are collected here, so that no later proof opens the
interpreter again.

* `Vm.step_eq_ok`: a step that continues executed the instruction it fetched.
* `Vm.step_cases`: a step pushes one frame (an internal call), pops one (an
  exit), or leaves the call stack alone; in each case it says what the new state
  is.  `Vm.pushdown` is this as a statement about the stack, which makes the
  rules of `Tuniq.Library.Pushdown` available.
* `Vm.returnData_step`: only a call of `sol_set_return_data` changes the return
  data.
* `Vm.mem_step`: only a store or a call of one of three syscalls changes the memory.
* `Vm.perform_eq_error`: an arm that stops faults, returns an error for one of the
  causes `Vm.Cause` lists, or is the last exit.
-/

namespace Tuniq

/-- The instruction calls `sol_set_return_data`, through either call opcode. -/
def Insn.SetsReturnData (i : Insn) : Prop :=
  (i.action = .call ∧ i.src = 1 ∨ i.action = .syscall) ∧
    Vm.Hash.ofU32 (immU32 i.imm) = .solSetReturnData

/-- The syscalls that are handed the memory to write to. -/
def Vm.Hash.WritesMemory (k : Vm.Hash) : Prop :=
  k = .solMemcpy ∨ k = .solMemset ∨ k = .solMemmove

/-- The instruction is a store, or calls one of those syscalls. -/
def Insn.WritesMemory (i : Insn) : Prop :=
  (∃ n, i.action.storeWidth = some n) ∨
    (i.action = .call ∧ i.src = 1 ∨ i.action = .syscall) ∧
      (Vm.Hash.ofU32 (immU32 i.imm)).WritesMemory

/-- The shapes of the jump instructions. -/
def Action.isJump : Action → Bool
  | .jump | .jumpImm _ | .jumpReg _ => true
  | _ => false

namespace Vm

variable {t : Target} {S : Type}

/-! ## Small operations -/

theorem liftHalt_eq_ok {α : Type} {x : Except Fault α} {a : α} :
    (liftHalt x : Except (Halt t S) α) = .ok a ↔ x = .ok a := by
  cases x <;> simp [liftHalt]

theorem liftHalt_eq_error {α : Type} {x : Except Fault α} {h : Halt t S} :
    (liftHalt x : Except (Halt t S) α) = .error h ↔ ∃ f, x = .error f ∧ h = .panic f := by
  cases x <;> simp [liftHalt, eq_comm]

theorem reg_eq_ok {vm : Vm t S} {r : ℕ} {v : UInt64} :
    vm.reg r = .ok v ↔ vm.regs[r]? = some v := by
  rw [reg]
  cases vm.regs[r]? <;> simp

theorem reg_eq_error {vm : Vm t S} {r : ℕ} {h : Halt t S} :
    vm.reg r = .error h ↔ 11 ≤ r ∧ h = .panic .indexOutOfBounds := by
  rw [reg]
  rcases Nat.lt_or_ge r 11 with hr | hr
  · rw [Vector.getElem?_eq_getElem hr]
    simp [hr]
  · rw [Vector.getElem?_eq_none hr]
    simp [hr, eq_comm]

theorem reg_of_lt (vm : Vm t S) {r : ℕ} (hr : r < 11) : vm.reg r = .ok vm.regs[r] := by
  rw [reg_eq_ok, Vector.getElem?_eq_getElem hr]

theorem setReg_eq_ok {vm vm' : Vm t S} {r : ℕ} {v : UInt64} :
    vm.setReg r v = .ok vm' ↔
      ∃ h : r < 11, vm' = { vm with regs := vm.regs.set r v h } := by
  rw [setReg]
  split
  · rename_i h
    simp [h, eq_comm]
  · rename_i h
    simp [h]

theorem setReg_eq_error {vm : Vm t S} {r : ℕ} {v : UInt64} {h : Halt t S} :
    vm.setReg r v = .error h ↔ 11 ≤ r ∧ h = .panic .indexOutOfBounds := by
  rw [setReg]
  split
  · rename_i hr
    simp [Nat.not_le.mpr hr]
  · rename_i hr
    simp [Nat.not_lt.mp hr, eq_comm]

theorem jumpBy_eq_ok {vm vm' : Vm t S} {d : ℤ} (h : vm.jumpBy d = .ok vm') :
    ∃ pc, vm' = { vm with pc := pc } := by
  rw [jumpBy, bind_eq_ok] at h
  obtain ⟨target, -, htarget⟩ := h
  exact ⟨_, (Except.ok.inj htarget).symm⟩

/-- A lifted computation stops by a fault only. -/
theorem panic_of_liftHalt {α : Type} {x : Except Fault α} {r : Halt t S}
    (h : (liftHalt x : Except (Halt t S) α) = .error r) : ∃ f, r = .panic f := by
  obtain ⟨f, -, hf⟩ := liftHalt_eq_error.mp h
  exact ⟨f, hf⟩

/-- So does a jump. -/
theorem jumpBy_eq_error {vm : Vm t S} {d : ℤ} {r : Halt t S} (h : vm.jumpBy d = .error r) :
    ∃ f, r = .panic f := by
  rw [jumpBy, bind_eq_error] at h
  rcases h with h | ⟨target, -, h⟩
  · exact panic_of_liftHalt h
  · exact absurd h (by simp [pure, Except.pure])

/-- A program has fewer than `2 ^ 60` words, so the jump arithmetic stays in
range, whatever the offset. -/
theorem jumpBy_of_le {vm : Vm t S} {d : ℤ} (hpc : vm.pc ≤ vm.text.len)
    (hd : -2 ^ 31 ≤ d ∧ d < 2 ^ 31) :
    vm.jumpBy d = .ok { vm with pc := t.width.usizeOfI64 (vm.pc + d) } := by
  have hlen := vm.text.size_le
  have hmax := t.width.isizeMax_lt
  have hpc' : vm.pc * 8 ≤ t.width.isizeMax :=
    (Nat.mul_le_mul_right 8 hpc).trans hlen
  have hbmod : Int.bmod vm.pc (2 ^ 64) = vm.pc := by
    apply Int.bmod_eq_of_le_mul_two <;> omega
  rw [jumpBy, hbmod, Target.addI64_of_range (by omega)]
  rfl

/-- The program counter of a fetched instruction, advanced, is still in the
program or right behind it. -/
theorem pc_lt_of_fetch {vm : Vm t S} {i : Insn} (h : vm.fetch = some i) :
    vm.pc < vm.text.len := by
  rw [fetch, Option.map_eq_some_iff] at h
  obtain ⟨word, hword, -⟩ := h
  exact (List.getElem?_eq_some_iff.mp hword).1

/-! ## Single steps -/

section

variable [Syscalls t S]

theorem step_of_fetch {vm : Vm t S} {i : Insn} (hi : vm.fetch = some i) :
    vm.step = vm.advance.perform i i.action := by
  rw [step, hi]

/-- A step that continues executed the instruction it fetched. -/
theorem step_eq_ok {vm vm' : Vm t S} :
    vm.step = .ok vm' ↔ ∃ i, vm.fetch = some i ∧ vm.advance.perform i i.action = .ok vm' := by
  rw [step]
  cases vm.fetch <;> simp

/-- A load that goes through. -/
theorem step_of_load {vm : Vm t S} {i : Insn} {n : Width} {base v : UInt64}
    (hi : vm.fetch = some i) (ha : i.action = .load n) (hdst : i.dst < 11)
    (hbase : vm.regs[i.src]? = some base)
    (hload : vm.mem.load t n (base + offU64 i.off) = .ok (some v)) :
    vm.step = .ok { vm with pc := vm.pc + 1, regs := vm.regs.set i.dst v } := by
  have hreg : vm.advance.reg i.src = .ok base := reg_eq_ok.mpr hbase
  rw [step_of_fetch hi, ha, perform, hreg]
  refine bind_eq_ok.mpr ⟨base, rfl, ?_⟩
  refine bind_eq_ok.mpr ⟨some v, liftHalt_eq_ok.mpr hload, ?_⟩
  exact setReg_eq_ok.mpr ⟨hdst, rfl⟩

/-- A conditional jump on two registers. -/
theorem step_of_jumpReg {vm : Vm t S} {i : Insn}
    {cond : UInt64 → UInt64 → Bool} {a b : UInt64} (hi : vm.fetch = some i)
    (ha : i.action = .jumpReg cond) (hdst : vm.regs[i.dst]? = some a)
    (hsrc : vm.regs[i.src]? = some b) :
    vm.step = if cond a b then vm.advance.jumpBy i.off.toInt else .ok vm.advance := by
  have hdst' : vm.advance.reg i.dst = .ok a := reg_eq_ok.mpr hdst
  have hsrc' : vm.advance.reg i.src = .ok b := reg_eq_ok.mpr hsrc
  rw [step_of_fetch hi, ha, perform, hdst', hsrc']
  rfl

/-! ## The call stack -/

/-- A syscall leaves the call stack, the program and the program counter alone, all but
one the return data, and all but three the memory. -/
theorem performSyscall_frame {vm vm' : Vm t S} {k : Hash}
    (h : vm.performSyscall k = .ok vm') :
    vm'.callStack = vm.callStack ∧ vm'.text = vm.text ∧
      (k = .solSetReturnData ∨ vm'.returnData = vm.returnData) ∧
      (k.WritesMemory ∨ vm'.mem = vm.mem) ∧ vm'.pc = vm.pc := by
  cases k with
  | solLog | solPanic | unknown =>
    obtain rfl := Except.ok.inj h
    exact ⟨rfl, rfl, Or.inr rfl, Or.inr rfl, rfl⟩
  | solMemcpy | solMemset | solMemmove =>
    simp only [performSyscall, bind_eq_ok] at h
    obtain ⟨r, -, h⟩ := h
    obtain rfl := Except.ok.inj h
    exact ⟨rfl, rfl, Or.inr rfl, Or.inl (by simp [Hash.WritesMemory]), rfl⟩
  | solSetReturnData =>
    simp only [performSyscall, bind_eq_ok] at h
    obtain ⟨r, -, h⟩ := h
    obtain rfl := Except.ok.inj h
    exact ⟨rfl, rfl, Or.inl rfl, Or.inr rfl, rfl⟩

/-- The shapes that neither push nor pop leave the call stack and the program
alone, all but one syscall the return data, and all but the stores and three syscalls
the memory.  A jump goes by its offset or not at all, and a wide load skips its second
word. -/
theorem perform_frame {vm vm' : Vm t S} {i : Insn} {a : Action}
    (hcall : a = .call → i.src = 1) (hexit : a ≠ .exit)
    (h : vm.perform i a = .ok vm') :
    vm'.callStack = vm.callStack ∧ vm'.text = vm.text ∧
      ((a = .call ∨ a = .syscall) ∧ Hash.ofU32 (immU32 i.imm) = .solSetReturnData ∨
        vm'.returnData = vm.returnData) ∧
      ((∃ n, a.storeWidth = some n) ∨
        (a = .call ∨ a = .syscall) ∧ (Hash.ofU32 (immU32 i.imm)).WritesMemory ∨
        vm'.mem = vm.mem) ∧
      (a.isJump = true ∧ vm.jumpBy i.off.toInt = .ok vm' ∨ vm'.pc = vm.pc ∨
        vm'.pc = vm.pc + 1) := by
  cases a with
  | aluImm f =>
    simp only [perform, bind_eq_ok, setReg_eq_ok] at h
    obtain ⟨_, -, _, rfl⟩ := h
    exact ⟨rfl, rfl, Or.inr rfl, Or.inr (Or.inr rfl), Or.inr (Or.inl rfl)⟩
  | aluReg f =>
    simp only [perform, bind_eq_ok, setReg_eq_ok] at h
    obtain ⟨_, -, _, -, _, rfl⟩ := h
    exact ⟨rfl, rfl, Or.inr rfl, Or.inr (Or.inr rfl), Or.inr (Or.inl rfl)⟩
  | divImm z f =>
    rw [perform] at h
    split at h
    · exact absurd h (by simp)
    · simp only [bind_eq_ok, setReg_eq_ok] at h
      obtain ⟨_, -, _, rfl⟩ := h
      exact ⟨rfl, rfl, Or.inr rfl, Or.inr (Or.inr rfl), Or.inr (Or.inl rfl)⟩
  | divReg z f =>
    simp only [perform, bind_eq_ok] at h
    obtain ⟨b, -, h⟩ := h
    split at h
    · exact absurd h (by simp)
    · simp only [bind_eq_ok, setReg_eq_ok] at h
      obtain ⟨_, -, _, rfl⟩ := h
      exact ⟨rfl, rfl, Or.inr rfl, Or.inr (Or.inr rfl), Or.inr (Or.inl rfl)⟩
  | neg m f =>
    simp only [perform, bind_eq_ok] at h
    obtain ⟨a, -, h⟩ := h
    split at h
    · exact absurd h (by simp)
    · obtain ⟨_, rfl⟩ := setReg_eq_ok.mp h
      exact ⟨rfl, rfl, Or.inr rfl, Or.inr (Or.inr rfl), Or.inr (Or.inl rfl)⟩
  | lddw =>
    rw [perform] at h
    split at h
    · exact absurd h (by simp)
    · obtain ⟨_, rfl⟩ := setReg_eq_ok.mp h
      exact ⟨rfl, rfl, Or.inr rfl, Or.inr (Or.inr rfl), Or.inr (Or.inr rfl)⟩
  | load n =>
    simp only [perform, bind_eq_ok] at h
    obtain ⟨b, -, r, -, h⟩ := h
    split at h
    · exact absurd h (by simp)
    · obtain ⟨_, rfl⟩ := setReg_eq_ok.mp h
      exact ⟨rfl, rfl, Or.inr rfl, Or.inr (Or.inr rfl), Or.inr (Or.inl rfl)⟩
  | storeReg n =>
    simp only [perform, bind_eq_ok] at h
    obtain ⟨a, -, b, -, r, -, h⟩ := h
    split at h
    · exact absurd h (by simp)
    · obtain rfl := Except.ok.inj h
      exact ⟨rfl, rfl, Or.inr rfl, Or.inl ⟨n, rfl⟩, Or.inr (Or.inl rfl)⟩
  | storeImm n =>
    simp only [perform, bind_eq_ok] at h
    obtain ⟨a, -, r, -, h⟩ := h
    split at h
    · exact absurd h (by simp)
    · obtain rfl := Except.ok.inj h
      exact ⟨rfl, rfl, Or.inr rfl, Or.inl ⟨n, rfl⟩, Or.inr (Or.inl rfl)⟩
  | jump =>
    obtain ⟨pc, rfl⟩ := jumpBy_eq_ok h
    exact ⟨rfl, rfl, Or.inr rfl, Or.inr (Or.inr rfl), Or.inl ⟨rfl, h⟩⟩
  | jumpImm c =>
    simp only [perform, bind_eq_ok] at h
    obtain ⟨a, -, h⟩ := h
    split at h
    · obtain ⟨pc, rfl⟩ := jumpBy_eq_ok h
      exact ⟨rfl, rfl, Or.inr rfl, Or.inr (Or.inr rfl), Or.inl ⟨rfl, h⟩⟩
    · obtain rfl := Except.ok.inj h
      exact ⟨rfl, rfl, Or.inr rfl, Or.inr (Or.inr rfl), Or.inr (Or.inl rfl)⟩
  | jumpReg c =>
    simp only [perform, bind_eq_ok] at h
    obtain ⟨a, -, b, -, h⟩ := h
    split at h
    · obtain ⟨pc, rfl⟩ := jumpBy_eq_ok h
      exact ⟨rfl, rfl, Or.inr rfl, Or.inr (Or.inr rfl), Or.inl ⟨rfl, h⟩⟩
    · obtain rfl := Except.ok.inj h
      exact ⟨rfl, rfl, Or.inr rfl, Or.inr (Or.inr rfl), Or.inr (Or.inl rfl)⟩
  | call =>
    rw [perform, if_pos (hcall rfl)] at h
    obtain ⟨hstack, htext, hdata, hmem, hpc⟩ := performSyscall_frame h
    exact ⟨hstack, htext, hdata.imp_left fun hk => ⟨Or.inl rfl, hk⟩,
      Or.inr (hmem.imp_left fun hk => ⟨Or.inl rfl, hk⟩), Or.inr (Or.inl hpc)⟩
  | syscall =>
    obtain ⟨hstack, htext, hdata, hmem, hpc⟩ := performSyscall_frame h
    exact ⟨hstack, htext, hdata.imp_left fun hk => ⟨Or.inr rfl, hk⟩,
      Or.inr (hmem.imp_left fun hk => ⟨Or.inr rfl, hk⟩), Or.inr (Or.inl hpc)⟩
  | exit => exact absurd rfl hexit
  | unknown => exact absurd h (by simp [perform])

/-- **What one step does to the call stack.**  An internal call pushes the
return address and all registers, an exit above depth `0` pops a frame and
restores everything but `r0`, and every other step leaves the stack alone. -/
theorem step_cases {vm vm' : Vm t S} (h : vm.step = .ok vm') :
    ∃ i, vm.fetch = some i ∧
      ((i.action = .call ∧ i.src ≠ 1 ∧ vm.callStack.length < maxCallDepth ∧
          ∃ pc, vm' = { vm with pc := pc, callStack := (vm.pc + 1, vm.regs) :: vm.callStack }) ∨
        (i.action = .exit ∧ ∃ retPc savedRegs rest, vm.callStack = (retPc, savedRegs) :: rest ∧
          vm' = { vm with
            regs := savedRegs.put .r0 (vm.regs.get .r0), pc := retPc, callStack := rest }) ∨
        (vm'.callStack = vm.callStack ∧ vm'.text = vm.text ∧
          (i.SetsReturnData ∨ vm'.returnData = vm.returnData) ∧
          (i.WritesMemory ∨ vm'.mem = vm.mem))) := by
  obtain ⟨i, hi, hp⟩ := step_eq_ok.mp h
  refine ⟨i, hi, ?_⟩
  by_cases hcall : i.action = .call ∧ i.src ≠ 1
  · obtain ⟨ha, hsrc⟩ := hcall
    rw [ha, perform, if_neg hsrc] at hp
    split at hp
    · exact absurd hp (by simp)
    · rename_i hdepth
      obtain ⟨pc, rfl⟩ := jumpBy_eq_ok hp
      exact Or.inl ⟨ha, hsrc, Nat.lt_of_not_le hdepth, pc, rfl⟩
  · by_cases hexit : i.action = .exit
    · rw [hexit, perform] at hp
      split at hp
      · rename_i retPc savedRegs rest hstack
        obtain rfl := Except.ok.inj hp
        exact Or.inr (Or.inl ⟨hexit, retPc, savedRegs, rest, hstack, rfl⟩)
      · exact absurd hp (by simp)
    · have hsrc : i.action = .call → i.src = 1 := by
        intro ha
        by_contra hne
        exact hcall ⟨ha, hne⟩
      obtain ⟨hstack, htext, hdata, hmem, -⟩ := perform_frame hsrc hexit hp
      have hcalls : i.action = .call ∨ i.action = .syscall →
          i.action = .call ∧ i.src = 1 ∨ i.action = .syscall :=
        Or.imp_left fun ha => ⟨ha, hsrc ha⟩
      refine Or.inr (Or.inr ⟨hstack, htext, ?_, ?_⟩)
      · exact hdata.imp_left fun hset => ⟨hcalls hset.1, hset.2⟩
      · rcases hmem with hstore | hset | hmem
        · exact Or.inl (Or.inl hstore)
        · exact Or.inl (Or.inr ⟨hcalls hset.1, hset.2⟩)
        · exact Or.inr hmem

/-- No step changes the program. -/
theorem text_step {vm vm' : Vm t S} (h : vm.step = .ok vm') : vm'.text = vm.text := by
  obtain ⟨i, -, ⟨-, -, -, pc, rfl⟩ | ⟨-, _, _, _, -, rfl⟩ | ⟨-, htext, -⟩⟩ :=
    step_cases h
  · rfl
  · rfl
  · exact htext

/-- Only a store and a call of one of three syscalls change the memory. -/
theorem mem_step {vm vm' : Vm t S} (h : vm.step = .ok vm') :
    (∃ i, vm.fetch = some i ∧ i.WritesMemory) ∨ vm'.mem = vm.mem := by
  obtain ⟨i, hi, ⟨-, -, -, pc, rfl⟩ | ⟨-, _, _, _, -, rfl⟩ | ⟨-, -, -, hwrites | hmem⟩⟩ :=
    step_cases h
  · exact Or.inr rfl
  · exact Or.inr rfl
  · exact Or.inl ⟨i, hi, hwrites⟩
  · exact Or.inr hmem

/-- Only a call of `sol_set_return_data` changes the return data. -/
theorem returnData_step {vm vm' : Vm t S} (h : vm.step = .ok vm') :
    (∃ i, vm.fetch = some i ∧ i.SetsReturnData) ∨ vm'.returnData = vm.returnData := by
  obtain ⟨i, hi, ⟨-, -, -, pc, rfl⟩ | ⟨-, _, _, _, -, rfl⟩ | ⟨-, -, hset | hdata, -⟩⟩ :=
    step_cases h
  · exact Or.inr rfl
  · exact Or.inr rfl
  · exact Or.inl ⟨i, hi, hset⟩
  · exact Or.inr hdata

/-- The interpreter drives its call stack one frame at a time. -/
theorem pushdown : Pushdown (step : Vm t S → Except (Halt t S) (Vm t S)) callStack := by
  intro vm vm' h
  obtain ⟨i, -, ⟨-, -, -, pc, rfl⟩ | ⟨-, retPc, savedRegs, rest, hstack, rfl⟩ | ⟨hstack, -, -⟩⟩ :=
    step_cases h
  · exact Or.inr (Or.inl ⟨_, rfl⟩)
  · exact Or.inr (Or.inr ⟨_, hstack⟩)
  · exact Or.inl hstack

/-! ## Stopping -/

/-- Why an arm returns an error, by its shape.  The program counter is past the first
word of the instruction. -/
inductive Cause (vm : Vm t S) (i : Insn) : Action → SbpfError → Prop where
  | opcode : Cause vm i .unknown (.unknownOpcode i.opcode)
  | secondWord (h : vm.text.toList[vm.pc]? = none) : Cause vm i .lddw (.outOfBounds vm.pc)
  | zeroImm {z : Int32 → Bool} {f : UInt64 → Int32 → UInt64} (h : z i.imm = true) :
      Cause vm i (.divImm z f) .divisionByZero
  | zeroReg {z : UInt64 → Bool} {f : UInt64 → UInt64 → UInt64} {b : UInt64}
      (hb : vm.regs[i.src]? = some b) (h : z b = true) :
      Cause vm i (.divReg z f) .divisionByZero
  | load {n : Width} {b : UInt64} (hb : vm.regs[i.src]? = some b)
      (h : vm.mem.load t n (b + offU64 i.off) = .ok none) :
      Cause vm i (.load n) (.invalidMemoryAccess (b + offU64 i.off) n.size)
  | storeReg {n : Width} {a b : UInt64} (hd : vm.regs[i.dst]? = some a)
      (hb : vm.regs[i.src]? = some b)
      (h : vm.mem.storeReg t n (a + offU64 i.off) b = .ok none) :
      Cause vm i (.storeReg n) (.invalidMemoryAccess (a + offU64 i.off) n.size)
  | storeImm {n : Width} {a : UInt64} (hd : vm.regs[i.dst]? = some a)
      (h : vm.mem.storeImm t n (a + offU64 i.off) i.imm = .ok none) :
      Cause vm i (.storeImm n) (.invalidMemoryAccess (a + offU64 i.off) n.size)
  | depth (hs : i.src ≠ 1) (h : maxCallDepth ≤ vm.callStack.length) :
      Cause vm i .call .callStackOverflow

/-- A syscall stops by a fault only. -/
theorem performSyscall_eq_error {vm : Vm t S} {k : Hash} {r : Halt t S}
    (h : vm.performSyscall k = .error r) : ∃ f, r = .panic f := by
  cases k with
  | solLog | solPanic | unknown => exact absurd h (by simp [performSyscall])
  | solMemcpy | solMemset | solMemmove | solSetReturnData =>
    simp only [performSyscall, bind_eq_error] at h
    rcases h with h | ⟨x, -, h⟩
    · exact panic_of_liftHalt h
    · exact absurd h (by simp [pure, Except.pure])

/-- **How a step stops.**  An error has one of the causes and leaves the machine as the
arm found it, and `Ok` comes from an exit with no frame left; anything else is a
fault. -/
theorem perform_eq_error {vm : Vm t S} {i : Insn} {a : Action} {r : Halt t S}
    (h : vm.perform i a = .error r) :
    (∃ f, r = .panic f) ∨ (∃ e, vm.Cause i a e ∧ r = .err e vm) ∨
      (a = .exit ∧ vm.callStack = [] ∧ r = .ok (vm.regs.get .r0) vm) := by
  have hreg : ∀ {u : Vm t S} {k : ℕ}, u.reg k = .error r → ∃ f, r = .panic f :=
    fun hu => ⟨_, (reg_eq_error.mp hu).2⟩
  have hset : ∀ {u : Vm t S} {k : ℕ} {v : UInt64}, u.setReg k v = .error r → ∃ f, r = .panic f :=
    fun hu => ⟨_, (setReg_eq_error.mp hu).2⟩
  have herr : ∀ {e : SbpfError}, (.error (.err e vm) : Except (Halt t S) (Vm t S)) = .error r →
      vm.Cause i a e → ∃ e, vm.Cause i a e ∧ r = .err e vm :=
    fun hr hcause => ⟨_, hcause, (Except.error.inj hr).symm⟩
  cases a with
  | aluImm f =>
    simp only [perform, bind_eq_error] at h
    rcases h with h | ⟨x, -, h⟩
    · exact Or.inl (hreg h)
    · exact Or.inl (hset h)
  | aluReg f =>
    simp only [perform, bind_eq_error] at h
    rcases h with h | ⟨x, -, h | ⟨y, -, h⟩⟩
    · exact Or.inl (hreg h)
    · exact Or.inl (hreg h)
    · exact Or.inl (hset h)
  | divImm z f =>
    rw [perform] at h
    split at h
    · rename_i hz
      exact Or.inr (Or.inl (herr h (.zeroImm hz)))
    · rcases bind_eq_error.mp h with h | ⟨x, -, h⟩
      · exact Or.inl (hreg h)
      · exact Or.inl (hset h)
  | divReg z f =>
    rcases bind_eq_error.mp h with h | ⟨b, hb, h⟩
    · exact Or.inl (hreg h)
    · split at h
      · rename_i hz
        exact Or.inr (Or.inl (herr h (.zeroReg (reg_eq_ok.mp hb) hz)))
      · rcases bind_eq_error.mp h with h | ⟨y, -, h⟩
        · exact Or.inl (hreg h)
        · exact Or.inl (hset h)
  | neg m f =>
    rcases bind_eq_error.mp h with h | ⟨x, -, h⟩
    · exact Or.inl (hreg h)
    · split at h
      · exact Or.inl ⟨_, (Except.error.inj h).symm⟩
      · exact Or.inl (hset h)
  | lddw =>
    rw [perform] at h
    split at h
    · rename_i hword
      exact Or.inr (Or.inl (herr h (.secondWord hword)))
    · exact Or.inl (hset h)
  | load n =>
    simp only [perform, bind_eq_error] at h
    rcases h with h | ⟨b, hb, h | ⟨x, hx, h⟩⟩
    · exact Or.inl (hreg h)
    · exact Or.inl (panic_of_liftHalt h)
    · cases x with
      | none =>
        exact Or.inr (Or.inl (herr h (.load (reg_eq_ok.mp hb) (liftHalt_eq_ok.mp hx))))
      | some v => exact Or.inl (hset h)
  | storeReg n =>
    simp only [perform, bind_eq_error] at h
    rcases h with h | ⟨a, hd, h | ⟨b, hb, h | ⟨x, hx, h⟩⟩⟩
    · exact Or.inl (hreg h)
    · exact Or.inl (hreg h)
    · exact Or.inl (panic_of_liftHalt h)
    · cases x with
      | none =>
        exact Or.inr (Or.inl (herr h
          (.storeReg (reg_eq_ok.mp hd) (reg_eq_ok.mp hb) (liftHalt_eq_ok.mp hx))))
      | some m => exact absurd h (by simp [pure, Except.pure])
  | storeImm n =>
    simp only [perform, bind_eq_error] at h
    rcases h with h | ⟨a, hd, h | ⟨x, hx, h⟩⟩
    · exact Or.inl (hreg h)
    · exact Or.inl (panic_of_liftHalt h)
    · cases x with
      | none =>
        exact Or.inr (Or.inl (herr h (.storeImm (reg_eq_ok.mp hd) (liftHalt_eq_ok.mp hx))))
      | some m => exact absurd h (by simp [pure, Except.pure])
  | jump => exact Or.inl (jumpBy_eq_error h)
  | jumpImm c =>
    rcases bind_eq_error.mp h with h | ⟨x, -, h⟩
    · exact Or.inl (hreg h)
    · split at h
      · exact Or.inl (jumpBy_eq_error h)
      · exact absurd h (by simp [pure, Except.pure])
  | jumpReg c =>
    rcases bind_eq_error.mp h with h | ⟨x, -, h⟩
    · exact Or.inl (hreg h)
    · rcases bind_eq_error.mp h with h | ⟨y, -, h⟩
      · exact Or.inl (hreg h)
      · split at h
        · exact Or.inl (jumpBy_eq_error h)
        · exact absurd h (by simp [pure, Except.pure])
  | call =>
    rw [perform] at h
    split at h
    · exact Or.inl (performSyscall_eq_error h)
    · rename_i hs
      split at h
      · rename_i hdepth
        exact Or.inr (Or.inl (herr h (.depth hs hdepth)))
      · exact Or.inl (jumpBy_eq_error h)
  | syscall => exact Or.inl (performSyscall_eq_error h)
  | exit =>
    rw [perform] at h
    split at h
    · exact absurd h (by simp)
    · rename_i hstack
      exact Or.inr (Or.inr ⟨rfl, hstack, (Except.error.inj h).symm⟩)
  | unknown => exact Or.inr (Or.inl (herr h .opcode))

/-- `Vm::run` returns `Ok` from an exit at depth `0`, with the value of `r0`. -/
theorem step_eq_halt_ok {vm vm' : Vm t S} {r0 : UInt64}
    (h : vm.step = .error (.ok r0 vm')) :
    ∃ i, vm.fetch = some i ∧ i.action = .exit ∧ vm.callStack = [] ∧
      r0 = vm.regs.get .r0 ∧ vm' = vm.advance := by
  rw [step] at h
  split at h
  · exact absurd h (by simp)
  · rename_i i hi
    rcases perform_eq_error h with ⟨f, hf⟩ | ⟨e, -, he⟩ | ⟨ha, hstack, hr⟩
    · exact absurd hf (by simp)
    · exact absurd he (by simp)
    · rw [Halt.ok.injEq] at hr
      exact ⟨i, hi, ha, hstack, hr.1, hr.2⟩

end

end Vm
end Tuniq
