import Tuniq.Interpreter.SameMemory
import Tuniq.Interpreter.StepRules
import Tuniq.Interpreter.SwallowedCalls

/-!
# Host and guest run in lockstep

The conformance harness runs programs on the host, with 64-bit `usize` and
`StubSyscalls`; the proving machine runs them in the guest, with 32-bit `usize`
and `GuestSyscalls`.  The two agree step by step, from related states, except in
three syscalls:

* `sol_memcpy_` copies through a buffer on the host and byte by byte in the
  guest, which differs when the destination starts inside the source;
* the host's copies and the guest's `sol_memmove_` allocate a buffer, and the two
  platforms have different largest allocations;
* `sol_set_return_data` casts its length to `usize`, which truncates in the guest.

`Vm.PortableCall` excludes exactly these, and `Vm.lockstep` is the result.  The
program counters of the two machines may differ once they have left the program,
since a jump before its start wraps differently; nothing else may.
-/

namespace Tuniq

/-- The same outcome of `Vm::run`: `Ok` with the same value, return data and
memory, an error on both sides, or a fault on both sides. -/
def SameHalt {t t' : Target} {S S' : Type} : Halt t S → Halt t' S' → Prop
  | .ok r0 vm, .ok r0' vm' =>
    r0 = r0' ∧ vm.returnData = vm'.returnData ∧ SameMemory vm.mem vm'.mem
  | .err _ _, .err _ _ => True
  | .panic _, .panic _ => True
  | _, _ => False

namespace Vm

/-- The interpreter of the conformance harness. -/
abbrev HostVm (c : Bool) := Vm ⟨.w64, c⟩ StubSyscalls

/-- The interpreter in the proving machine. -/
abbrev GuestVm (c : Bool) := Vm ⟨.w32, c⟩ GuestSyscalls

abbrev HostHalt (c : Bool) := Halt ⟨.w64, c⟩ StubSyscalls

abbrev GuestHalt (c : Bool) := Halt ⟨.w32, c⟩ GuestSyscalls

variable {c : Bool}

/-! ## Related machines -/

/-- Everything but the program counter agrees. -/
structure SameState (vm : HostVm c) (vm' : GuestVm c) : Prop where
  regs : vm.regs = vm'.regs
  text : vm.text.toList = vm'.text.toList
  callStack : vm.callStack = vm'.callStack
  mem : SameMemory vm.mem vm'.mem
  returnData : vm.returnData = vm'.returnData

/-- The program counters agree, or both have left the program. -/
structure SameMachine (vm : HostVm c) (vm' : GuestVm c) : Prop extends SameState vm vm' where
  pc : vm.pc = vm'.pc ∨ vm.text.len ≤ vm.pc ∧ vm'.text.len ≤ vm'.pc

/-- The arguments of a syscall on which the two platforms agree. -/
def PortableCall (vm : HostVm c) : Hash → Prop
  | .solMemcpy =>
    (vm.regs.get .r3).toNat < 2 ^ 63 ∧
      ¬ ((vm.regs.get .r2).toNat < (vm.regs.get .r1).toNat ∧
        (vm.regs.get .r1).toNat < (vm.regs.get .r2).toNat + (vm.regs.get .r3).toNat)
  | .solMemmove => (vm.regs.get .r3).toNat < 2 ^ 31
  | .solSetReturnData => (vm.regs.get .r2).toNat < 2 ^ 31
  | .solLog | .solPanic | .solMemset | .unknown => True

/-- The next step makes no syscall the two platforms disagree on. -/
def PortableStep (vm : HostVm c) : Prop :=
  ∀ hash, vm.CallsSyscall hash → vm.PortableCall (Hash.ofU32 hash)

section

variable {vm : HostVm c} {vm' : GuestVm c}

theorem related_liftHalt {α α' : Type} {R : α → α' → Prop} {x : Except Fault α}
    {y : Except Fault α'} (h : Related R AnyReason x y) :
    Related R SameHalt (liftHalt x : Except (HostHalt c) α)
      (liftHalt y : Except (GuestHalt c) α') := by
  cases h with
  | ok h => exact .ok h
  | error h => exact .error h

theorem related_reg (h : vm.regs = vm'.regs) (r : ℕ) :
    Related (· = ·) SameHalt (vm.reg r) (vm'.reg r) := by
  rw [reg, reg, h]
  cases vm'.regs[r]? with
  | none => exact .error trivial
  | some v => exact .ok rfl

theorem related_setReg (h : SameMachine vm vm') (r : ℕ) (v : UInt64) :
    Related SameMachine SameHalt (vm.setReg r v) (vm'.setReg r v) := by
  rw [setReg, setReg]
  split
  · exact .ok { h with regs := congrArg (fun regs => regs.set r v) h.regs }
  · exact .error trivial

/-- A jump that stays in the address space of both lands at the same place; one
before the start of the program leaves the program on both. -/
theorem related_jumpBy (h : SameState vm vm') (hpc : vm.pc = vm'.pc)
    (hle : vm.pc ≤ vm.text.len) {d : ℤ} (hd : -2 ^ 31 ≤ d ∧ d < 2 ^ 31) :
    Related SameMachine SameHalt (vm.jumpBy d) (vm'.jumpBy d) := by
  have hlen : vm.text.len = vm'.text.len := congrArg List.length h.text
  have hmax : vm'.text.len * 8 ≤ 2 ^ 31 - 1 := vm'.text.size_le
  rw [jumpBy_of_le hle hd, jumpBy_of_le (by rw [← hpc, ← hlen]; exact hle) hd]
  refine .ok ⟨⟨h.regs, h.text, h.callStack, h.mem, h.returnData⟩, ?_⟩
  show PtrWidth.w64.usizeOfI64 (vm.pc + d) = PtrWidth.w32.usizeOfI64 (vm'.pc + d) ∨
    vm.text.len ≤ PtrWidth.w64.usizeOfI64 (vm.pc + d) ∧
      vm'.text.len ≤ PtrWidth.w32.usizeOfI64 (vm'.pc + d)
  simp only [PtrWidth.usizeOfI64, PtrWidth.usizeCard, PtrWidth.bits]
  rw [← hpc]
  omega

/-! ## Syscalls -/

/-- A syscall on portable arguments ends the same way. -/
theorem related_performSyscall (h : SameMachine vm vm') {k : Hash} (hk : vm.PortableCall k) :
    Related SameMachine SameHalt (vm.performSyscall k) (vm'.performSyscall k) := by
  have hzero : ∀ {u : HostVm c} {u' : GuestVm c}, SameMachine u u' →
      SameMachine u.zeroR0 u'.zeroR0 :=
    fun hu => { hu with regs := congrArg (fun regs => regs.set 0 0) hu.regs }
  -- a memory syscall whose effects on the memory are related
  have hmem : ∀ {x : Except Fault (Memory .w64)} {y : Except Fault (Memory .w32)},
      Related SameMemory AnyReason x y →
      Related SameMachine SameHalt
        ((do
          let r ← liftHalt (do return (vm.syscalls, ← x))
          return ({ vm with syscalls := r.1, mem := r.2 } : HostVm c).zeroR0) :
            Except (HostHalt c) (HostVm c))
        ((do
          let r ← liftHalt (do return (vm'.syscalls, ← y))
          return ({ vm' with syscalls := r.1, mem := r.2 } : GuestVm c).zeroR0) :
            Except (GuestHalt c) (GuestVm c)) := by
    intro x y hxy
    cases hxy with
    | ok hxy => exact .ok (hzero { h with mem := hxy })
    | error => exact .error trivial
  have hregs : ∀ r (hr : r < 11), vm.regs[r] = vm'.regs[r] := fun r hr => by
    simp only [h.regs]
  cases k with
  | solLog | solPanic => exact .ok (hzero h)
  | unknown => exact .ok h
  | solMemcpy =>
    obtain ⟨hn, hdisj⟩ := hk
    have hn' : vm.regs[3].toNat ≤ PtrWidth.w64.isizeMax := Nat.le_sub_one_of_lt hn
    refine hmem ?_
    rw [← hregs 1, ← hregs 2, ← hregs 3]
    exact related_memcpy h.mem rfl hn' hdisj
  | solMemset =>
    refine hmem ?_
    rw [← hregs 1, ← hregs 2, ← hregs 3]
    exact related_fill h.mem rfl _ _ _
  | solMemmove =>
    have hn : vm.regs[3].toNat ≤ PtrWidth.w32.isizeMax := Nat.le_sub_one_of_lt hk
    have hn' : vm.regs[3].toNat ≤ PtrWidth.w64.isizeMax :=
      hn.trans (PtrWidth.le_isizeMax _)
    refine hmem ?_
    rw [← hregs 1, ← hregs 2, ← hregs 3]
    exact related_bufferedCopy h.mem rfl _ _ _ hn' hn
  | solSetReturnData =>
    have hn : vm.regs[2].toNat ≤ PtrWidth.w32.isizeMax := Nat.le_sub_one_of_lt hk
    have hn' : vm.regs[2].toNat ≤ PtrWidth.w64.isizeMax :=
      hn.trans (PtrWidth.le_isizeMax _)
    rw [performSyscall, performSyscall]
    dsimp only
    rw [PtrWidth.asUsize_of_lt hn', ← hregs 2, PtrWidth.asUsize_of_lt hn, ← hregs 1]
    refine Related.bind (related_liftHalt (related_collectBytes h.mem rfl _ hn' hn)) ?_
    rintro data _ rfl
    exact .ok (hzero { h with returnData := rfl })

/-! ## Steps -/

/-- **An arm ends the same way on both platforms**, when the syscall it makes, if
it makes one, has portable arguments. -/
theorem related_perform (h : SameState vm vm') (hpc : vm.pc = vm'.pc)
    (hle : vm.pc ≤ vm.text.len) {i : Insn} (a : Action)
    (hport : (a = .call ∧ i.src = 1 ∨ a = .syscall) →
      vm.PortableCall (Hash.ofU32 (immU32 i.imm))) :
    Related SameMachine SameHalt (vm.perform i a) (vm'.perform i a) := by
  have hm : SameMachine vm vm' := { h with pc := Or.inl hpc }
  have hoff : -2 ^ 31 ≤ i.off.toInt ∧ i.off.toInt < 2 ^ 31 := by
    have := i.off.toInt_lt
    have := i.off.le_toInt
    constructor <;> omega
  have himm : -2 ^ 31 ≤ i.imm.toInt ∧ i.imm.toInt < 2 ^ 31 :=
    ⟨i.imm.le_toInt, i.imm.toInt_lt⟩
  -- reading a register and going on with it
  have hreg : ∀ (r : ℕ) {k : UInt64 → Except (HostHalt c) (HostVm c)}
      {k' : UInt64 → Except (GuestHalt c) (GuestVm c)},
      (∀ v, Related SameMachine SameHalt (k v) (k' v)) →
      Related SameMachine SameHalt (vm.reg r >>= k) (vm'.reg r >>= k') := by
    intro r k k' hk
    refine Related.bind (related_reg h.regs r) ?_
    rintro v _ rfl
    exact hk v
  -- writing memory and going on
  have hwrite : ∀ (addr : UInt64) (bs : List UInt8)
      {k : Option (Memory .w64) → Except (HostHalt c) (HostVm c)}
      {k' : Option (Memory .w32) → Except (GuestHalt c) (GuestVm c)}, bs.length ≤ 8 →
      Related SameMachine SameHalt (k none) (k' none) →
      (∀ m m', SameMemory m m' → Related SameMachine SameHalt (k (some m)) (k' (some m'))) →
      Related SameMachine SameHalt
        (liftHalt (vm.mem.writeBytes ⟨.w64, c⟩ addr bs) >>= k)
        (liftHalt (vm'.mem.writeBytes ⟨.w32, c⟩ addr bs) >>= k') := by
    intro addr bs k k' hlen hnone hsome
    refine Related.bind (related_liftHalt (related_writeBytes h.mem addr hlen)) ?_
    rintro _ _ (hsame | _)
    · exact hsome _ _ hsame
    · exact hnone
  cases a with
  | aluImm f => exact hreg _ fun v => related_setReg hm _ _
  | aluReg f => exact hreg _ fun b => hreg _ fun v => related_setReg hm _ _
  | divImm z f =>
    rw [perform, perform]
    split
    · exact .error trivial
    · exact hreg _ fun v => related_setReg hm _ _
  | divReg z f =>
    refine hreg _ fun b => ?_
    split
    · exact .error trivial
    · exact hreg _ fun v => related_setReg hm _ _
  | neg z f =>
    refine hreg _ fun v => ?_
    split
    · exact .error trivial
    · exact related_setReg hm _ _
  | lddw =>
    have hnext : SameMachine ({ vm with pc := vm.pc + 1 } : HostVm c)
        ({ vm' with pc := vm'.pc + 1 } : GuestVm c) :=
      { h with pc := Or.inl (congrArg (· + 1) hpc) }
    have hword : vm'.text.toList[vm'.pc]? = vm.text.toList[vm.pc]? := by
      rw [← hpc, ← h.text]
    rw [perform, perform, hword]
    cases vm.text.toList[vm.pc]? with
    | none => exact .error trivial
    | some word => exact related_setReg hnext _ _
  | load n =>
    refine hreg _ fun b => ?_
    refine Related.bind (related_liftHalt (related_load h.mem n _)) ?_
    rintro (_ | v) _ rfl
    · exact .error trivial
    · exact related_setReg hm _ _
  | storeReg n =>
    refine hreg _ fun a => hreg _ fun b => ?_
    rw [Memory.storeReg_eq, Memory.storeReg_eq]
    exact hwrite _ _ (by rw [Memory.length_regBytes]; exact n.size_le) (.error trivial)
      fun m m' hsame => .ok { hm with mem := hsame }
  | storeImm n =>
    refine hreg _ fun a => ?_
    dsimp only
    rw [Memory.storeImm_eq, Memory.storeImm_eq]
    exact hwrite _ _ (by rw [Memory.length_immBytes]; exact n.size_le) (.error trivial)
      fun m m' hsame => .ok { hm with mem := hsame }
  | jump =>
    rw [perform, perform]
    exact related_jumpBy h hpc hle hoff
  | jumpImm cond =>
    refine hreg _ fun v => ?_
    split
    · exact related_jumpBy h hpc hle hoff
    · exact .ok hm
  | jumpReg cond =>
    refine hreg _ fun v => hreg _ fun b => ?_
    split
    · exact related_jumpBy h hpc hle hoff
    · exact .ok hm
  | call =>
    rw [perform, perform]
    by_cases hsrc : i.src = 1
    · rw [if_pos hsrc, if_pos hsrc]
      exact related_performSyscall hm (hport (Or.inl ⟨rfl, hsrc⟩))
    · rw [if_neg hsrc, if_neg hsrc, ← h.callStack]
      split
      · exact .error trivial
      · have hpush : SameState
            ({ vm with callStack := (vm.pc, vm.regs) :: vm.callStack } : HostVm c)
            ({ vm' with callStack := (vm'.pc, vm'.regs) :: vm.callStack } : GuestVm c) :=
          { h with callStack := by rw [hpc, h.regs] }
        exact related_jumpBy hpush hpc hle himm
  | syscall => exact related_performSyscall hm (hport (Or.inr rfl))
  | exit =>
    rw [perform, perform, ← h.callStack]
    have hr0 : vm.regs[0] = vm'.regs[0] := by simp only [h.regs]
    cases vm.callStack with
    | nil => exact .error ⟨hr0, h.returnData, h.mem⟩
    | cons frame rest =>
      obtain ⟨retPc, savedRegs⟩ := frame
      exact .ok ⟨{ h with regs := by rw [hr0], callStack := rfl }, Or.inl rfl⟩
  | unknown => exact .error trivial

/-- **A step ends the same way on both platforms** when it is portable. -/
theorem related_step (h : SameMachine vm vm') (hport : vm.PortableStep) :
    Related SameMachine SameHalt vm.step vm'.step := by
  have htext : vm.text.toList = vm'.text.toList := h.text
  rcases h.pc with hpc | ⟨hout, hout'⟩
  · have hfetch : vm'.fetch = vm.fetch := by
      rw [fetch, fetch, ← hpc, ← htext]
    rw [step, step, hfetch]
    cases hi : vm.fetch with
    | none => exact .error trivial
    | some i =>
      have hle : vm.advance.pc ≤ vm.advance.text.len := pc_lt_of_fetch hi
      have hstate : SameState vm.advance vm'.advance := { h with }
      refine related_perform hstate (congrArg (· + 1) hpc) hle i.action ?_
      intro hcall
      refine hport _ ⟨i, hi, ?_, rfl⟩
      rcases hcall with ⟨ha, hsrc⟩ | ha
      · exact Or.inl ⟨Insn.action_eq_call_iff.mp ha, hsrc⟩
      · exact Or.inr (Insn.action_eq_syscall_iff.mp ha)
  · have hnone : vm.fetch = none := by
      rw [fetch, List.getElem?_eq_none hout]
      rfl
    have hnone' : vm'.fetch = none := by
      rw [fetch, List.getElem?_eq_none hout']
      rfl
    rw [step, step, hnone, hnone']
    exact .error trivial

end

/-- **Host and guest run in lockstep** from related machines, as long as the run
of the host makes portable steps only. -/
theorem lockstep {vm₀ : HostVm c} (hport : ∀ vm, Reaches step vm₀ vm → vm.PortableStep) :
    Lockstep (step : HostVm c → _) (step : GuestVm c → _)
      (fun vm vm' => Reaches step vm₀ vm ∧ SameMachine vm vm') SameHalt := by
  rintro vm vm' ⟨hreach, h⟩
  have hstep := related_step h (hport vm hreach)
  cases hs : vm.step with
  | error r =>
    obtain ⟨r', hs', hQ⟩ := hstep.exists_error hs
    rw [hs']
    exact .error hQ
  | ok u =>
    obtain ⟨u', hs', hR⟩ := hstep.exists_ok hs
    rw [hs']
    exact .ok ⟨hreach.trans ((Reaches.refl u).head hs), hR⟩

end Vm
end Tuniq
