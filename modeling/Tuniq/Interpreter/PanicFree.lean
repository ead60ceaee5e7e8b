import Tuniq.Interpreter.StepRules
import Tuniq.Interpreter.SyscallRules

/-!
# When a step panics

A step of the interpreter is meant to continue, to finish, or to return an
`SbpfError`.  It can also panic: a register field has four bits and the register
file eleven entries, a bound check adds a size to an address, a negation meets
the least value, a syscall walks past the end of the address space or allocates
more than any vector can hold.

`Vm.StepSafe` lists what rules this out, shape by shape, in terms of the state
before the step: which register fields must name a register, which addresses
must be safe.  It is exact, so there are two results.

* `step_noPanic_iff`: with overflow checks, a step panics unless it is safe.
* `panic_free_iff`: a run is free of panics exactly when all its steps are safe.

The proof follows the interpreter's own order of evaluation: `NoPanic` of a
sequence is `NoPanic` of its parts, each on the value the part before it
returned.
-/

namespace Tuniq
namespace Vm

variable {t : Target} {S : Type}

/-! ## Computations that do not panic -/

/-- The computation does not stop with a panic. -/
def NoPanic {α : Type} (x : Except (Halt t S) α) : Prop := ∀ f, x ≠ .error (.panic f)

theorem noPanic_ok {α : Type} (a : α) : NoPanic (.ok a : Except (Halt t S) α) := by
  intro f h
  exact absurd h (by simp)

theorem noPanic_err {α : Type} (e : SbpfError) (vm : Vm t S) :
    NoPanic (.error (.err e vm) : Except (Halt t S) α) := by
  intro f h
  exact absurd h (by simp)

theorem not_noPanic {α : Type} (f : Fault) :
    ¬ NoPanic (.error (.panic f) : Except (Halt t S) α) := fun h => h f rfl

theorem noPanic_reg_bind {vm : Vm t S} {r : ℕ} {β : Type}
    {k : UInt64 → Except (Halt t S) β} :
    NoPanic (vm.reg r >>= k) ↔ ∃ v, vm.regs[r]? = some v ∧ NoPanic (k v) := by
  rw [reg]
  cases vm.regs[r]? with
  | none => exact iff_of_false (not_noPanic _) (by simp)
  | some v => simp [bind, Except.bind]

theorem noPanic_setReg {vm : Vm t S} {r : ℕ} {v : UInt64} :
    NoPanic (vm.setReg r v) ↔ r < 11 := by
  rw [setReg]
  split
  · rename_i hr
    exact iff_of_true (noPanic_ok _) hr
  · rename_i hr
    exact iff_of_false (not_noPanic _) hr

theorem noPanic_liftHalt_bind {α β : Type} {x : Except Fault α}
    {k : α → Except (Halt t S) β} :
    NoPanic (liftHalt x >>= k) ↔ ∃ a, x = .ok a ∧ NoPanic (k a) := by
  cases x with
  | error f => exact iff_of_false (not_noPanic _) (by simp)
  | ok a => simp [bind, Except.bind]

/-- A jump never panics: the program counter is far from the ends of `i64`. -/
theorem noPanic_jumpBy {vm : Vm t S} {d : ℤ} (hpc : vm.pc ≤ vm.text.len)
    (hd : -2 ^ 31 ≤ d ∧ d < 2 ^ 31) : NoPanic (vm.jumpBy d) := by
  rw [jumpBy_of_le hpc hd]
  exact noPanic_ok _

/-! ## Safe steps -/

/-- What an arm of `dispatch_syscall` needs. -/
def SyscallSafe (vm : Vm t S) : Hash → Prop
  | .solMemcpy =>
    vm.mem.layout.SpanSafe t (vm.regs.get .r1) (vm.regs.get .r3).toNat ∧
      vm.mem.layout.SpanSafe t (vm.regs.get .r2) (vm.regs.get .r3).toNat
  | .solMemset => vm.mem.layout.SpanSafe t (vm.regs.get .r1) (vm.regs.get .r3).toNat
  | .solMemmove =>
    (vm.regs.get .r3).toNat ≤ t.width.isizeMax ∧
      vm.mem.layout.SpanSafe t (vm.regs.get .r1) (vm.regs.get .r3).toNat ∧
      vm.mem.layout.SpanSafe t (vm.regs.get .r2) (vm.regs.get .r3).toNat
  | .solSetReturnData =>
    t.width.asUsize (vm.regs.get .r2).toNat ≤ t.width.isizeMax ∧
      vm.mem.layout.SpanSafe t (vm.regs.get .r1) (t.width.asUsize (vm.regs.get .r2).toNat)
  | .solLog | .solPanic | .unknown => True

/-- What an arm of each shape needs: its register fields name registers, its
address is safe, its operand can be negated. -/
def ActionSafe (vm : Vm t S) (i : Insn) : Action → Prop
  | .aluImm _ => i.dst < 11
  | .aluReg _ => i.src < 11 ∧ i.dst < 11
  | .divImm isZero _ => isZero i.imm = false → i.dst < 11
  | .divReg isZero _ => ∃ b, vm.regs[i.src]? = some b ∧ (isZero b = false → i.dst < 11)
  | .neg isMin _ =>
    ∃ a, vm.regs[i.dst]? = some a ∧ ¬ (t.overflowChecks = true ∧ isMin a = true)
  | .lddw => vm.pc < vm.text.len → i.dst < 11
  | .load n =>
    ∃ b, vm.regs[i.src]? = some b ∧
      vm.mem.layout.Safe (b + offU64 i.off).toNat n.size ∧
      (vm.mem.layout.lookup (b + offU64 i.off).toNat n.size ≠ none → i.dst < 11)
  | .storeReg n =>
    ∃ a, vm.regs[i.dst]? = some a ∧ i.src < 11 ∧
      vm.mem.layout.Safe (a + offU64 i.off).toNat n.size
  | .storeImm n =>
    ∃ a, vm.regs[i.dst]? = some a ∧ vm.mem.layout.Safe (a + offU64 i.off).toNat n.size
  | .jumpImm _ => i.dst < 11
  | .jumpReg _ => i.dst < 11 ∧ i.src < 11
  | .call => i.src = 1 → vm.SyscallSafe (Hash.ofU32 (immU32 i.imm))
  | .syscall => vm.SyscallSafe (Hash.ofU32 (immU32 i.imm))
  | .jump | .exit | .unknown => True

/-- What the next step needs. -/
def StepSafe (vm : Vm t S) : Prop :=
  ∀ i, vm.fetch = some i → vm.advance.ActionSafe i i.action

/-! ## Exactness -/

theorem getElem?_regs_eq_some (regs : Regs) (r : ℕ) :
    (∃ v, regs[r]? = some v) ↔ r < 11 := by
  constructor
  · rintro ⟨v, hv⟩
    exact (Vector.getElem?_eq_some_iff.mp hv).1
  · intro hr
    exact ⟨_, Vector.getElem?_eq_getElem hr⟩

/-- The memory syscalls of the guest panic unless their stretches are safe. -/
theorem noPanic_performSyscall {vm : Vm t GuestSyscalls} (htrap : vm.mem.Traps t) (k : Hash) :
    NoPanic (vm.performSyscall k) ↔ vm.SyscallSafe k := by
  -- a syscall that only runs `x` on the memory panics exactly when `x` faults
  have hmem : ∀ {x : Except Fault (Memory t.width)}, NoPanic ((do
      let r ← liftHalt (do return (vm.syscalls, ← x))
      return ({ vm with syscalls := r.1, mem := r.2 } : Vm t GuestSyscalls).zeroR0 :
        Except (Halt t GuestSyscalls) (Vm t GuestSyscalls))) ↔ ∃ m, x = .ok m := by
    intro x
    refine noPanic_liftHalt_bind.trans ?_
    constructor
    · rintro ⟨r, hr, -⟩
      obtain ⟨m, hm, -⟩ := bind_eq_ok.mp hr
      exact ⟨m, hm⟩
    · rintro ⟨m, rfl⟩
      exact ⟨_, rfl, noPanic_ok _⟩
  cases k with
  | solLog | solPanic | unknown => exact iff_of_true (noPanic_ok _) trivial
  | solMemcpy =>
    refine hmem.trans ⟨?_, ?_⟩
    · rintro ⟨m, hm⟩
      by_contra hsafe
      obtain ⟨f, hf⟩ := Memory.forwardCopy_of_not_safe htrap hsafe
      exact absurd (hm.symm.trans hf) (by simp)
    · rintro ⟨hdst, hsrc⟩
      exact ⟨_, Memory.forwardCopy_of_safe hdst hsrc⟩
  | solMemset =>
    refine hmem.trans ⟨?_, ?_⟩
    · rintro ⟨m, hm⟩
      by_contra hsafe
      obtain ⟨f, hf⟩ := Memory.fill_of_not_safe htrap hsafe
      exact absurd (hm.symm.trans hf) (by simp)
    · intro hdst
      exact ⟨_, Memory.fill_of_safe hdst⟩
  | solMemmove =>
    refine hmem.trans ⟨?_, ?_⟩
    · rintro ⟨m, hm⟩
      by_contra hsafe
      obtain ⟨f, hf⟩ := Memory.bufferedCopy_of_not_safe htrap hsafe
      exact absurd (hm.symm.trans hf) (by simp)
    · rintro ⟨hn, hdst, hsrc⟩
      exact ⟨_, Memory.bufferedCopy_of_safe hn hdst hsrc⟩
  | solSetReturnData =>
    refine noPanic_liftHalt_bind.trans ⟨?_, ?_⟩
    · rintro ⟨data, hdata, -⟩
      by_contra hsafe
      obtain ⟨f, hf⟩ := Memory.collectBytes_of_not_safe htrap hsafe
      exact absurd (hdata.symm.trans hf) (by simp)
    · rintro ⟨hn, hspan⟩
      exact ⟨_, Memory.collectBytes_of_safe hn hspan, noPanic_ok _⟩

/-- A load that continues with `k` needs a safe address, and what `k` needs. -/
theorem noPanic_load_bind {m : Memory t.width} {n : Width} {addr : UInt64} {β : Type}
    {k : Option UInt64 → Except (Halt t S) β} (htrap : m.Traps t) :
    NoPanic (liftHalt (m.load t n addr) >>= k) ↔
      m.layout.Safe addr.toNat n.size ∧
        NoPanic (k ((m.get addr.toNat n.size).map fun bs => UInt64.ofNat (ofLe bs))) := by
  rw [noPanic_liftHalt_bind, Memory.load_eq]
  by_cases hsafe : m.layout.Safe addr.toNat n.size
  · rw [Memory.readBytes_of_safe (lt_of_le_of_lt n.size_le (by norm_num)) hsafe]
    simp [bind, Except.bind, pure, Except.pure, hsafe]
  · obtain ⟨f, hf⟩ := Memory.readBytes_of_not_safe htrap n.size_le hsafe
    rw [hf]
    simp [bind, Except.bind, hsafe]

/-- A write that continues with `k` needs a safe address, and what `k` needs. -/
theorem noPanic_writeBytes_bind {m : Memory t.width} {bs : List UInt8} {addr : UInt64} {β : Type}
    {k : Option (Memory t.width) → Except (Halt t S) β} (htrap : m.Traps t)
    (hlen : bs.length ≤ 8) :
    NoPanic (liftHalt (m.writeBytes t addr bs) >>= k) ↔
      m.layout.Safe addr.toNat bs.length ∧ NoPanic (k (m.put addr.toNat bs)) := by
  rw [noPanic_liftHalt_bind]
  by_cases hsafe : m.layout.Safe addr.toNat bs.length
  · rw [Memory.writeBytes_of_safe (by omega) hsafe]
    simp [hsafe]
  · obtain ⟨f, hf⟩ := Memory.writeBytes_of_not_safe htrap hlen hsafe
    rw [hf]
    simp [hsafe]

/-- **An arm panics unless what its shape needs is there.** -/
theorem noPanic_perform {vm : Vm t GuestSyscalls} {i : Insn} (htrap : vm.mem.Traps t)
    (hpc : vm.pc ≤ vm.text.len) (a : Action) :
    NoPanic (vm.perform i a) ↔ vm.ActionSafe i a := by
  have hoff : -2 ^ 31 ≤ i.off.toInt ∧ i.off.toInt < 2 ^ 31 := by
    have := i.off.toInt_lt
    have := i.off.le_toInt
    constructor <;> omega
  have himm : -2 ^ 31 ≤ i.imm.toInt ∧ i.imm.toInt < 2 ^ 31 :=
    ⟨i.imm.le_toInt, i.imm.toInt_lt⟩
  cases a with
  | aluImm f =>
    rw [perform, noPanic_reg_bind]
    simp only [noPanic_setReg, ActionSafe]
    rw [← getElem?_regs_eq_some vm.regs i.dst]
    simp
  | aluReg f =>
    rw [perform, noPanic_reg_bind]
    simp only [noPanic_reg_bind, noPanic_setReg, ActionSafe]
    rw [← getElem?_regs_eq_some vm.regs i.dst,
      ← getElem?_regs_eq_some vm.regs i.src]
    simp
  | divImm z f =>
    rw [perform, ActionSafe]
    cases hz : z i.imm with
    | true => exact iff_of_true (noPanic_err _ _) (by simp)
    | false =>
      rw [if_neg (by simp), noPanic_reg_bind]
      simp only [noPanic_setReg]
      rw [← getElem?_regs_eq_some vm.regs i.dst]
      simp
  | divReg z f =>
    rw [perform, noPanic_reg_bind, ActionSafe]
    refine exists_congr fun b => and_congr_right fun _ => ?_
    cases hz : z b with
    | true => exact iff_of_true (noPanic_err _ _) (by simp)
    | false =>
      rw [if_neg (by simp), noPanic_reg_bind]
      simp only [noPanic_setReg]
      rw [← getElem?_regs_eq_some vm.regs i.dst]
      simp
  | neg z f =>
    rw [perform, noPanic_reg_bind, ActionSafe]
    refine exists_congr fun a => and_congr_right fun ha => ?_
    have hdst : i.dst < 11 := (getElem?_regs_eq_some _ _).mp ⟨a, ha⟩
    by_cases hz : t.overflowChecks = true ∧ z a = true
    · rw [if_pos hz]
      exact iff_of_false (not_noPanic _) (not_not.mpr hz)
    · rw [if_neg hz]
      exact iff_of_true (noPanic_setReg.mpr hdst) hz
  | lddw =>
    rw [perform, ActionSafe]
    split
    · rename_i hnone
      have hge : ¬ vm.pc < vm.text.len := Nat.not_lt.mpr (List.getElem?_eq_none_iff.mp hnone)
      exact iff_of_true (noPanic_err _ _) fun hlt => absurd hlt hge
    · rename_i word hword
      have hlt : vm.pc < vm.text.len := (List.getElem?_eq_some_iff.mp hword).1
      rw [noPanic_setReg]
      exact ⟨fun h _ => h, fun h => h hlt⟩
  | load n =>
    rw [perform, noPanic_reg_bind, ActionSafe]
    refine exists_congr fun b => and_congr_right fun _ => ?_
    rw [noPanic_load_bind htrap, Memory.get, Option.map_map]
    refine and_congr_right fun _ => ?_
    cases vm.mem.layout.lookup (b + offU64 i.off).toNat n.size with
    | none => exact iff_of_true (noPanic_err _ _) fun h => absurd rfl h
    | some p => exact noPanic_setReg.trans ⟨fun h _ => h, fun h => h (by simp)⟩
  | storeReg n =>
    rw [perform, noPanic_reg_bind, ActionSafe]
    refine exists_congr fun a => and_congr_right fun _ => ?_
    rw [noPanic_reg_bind, ← getElem?_regs_eq_some vm.regs, ← exists_and_right]
    refine exists_congr fun b => and_congr_right fun _ => ?_
    rw [Memory.storeReg_eq,
      noPanic_writeBytes_bind htrap (by rw [Memory.length_regBytes]; exact n.size_le),
      Memory.length_regBytes]
    refine and_iff_left ?_
    cases vm.mem.put (a + offU64 i.off).toNat (Memory.regBytes n b) with
    | none => exact noPanic_err _ _
    | some m => exact noPanic_ok _
  | storeImm n =>
    rw [perform, noPanic_reg_bind, ActionSafe]
    refine exists_congr fun a => and_congr_right fun _ => ?_
    dsimp only
    rw [Memory.storeImm_eq,
      noPanic_writeBytes_bind htrap (by rw [Memory.length_immBytes]; exact n.size_le),
      Memory.length_immBytes]
    refine and_iff_left ?_
    cases vm.mem.put (a + offU64 i.off).toNat (Memory.immBytes n i.imm) with
    | none => exact noPanic_err _ _
    | some m => exact noPanic_ok _
  | jump => exact iff_of_true (noPanic_jumpBy hpc hoff) trivial
  | jumpImm c =>
    rw [perform, noPanic_reg_bind, ActionSafe, ← getElem?_regs_eq_some vm.regs]
    refine exists_congr fun a => and_iff_left ?_
    split
    · exact noPanic_jumpBy hpc hoff
    · exact noPanic_ok _
  | jumpReg c =>
    rw [perform, noPanic_reg_bind, ActionSafe, ← getElem?_regs_eq_some vm.regs,
      ← exists_and_right]
    refine exists_congr fun a => and_congr_right fun _ => ?_
    rw [noPanic_reg_bind, ← getElem?_regs_eq_some vm.regs]
    refine exists_congr fun b => and_iff_left ?_
    split
    · exact noPanic_jumpBy hpc hoff
    · exact noPanic_ok _
  | call =>
    rw [perform, ActionSafe]
    by_cases hsrc : i.src = 1
    · rw [if_pos hsrc]
      exact (noPanic_performSyscall htrap _).trans ⟨fun h _ => h, fun h => h hsrc⟩
    · rw [if_neg hsrc]
      refine iff_of_true ?_ fun h => absurd h hsrc
      split
      · exact noPanic_err _ _
      · exact noPanic_jumpBy hpc himm
  | syscall => exact noPanic_performSyscall htrap _
  | exit =>
    rw [perform]
    refine iff_of_true ?_ trivial
    split
    · exact noPanic_ok _
    · intro f h
      exact absurd h (by simp)
  | unknown => exact iff_of_true (noPanic_err _ _) trivial

/-- **A step panics unless it is safe.** -/
theorem step_noPanic_iff {vm : Vm t GuestSyscalls} (htrap : vm.mem.Traps t) :
    NoPanic vm.step ↔ vm.StepSafe := by
  rw [step, StepSafe]
  cases hi : vm.fetch with
  | none => exact iff_of_true (noPanic_err _ _) (by simp)
  | some i =>
    have hpc : vm.advance.pc ≤ vm.advance.text.len := pc_lt_of_fetch hi
    have htrap' : vm.advance.mem.Traps t := htrap
    refine (noPanic_perform htrap' hpc _).trans ⟨?_, fun h => h i rfl⟩
    rintro h j hj
    obtain rfl := Option.some.inj hj
    exact h

/-- A step that does not panic continues, finishes, or returns an error. -/
theorem noPanic_step_iff [Syscalls t S] {vm : Vm t S} :
    NoPanic vm.step ↔
      (∃ vm', vm.step = .ok vm') ∨ (∃ r0 vm', vm.step = .error (.ok r0 vm')) ∨
        ∃ e vm', vm.step = .error (.err e vm') := by
  constructor
  · intro h
    cases hstep : vm.step with
    | ok vm' => exact Or.inl ⟨vm', rfl⟩
    | error r =>
      cases r with
      | ok r0 vm' => exact Or.inr (Or.inl ⟨r0, vm', rfl⟩)
      | err e vm' => exact Or.inr (Or.inr ⟨e, vm', rfl⟩)
      | panic f => exact absurd hstep (h f)
  · rintro (⟨vm', h⟩ | ⟨r0, vm', h⟩ | ⟨e, vm', h⟩) <;> rw [h]
    · exact noPanic_ok _
    · intro f hf
      exact absurd hf (by simp)
    · exact noPanic_err _ _

/-- **A run is free of panics exactly when all its steps are safe.**  For every
program, initial register file and memory, with overflow checks. -/
theorem panic_free_iff (w : PtrWidth) (text : Vec w 8 UInt64) (regs : Regs) (mem : Memory w) :
    (∀ vm : Vm ⟨w, true⟩ GuestSyscalls, Reaches step (start text regs mem {}) vm →
      (∃ vm', vm.step = .ok vm') ∨ (∃ r0 vm', vm.step = .error (.ok r0 vm')) ∨
        ∃ e vm', vm.step = .error (.err e vm')) ↔
    ∀ vm : Vm ⟨w, true⟩ GuestSyscalls, Reaches step (start text regs mem {}) vm →
      vm.StepSafe := by
  refine forall_congr' fun vm => forall_congr' fun _ => ?_
  rw [← noPanic_step_iff]
  exact step_noPanic_iff (Or.inl rfl)

/-- `ldxdw r0, [r1 - 1]; exit` -/
def loadBelowText : Vec .w32 8 UInt64 := ⟨[0x00000000FFFF1079, 0x95], by decide⟩

/-- **A load below address zero panics** instead of returning
`InvalidMemoryAccess`. -/
theorem load_below_zero_panics :
    ¬ ∀ (text : Vec .w32 8 UInt64) (regs : Regs) (mem : Memory .w32)
        (vm : Vm ⟨.w32, true⟩ GuestSyscalls), Reaches step (start text regs mem {}) vm →
      (∃ vm', vm.step = .ok vm') ∨ (∃ r0 vm', vm.step = .error (.ok r0 vm')) ∨
        ∃ e vm', vm.step = .error (.err e vm') := by
  intro hall
  obtain ⟨r, ⟨vm, hvm, hstop⟩, hresult⟩ := halts_of_outcome
    (by decide +kernel : outcome step Halt.result 0
      (start loadBelowText (Vector.replicate 11 0) Memory.empty {} :
        Vm ⟨.w32, true⟩ GuestSyscalls) = some (.error (.fault .arithmeticOverflow)))
  rw [Halt.result_eq_fault.mp hresult] at hstop
  exact noPanic_step_iff.mpr (hall _ _ _ vm hvm) _ hstop

end Vm
end Tuniq
