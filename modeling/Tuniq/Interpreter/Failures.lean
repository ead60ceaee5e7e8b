import Tuniq.Interpreter.StepRules

/-!
# Failing instructions

Nine places in the loop return an error: the fetch, the second word of `LDDW`, the zero
tests of the two forms of division, the load, the two forms of store, the call depth,
and an opcode without an arm.  `Vm.Fails` puts them together, and they are all there are
(`step_eq_err_iff`).

Each of them comes before the arm has written anything.  So an error leaves the
registers, the call stack, the return data and the memory as they were before the
instruction was fetched (`failure_no_effect`), and only the program counter may point
past it.
-/

namespace Tuniq
namespace Vm

variable {t : Target} {S : Type}

/-! ## Errors and effects -/

/-- Why a step returns an error: the program counter is outside the program, or the arm
of the fetched instruction has a cause. -/
inductive Fails (vm : Vm t S) : SbpfError → Prop where
  | fetch (h : vm.fetch = none) : Fails vm (.outOfBounds vm.pc)
  | arm {i : Insn} {e : SbpfError} (hi : vm.fetch = some i)
      (h : vm.advance.Cause i i.action e) : Fails vm e

/-- Nothing but the program counter differs, and that by one word at most. -/
structure NoEffect (vm u : Vm t S) : Prop where
  regs : u.regs = vm.regs
  callStack : u.callStack = vm.callStack
  returnData : u.returnData = vm.returnData
  mem : u.mem = vm.mem
  syscalls : u.syscalls = vm.syscalls
  text : u.text = vm.text
  pc : u.pc = vm.pc ∨ u.pc = vm.pc + 1

theorem noEffect_refl (vm : Vm t S) : vm.NoEffect vm :=
  ⟨rfl, rfl, rfl, rfl, rfl, rfl, Or.inl rfl⟩

theorem noEffect_advance (vm : Vm t S) : vm.NoEffect vm.advance :=
  ⟨rfl, rfl, rfl, rfl, rfl, rfl, Or.inr rfl⟩

/-! ## The errors of a step -/

section

variable [Syscalls t S]

theorem perform_of_cause {vm : Vm t S} {i : Insn} {a : Action} {e : SbpfError}
    (h : vm.Cause i a e) : vm.perform i a = .error (.err e vm) := by
  cases h with
  | opcode => rfl
  | secondWord h => rw [perform, h]
  | zeroImm h => rw [perform, if_pos h]
  | zeroReg hb h =>
    rw [perform, reg_eq_ok.mpr hb]
    exact if_pos h
  | load hb h =>
    rw [perform, reg_eq_ok.mpr hb]
    show (liftHalt (vm.mem.load t _ _) >>= _) = _
    rw [h]
    rfl
  | storeReg hd hb h =>
    rw [perform, reg_eq_ok.mpr hd, reg_eq_ok.mpr hb]
    show (liftHalt (vm.mem.storeReg t _ _ _) >>= _) = _
    rw [h]
    rfl
  | storeImm hd h =>
    rw [perform, reg_eq_ok.mpr hd]
    show (liftHalt (vm.mem.storeImm t _ _ _) >>= _) = _
    rw [h]
    rfl
  | depth hs h => rw [perform, if_neg hs, if_pos h]

/-- **An arm returns an error for one of the causes, and before any effect.** -/
theorem perform_eq_err_iff {vm u : Vm t S} {i : Insn} {a : Action} {e : SbpfError} :
    vm.perform i a = .error (.err e u) ↔ vm.Cause i a e ∧ u = vm := by
  constructor
  · intro h
    rcases perform_eq_error h with ⟨f, hf⟩ | ⟨e', hcause, hr⟩ | ⟨-, -, hr⟩
    · exact absurd hf (by simp)
    · obtain ⟨rfl, rfl⟩ := Halt.err.inj hr
      exact ⟨hcause, rfl⟩
    · exact absurd hr (by simp)
  · rintro ⟨h, rfl⟩
    exact perform_of_cause h

/-- **The errors of a step.** -/
theorem step_eq_err_iff {vm : Vm t S} {e : SbpfError} :
    (∃ u, vm.step = .error (.err e u)) ↔ vm.Fails e := by
  constructor
  · rintro ⟨u, h⟩
    cases hi : vm.fetch with
    | none =>
      rw [step, hi] at h
      obtain ⟨rfl, -⟩ := Halt.err.inj (Except.error.inj h)
      exact .fetch hi
    | some i =>
      rw [step_of_fetch hi] at h
      exact .arm hi (perform_eq_err_iff.mp h).1
  · intro h
    cases h with
    | fetch hnone =>
      refine ⟨vm, ?_⟩
      rw [step, hnone]
    | arm hi h =>
      refine ⟨vm.advance, ?_⟩
      rw [step_of_fetch hi]
      exact perform_of_cause h

/-- An error leaves the machine as it was, or past the word. -/
theorem noEffect_of_err {vm u : Vm t S} {e : SbpfError} (h : vm.step = .error (.err e u)) :
    vm.NoEffect u := by
  cases hi : vm.fetch with
  | none =>
    rw [step, hi] at h
    obtain ⟨-, rfl⟩ := Halt.err.inj (Except.error.inj h)
    exact noEffect_refl vm
  | some i =>
    rw [step_of_fetch hi] at h
    obtain ⟨-, rfl⟩ := perform_eq_err_iff.mp h
    exact noEffect_advance vm

/-! ## Runs -/

/-- **Failing instructions have no effect.**  When a run returns an error, it reached a
machine whose step fails for that error's cause, and the machine left at the end has
the registers, the call stack, the return data and the memory of that machine; only the
program counter may have advanced, past the failing word. -/
theorem failure_no_effect {vm₀ u : Vm t S} {e : SbpfError} (h : Halts step vm₀ (.err e u)) :
    ∃ vm, Reaches step vm₀ vm ∧ vm.step = .error (.err e u) ∧ vm.Fails e ∧ vm.NoEffect u := by
  obtain ⟨vm, hrun, hstop⟩ := h
  exact ⟨vm, hrun, hstop, step_eq_err_iff.mp ⟨u, hstop⟩, noEffect_of_err hstop⟩

/-- `mov64 r0, 7; div64 r0, 0` -/
def zeroDivisor : Vm ⟨.w64, true⟩ GuestSyscalls :=
  start ⟨[0x7000000B7, 0x37], by decide⟩ (Vector.replicate 11 0) Memory.empty {}

/-- A division by zero in the second step. -/
theorem failure_no_effect_zeroDivisor :
    ∃ u vm, Halts step zeroDivisor (.err .divisionByZero u) ∧ Reaches step zeroDivisor vm ∧
      vm.step = .error (.err .divisionByZero u) ∧ vm.Fails .divisionByZero ∧
      vm.NoEffect u := by
  have hout : outcome step Halt.result 1 zeroDivisor = some (.error (.err .divisionByZero)) := by
    decide +kernel
  obtain ⟨r, hr, hres⟩ := halts_of_outcome hout
  cases r with
  | err e u =>
    obtain rfl : e = .divisionByZero := by simpa [Halt.result] using hres
    obtain ⟨vm, hvm⟩ := failure_no_effect hr
    exact ⟨u, vm, hr, hvm⟩
  | ok r0 u => exact absurd hres (by simp [Halt.result])
  | panic f => exact absurd hres (by simp [Halt.result])

end

end Vm
end Tuniq
