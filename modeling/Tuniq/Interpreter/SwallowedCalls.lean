import Tuniq.Interpreter.StepRules

/-!
# Calls that do nothing

`dispatch_syscall` returns `Ok(())` for every hash.  For `sol_panic_` it zeroes
`r0`, "just zero return for our purposes"; for a hash that is in no arm it
preserves `r0`, so as not to clobber error codes.  Neither ends the run, and the
trait's diverging `sol_panic` is never reached.

So a program that panics, or calls what the interpreter does not implement, goes
on with the next instruction as if the call had returned.  `swallowed_calls`
says exactly this, for either call opcode and wherever in a run the call stands:
nothing but the program counter and `r0` changes, and the run has the outcomes
of the run from behind the call.  In particular it may finish with `Ok`, which
`ok_after_swallowed_calls` exhibits.
-/

namespace Tuniq
namespace Vm

variable {t : Target} {S : Type}

/-- `sol_panic_` -/
def solPanicHash : UInt32 := 0x52ba5096

/-- The hashes `dispatch_syscall` has an arm for. -/
def syscallTable : List UInt32 :=
  [0x686093bb, solPanicHash, 0xa92366c4, 0x3770fb22, 0x0d667e63, 0x5b839aba, 5]

/-- The last arm takes every hash the others do not. -/
theorem ofU32_eq_unknown_iff {hash : UInt32} :
    Hash.ofU32 hash = .unknown ↔ hash ∉ syscallTable := by
  unfold Hash.ofU32
  split <;> simp_all [syscallTable, solPanicHash]

/-- The next instruction calls the syscall table: `0x85` with `src = 1`, or
`0x8D`. -/
def CallsSyscall (vm : Vm t S) (hash : UInt32) : Prop :=
  ∃ i, vm.fetch = some i ∧ (i.opcode = 0x85 ∧ i.src = 1 ∨ i.opcode = 0x8D) ∧
    immU32 i.imm = hash

/-- The two call opcodes reach the syscall table alike. -/
theorem step_of_callsSyscall [Syscalls t S] {vm : Vm t S} {hash : UInt32}
    (h : vm.CallsSyscall hash) : vm.step = vm.advance.dispatchSyscall hash := by
  obtain ⟨i, hi, hop | hop, rfl⟩ := h
  · rw [step_of_fetch hi, Insn.action_eq_call_iff.mpr hop.1, perform, if_pos hop.2]
  · rw [step_of_fetch hi, Insn.action_eq_syscall_iff.mpr hop, perform]

/-- The state behind a call of `sol_panic_`. -/
def afterPanic (vm : Vm t S) : Vm t S :=
  { vm with pc := vm.pc + 1, regs := vm.regs.put .r0 0 }

/-- The state behind a call of an unknown hash. -/
def afterUnknown (vm : Vm t S) : Vm t S := { vm with pc := vm.pc + 1 }

theorem step_of_calls_solPanic [Syscalls t S] {vm : Vm t S}
    (h : vm.CallsSyscall solPanicHash) : vm.step = .ok vm.afterPanic := by
  rw [step_of_callsSyscall h]
  rfl

theorem step_of_calls_unknown [Syscalls t S] {vm : Vm t S} {hash : UInt32}
    (h : vm.CallsSyscall hash) (hunknown : hash ∉ syscallTable) :
    vm.step = .ok vm.afterUnknown := by
  rw [step_of_callsSyscall h, dispatchSyscall, ofU32_eq_unknown_iff.mpr hunknown]
  rfl

/-- **A panic and an unknown call are swallowed.**  Wherever a run dispatches
`sol_panic_`, it continues behind the call with `r0 = 0`; wherever it calls a
hash that is in no arm, it continues behind the call with `r0` preserved.  Nothing
else changes, and the run has the outcomes of the run from there. -/
theorem swallowed_calls [Syscalls t S] {vm₀ vm : Vm t S} (hrun : Reaches step vm₀ vm) :
    (vm.CallsSyscall solPanicHash →
      vm.step = .ok vm.afterPanic ∧
      ∀ r, Halts step vm₀ r ↔ Halts step vm.afterPanic r) ∧
    (∀ hash, vm.CallsSyscall hash → hash ∉ syscallTable →
      vm.step = .ok vm.afterUnknown ∧
      ∀ r, Halts step vm₀ r ↔ Halts step vm.afterUnknown r) := by
  refine ⟨fun hcall => ?_, fun hash hcall hunknown => ?_⟩
  · have hstep := step_of_calls_solPanic hcall
    exact ⟨hstep, fun r => (Halts.congr_of_reaches hrun).trans (Halts.congr_of_step hstep)⟩
  · have hstep := step_of_calls_unknown hcall hunknown
    exact ⟨hstep, fun r => (Halts.congr_of_reaches hrun).trans (Halts.congr_of_step hstep)⟩

/-- A program that panics through one call opcode, calls the unknown hash `0`
through the other, and exits. -/
def panickingText : Vec .w32 8 UInt64 :=
  ⟨[0x52ba50960000008D, 0x0000000000001085, 0x95], by decide⟩

/-- The machine that runs `panickingText` in the guest. -/
def panicking : Vm ⟨.w32, true⟩ GuestSyscalls :=
  start panickingText (Vector.replicate 11 7) Memory.empty {}

theorem panicking_callsSyscall : panicking.CallsSyscall solPanicHash :=
  ⟨_, rfl, Or.inr (by decide), by decide⟩

/-- Behind its panic the program makes its second call. -/
theorem swallowed_calls_panicking :
    panicking.step = .ok panicking.afterPanic ∧
      panicking.afterPanic.step = .ok panicking.afterPanic.afterUnknown := by
  have hpanic := ((swallowed_calls (Reaches.refl panicking)).1 panicking_callsSyscall).1
  have hreach : Reaches step panicking panicking.afterPanic :=
    (Reaches.refl _).head hpanic
  have hcall : panicking.afterPanic.CallsSyscall 0 :=
    ⟨_, rfl, Or.inl (by decide), by decide⟩
  exact ⟨hpanic, ((swallowed_calls hreach).2 0 hcall (by decide)).1⟩

/-- **A run may finish with `Ok` after a panic and an unknown call.** -/
theorem ok_after_swallowed_calls :
    ¬ ∀ (text : Vec .w32 8 UInt64) (regs : Regs) (mem : Memory .w32) (r0 : UInt64)
        (vm' : Vm ⟨.w32, true⟩ GuestSyscalls),
      Halts step (start text regs mem {}) (.ok r0 vm') →
      ∀ vm : Vm ⟨.w32, true⟩ GuestSyscalls, Reaches step (start text regs mem {}) vm →
        ¬ vm.CallsSyscall solPanicHash ∧ ∀ hash, vm.CallsSyscall hash → hash ∈ syscallTable := by
  intro hall
  obtain ⟨r, hr, hresult⟩ := halts_of_outcome
    (by decide +kernel : outcome step Halt.result 2 panicking = some (.ok 0))
  obtain ⟨vm', rfl⟩ := Halt.result_eq_ok.mp hresult
  exact (hall _ _ _ 0 vm' hr panicking (Reaches.refl _)).1 panicking_callsSyscall

end Vm
end Tuniq
