import Tuniq.Interpreter.StepRules

/-!
# Internal calls return to their caller

An internal call saves the return address and the whole register file, and an
exit puts them back, except for `r0`, which carries the result.  Between a call
and its exit the callee may do anything --- call further functions, jump, store,
make syscalls --- and the point is that the caller finds its frame intact all the
same.

The argument does not follow the callee.  `Vm.pushdown` says the interpreter
moves its call stack one frame at a time, so `Pushdown.first_return` identifies
the step that brings the depth back: it is an exit, and the frame it pops is the
one the call pushed.
-/

namespace Tuniq
namespace Vm

variable {t : Target} {S : Type} [Syscalls t S]

/-- The call depth. -/
def depth (vm : Vm t S) : ℕ := vm.callStack.length

/-- The next instruction is an internal call: `0x85` with `src != 1`. -/
def AtInternalCall (vm : Vm t S) : Prop :=
  ∃ i, vm.fetch = some i ∧ i.opcode = 0x85 ∧ i.src ≠ 1

/-- The next instruction is an exit: `0x95`. -/
def AtExit (vm : Vm t S) : Prop :=
  ∃ i, vm.fetch = some i ∧ i.opcode = 0x95

/-- An internal call below the maximal depth goes through. -/
theorem step_of_atInternalCall {vm : Vm t S} (hcall : vm.AtInternalCall)
    (hdepth : vm.depth < maxCallDepth) :
    ∃ pc, vm.step =
      .ok { vm with pc := pc, callStack := (vm.pc + 1, vm.regs) :: vm.callStack } := by
  obtain ⟨i, hi, hop, hsrc⟩ := hcall
  have hpc := pc_lt_of_fetch hi
  have himm := i.imm.toInt_lt
  have himm' := i.imm.le_toInt
  refine ⟨t.width.usizeOfI64 (vm.advance.pc + i.imm.toInt), ?_⟩
  rw [step, hi]
  have hdepth' : ¬ maxCallDepth ≤ vm.advance.callStack.length := Nat.not_le.mpr hdepth
  simp only [Insn.action_eq_call_iff.mpr hop]
  rw [perform, if_neg hsrc, if_neg hdepth', jumpBy_of_le]
  · rfl
  · exact hpc
  · exact ⟨himm', himm⟩

/-- A step that makes the call stack one frame shorter executed an exit. -/
theorem atExit_of_pop {vm vm' : Vm t S} {frame : ℕ × Regs}
    (h : vm.step = .ok vm') (hpop : vm.callStack = frame :: vm'.callStack) :
    vm.AtExit ∧ vm' = { vm with
      regs := frame.2.put .r0 (vm.regs.get .r0), pc := frame.1, callStack := vm'.callStack } := by
  have hlen := congrArg List.length hpop
  rw [List.length_cons] at hlen
  obtain ⟨i, hi, ⟨-, -, -, pc, rfl⟩ | ⟨ha, retPc, savedRegs, rest, hstack, rfl⟩ | ⟨hsame, -, -⟩⟩ :=
    step_cases h
  · simp only [List.length_cons] at hlen
    omega
  · refine ⟨⟨i, hi, Insn.action_eq_exit_iff.mp ha⟩, ?_⟩
    rw [hstack] at hpop
    obtain rfl : (retPc, savedRegs) = frame := (List.cons.inj hpop).1
    rfl
  · rw [hsame] at hlen
    omega

/-- **The matching exit of an internal call.**  The first later state at the
depth of the call is reached by an exit, which restores the caller's registers
but `r0`, the return address and the older frames. -/
theorem matching_exit {vm vm' : Vm t S} {n : ℕ} (hcall : vm.AtInternalCall)
    (hdepth : vm.depth < maxCallDepth) (hpos : 0 < n) (hn : iter step n vm = .ok vm')
    (hback : vm'.depth = vm.depth)
    (hfirst : ∀ j, 0 < j → j < n → ∀ u, iter step j vm = .ok u → u.depth ≠ vm.depth) :
    ∃ u, iter step (n - 1) vm = .ok u ∧ u.AtExit ∧
      vm' = { u with
        regs := vm.regs.put .r0 (u.regs.get .r0), pc := vm.pc + 1, callStack := vm.callStack } := by
  obtain ⟨pc, hstep⟩ := step_of_atInternalCall hcall hdepth
  obtain ⟨m, rfl⟩ : ∃ m, n = m + 1 := ⟨n - 1, by omega⟩
  -- peel the call off the front of the run
  have htail : ∀ j, iter step (j + 1) vm =
      iter step j { vm with pc := pc, callStack := (vm.pc + 1, vm.regs) :: vm.callStack } := by
    intro j
    rw [iter_succ_head, hstep]
    rfl
  rw [htail] at hn
  have hpush : callStack
      { vm with pc := pc, callStack := (vm.pc + 1, vm.regs) :: vm.callStack } =
      (vm.pc + 1, vm.regs) :: vm.callStack := rfl
  obtain ⟨k, u, hk, hu, hus, hstack, hbase⟩ := pushdown.first_return hpush hn hback
    fun j hj u hu => hfirst (j + 1) (by omega) (by omega) u (by rw [htail]; exact hu)
  subst hk
  rw [← hbase] at hstack
  obtain ⟨hexit, hvm'⟩ := atExit_of_pop hus hstack
  refine ⟨u, ?_, hexit, ?_⟩
  · rw [Nat.add_sub_cancel, htail]
    exact hu
  · rw [hvm', hbase]

/-- **The call discipline.**  In every run from a machine with no active call:
the depth never exceeds `64`; an internal call below depth `64` goes through, and
the first later state at its depth continues after the call with the caller's
registers, the callee's `r0` and the older frames; and `Vm::run` returns `Ok`
only from an exit at depth `0`. -/
theorem call_discipline {vm₀ : Vm t S} (h₀ : vm₀.callStack = []) :
    (∀ vm, Reaches step vm₀ vm → vm.depth ≤ 64) ∧
    (∀ vm, Reaches step vm₀ vm → vm.AtInternalCall → vm.depth < 64 →
      (∃ vm₁, vm.step = .ok vm₁ ∧ vm₁.depth = vm.depth + 1) ∧
      ∀ n vm', 0 < n → iter step n vm = .ok vm' → vm'.depth = vm.depth →
        (∀ j, 0 < j → j < n → ∀ u, iter step j vm = .ok u → u.depth ≠ vm.depth) →
        vm'.pc = vm.pc + 1 ∧
        (∀ r (hr : r < 11), r ≠ 0 → vm'.regs[r] = vm.regs[r]) ∧
        (∃ u, iter step (n - 1) vm = .ok u ∧ u.AtExit ∧ vm'.regs.get .r0 = u.regs.get .r0) ∧
        vm'.callStack = vm.callStack) ∧
    (∀ vm r₀ vm', Reaches step vm₀ vm → vm.step = .error (.ok r₀ vm') →
      vm.AtExit ∧ vm.depth = 0 ∧ r₀ = vm.regs.get .r0) := by
  refine ⟨?_, ?_, ?_⟩
  · rintro vm ⟨n, hn⟩
    refine pushdown.length_le ?_ (by simp [h₀]) hn
    intro u u' f hu hpush
    have hlen := congrArg List.length hpush
    rw [List.length_cons] at hlen
    obtain ⟨i, -, ⟨-, -, hlt, -⟩ | ⟨-, retPc, savedRegs, rest, hstack, rfl⟩ | ⟨hsame, -, -⟩⟩ :=
      step_cases hu
    · exact hlt
    · rw [hstack, List.length_cons] at hlen
      simp only at hlen
      omega
    · rw [hsame] at hlen
      omega
  · intro vm _ hcall hdepth
    refine ⟨?_, ?_⟩
    · obtain ⟨pc, hstep⟩ := step_of_atInternalCall hcall hdepth
      exact ⟨_, hstep, rfl⟩
    · intro n vm' hpos hn hback hfirst
      obtain ⟨u, hu, hexit, hvm'⟩ := matching_exit hcall hdepth hpos hn hback hfirst
      rw [hvm']
      refine ⟨rfl, ?_, ⟨u, hu, hexit, ?_⟩, rfl⟩
      · intro r hr hne
        exact Vector.getElem_set_ne (by omega) hr (Ne.symm hne)
      · exact Vector.getElem_set_self _
  · intro vm r₀ vm' _ hstop
    obtain ⟨i, hi, ha, hstack, hr, -⟩ := step_eq_halt_ok hstop
    refine ⟨⟨i, hi, Insn.action_eq_exit_iff.mp ha⟩, ?_, hr⟩
    rw [depth, hstack]
    rfl

/-- A function that calls a function that returns `7`, entered by a call. -/
def nestedText : Vec .w64 8 UInt64 :=
  ⟨[0x0000000100000085, 0x95, 0x0000000100000085, 0x95, 0x00000007000000B7, 0x95], by decide⟩

/-- The machine that runs `nestedText`, on an empty memory. -/
def nested : Vm ⟨.w64, true⟩ GuestSyscalls :=
  start nestedText (Vector.replicate 11 3) Memory.empty {}

/-- The outer call of `nestedText` comes back after its inner call did. -/
theorem call_discipline_nestedText :
    ∃ vm', iter step 5 nested = .ok vm' ∧
      vm'.pc = 1 ∧ vm'.regs.get .r6 = 3 ∧ vm'.callStack = [] := by
  have hdeep : ∀ j, 0 < j → j < 5 → ∃ d,
      observe step depth j nested = some (d + 1) := by
    intro j hpos hlt
    interval_cases j
    · exact ⟨0, by decide +kernel⟩
    · exact ⟨1, by decide +kernel⟩
    · exact ⟨1, by decide +kernel⟩
    · exact ⟨0, by decide +kernel⟩
  have hstart : nested.callStack = [] := rfl
  obtain ⟨vm', hvm', hdepth⟩ := observe_eq_some.mp
    (by decide +kernel :
      observe step depth 5 nested = some 0)
  obtain ⟨-, hcalls, -⟩ := call_discipline hstart
  obtain ⟨-, hreturn⟩ :=
    hcalls _ (Reaches.refl _) ⟨_, rfl, by decide, by decide⟩ (by decide)
  obtain ⟨hpc, hregs, -, hstack⟩ := hreturn 5 vm' (by decide) hvm' hdepth
    fun j hpos hlt u hu hzero => by
      obtain ⟨d, hd⟩ := hdeep j hpos hlt
      obtain ⟨v, hv, hvd⟩ := observe_eq_some.mp hd
      obtain rfl : v = u := Except.ok.inj (hv.symm.trans hu)
      have hdepth0 : v.depth = 0 := hzero
      omega
  exact ⟨vm', hvm', hpc, hregs 6 (by decide) (by decide), hstack⟩

end Vm
end Tuniq
