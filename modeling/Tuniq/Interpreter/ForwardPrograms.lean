import Tuniq.Library.Termination
import Tuniq.Interpreter.StepRules

/-!
# Programs that only go forward

The loop of `Vm::run` has no instruction budget: a program that jumps back may run
forever.  A program all of whose jumps go forward cannot, although an exit moves the
program counter back to a return address, and although a function that is called from two
places, each of which is called from two places, runs four times.

The counters of `Tuniq.Library.Termination` are the distances to the end of the program:
of the program counter on top, and below it of the return addresses, newest first.  A step
that is no internal call and no exit moves the program counter forward.  A call leaves the
return address behind, which is forward of the call, and lays the distance of the callee
on top.  An exit takes the topmost counter away.  The depth is bounded by
`MAX_CALL_DEPTH`, so it does not even matter where the calls go.

The jump arithmetic does not get in the way: a program is so short that a forward offset
is neither reduced modulo `2 ^ 64` nor cut to a `usize`.
-/

namespace Tuniq

/-- A jump has a nonnegative offset. -/
def Insn.Forward (i : Insn) : Prop := i.action.isJump = true → 0 ≤ i.off.toInt

instance (i : Insn) : Decidable i.Forward := inferInstanceAs (Decidable (_ → _))

namespace Vm

variable {t : Target} {S : Type}

/-- Every word of the program goes forward, when it is decoded as an instruction. -/
def ForwardText (text : Vec t.width 8 UInt64) : Prop :=
  ∀ word ∈ text.toList, (decode word).Forward

theorem forward_of_fetch {vm : Vm t S} {i : Insn} (h : ForwardText vm.text)
    (hi : vm.fetch = some i) : i.Forward := by
  unfold fetch at hi
  obtain ⟨word, hword, rfl⟩ := Option.map_eq_some_iff.mp hi
  exact h word (List.mem_of_getElem? hword)

/-! ## The program counter -/

/-- A forward jump adds its offset. -/
theorem jumpBy_forward {vm : Vm t S} {d : ℤ} (hpc : vm.pc ≤ vm.text.len)
    (hd : 0 ≤ d ∧ d < 2 ^ 31) : vm.jumpBy d = .ok { vm with pc := vm.pc + d.toNat } := by
  have hlen := vm.text.size_le
  have hpc' : vm.pc * 8 ≤ t.width.isizeMax := (Nat.mul_le_mul_right 8 hpc).trans hlen
  have hcard := t.width.usizeCard_eq
  have hmax := t.width.le_isizeMax
  have hlt : (vm.pc : ℤ) + d < (t.width.usizeCard : ℤ) := by omega
  have htarget : t.width.usizeOfI64 (vm.pc + d) = vm.pc + d.toNat := by
    unfold PtrWidth.usizeOfI64
    rw [Int.emod_eq_of_lt (by omega) hlt]
    omega
  rw [jumpBy_of_le hpc (by omega), htarget]

/-- **What is neither an internal call nor an exit** does not move back. -/
theorem le_pc_of_perform [Syscalls t S] {vm vm' : Vm t S} {i : Insn} {a : Action}
    (hpc : vm.pc ≤ vm.text.len) (hjump : a.isJump = true → 0 ≤ i.off.toInt)
    (hcall : a = .call → i.src = 1) (hexit : a ≠ .exit) (h : vm.perform i a = .ok vm') :
    vm.pc ≤ vm'.pc := by
  rcases (perform_frame hcall hexit h).2.2.2.2 with ⟨ha, hj⟩ | hsame | hnext
  · have hlt := i.off.toInt_lt
    rw [jumpBy_forward hpc ⟨hjump ha, by omega⟩] at hj
    obtain rfl := Except.ok.inj hj
    exact Nat.le_add_right _ _
  · exact hsame.ge
  · rw [hnext]
    exact Nat.le_succ _

/-! ## The pile of distances -/

/-- The distances to behind the end of the program: of the program counter, and of the
return addresses, newest first. -/
def distances (vm : Vm t S) : List ℕ :=
  (vm.text.len + 1 - vm.pc) :: vm.callStack.map fun frame => vm.text.len + 1 - frame.1

/-- **One step of a forward program** is a step on the pile of distances. -/
theorem pileStep_of_step [Syscalls t S] {vm vm' : Vm t S} (hfwd : ForwardText vm.text)
    (h : vm.step = .ok vm') :
    PileStep maxCallDepth (vm.text.len + 2) vm.distances vm'.distances := by
  have htext := text_step h
  obtain ⟨i, hi, hp⟩ := step_eq_ok.mp h
  have hpc := pc_lt_of_fetch hi
  unfold distances
  rw [htext]
  by_cases hcall : i.action = .call ∧ i.src ≠ 1
  · obtain ⟨ha, hsrc⟩ := hcall
    rw [ha, perform, if_neg hsrc] at hp
    split at hp
    · exact absurd hp (by simp)
    · rename_i hdepth
      obtain ⟨pc, rfl⟩ := jumpBy_eq_ok hp
      refine .push (by omega) ?_ ?_
      · show vm.text.len + 1 - (vm.pc + 1) < vm.text.len + 1 - vm.pc
        omega
      · rw [List.length_map]
        exact Nat.lt_of_not_le hdepth
  · by_cases hexit : i.action = .exit
    · rw [hexit, perform] at hp
      split at hp
      · rename_i retPc savedRegs rest hstack
        obtain rfl := Except.ok.inj hp
        have hstack' : vm.callStack = (retPc, savedRegs) :: rest := hstack
        rw [hstack']
        exact .pop (by omega)
      · exact absurd hp (by simp)
    · have hsrc : i.action = .call → i.src = 1 := by
        intro ha
        by_contra hne
        exact hcall ⟨ha, hne⟩
      have hstack : vm'.callStack = vm.callStack := (perform_frame hsrc hexit hp).1
      have hpc' : vm.advance.pc ≤ vm.advance.text.len := hpc
      have hle : vm.pc + 1 ≤ vm'.pc :=
        le_pc_of_perform hpc' (forward_of_fetch hfwd hi) hsrc hexit hp
      rw [hstack]
      exact .lower (by omega)

/-- **Forward programs stop.**  For every program in which every word that decodes to a
jump has a nonnegative offset, wherever its internal calls go, and for every initial
register file and memory: the run stops after finitely many steps, on any target and with
any implementation of the syscalls. -/
theorem forward_halts [Syscalls t S] {text : Vec t.width 8 UInt64} (hfwd : ForwardText text)
    (regs : Regs) (mem : Memory t.width) (syscalls : S) :
    ∃ r, Halts step (start text regs mem syscalls) r := by
  have hstep : ∀ vm vm' : Vm t S, vm.text = text → vm.step = .ok vm' → vm'.text = text ∧
      PileStep maxCallDepth (text.len + 2) vm.distances vm'.distances := by
    intro vm vm' hvm h
    subst hvm
    exact ⟨text_step h, pileStep_of_step hfwd h⟩
  exact halts_of_pile (Nat.succ_pos _) distances hstep rfl

/-- Two functions, the first of which calls the second twice, and is called twice
itself. -/
def doublingText : Vec .w32 8 UInt64 :=
  ⟨[0x0000000100000085, 0x0000000000000085, 0x0000000100000085, 0x0000000000000085, 0x95],
    by decide⟩

theorem forward_doublingText : ForwardText (t := ⟨.w32, false⟩) doublingText := by
  intro word hword
  have hopcode : (decode word).action.isJump = false := by
    have hall : (doublingText.toList.all fun word => !(decode word).action.isJump) = true := by
      decide
    have := List.all_eq_true.mp hall word hword
    simpa using this
  intro hjump
  rw [hopcode] at hjump
  exact absurd hjump (by decide)

/-- Whatever the registers and the memory are at the start, it stops. -/
theorem forward_halts_doublingText :
    ∃ r, Halts step (start doublingText (Vector.replicate 11 0) Memory.empty {} :
      Vm ⟨.w32, false⟩ GuestSyscalls) r :=
  forward_halts forward_doublingText _ _ _

end Vm
end Tuniq
