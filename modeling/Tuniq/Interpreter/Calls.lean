import Tuniq.Interpreter.Linking

/-!
# A call runs the callee

`Vm.call_discipline` says that an internal call gets its frame back.  What the
callee computes in between it leaves open, and it has to: the callee may be any
stretch of the program.  But such a stretch is a program of its own, and
`Tuniq.Interpreter.Linking` says it behaves like one.  So a call can be read off
a run of the callee alone:

* the callee returns `Ok`: the caller goes on behind the call, with its own
  registers but `r0`, and with the memory and the return data the callee left;
* the callee ends with an error, or faults: so does the caller;
* the callee goes on for ever: so does the caller.

`Vm.call_runs_callee` is all four at once.
-/

namespace Tuniq
namespace Vm

variable {t : Target} {S : Type}

/-! ## The caller and the callee -/

/-- The next instruction is an internal call of the function `k` words from the start of
the program. -/
def CallsFunction (vm : Vm t S) (k : ℕ) : Prop :=
  ∃ i, vm.fetch = some i ∧ i.opcode = 0x85 ∧ i.src ≠ 1 ∧ (vm.pc + 1 : ℤ) + i.imm.toInt = k

theorem CallsFunction.atInternalCall {vm : Vm t S} {k : ℕ} (h : vm.CallsFunction k) :
    vm.AtInternalCall := by
  obtain ⟨i, hi, hop, hsrc, -⟩ := h
  exact ⟨i, hi, hop, hsrc⟩

/-- The frame an internal call pushes. -/
def frame (vm : Vm t S) : ℕ × Regs := (vm.pc + 1, vm.regs)

/-- The machine that runs a function alone, on the registers and the memory of `vm`. -/
def callee (vm : Vm t S) (text : Vec t.width 8 UInt64) : Vm t S :=
  { vm with text := text, pc := 0, callStack := [] }

/-- The caller `vm` behind its call, when the callee has ended in `v`. -/
def afterReturn (vm v : Vm t S) : Vm t S :=
  { v with regs := vm.regs.put .r0 (v.regs.get .r0), pc := vm.pc + 1
           text := vm.text, callStack := vm.callStack }

/-- A program without internal calls needs no room. -/
theorem hasRoom_of_all {vm : Vm t S}
    (h : vm.text.toList.all fun word => (decode word).opcode != 0x85) (n : ℕ) :
    vm.HasRoom n := by
  rintro ⟨i, hi, hop, -⟩
  rw [fetch, Option.map_eq_some_iff] at hi
  obtain ⟨word, hword, rfl⟩ := hi
  have hne := List.all_eq_true.mp h word (List.mem_of_getElem? hword)
  simp [hop] at hne

section

variable [Syscalls t S]

/-- A call of a function inside the program jumps to it. -/
theorem CallsFunction.step_eq {vm : Vm t S} {k : ℕ} (h : vm.CallsFunction k)
    (hk : k ≤ vm.text.len) (hdepth : vm.depth < maxCallDepth) :
    vm.step = .ok { vm with pc := k, callStack := vm.frame :: vm.callStack } := by
  obtain ⟨i, hi, hop, hsrc, htarget⟩ := h
  have hpc := pc_lt_of_fetch hi
  have himm := i.imm.toInt_lt
  have himm' := i.imm.le_toInt
  have hdepth' : ¬ maxCallDepth ≤ vm.advance.callStack.length := Nat.not_le.mpr hdepth
  have hcard := t.width.usizeCard_eq
  have hlen : vm.text.len * 8 ≤ t.width.isizeMax := vm.text.size_le
  have husize : t.width.usizeOfI64 (vm.advance.pc + i.imm.toInt) = k := by
    have hk' : (vm.advance.pc : ℤ) + i.imm.toInt = k := htarget
    unfold PtrWidth.usizeOfI64
    rw [hk', Int.emod_eq_of_lt (by omega) (by omega)]
    exact Int.toNat_natCast k
  rw [step_of_fetch hi, Insn.action_eq_call_iff.mpr hop, perform, if_neg hsrc, if_neg hdepth',
    jumpBy_of_le]
  · rw [← husize]
    rfl
  · exact hpc
  · exact ⟨himm', himm⟩

/-- An internal call at the maximal depth. -/
theorem step_of_full {vm : Vm t S} (hcall : vm.AtInternalCall) (hfull : maxCallDepth ≤ vm.depth) :
    vm.step = .error (.err .callStackOverflow vm.advance) := by
  obtain ⟨i, hi, hop, hsrc⟩ := hcall
  have hfull' : maxCallDepth ≤ vm.advance.callStack.length := hfull
  rw [step_of_fetch hi, Insn.action_eq_call_iff.mpr hop, perform, if_neg hsrc, if_pos hfull']

/-- The last exit ends the run. -/
theorem AtLastExit.step_eq {vm : Vm t S} (h : vm.AtLastExit) :
    vm.step = .error (.ok (vm.regs.get .r0) vm.advance) := by
  obtain ⟨⟨i, hi, hop⟩, hstack⟩ := h
  have hstack' : vm.advance.callStack = [] := hstack
  rw [step_of_fetch hi, Insn.action_eq_exit_iff.mpr hop, perform, hstack']
  rfl

/-- A step that ends a run with `Ok` is the last exit. -/
theorem atLastExit_of_step {vm v : Vm t S} {r0 : UInt64} (h : vm.step = .error (.ok r0 v)) :
    vm.AtLastExit := by
  obtain ⟨i, hi, ha, hstack, -⟩ := step_eq_halt_ok h
  exact ⟨⟨i, hi, Insn.action_eq_exit_iff.mp ha⟩, hstack⟩

/-- Where the part ends, the larger program returns to the frame on top. -/
theorem Placed.step_of_atLastExit {k : ℕ} {frame : ℕ × Regs} {outer : List (ℕ × Regs)}
    {vm u : Vm t S} (h : Placed k (frame :: outer) vm u) (hexit : vm.AtLastExit) :
    u.step = .ok { vm with regs := frame.2.put .r0 (vm.regs.get .r0), pc := frame.1
                           text := u.text, callStack := outer } := by
  obtain ⟨⟨i, hi, hop⟩, hstack⟩ := hexit
  have hlt := pc_lt_of_fetch hi
  have hpc : u.pc = vm.pc + k := h.pc.resolve_right (Nat.not_le.mpr hlt)
  have hi' : u.fetch = some i := by
    rw [← hi, fetch, fetch, hpc, h.text.getElem? hlt]
  have hstack' : u.advance.callStack = frame :: outer := by
    show u.callStack = _
    rw [h.callStack, hstack]
    rfl
  rw [step_of_fetch hi', Insn.action_eq_exit_iff.mpr hop, perform, hstack']
  simp only [advance, h.regs, h.mem, h.syscalls, h.returnData]
  rfl

end

/-! ## From the part to the whole -/

section

variable [Syscalls t S] {k : ℕ} {outer : List (ℕ × Regs)}

/-- As long as a contained part goes on, so does the larger program. -/
theorem simulates_placed {vm₀ : Vm t S} (hin : Contained vm₀)
    (hroom : ∀ vm, Reaches step vm₀ vm → vm.HasRoom outer.length) :
    Simulates (step : Vm t S → Except (Halt t S) (Vm t S)) step
      (fun vm u => Reaches step vm₀ vm ∧ Placed k outer vm u) := by
  rintro vm u vm' ⟨hreach, hplaced⟩ hstep
  have hexit : vm.AtLastExit → outer = [] := by
    intro hlast
    rw [hlast.step_eq] at hstep
    exact absurd hstep (by simp)
  obtain ⟨u', hu', hR⟩ :=
    (hplaced.related_step (hin vm hreach) (hroom vm hreach) hexit).exists_ok hstep
  exact ⟨u', hu', hreach.trans ((Reaches.refl vm').head hstep), hR⟩

/-- **A call runs the callee.**  Let `text` be a part of the program of `w` and the callee
of the next instruction, and let its run alone be contained and find room on top of the
frames of `w`.  Then the call does to `w` what that run says: it returns, fails, faults or
goes on for ever. -/
theorem call_runs_callee {w : Vm t S} {text : Vec t.width 8 UInt64}
    (hpart : PartOf k text.toList w.text.toList) (hcall : w.CallsFunction k)
    (hdepth : w.depth < maxCallDepth) (hin : Contained (w.callee text))
    (hroom : ∀ vm, Reaches step (w.callee text) vm → vm.HasRoom (w.depth + 1)) :
    (∀ r0 v, Halts step (w.callee text) (.ok r0 v) →
      Reaches step w (w.afterReturn v) ∧ (w.afterReturn v).regs.get .r0 = r0) ∧
    (∀ e v, Halts step (w.callee text) (.err e v) →
      ∃ u, Halts step w (.err e u) ∧ Linked k (w.frame :: w.callStack) v u) ∧
    (∀ f, Halts step (w.callee text) (.panic f) → Halts step w (.panic f)) ∧
    (Diverges step (w.callee text) → Diverges step w) := by
  have hk : k ≤ w.text.len := (Nat.le_add_left k text.len).trans hpart.length_le
  have hstep := hcall.step_eq hk hdepth
  set u₀ : Vm t S := { w with pc := k, callStack := w.frame :: w.callStack } with hu₀
  have hcalled : Reaches step w u₀ := (Reaches.refl u₀).head hstep
  have hplaced : Placed k (w.frame :: w.callStack) (w.callee text) u₀ :=
    { regs := rfl, text := hpart, callStack := rfl, mem := rfl, syscalls := rfl
      returnData := rfl, pc := Or.inl (Nat.zero_add k).symm }
  have hroom' : ∀ vm, Reaches step (w.callee text) vm →
      vm.HasRoom (w.frame :: w.callStack).length := hroom
  have hsim := simulates_placed (k := k) hin hroom'
  have hstart : Reaches step (w.callee text) (w.callee text) ∧
      Placed k (w.frame :: w.callStack) (w.callee text) u₀ := ⟨Reaches.refl _, hplaced⟩
  -- what stops the callee for a reason other than its last exit stops the caller
  have hstop : ∀ r, Halts step (w.callee text) r → (∀ r0 v, r ≠ .ok r0 v) →
      ∃ r', Halts step w r' ∧ LinkedHalt k (w.frame :: w.callStack) r r' := by
    rintro r ⟨vm, hreach, hr⟩ hok
    obtain ⟨u, hu, -, hR⟩ := hsim.reaches hstart hreach
    have hexit : vm.AtLastExit → w.frame :: w.callStack = [] := by
      intro hlast
      rw [hlast.step_eq] at hr
      exact absurd (Except.error.inj hr).symm (hok _ _)
    obtain ⟨r', hr', hQ⟩ :=
      (hR.related_step (hin vm hreach) (hroom' vm hreach) hexit).exists_error hr
    exact ⟨r', ⟨u, hcalled.trans hu, hr'⟩, hQ⟩
  refine ⟨?_, ?_, ?_, ?_⟩
  · rintro r0 v ⟨vm, hreach, hr⟩
    obtain ⟨u, hu, -, hR⟩ := hsim.reaches hstart hreach
    obtain ⟨i, -, -, -, hr0, hv⟩ := step_eq_halt_ok hr
    have htext : u.text = w.text :=
      hu.invariant (I := fun x => x.text = w.text) (fun _ _ hx hs => (text_step hs).trans hx) rfl
    have hback := hR.step_of_atLastExit (atLastExit_of_step hr)
    rw [htext] at hback
    subst hv
    refine ⟨hcalled.trans (hu.trans ((Reaches.refl _).head hback)), ?_⟩
    rw [hr0]
    exact Vector.getElem_set_self _
  · intro e v hr
    obtain ⟨r', hr', hQ⟩ := hstop _ hr fun _ _ => by simp
    cases r' with
    | err e' u =>
      obtain ⟨rfl, hlinked⟩ := hQ
      exact ⟨u, hr', hlinked⟩
    | ok | panic => exact hQ.elim
  · intro f hr
    obtain ⟨r', hr', hQ⟩ := hstop _ hr fun _ _ => by simp
    cases r' with
    | panic f' =>
      obtain rfl : f' = f := hQ
      exact hr'
    | ok | err => exact hQ.elim
  · intro hdiv
    exact (hsim.diverges hstart hdiv).of_reaches hcalled

end

/-- `mov64 r0, 7; exit` -/
def sevenText : Vec .w64 8 UInt64 := ⟨[0x7000000B7, 0x95], by decide⟩

/-- `call 1; exit; mov64 r0, 7; exit` -/
def callSevenText : Vec .w64 8 UInt64 := ⟨[0x100000085, 0x95, 0x7000000B7, 0x95], by decide⟩

/-- The machine that runs `sevenText`, on an empty memory. -/
def seven : Vm ⟨.w64, true⟩ GuestSyscalls :=
  start sevenText (Vector.replicate 11 3) Memory.empty {}

/-- The machine that runs `callSevenText`, from word `pc` on. -/
def callSeven (pc : ℕ) : Vm ⟨.w64, true⟩ GuestSyscalls :=
  { seven with text := callSevenText, pc := pc }

theorem partOf_sevenText : PartOf 2 sevenText.toList callSevenText.toList :=
  ⟨[0x100000085, 0x95], [], rfl, rfl⟩

theorem halts_seven : ∃ r, Halts step seven r ∧ r.result = .ok 7 :=
  halts_of_outcome (by decide +kernel : outcome step Halt.result 1 seven = some (.ok 7))

theorem contained_seven : Contained seven := by
  obtain ⟨r, hr, hresult⟩ := halts_seven
  refine contained_of_halts hr fun pc v herr => ?_
  rw [herr] at hresult
  exact absurd hresult (by simp [Halt.result])

/-- `call 1; exit; mov64 r0, 7; exit` calls its second half. -/
theorem call_runs_callee_seven :
    ∃ v, Reaches step (callSeven 0) ((callSeven 0).afterReturn v) ∧
      ((callSeven 0).afterReturn v).regs.get .r0 = 7 ∧ ((callSeven 0).afterReturn v).pc = 1 := by
  obtain ⟨r, hr, hresult⟩ := halts_seven
  obtain ⟨v, rfl⟩ := Halt.result_eq_ok.mp hresult
  have hroom : ∀ vm, Reaches step seven vm → vm.HasRoom 1 := by
    intro vm hreach
    have htext : vm.text = sevenText :=
      hreach.invariant (I := fun x => x.text = sevenText)
        (fun _ _ hx hs => (text_step hs).trans hx) rfl
    refine hasRoom_of_all ?_ 1
    rw [htext]
    decide
  obtain ⟨hok, -⟩ := call_runs_callee (w := callSeven 0) partOf_sevenText
    ⟨_, rfl, by decide, by decide, by decide⟩ (by decide) contained_seven hroom
  obtain ⟨hreach, hr0⟩ := hok 7 v hr
  exact ⟨v, hreach, hr0, rfl⟩

end Vm
end Tuniq
