import Tuniq.Library.Lockstep
import Tuniq.Library.Simulation
import Tuniq.Interpreter.CallStack

/-!
# A program inside a larger program

The text section of a program holds many functions, and the interpreter knows
nothing about where one ends and the next begins: it has a program counter, a
list of words and a stack of return addresses.  Still a function means what it
means on its own.  Jumps and calls are relative to the program counter, so a
stretch of words that is moved computes the same thing at its new place; and the
frames of the callers lie below those of the function, where it never looks.

`Vm.Placed k outer vm u` relates a machine `vm` that runs such a stretch alone
to a machine `u` whose program has it `k` words from the start, and whose call
stack has the frames `outer` below those of `vm`.  A step of the one is then a
step of the other (`Vm.related_step`), with three provisos.

* The stretch is *contained*: running alone, it never fetches a word outside
  itself.  Inside a larger program there would be a word.
* There is *room*: the frames of both do not exceed `MAX_CALL_DEPTH` together.
* The last exit is not taken yet.  Alone it stops the machine; inside a larger
  program it returns to the caller.

With no outer frames only the first proviso is left, and the two machines run in
lockstep: `Vm.relocation`.  The third is what `Tuniq.Interpreter.Calls` is about.
-/

namespace Tuniq
namespace Vm

variable {t : Target} {S : Type}

/-! ## Machines that run a part of a program -/

/-- Return addresses `k` words further on. -/
def shiftFrames (k : ℕ) (frames : List (ℕ × Regs)) : List (ℕ × Regs) :=
  frames.map fun frame => (frame.1 + k, frame.2)

@[simp] theorem shiftFrames_nil (k : ℕ) : shiftFrames k [] = [] := rfl

@[simp] theorem shiftFrames_cons (k : ℕ) (frame : ℕ × Regs) (frames : List (ℕ × Regs)) :
    shiftFrames k (frame :: frames) = (frame.1 + k, frame.2) :: shiftFrames k frames := rfl

@[simp] theorem length_shiftFrames (k : ℕ) (frames : List (ℕ × Regs)) :
    (shiftFrames k frames).length = frames.length :=
  List.length_map _

/-- `text` stands in `whole`, `k` words from its start. -/
def PartOf (k : ℕ) (text whole : List UInt64) : Prop :=
  ∃ before after, whole = before ++ text ++ after ∧ before.length = k

theorem PartOf.getElem? {k p : ℕ} {text whole : List UInt64} (h : PartOf k text whole)
    (hp : p < text.length) : whole[p + k]? = text[p]? := by
  obtain ⟨before, after, rfl, rfl⟩ := h
  rw [List.append_assoc, List.getElem?_append_right (Nat.le_add_left _ _), Nat.add_sub_cancel,
    List.getElem?_append_left hp]

theorem PartOf.length_le {k : ℕ} {text whole : List UInt64} (h : PartOf k text whole) :
    text.length + k ≤ whole.length := by
  obtain ⟨before, after, rfl, rfl⟩ := h
  simp only [List.length_append]
  omega

/-- All but the program counters: `u` runs the program of `vm` as a part of its own, on
top of the frames `outer`. -/
structure Linked (k : ℕ) (outer : List (ℕ × Regs)) (vm u : Vm t S) : Prop where
  regs : u.regs = vm.regs
  text : PartOf k vm.text.toList u.text.toList
  callStack : u.callStack = shiftFrames k vm.callStack ++ outer
  mem : u.mem = vm.mem
  syscalls : u.syscalls = vm.syscalls
  returnData : u.returnData = vm.returnData

/-- The program counter of `u` is `k` words further on, unless that of `vm` has left its
program. -/
structure Placed (k : ℕ) (outer : List (ℕ × Regs)) (vm u : Vm t S) : Prop
    extends Linked k outer vm u where
  pc : u.pc = vm.pc + k ∨ vm.text.len ≤ vm.pc

/-- The same end: the same value, error or fault, and machines that differ in their
program and in nothing else. -/
def LinkedHalt (k : ℕ) (outer : List (ℕ × Regs)) : Halt t S → Halt t S → Prop
  | .ok r0 vm, .ok r0' u => r0' = r0 ∧ Linked k outer vm u
  | .err e vm, .err e' u => e' = e ∧ Linked k outer vm u
  | .panic f, .panic f' => f' = f
  | _, _ => False

theorem LinkedHalt.result_eq {k : ℕ} {outer : List (ℕ × Regs)} {r r' : Halt t S}
    (h : LinkedHalt k outer r r') : r'.result = r.result := by
  cases r <;> cases r' <;> simp_all [LinkedHalt, Halt.result]

/-! ## One arm -/

section

variable {k : ℕ} {outer : List (ℕ × Regs)} {vm u : Vm t S}

theorem related_liftHalt_self {α : Type} (x : Except Fault α) :
    Related (· = ·) (LinkedHalt k outer) (liftHalt x : Except (Halt t S) α) (liftHalt x) := by
  cases x with
  | ok a => exact .ok rfl
  | error f => exact .error rfl

theorem Linked.related_reg (h : Linked k outer vm u) (r : ℕ) :
    Related (· = ·) (LinkedHalt k outer) (vm.reg r) (u.reg r) := by
  rw [reg, reg, h.regs]
  cases vm.regs[r]? with
  | none => exact .error rfl
  | some v => exact .ok rfl

theorem Placed.related_setReg (h : Placed k outer vm u) (r : ℕ) (v : UInt64) :
    Related (Placed k outer) (LinkedHalt k outer) (vm.setReg r v) (u.setReg r v) := by
  rw [setReg, setReg]
  split
  · exact .ok { h with regs := congrArg (fun regs => regs.set r v) h.regs }
  · exact .error rfl

/-- A relative jump lands `k` words further on, or outside the part. -/
theorem Linked.related_jumpBy (h : Linked k outer vm u) (hpc : u.pc = vm.pc + k)
    (hle : vm.pc ≤ vm.text.len) {d : ℤ} (hd : -2 ^ 31 ≤ d ∧ d < 2 ^ 31) :
    Related (Placed k outer) (LinkedHalt k outer) (vm.jumpBy d) (u.jumpBy d) := by
  have hpart : vm.text.len + k ≤ u.text.len := h.text.length_le
  have hlen := u.text.size_le
  rw [jumpBy_of_le hle hd, jumpBy_of_le (by omega) hd]
  refine .ok { h with pc := ?_ }
  show t.width.usizeOfI64 (u.pc + d) = t.width.usizeOfI64 (vm.pc + d) + k ∨
    vm.text.len ≤ t.width.usizeOfI64 (vm.pc + d)
  have hcard := t.width.usizeCard_eq
  have hmax := t.width.le_isizeMax
  have hlen' : u.text.len * 8 ≤ t.width.isizeMax := hlen
  unfold PtrWidth.usizeOfI64
  by_cases hin : 0 ≤ (vm.pc : ℤ) + d ∧ (vm.pc : ℤ) + d < vm.text.len
  · left
    rw [Int.emod_eq_of_lt hin.1 (by omega), Int.emod_eq_of_lt (by omega) (by omega)]
    omega
  · right
    rcases lt_or_ge ((vm.pc : ℤ) + d) 0 with hneg | hpos
    · -- before the start: the address wraps far behind the end
      rw [Int.emod_eq_add_self_emod, Int.emod_eq_of_lt (by omega) (by omega)]
      omega
    · rw [Int.emod_eq_of_lt hpos (by omega)]
      omega

/-- A syscall does not see the program or the call stack. -/
theorem Placed.related_performSyscall [Syscalls t S] (h : Placed k outer vm u) (hash : Hash) :
    Related (Placed k outer) (LinkedHalt k outer) (vm.performSyscall hash)
      (u.performSyscall hash) := by
  have hzero : ∀ {vm u : Vm t S}, Placed k outer vm u → Placed k outer vm.zeroR0 u.zeroR0 :=
    fun h => { h with regs := congrArg (fun regs => regs.set 0 0) h.regs }
  cases hash with
  | solLog | solPanic => exact .ok (hzero h)
  | unknown => exact .ok h
  | solMemcpy | solMemset | solMemmove =>
    rw [performSyscall, performSyscall, h.regs, h.mem, h.syscalls]
    refine Related.bind (related_liftHalt_self _) ?_
    rintro r _ rfl
    exact .ok (hzero { h with mem := rfl, syscalls := rfl, regs := rfl })
  | solSetReturnData =>
    rw [performSyscall, performSyscall, h.regs, h.mem]
    refine Related.bind (related_liftHalt_self _) ?_
    rintro data _ rfl
    exact .ok (hzero { h with returnData := rfl, regs := rfl, mem := rfl })

/-- **An arm does the same in the larger program**, when it does not look behind the part,
the frames of both have room, and it is not the last exit. -/
theorem Linked.related_perform [Syscalls t S] (h : Linked k outer vm u)
    (hpc : u.pc = vm.pc + k) (hle : vm.pc ≤ vm.text.len) {i : Insn} (a : Action)
    (hword : a = .lddw → vm.pc < vm.text.len)
    (hroom : a = .call → i.src ≠ 1 → vm.depth < maxCallDepth →
      vm.depth + outer.length < maxCallDepth)
    (hexit : a = .exit → vm.callStack = [] → outer = []) :
    Related (Placed k outer) (LinkedHalt k outer) (vm.perform i a) (u.perform i a) := by
  have hp : Placed k outer vm u := { h with pc := Or.inl hpc }
  have hoff : -2 ^ 31 ≤ i.off.toInt ∧ i.off.toInt < 2 ^ 31 := by
    have := i.off.toInt_lt
    have := i.off.le_toInt
    constructor <;> omega
  have himm : -2 ^ 31 ≤ i.imm.toInt ∧ i.imm.toInt < 2 ^ 31 :=
    ⟨i.imm.le_toInt, i.imm.toInt_lt⟩
  have herr : ∀ e : SbpfError, Related (Placed k outer) (LinkedHalt k outer)
      (.error (.err e vm) : Except (Halt t S) (Vm t S)) (.error (.err e u)) :=
    fun e => .error ⟨rfl, h⟩
  -- reading a register and going on with it
  have hreg : ∀ (r : ℕ) {f f' : UInt64 → Except (Halt t S) (Vm t S)},
      (∀ v, Related (Placed k outer) (LinkedHalt k outer) (f v) (f' v)) →
      Related (Placed k outer) (LinkedHalt k outer) (vm.reg r >>= f) (u.reg r >>= f') := by
    intro r f f' hf
    refine Related.bind (h.related_reg r) ?_
    rintro v _ rfl
    exact hf v
  cases a with
  | aluImm f => exact hreg _ fun v => hp.related_setReg _ _
  | aluReg f => exact hreg _ fun b => hreg _ fun v => hp.related_setReg _ _
  | divImm z f =>
    rw [perform, perform]
    split
    · exact herr _
    · exact hreg _ fun v => hp.related_setReg _ _
  | divReg z f =>
    refine hreg _ fun b => ?_
    split
    · exact herr _
    · exact hreg _ fun v => hp.related_setReg _ _
  | neg z f =>
    refine hreg _ fun v => ?_
    split
    · exact .error rfl
    · exact hp.related_setReg _ _
  | lddw =>
    have hnext : Placed k outer ({ vm with pc := vm.pc + 1 } : Vm t S)
        { u with pc := u.pc + 1 } :=
      { h with pc := Or.inl (by rw [hpc, Nat.add_right_comm]) }
    have hsame : u.text.toList[u.pc]? = vm.text.toList[vm.pc]? := by
      rw [hpc]
      exact h.text.getElem? (hword rfl)
    rw [perform, perform, hsame, List.getElem?_eq_getElem (hword rfl)]
    exact hnext.related_setReg _ _
  | load n =>
    refine hreg _ fun b => ?_
    dsimp only
    rw [h.mem]
    refine Related.bind (related_liftHalt_self _) ?_
    rintro (_ | v) _ rfl
    · exact herr _
    · exact hp.related_setReg _ _
  | storeReg n =>
    refine hreg _ fun a => hreg _ fun b => ?_
    rw [h.mem]
    refine Related.bind (related_liftHalt_self _) ?_
    rintro (_ | m) _ rfl
    · exact herr _
    · exact .ok { hp with mem := rfl }
  | storeImm n =>
    refine hreg _ fun a => ?_
    rw [h.mem]
    refine Related.bind (related_liftHalt_self _) ?_
    rintro (_ | m) _ rfl
    · exact herr _
    · exact .ok { hp with mem := rfl }
  | jump =>
    rw [perform, perform]
    exact h.related_jumpBy hpc hle hoff
  | jumpImm cond =>
    refine hreg _ fun v => ?_
    split
    · exact h.related_jumpBy hpc hle hoff
    · exact .ok hp
  | jumpReg cond =>
    refine hreg _ fun v => hreg _ fun b => ?_
    split
    · exact h.related_jumpBy hpc hle hoff
    · exact .ok hp
  | call =>
    rw [perform, perform]
    by_cases hsrc : i.src = 1
    · rw [if_pos hsrc, if_pos hsrc]
      exact hp.related_performSyscall _
    · have hheight : u.callStack.length = vm.depth + outer.length := by
        rw [h.callStack, List.length_append, length_shiftFrames, depth]
      have hpush : Linked k outer
          ({ vm with callStack := (vm.pc, vm.regs) :: vm.callStack } : Vm t S)
          { u with callStack := (u.pc, u.regs) :: u.callStack } := by
        refine { h with callStack := ?_ }
        rw [shiftFrames_cons, h.callStack, h.regs, hpc, List.cons_append]
      rw [if_neg hsrc, if_neg hsrc, hheight]
      by_cases hfull : maxCallDepth ≤ vm.depth
      · rw [if_pos (Nat.le_add_right_of_le hfull)]
        rw [if_pos (show maxCallDepth ≤ vm.callStack.length from hfull)]
        exact herr _
      · have hlt := hroom rfl hsrc (Nat.lt_of_not_le hfull)
        rw [if_neg (Nat.not_le.mpr hlt)]
        rw [if_neg (show ¬ maxCallDepth ≤ vm.callStack.length from hfull)]
        exact hpush.related_jumpBy hpc hle himm
  | syscall => exact hp.related_performSyscall _
  | exit =>
    have hr0 : u.regs[0] = vm.regs[0] := by rw [h.regs]
    rw [perform, perform, h.callStack]
    cases hstack : vm.callStack with
    | nil =>
      obtain rfl := hexit rfl hstack
      exact .error ⟨hr0, h⟩
    | cons frame rest =>
      obtain ⟨retPc, savedRegs⟩ := frame
      refine .ok { h with regs := ?_, callStack := rfl, pc := Or.inl rfl }
      rw [hr0]
  | unknown => exact herr _

/-! ## One step -/

/-- The next step does not look for a word outside the program. -/
def StaysInside [Syscalls t S] (vm : Vm t S) : Prop :=
  ∀ pc v, vm.step ≠ .error (.err (.outOfBounds pc) v)

/-- An internal call finds room for its frame on top of `n` further ones. -/
def HasRoom (n : ℕ) (vm : Vm t S) : Prop :=
  vm.AtInternalCall → vm.depth < maxCallDepth → vm.depth + n < maxCallDepth

/-- The next instruction is the exit that ends the program. -/
def AtLastExit (vm : Vm t S) : Prop := vm.AtExit ∧ vm.callStack = []

/-- **A step does the same in the larger program.** -/
theorem Placed.related_step [Syscalls t S] (h : Placed k outer vm u) (hin : vm.StaysInside)
    (hroom : vm.HasRoom outer.length) (hexit : vm.AtLastExit → outer = []) :
    Related (Placed k outer) (LinkedHalt k outer) vm.step u.step := by
  cases hi : vm.fetch with
  | none =>
    have hstop : vm.step = .error (.err (.outOfBounds vm.pc) vm) := by rw [step, hi]
    exact absurd hstop (hin _ _)
  | some i =>
    have hlt := pc_lt_of_fetch hi
    have hpc : u.pc = vm.pc + k := h.pc.resolve_right (Nat.not_le.mpr hlt)
    have hi' : u.fetch = some i := by
      rw [← hi, fetch, fetch, hpc, h.text.getElem? hlt]
    have hadvance : Linked k outer vm.advance u.advance := { h with }
    rw [step_of_fetch hi, step_of_fetch hi']
    refine hadvance.related_perform ?_ hlt i.action ?_ ?_ ?_
    · show u.pc + 1 = vm.pc + 1 + k
      rw [hpc, Nat.add_right_comm]
    · intro ha
      -- the second word of a wide load is inside, or the step would stop there
      by_contra hge
      refine hin vm.advance.pc vm.advance ?_
      rw [step_of_fetch hi, ha, perform, List.getElem?_eq_none (Nat.not_lt.mp hge)]
    · intro ha hsrc
      exact hroom ⟨i, hi, Insn.action_eq_call_iff.mp ha, hsrc⟩
    · intro ha hstack
      exact hexit ⟨⟨i, hi, Insn.action_eq_exit_iff.mp ha⟩, hstack⟩

end

/-! ## Runs -/

variable [Syscalls t S]

/-- Running alone, the program never looks for a word outside itself. -/
def Contained (vm₀ : Vm t S) : Prop := ∀ vm, Reaches step vm₀ vm → vm.StaysInside

/-- A run that stops, and not for a missing word, was contained. -/
theorem contained_of_halts {vm₀ : Vm t S} {r : Halt t S} (h : Halts step vm₀ r)
    (hr : ∀ pc v, r ≠ .err (.outOfBounds pc) v) : Contained vm₀ :=
  fun _ hreach pc v hstop => hr pc v (h.eq_of_reaches_of_step hreach hstop).symm

/-- **Relocation.**  A contained program does the same wherever it is placed in a larger
one: the two machines stop together, with the same value, error or fault, in states that
agree on the registers, the memory, the return data and, moved by `k`, the frames. -/
theorem relocation {k : ℕ} {vm₀ u₀ : Vm t S} (h : Placed k [] vm₀ u₀) (hin : Contained vm₀) :
    (∀ r, Halts step vm₀ r → ∃ r', Halts step u₀ r' ∧ LinkedHalt k [] r r') ∧
      ∀ r', Halts step u₀ r' → ∃ r, Halts step vm₀ r ∧ LinkedHalt k [] r r' := by
  have hlock : Lockstep (step : Vm t S → Except (Halt t S) (Vm t S)) step
      (fun vm u => Reaches step vm₀ vm ∧ Placed k [] vm u) (LinkedHalt k []) := by
    rintro vm u ⟨hreach, hplaced⟩
    have hstep := hplaced.related_step (hin vm hreach) (fun _ hdepth => hdepth) fun _ => rfl
    cases hs : vm.step with
    | error r =>
      obtain ⟨r', hs', hQ⟩ := hstep.exists_error hs
      rw [hs']
      exact .error hQ
    | ok v =>
      obtain ⟨v', hs', hR⟩ := hstep.exists_ok hs
      rw [hs']
      exact .ok ⟨hreach.trans ((Reaches.refl v).head hs), hR⟩
  exact ⟨fun r hr => hlock.halts ⟨Reaches.refl vm₀, h⟩ hr,
    fun r' hr' => hlock.symm.halts ⟨Reaches.refl vm₀, h⟩ hr'⟩

/-- A function that calls one that calls another: `call 4; ja 3; mov64 r0, 0; exit`, then
`call 6; exit` and `mov64 r0, 7; exit`. -/
def twoDeepText : Vec .w64 8 UInt64 :=
  ⟨[0x300000085, 0x10005, 0xB7, 0x95, 0x100000085, 0x95, 0x7000000B7, 0x95], by decide⟩

/-- The same behind `call 2; exit`. -/
def callTwoDeepText : Vec .w64 8 UInt64 :=
  ⟨[0x100000085, 0x95] ++ twoDeepText.toList, by decide⟩

/-- The machine that runs `twoDeepText`, on an empty memory. -/
def twoDeep : Vm ⟨.w64, true⟩ GuestSyscalls :=
  start twoDeepText (Vector.replicate 11 3) Memory.empty {}

/-- The machine that runs `callTwoDeepText` from `twoDeepText` on. -/
def callTwoDeep : Vm ⟨.w64, true⟩ GuestSyscalls :=
  { twoDeep with text := callTwoDeepText, pc := 2 }

theorem halts_twoDeep : ∃ r, Halts step twoDeep r ∧ r.result = .ok 7 :=
  halts_of_outcome (by decide +kernel : outcome step Halt.result 6 twoDeep = some (.ok 7))

theorem contained_twoDeep : Contained twoDeep := by
  obtain ⟨r, hr, hresult⟩ := halts_twoDeep
  refine contained_of_halts hr fun pc v herr => ?_
  rw [herr] at hresult
  exact absurd hresult (by simp [Halt.result])

/-- Two calls deep, and over a jump: `twoDeepText` in its place inside `callTwoDeepText`. -/
theorem relocation_twoDeep : ∃ r', Halts step callTwoDeep r' ∧ r'.result = .ok 7 := by
  obtain ⟨r, hr, hresult⟩ := halts_twoDeep
  have hpart : PartOf 2 twoDeepText.toList callTwoDeepText.toList :=
    ⟨[0x100000085, 0x95], [], rfl, rfl⟩
  have hplaced : Placed 2 [] twoDeep callTwoDeep :=
    { regs := rfl, text := hpart, callStack := rfl, mem := rfl, syscalls := rfl
      returnData := rfl, pc := Or.inl rfl }
  obtain ⟨hforth, -⟩ := relocation hplaced contained_twoDeep
  obtain ⟨r', hr', hsame⟩ := hforth r hr
  exact ⟨r', hr', hsame.result_eq.trans hresult⟩

/-- On the way both machines are two calls deep, the one with the frames of the other moved
by two words. -/
example : observe step (fun u => u.callStack.map Prod.fst) 2 twoDeep = some [5, 1] ∧
    observe step (fun u => u.callStack.map Prod.fst) 2 callTwoDeep = some [7, 3] := by
  decide +kernel

end Vm
end Tuniq
