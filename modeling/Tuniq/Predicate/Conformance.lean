import Tuniq.Predicate.Drivers

/-!
# What the conformance harness says about the guest

`run_predicate` of the harness and `main` of the guest prepare a machine from the
same text and input buffer and run it.  Their outcomes agree, for every balance
and threshold, whenever the run on the host makes portable steps only
(`host_guest_agree`); a program that makes no syscall has no other steps
(`portable_of_no_syscall`).

Without the condition they do not: `host_guest_disagree` is a program that copies
two bytes onto a destination one byte further on, which the harness does through
a buffer and the guest byte by byte.
-/

namespace Tuniq
namespace Vm

variable {t : Target} {S : Type} {c : Bool}

/-- Both drivers start from the same machine. -/
theorem sameMachine_start (text : Vec .w32 8 UInt64) {buf : List UInt8}
    (hbuf : buf.length ≤ regionSize - 8) :
    SameMachine (start (onHost text) inputRegs (inputMemory .w64 buf hbuf) {} : HostVm c)
      (start text inputRegs (inputMemory .w32 buf hbuf) {} : GuestVm c) where
  regs := rfl
  text := rfl
  callStack := rfl
  mem := ⟨⟨rfl, rfl⟩, ⟨rfl, rfl⟩, rfl, rfl⟩
  returnData := rfl
  pc := Or.inl rfl

/-- **Harness and guest agree** on every text that fits the guest and every balance
and threshold, when the host's run makes portable steps only: an outcome of one is
an outcome of the other, and so is having none. -/
theorem host_guest_agree (text : Vec .w32 8 UInt64) (balance threshold : UInt64)
    (hport : ∀ vm₀ vm : HostVm c, runPredicate c (onHost text) balance threshold = .ok vm₀ →
      Reaches step vm₀ vm → vm.PortableStep) :
    (∀ r, Outcome (runPredicate c (onHost text) balance threshold) r →
      ∃ r', Outcome (guestVm c text (buildInputBuffer balance threshold)) r' ∧
        SameHalt r r') ∧
    (∀ r', Outcome (guestVm c text (buildInputBuffer balance threshold)) r' →
      ∃ r, Outcome (runPredicate c (onHost text) balance threshold) r ∧ SameHalt r r') := by
  have hfits := buildInputBuffer_fits balance threshold
  have hlock := lockstep (hport _ · (runPredicate_eq _ _ _))
  have hstart := sameMachine_start (c := c) text hfits
  rw [runPredicate_eq, guestVm_eq]
  refine ⟨fun r hr => ?_, fun r' hr' => ?_⟩
  · obtain ⟨r', hr', hsame⟩ :=
      hlock.halts ⟨Reaches.refl _, hstart⟩ (outcome_ok.mp hr)
    exact ⟨r', outcome_ok.mpr hr', hsame⟩
  · obtain ⟨r, hr, hsame⟩ :=
      hlock.symm.halts ⟨Reaches.refl _, hstart⟩ (outcome_ok.mp hr')
    exact ⟨r, outcome_ok.mpr hr, hsame⟩

/-- A program without syscalls makes portable steps only. -/
theorem portable_of_no_syscall {vm₀ vm : HostVm c}
    (h : ∀ word ∈ vm₀.text.toList, (decode word).opcode ≠ 0x8D ∧
      ¬ ((decode word).opcode = 0x85 ∧ (decode word).src = 1))
    (hrun : Reaches step vm₀ vm) : vm.PortableStep := by
  have htext : vm.text = vm₀.text :=
    hrun.invariant (I := fun u => u.text = vm₀.text)
      (fun u u' hu hstep => (text_step hstep).trans hu) rfl
  rintro hash ⟨i, hi, hcall, -⟩
  rw [fetch, Option.map_eq_some_iff] at hi
  obtain ⟨word, hword, rfl⟩ := hi
  rw [htext] at hword
  obtain ⟨h8D, h85⟩ := h word (List.mem_of_getElem? hword)
  rcases hcall with hcall | hcall
  · exact absurd hcall h85
  · exact absurd hcall h8D

/-- `ldxdw r2, [r1]; ldxdw r0, [r2 + 16]; exit`: the balance. -/
def balanceText : Vec .w32 8 UInt64 :=
  ⟨[0x0000000000001279, 0x0000000000102079, 0x95], by decide⟩

/-- A program without syscalls, on a balance of `7` and a threshold of `5`. -/
theorem host_guest_agree_balanceText :
    (∀ r, Outcome (runPredicate true (onHost balanceText) 7 5) r →
      ∃ r', Outcome (guestVm true balanceText (buildInputBuffer 7 5)) r' ∧ SameHalt r r') ∧
    (∀ r', Outcome (guestVm true balanceText (buildInputBuffer 7 5)) r' →
      ∃ r, Outcome (runPredicate true (onHost balanceText) 7 5) r ∧ SameHalt r r') := by
  refine host_guest_agree balanceText 7 5 ?_
  intro vm₀ vm hvm₀ hrun
  refine portable_of_no_syscall ?_ hrun
  rw [runPredicate_eq] at hvm₀
  obtain rfl := Except.ok.inj hvm₀
  refine List.forall_mem_cons.mpr ⟨by decide, List.forall_mem_cons.mpr ⟨by decide, ?_⟩⟩
  exact List.forall_mem_singleton.mpr (by decide)

/-! ## A copy onto itself -/

/-- `mov r2, r1; add r1, 1; mov r3, 2; call sol_memcpy_; exit` -/
def overlapText (w : PtrWidth) : Vec w 8 UInt64 :=
  ⟨[0x00000000000012BF, 0x0000000100000107, 0x00000002000003B7, 0xa92366c40000008D, 0x95],
    by cases w <;> decide⟩

/-- The registers at the call: two bytes from the start of the heap to one byte
behind it. -/
def overlapRegs : Regs :=
  ((inputRegs.put .r2 Memory.heapBaseNew).put .r1 (Memory.heapBaseNew + 1)).put .r3 2

/-- `overlapText` finishes with the memory its copy leaves. -/
theorem halts_overlapText [Syscalls t S] {m m' : Memory t.width} (s s' : S)
    (hcopy : Syscalls.solMemcpy s (Memory.heapBaseNew + 1) Memory.heapBaseNew 2 m =
      .ok (s', m')) :
    ∃ vm, vm.mem = m' ∧
      Halts step (start (overlapText t.width) inputRegs m s : Vm t S) (.ok 0 vm) := by
  have hcall : iter step 3 (start (overlapText t.width) inputRegs m s : Vm t S) =
      .ok { start (overlapText t.width) overlapRegs m s with pc := 3 } := rfl
  have hstep : step ({ start (overlapText t.width) overlapRegs m s with pc := 3 } : Vm t S) =
      .ok { start (overlapText t.width) (overlapRegs.put .r0 0) m' s' with pc := 4 } := by
    show (do
      let r ← liftHalt
        (Syscalls.solMemcpy s (Memory.heapBaseNew + 1) Memory.heapBaseNew 2 m)
      return ({ start (overlapText t.width) overlapRegs m s with
        pc := 4, syscalls := r.1, mem := r.2 } : Vm t S).zeroR0 :
          Except (Halt t S) (Vm t S)) = _
    rw [hcopy]
    rfl
  exact ⟨_, rfl, _, ⟨4, iter_succ_eq_ok.mpr ⟨_, hcall, hstep⟩⟩, rfl⟩

/-- **Harness and guest disagree on an overlapping copy.** -/
theorem host_guest_disagree :
    ¬ ∀ (text : Vec .w32 8 UInt64) (balance threshold : UInt64)
        (r : HostHalt true) (r' : GuestHalt true),
      Outcome (runPredicate true (onHost text) balance threshold) r →
      Outcome (guestVm true text (buildInputBuffer balance threshold)) r' → SameHalt r r' := by
  intro hall
  have hfits := buildInputBuffer_fits 0 0
  -- the first two bytes of the heap are those of the pointer, `8` and `0`
  have hpeek : ∀ w off, off + 1 ≤ 8 → (inputMemory w _ hfits).peek (3 * 2 ^ 32 + off) =
      UInt8.ofNat (ofLe (window (toLe 8 bufPtr.toNat) off 1)) := by
    intro w off hoff
    rw [Memory.peek, get_inputMemory hfits (hoff.trans (by decide)), heapBytes,
      window_append_left (by rw [length_toLe]; exact hoff)]
    rfl
  have hspan : ∀ (t : Target) (a : UInt64), a.toNat ≤ 2 ^ 63 →
      (inputMemory t.width _ hfits).layout.SpanSafe t a (2 : UInt64).toNat := by
    intro t a ha
    refine spanSafe_of_standard (inputMemory_standard hfits) ?_
    show a.toNat + 2 < 2 ^ 64
    omega
  have hmapped : ∀ w off, off + 1 ≤ 8 →
      (inputMemory w _ hfits).layout.lookup (3 * 2 ^ 32 + off) 1 ≠ none := by
    intro w off hoff
    rw [(freshRegions_inputMemory hfits).lookup_heap (hoff.trans (by decide))]
    exact Option.some_ne_none _
  -- the two copies
  have hhost := Memory.bufferedCopy_of_safe (t := ⟨.w64, true⟩) (n := 2) (by decide)
    (hspan _ (Memory.heapBaseNew + 1) (by decide)) (hspan _ Memory.heapBaseNew (by decide))
  have hguest := Memory.forwardCopy_of_safe (t := ⟨.w32, true⟩) (n := 2)
    (hspan _ (Memory.heapBaseNew + 1) (by decide)) (hspan _ Memory.heapBaseNew (by decide))
  obtain ⟨vm, hmem, hhalt⟩ := halts_overlapText (⟨⟩ : StubSyscalls) ⟨⟩
    (bind_eq_ok.mpr ⟨_, hhost, rfl⟩)
  obtain ⟨vm', hmem', hhalt'⟩ := halts_overlapText (⟨⟩ : GuestSyscalls) ⟨⟩
    (bind_eq_ok.mpr ⟨_, hguest, rfl⟩)
  have hsame := hall (overlapText .w32) 0 0 _ _
    (by rw [runPredicate_eq]; exact outcome_ok.mpr hhalt)
    (by rw [guestVm_eq]; exact outcome_ok.mpr hhalt')
  -- the third byte is a copy of the second on the host, of the first in the guest
  have hdst : ∀ i, i < 2 → byteAddr (Memory.heapBaseNew + 1) i = 3 * 2 ^ 32 + (1 + i) := by
    decide
  have hsrc : ∀ i, i < 2 → byteAddr Memory.heapBaseNew i = 3 * 2 ^ 32 + i := by
    decide
  have htwo : (2 : UInt64).toNat = 2 := rfl
  have hbuffered : vm.mem.peek (3 * 2 ^ 32 + (1 + 1)) = 0 := by
    rw [hmem, htwo, Cells.copyBuffered]
    simp only [rounds, Memory.cells]
    rw [hdst 1 (by decide), hsrc 1 (by decide), Memory.peek_poke_self, hpeek _ 1 (by decide)]
    · decide
    · rw [Memory.layout_poke]
      exact hmapped _ _ (by decide)
  have hforward : vm'.mem.peek (3 * 2 ^ 32 + (1 + 1)) = 8 := by
    rw [hmem', htwo, Cells.copyInPlace]
    simp only [rounds, Memory.cells]
    rw [hdst 1 (by decide), hdst 0 (by decide), hsrc 1 (by decide), hsrc 0 (by decide),
      Memory.peek_poke_self, Memory.peek_poke_self, hpeek _ 0 (by decide)]
    · decide
    · exact hmapped _ _ (by decide)
    · rw [Memory.layout_poke]
      exact hmapped _ _ (by decide)
  have hthird := hsame.2.2.peek (3 * 2 ^ 32 + (1 + 1))
  rw [hbuffered, hforward] at hthird
  exact absurd hthird (by decide)

end Vm
end Tuniq
