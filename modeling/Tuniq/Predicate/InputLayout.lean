import Tuniq.Predicate.Drivers

/-!
# Where the program finds its input

The documentation of the entrypoint layout says that `r1` points to the input buffer.  The
drivers do something else on purpose, because the compiled entrypoint loads through `r1`
first: they put the address of the buffer into a slot of eight bytes at the start of the
heap, put the buffer right behind the slot, and let `r1` point to the slot.

So a program that takes `r1` for the address of the buffer reads the slot, and the run may
end in a success all the same (`buffer_not_at_r1`).  What the guest does provide is
`guest_finds_input`: whatever the buffer holds, as long as it fits behind the slot, the
number `r1` points to is the address of its first byte, and every byte is in its place.
-/

namespace Tuniq
namespace Vm

variable {t : Target}

/-- The machine the guest runs on a buffer that fits the heap behind the slot. -/
theorem guestVm_of_fits (c : Bool) (text : Vec .w32 8 UInt64) {buf : List UInt8}
    (hbuf : buf.length ≤ regionSize - 8) :
    guestVm c text buf = .ok (start text inputRegs (inputMemory .w32 buf hbuf) {}) :=
  prepareVm_eq (t := ⟨.w32, c⟩) (fun _ _ => rfl) text hbuf _

/-- A byte of the heap, read before the program writes there. -/
theorem readU8_inputMemory {buf : List UInt8} (h : buf.length ≤ regionSize - 8) {addr : UInt64}
    {off : ℕ} {b : UInt8} (haddr : addr.toNat = 3 * 2 ^ 32 + off) (hoff : off < regionSize)
    (hb : (heapBytes buf)[off]? = some b) :
    (inputMemory t.width buf h).readU8 t addr = .ok (some b) := by
  have hsize : regionSize = 2 ^ 16 := by decide
  have hsafe : (inputMemory t.width buf h).layout.Safe addr.toNat 1 := by
    rw [Memory.safe_iff_of_standard (inputMemory_standard h) (by omega)]
    omega
  have hone : UInt8.ofNat (ofLe [b]) = b := by
    rw [ofLe_cons, ofLe_nil, Nat.mul_zero, Nat.add_zero, UInt8.ofNat_toNat]
  unfold Memory.readU8
  rw [Memory.readBytes_of_safe (by omega) hsafe, haddr, get_inputMemory h (by omega),
    window_one hb]
  exact congrArg (fun b => Except.ok (some b)) hone

/-- Behind the slot stands the buffer. -/
theorem getElem?_heapBytes {buf : List UInt8} {i : ℕ} (hi : i < buf.length) :
    (heapBytes buf)[8 + i]? = buf[i]? := by
  unfold heapBytes
  rw [List.getElem?_append_right (by rw [length_toLe]; omega), length_toLe,
    Nat.add_sub_cancel_left, List.getElem?_append_left hi]

/-- **The guest's program finds its input.**  For every program and every input buffer
that fits the heap behind the slot: the run starts at the first word with the stack
pointer at the top of the stack, `r1` points to a number, and byte `i` of the buffer
stands `i` bytes behind the address that number is. -/
theorem guest_finds_input (c : Bool) (text : Vec .w32 8 UInt64) {buf : List UInt8}
    (hbuf : buf.length ≤ regionSize - 8) :
    ∃ vm, guestVm c text buf = .ok vm ∧ vm.text = text ∧ vm.pc = 0 ∧
      vm.mem.readU64 ⟨.w32, c⟩ (vm.regs.get .r1) = .ok (some bufPtr) ∧
      ∀ i, i < buf.length →
        vm.mem.readU8 ⟨.w32, c⟩ (bufPtr + UInt64.ofNat i) = .ok buf[i]? := by
  have hsize : regionSize = 2 ^ 16 := by decide
  have hptr : bufPtr.toNat = 3 * 2 ^ 32 + 8 := by decide
  refine ⟨_, guestVm_of_fits c text hbuf, rfl, rfl, ?_, fun i hi => ?_⟩
  · exact load_pointer (t := ⟨.w32, c⟩) hbuf
  · have haddr : (bufPtr + UInt64.ofNat i).toNat = 3 * 2 ^ 32 + (8 + i) := by
      rw [UInt64.toNat_add, UInt64.toNat_ofNat_of_lt' (by
        show i < 2 ^ 64
        omega), hptr]
      omega
    rw [List.getElem?_eq_getElem hi]
    refine readU8_inputMemory (t := ⟨.w32, c⟩) hbuf haddr (by omega) ?_
    rw [getElem?_heapBytes hi, List.getElem?_eq_getElem hi]

/-- The program that exits at once. -/
def exitText : Vec .w32 8 UInt64 := ⟨[0x95], by decide⟩

/-- It is given the input buffer of a balance and a threshold. -/
theorem guest_finds_input_exitText :
    ∃ vm, guestVm true exitText (buildInputBuffer 7 5) = .ok vm ∧
      vm.mem.readU64 ⟨.w32, true⟩ (vm.regs.get .r1) = .ok (some bufPtr) ∧
      vm.mem.readU8 ⟨.w32, true⟩ (bufPtr + UInt64.ofNat 8) =
        .ok (buildInputBuffer 7 5)[8]? := by
  obtain ⟨vm, hvm, -, -, hslot, hbytes⟩ :=
    guest_finds_input true exitText (buildInputBuffer_fits 7 5)
  exact ⟨vm, hvm, hslot, hbytes 8 (by rw [length_buildInputBuffer]; decide)⟩

/-- **The buffer is not at `r1`**, and the guest commits a success. -/
theorem buffer_not_at_r1 :
    ¬ ∀ (c : Bool) (text : Vec .w32 8 UInt64) (buf : List UInt8)
        (r : Halt ⟨.w32, c⟩ GuestSyscalls) (r0 : UInt64),
      Outcome (guestVm c text buf) r → committed r = some (r0, true) →
        ∃ vm, guestVm c text buf = .ok vm ∧ ∀ i, i < buf.length →
          vm.mem.readU8 ⟨.w32, c⟩ (vm.regs.get .r1 + UInt64.ofNat i) = .ok buf[i]? := by
  intro hall
  have hbuf : ([1] : List UInt8).length ≤ regionSize - 8 := by decide
  have hvm := guestVm_of_fits true exitText hbuf
  have hexit : (decode 0x95).action = .exit := Insn.action_eq_exit_iff.mpr (by decide)
  have hstep : (start exitText inputRegs (inputMemory .w32 [1] hbuf) {} :
      Vm ⟨.w32, true⟩ GuestSyscalls).step = .error (.ok 0
        (start exitText inputRegs (inputMemory .w32 [1] hbuf) {}).advance) := by
    rw [step_of_fetch (i := decode 0x95) rfl, hexit, perform]
    rfl
  obtain ⟨vm, hvm', hbytes⟩ := hall true exitText [1] _ 0 (Or.inl ⟨_, hvm, Halts.of_step hstep⟩) rfl
  obtain rfl := Except.ok.inj (hvm.symm.trans hvm')
  have hread := hbytes 0 (by decide)
  have hslot : (heapBytes [1])[0]? = some 8 := rfl
  have haddr : (Memory.heapBaseNew + UInt64.ofNat 0).toNat = 3 * 2 ^ 32 + 0 := by decide
  have hread : (inputMemory .w32 [1] hbuf).readU8 ⟨.w32, true⟩
      (Memory.heapBaseNew + UInt64.ofNat 0) = .ok (some 1) := hbytes 0 (by decide)
  rw [readU8_inputMemory (t := ⟨.w32, true⟩) hbuf haddr (by decide) hslot] at hread
  exact absurd hread (by decide)

end Vm
end Tuniq
