import Tuniq.Interpreter.SyscallRules
import Tuniq.Interpreter.Vm

/-!
# Setting up a run of the predicate

Both drivers --- the conformance harness on the host and the program inside the
proving machine --- run a text on an input buffer in the same way.  They allocate
a stack and a heap, put a pointer at the start of the heap and the buffer right
behind it, and hand the program the address of the pointer in `r1`.

They differ in what they do when one of these writes is refused: the harness
unwraps the result, the guest ignores it.  `prepareVm` is the common code with
that choice as a parameter.  For a buffer that fits the heap no write is refused,
so the choice does not show: `prepareVm_eq` gives the machine both start from.
-/

namespace Tuniq

/-- `build_input_buffer`: no accounts, sixteen bytes of instruction data, and a
zero program id. -/
def buildInputBuffer (balance threshold : UInt64) : List UInt8 :=
  toLe 8 0 ++ (toLe 8 16 ++ (toLe 8 balance.toNat ++ (toLe 8 threshold.toNat ++
    List.replicate 32 0)))

/-- The size of the stack and of the heap. -/
def regionSize : ℕ := 65536

namespace Vm

variable {t : Target} {S : Type}

/-- What both drivers do up to `vm.run()`; `keep` says what becomes of a write. -/
def prepareVm (t : Target) (keep : Memory t.width → Option (Memory t.width) →
      Except Fault (Memory t.width)) (text : Vec t.width 8 UInt64) (buf : List UInt8)
    (syscalls : S) : Except Fault (Vm t S) := do
  let mem ← Memory.new t.width regionSize regionSize
  let ptrSlot := mem.heapBase
  let bufPtr ← t.addU64 mem.heapBase 8
  let mem ← keep mem (← mem.writeU64 t ptrSlot bufPtr)
  let mem ← forUpTo (fun i mem => do
    let a ← t.addU64 bufPtr (UInt64.ofNat i)
    keep mem (← mem.writeU8 t a (buf.getD i 0))) buf.length mem
  let vm ← Vm.new t text mem syscalls
  return { vm with regs := vm.regs.put .r1 ptrSlot }

/-- `.unwrap()` -/
def unwrapWrite {w : PtrWidth} (_ : Memory w) : Option (Memory w) → Except Fault (Memory w)
  | some m => .ok m
  | none => .error .explicitPanic

/-- `let _ = ` -/
def ignoreRefusal {w : PtrWidth} (m : Memory w) (r : Option (Memory w)) :
    Except Fault (Memory w) :=
  .ok (r.getD m)

/-! ## The machine a run starts from -/

/-- The address of the buffer. -/
def bufPtr : UInt64 := Memory.heapBaseNew + 8

/-- The heap of a run: the pointer, the buffer, and zeros. -/
def heapBytes (buf : List UInt8) : List UInt8 :=
  toLe 8 bufPtr.toNat ++ (buf ++ List.replicate (regionSize - 8 - buf.length) 0)

theorem length_heapBytes {buf : List UInt8} (h : buf.length ≤ regionSize - 8) :
    (heapBytes buf).length = regionSize := by
  have h8 : 8 ≤ regionSize := by decide
  rw [heapBytes, List.length_append, List.length_append, length_toLe, List.length_replicate]
  omega

theorem regionSize_le_isizeMax (w : PtrWidth) : regionSize ≤ w.isizeMax :=
  le_trans (by decide) w.le_isizeMax

/-- The memory of a run. -/
def inputMemory (w : PtrWidth) (buf : List UInt8) (h : buf.length ≤ regionSize - 8) :
    Memory w where
  heap := ⟨heapBytes buf, by
    rw [length_heapBytes h, mul_one]
    exact regionSize_le_isizeMax w⟩
  stack := Vec.zeroed regionSize (regionSize_le_isizeMax w)
  stackBase := Memory.stackBaseNew
  heapBase := Memory.heapBaseNew

/-- The registers of a run: `r10` is the top of the stack, `r1` the address of the
pointer to the buffer. -/
def inputRegs : Regs :=
  (Regs.put (Vector.replicate 11 0) .r10 (Memory.stackBaseNew + UInt64.ofNat regionSize)).put .r1
    Memory.heapBaseNew

theorem inputMemory_standard {w : PtrWidth} {buf : List UInt8}
    (h : buf.length ≤ regionSize - 8) : (inputMemory w buf h).Standard := ⟨rfl, rfl⟩

/-- Two regions of `regionSize` bytes at the standard addresses. -/
structure FreshRegions {w : PtrWidth} (m : Memory w) : Prop where
  standard : m.Standard
  stack : m.stack = Vec.zeroed regionSize (regionSize_le_isizeMax w)
  heap : m.heap.len = regionSize

/-- Where an access to the heap of such a memory goes. -/
theorem FreshRegions.lookup_heap {w : PtrWidth} {m : Memory w} (h : FreshRegions m)
    {off n : ℕ} (hfit : off + n ≤ regionSize) :
    m.layout.lookup (3 * 2 ^ 32 + off) n = some (.heap, off) := by
  have hsize : regionSize = 2 ^ 16 := by decide
  have hstack : m.layout.len .stack = regionSize := by
    show m.stack.len = regionSize
    rw [h.stack, Vec.len_zeroed]
  have hheap : m.layout.len .heap = regionSize := h.heap
  have hsb : m.layout.base .stack = 2 ^ 32 := by
    rw [Memory.layout_base, Memory.base, h.standard.1]
    rfl
  have hhb : m.layout.base .heap = 3 * 2 ^ 32 := by
    rw [Memory.layout_base, Memory.base, h.standard.2]
    rfl
  have hnot : ¬ m.layout.Within .stack (3 * 2 ^ 32 + off) n := by
    rw [Layout.Within, hstack, hsb]
    omega
  have hin : m.layout.Within .heap (3 * 2 ^ 32 + off) n := by
    rw [Layout.Within, hheap, hhb]
    omega
  rw [Layout.lookup, if_neg hnot, if_pos hin, hhb, Nat.add_sub_cancel_left]

/-- A write into the heap of such a memory. -/
theorem writeBytes_heap {m : Memory t.width} (h : FreshRegions m) (a : UInt64) (off : ℕ)
    (bs : List UInt8) (ha : a.toNat = 3 * 2 ^ 32 + off) (hfit : off + bs.length ≤ regionSize) :
    ∃ hfit' : off + bs.length ≤ (m.bytes .heap).len,
      m.writeBytes t a bs = .ok (some (m.setBytes .heap
        ((m.bytes .heap).overwrite off bs hfit'))) := by
  have hsize : regionSize = 2 ^ 16 := by decide
  have hheap : (m.bytes .heap).len = regionSize := h.heap
  refine ⟨by omega, ?_⟩
  have hsafe : m.layout.Safe a.toNat bs.length := by
    rw [Memory.safe_iff_of_standard h.standard (by omega)]
    omega
  rw [Memory.writeBytes_of_safe (by omega) hsafe, ha,
    Memory.put_of_lookup_some (h.lookup_heap hfit)]

theorem FreshRegions.setHeap {w : PtrWidth} {m : Memory w} (h : FreshRegions m) {v : Bytes w}
    (hv : v.len = regionSize) : FreshRegions (m.setBytes .heap v) :=
  ⟨h.standard, h.stack, hv⟩

theorem eq_inputMemory {w : PtrWidth} {m : Memory w} {buf : List UInt8}
    (hbuf : buf.length ≤ regionSize - 8) (h : FreshRegions m)
    (hheap : m.heap.toList = heapBytes buf) : m = inputMemory w buf hbuf := by
  obtain ⟨heap, stack, stackBase, heapBase⟩ := m
  obtain ⟨⟨rfl, rfl⟩, rfl, -⟩ := h
  obtain rfl : heap = (inputMemory w buf hbuf).heap := Vec.ext hheap
  rfl

/-- **The buffer is copied behind the pointer.**  After `k` rounds the heap holds
the pointer, the first `k` bytes of the buffer, and zeros. -/
theorem copyBuffer_eq {keep : Memory t.width → Option (Memory t.width) →
      Except Fault (Memory t.width)} (hkeep : ∀ m m', keep m (some m') = .ok m')
    {buf : List UInt8} (hbuf : buf.length ≤ regionSize - 8) {m : Memory t.width}
    (hm : FreshRegions m)
    (hheap : m.heap.toList = toLe 8 bufPtr.toNat ++ List.replicate (regionSize - 8) 0)
    {k : ℕ} (hk : k ≤ buf.length) :
    ∃ m', forUpTo (fun i mem => do
        let a ← t.addU64 bufPtr (UInt64.ofNat i)
        keep mem (← mem.writeU8 t a (buf.getD i 0))) k m = .ok m' ∧ FreshRegions m' ∧
      m'.heap.toList = toLe 8 bufPtr.toNat ++
        (buf.take k ++ List.replicate (regionSize - 8 - k) 0) := by
  have hsize : regionSize = 2 ^ 16 := by decide
  have hptr : bufPtr.toNat = 3 * 2 ^ 32 + 8 := by decide
  induction k with
  | zero =>
    refine ⟨m, rfl, hm, ?_⟩
    rw [hheap, List.take_zero, List.nil_append, Nat.sub_zero]
  | succ k ih =>
    obtain ⟨u, hu, hfresh, huheap⟩ := ih (by omega)
    have hk' : (UInt64.ofNat k).toNat = k := UInt64.toNat_ofNat_of_lt' (by
      show k < 2 ^ 64
      omega)
    have hsum : t.addU64 bufPtr (UInt64.ofNat k) = .ok (bufPtr + UInt64.ofNat k) :=
      Target.addU64_of_lt (by omega)
    have haddr : (bufPtr + UInt64.ofNat k).toNat = 3 * 2 ^ 32 + (8 + k) := by
      rw [UInt64.toNat_add, hk', hptr]
      omega
    have hbyte : toLe 1 (buf.getD k 0).toNat = [buf[k]] := by
      rw [toLe_one, UInt8.ofNat_toNat, List.getD_eq_getElem?_getD,
        List.getElem?_eq_getElem (by omega)]
      rfl
    obtain ⟨hfit, hwrite⟩ := writeBytes_heap (t := t) hfresh _ (8 + k) [buf[k]] haddr
      (by rw [List.length_singleton]; omega)
    refine ⟨u.setBytes .heap ((u.bytes .heap).overwrite (8 + k) [buf[k]] hfit),
      forUpTo_succ_eq_ok.mpr ⟨u, hu, ?_⟩, hfresh.setHeap ?_, ?_⟩
    · rw [hsum]
      show (do keep u (← u.writeU8 t (bufPtr + UInt64.ofNat k) (buf.getD k 0))) = _
      rw [Memory.writeU8, hbyte, hwrite]
      exact hkeep _ _
    · rw [Vec.len_overwrite]
      exact hfresh.heap
    · -- the byte lands on the first of the zeros
      have hzeros : regionSize - 8 - k = (regionSize - 8 - (k + 1)) + 1 := by omega
      have htake : buf.take k ++ [buf[k]] = buf.take (k + 1) :=
        List.take_append_getElem (by omega)
      have hoff : 8 + k = (toLe 8 bufPtr.toNat ++ buf.take k).length := by
        rw [List.length_append, length_toLe, List.length_take]
        omega
      show (Tuniq.overwrite u.heap.toList (8 + k) [buf[k]]) = _
      rw [huheap, ← List.append_assoc, hoff, overwrite_append_right, hzeros,
        List.replicate_succ, ← htake]
      simp only [List.length_singleton, List.drop_succ_cons, List.drop_zero, List.append_assoc]

/-- **Both drivers start from the same machine** when the buffer fits the heap. -/
theorem prepareVm_eq {keep : Memory t.width → Option (Memory t.width) →
      Except Fault (Memory t.width)} (hkeep : ∀ m m', keep m (some m') = .ok m')
    (text : Vec t.width 8 UInt64) {buf : List UInt8} (hbuf : buf.length ≤ regionSize - 8)
    (syscalls : S) :
    prepareVm t keep text buf syscalls =
      .ok (start text inputRegs (inputMemory t.width buf hbuf) syscalls) := by
  have hmax := regionSize_le_isizeMax t.width
  have hsize : regionSize = 2 ^ 16 := by decide
  have hnew : Memory.new t.width regionSize regionSize =
      .ok (Memory.mk (Vec.zeroed regionSize hmax) (Vec.zeroed regionSize hmax)
        Memory.stackBaseNew Memory.heapBaseNew) := by
    rw [Memory.new, dif_pos ⟨hmax, hmax⟩]
  have hptr : t.addU64 Memory.heapBaseNew 8 = .ok bufPtr := Target.addU64_of_lt (by decide)
  have hfresh : FreshRegions (Memory.mk (Vec.zeroed regionSize hmax)
      (Vec.zeroed regionSize hmax) Memory.stackBaseNew Memory.heapBaseNew) :=
    ⟨⟨rfl, rfl⟩, rfl, Vec.len_zeroed _ hmax⟩
  -- the pointer goes to the start of the heap, the buffer behind it
  obtain ⟨hfit, hwrite⟩ := writeBytes_heap (t := t) hfresh Memory.heapBaseNew 0
    (toLe 8 bufPtr.toNat) (by decide) (by rw [length_toLe]; decide)
  have hslot : (Tuniq.overwrite (List.replicate regionSize 0) 0 (toLe 8 bufPtr.toNat)) =
      toLe 8 bufPtr.toNat ++ List.replicate (regionSize - 8) 0 := by
    rw [Tuniq.overwrite, List.take_zero, List.nil_append, length_toLe, List.drop_replicate]
  have hfresh' : FreshRegions ((Memory.mk (Vec.zeroed regionSize hmax)
      (Vec.zeroed regionSize hmax) Memory.stackBaseNew Memory.heapBaseNew).setBytes .heap
      ((Vec.zeroed regionSize hmax).overwrite 0 (toLe 8 bufPtr.toNat) hfit)) :=
    hfresh.setHeap ((Vec.len_overwrite _ _ _ hfit).trans (Vec.len_zeroed _ hmax))
  obtain ⟨m, hloop, hm, hheap⟩ := copyBuffer_eq hkeep hbuf hfresh' hslot le_rfl
  rw [List.take_length] at hheap
  obtain rfl := eq_inputMemory hbuf hm hheap
  have htop : t.addU64 Memory.stackBaseNew (UInt64.ofNat regionSize) =
      .ok (Memory.stackBaseNew + UInt64.ofNat regionSize) :=
    Target.addU64_of_lt (by decide)
  have hvm : Vm.new t text (inputMemory t.width buf hbuf) syscalls = .ok (start text
      ((Vector.replicate 11 0).set 10 (Memory.stackBaseNew + UInt64.ofNat regionSize))
      (inputMemory t.width buf hbuf) syscalls) := by
    have hlen : (inputMemory t.width buf hbuf).stack.len = regionSize := Vec.len_zeroed _ hmax
    rw [Vm.new, hlen]
    exact bind_eq_ok.mpr ⟨_, htop, rfl⟩
  refine bind_eq_ok.mpr ⟨_, hnew, ?_⟩
  refine bind_eq_ok.mpr ⟨_, hptr, ?_⟩
  refine bind_eq_ok.mpr ⟨_, hwrite, ?_⟩
  refine bind_eq_ok.mpr ⟨_, hkeep _ _, ?_⟩
  refine bind_eq_ok.mpr ⟨_, hloop, ?_⟩
  exact bind_eq_ok.mpr ⟨_, hvm, rfl⟩

/-! ## What the program finds -/

theorem freshRegions_inputMemory {w : PtrWidth} {buf : List UInt8}
    (h : buf.length ≤ regionSize - 8) : FreshRegions (inputMemory w buf h) :=
  ⟨⟨rfl, rfl⟩, rfl, length_heapBytes h⟩

/-- The bytes the program reads from the heap before it writes there. -/
theorem get_inputMemory {w : PtrWidth} {buf : List UInt8} (h : buf.length ≤ regionSize - 8)
    {off n : ℕ} (hfit : off + n ≤ regionSize) :
    (inputMemory w buf h).get (3 * 2 ^ 32 + off) n = some (window (heapBytes buf) off n) := by
  rw [Memory.get, (freshRegions_inputMemory h).lookup_heap hfit]
  rfl

/-- A load from there. -/
theorem load_inputMemory {buf : List UInt8} (h : buf.length ≤ regionSize - 8) {addr : UInt64}
    (off : ℕ) (n : Width) (haddr : addr.toNat = 3 * 2 ^ 32 + off)
    (hfit : off + n.size ≤ regionSize) :
    (inputMemory t.width buf h).load t n addr =
      .ok (some (UInt64.ofNat (ofLe (window (heapBytes buf) off n.size)))) := by
  have hsize : regionSize = 2 ^ 16 := by decide
  have hsafe : (inputMemory t.width buf h).layout.Safe addr.toNat n.size := by
    rw [Memory.safe_iff_of_standard (inputMemory_standard h) (by omega)]
    omega
  rw [Memory.load_eq, Memory.readBytes_of_safe (by omega) hsafe, haddr, get_inputMemory h hfit]
  rfl

/-- The pointer the entrypoint dereferences. -/
theorem load_pointer {buf : List UInt8} (h : buf.length ≤ regionSize - 8) :
    (inputMemory t.width buf h).load t .b8 Memory.heapBaseNew = .ok (some bufPtr) := by
  rw [load_inputMemory h 0 .b8 (by decide) (by decide), heapBytes]
  rw [show Width.size .b8 = 8 from rfl, window_toLe, ofLe_toLe_of_lt bufPtr.toNat_lt,
    UInt64.ofNat_toNat]

end Vm

end Tuniq
