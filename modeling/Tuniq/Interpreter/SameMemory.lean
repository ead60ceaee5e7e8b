import Tuniq.Library.Lockstep
import Tuniq.Interpreter.SyscallRules

/-!
# Memories with the same bytes

The memory of a machine is typed by the pointer width of its platform, because
its vectors are.  `SameMemory` says that two memories on two platforms hold the
same bytes at the same addresses.  Every access then ends the same way on both:
whether it is safe depends on the layout, and what it reads or leaves depends on
the bytes.

The memory syscalls are compared under the two conditions that tell platforms
apart.  A buffer must be one that both can allocate, and a buffered copy is
compared with a forward copy only when the destination does not start inside the
source (`related_memcpy`).
-/

namespace Tuniq

/-- The same bytes at the same standard addresses, on two platforms. -/
structure SameMemory {w w' : PtrWidth} (m : Memory w) (m' : Memory w') : Prop where
  standard : m.Standard
  standard' : m'.Standard
  stack : m.stack.toList = m'.stack.toList
  heap : m.heap.toList = m'.heap.toList

namespace SameMemory

variable {w w' : PtrWidth} {m : Memory w} {m' : Memory w'}

theorem bytes (h : SameMemory m m') (r : Region) :
    (m.bytes r).toList = (m'.bytes r).toList := by
  cases r
  · exact h.stack
  · exact h.heap

theorem layout (h : SameMemory m m') : m.layout = m'.layout := by
  have hstack : m.stack.len = m'.stack.len := congrArg List.length h.stack
  have hheap : m.heap.len = m'.heap.len := congrArg List.length h.heap
  rw [Memory.layout, Memory.layout, h.standard.1, h.standard.2, h.standard'.1, h.standard'.2,
    hstack, hheap]

theorem get (h : SameMemory m m') (a n : ℕ) : m.get a n = m'.get a n := by
  rw [Memory.get, Memory.get, h.layout]
  refine congrArg (Option.map · _) (funext fun p => ?_)
  rw [h.bytes]

theorem peek (h : SameMemory m m') (a : ℕ) : m.peek a = m'.peek a := by
  rw [Memory.peek, Memory.peek, h.get]

theorem setBytes (h : SameMemory m m') (r : Region) {v : Bytes w} {v' : Bytes w'}
    (hv : v.toList = v'.toList) : SameMemory (m.setBytes r v) (m'.setBytes r v') := by
  cases r
  · exact ⟨h.standard, h.standard', hv, h.heap⟩
  · exact ⟨h.standard, h.standard', h.stack, hv⟩

theorem put (h : SameMemory m m') (a : ℕ) (bs : List UInt8) :
    Option.Rel SameMemory (m.put a bs) (m'.put a bs) := by
  cases hlook : m.layout.lookup a bs.length with
  | none =>
    have hlook' := hlook
    rw [h.layout] at hlook'
    rw [Memory.put_of_lookup_none hlook, Memory.put_of_lookup_none hlook']
    exact .none
  | some p =>
    obtain ⟨r, off⟩ := p
    have hlook' := hlook
    rw [h.layout] at hlook'
    have hfit := (Layout.lookup_eq_some hlook).2.trans_eq (m.layout_len r)
    have hfit' := (Layout.lookup_eq_some hlook').2.trans_eq (m'.layout_len r)
    rw [Memory.put_of_lookup_some hlook hfit, Memory.put_of_lookup_some hlook' hfit']
    refine .some (h.setBytes r ?_)
    rw [Vec.toList_overwrite, Vec.toList_overwrite, h.bytes]

theorem poke (h : SameMemory m m') (a : ℕ) (b : UInt8) :
    SameMemory (m.poke a b) (m'.poke a b) := by
  have hput := h.put a (toLe 1 b.toNat)
  rw [Memory.poke, Memory.poke]
  cases hp : m.put a (toLe 1 b.toNat) <;> cases hp' : m'.put a (toLe 1 b.toNat) <;>
    rw [hp, hp'] at hput <;> cases hput
  · exact h
  · assumption

end SameMemory

section

variable {t t' : Target} {m : Memory t.width} {m' : Memory t'.width}

/-- Nothing is asked of the reasons two computations stop for. -/
def AnyReason {ε ε' : Type*} (_ : ε) (_ : ε') : Prop := True

theorem related_error {ε ε' α α' : Type*} {R : α → α' → Prop} {x : Except ε α}
    {y : Except ε' α'} (hx : ∃ e, x = .error e) (hy : ∃ e, y = .error e) :
    Related R AnyReason x y := by
  obtain ⟨e, rfl⟩ := hx
  obtain ⟨e', rfl⟩ := hy
  exact .error trivial

theorem related_ok {ε ε' α α' : Type*} {R : α → α' → Prop} {Q : ε → ε' → Prop} {x : Except ε α}
    {y : Except ε' α'} {a : α} {b : α'} (hx : x = .ok a) (hy : y = .ok b) (h : R a b) :
    Related R Q x y := by
  subst hx hy
  exact .ok h

/-! ## Accesses -/

theorem related_load (h : SameMemory m m') (n : Width) (addr : UInt64) :
    Related (· = ·) AnyReason (m.load t n addr) (m'.load t' n addr) := by
  have hsize : n.size < 2 ^ 64 := lt_of_le_of_lt n.size_le (by norm_num)
  rw [Memory.load_eq, Memory.load_eq]
  refine Related.bind (R := (· = ·)) ?_ fun a b hab => .ok (congrArg _ hab)
  by_cases hsafe : m.layout.Safe addr.toNat n.size
  · have hsafe' := hsafe
    rw [h.layout] at hsafe'
    exact related_ok (Memory.readBytes_of_safe hsize hsafe)
      (Memory.readBytes_of_safe hsize hsafe') (h.get _ _)
  · have hsafe' := hsafe
    rw [h.layout] at hsafe'
    exact related_error (Memory.readBytes_of_not_safe (Or.inr h.standard) n.size_le hsafe)
      (Memory.readBytes_of_not_safe (Or.inr h.standard') n.size_le hsafe')

theorem related_writeBytes (h : SameMemory m m') (addr : UInt64) {bs : List UInt8}
    (hlen : bs.length ≤ 8) :
    Related (Option.Rel SameMemory) AnyReason (m.writeBytes t addr bs)
      (m'.writeBytes t' addr bs) := by
  by_cases hsafe : m.layout.Safe addr.toNat bs.length
  · have hsafe' := hsafe
    rw [h.layout] at hsafe'
    exact related_ok (Memory.writeBytes_of_safe (by omega) hsafe)
      (Memory.writeBytes_of_safe (by omega) hsafe') (h.put _ _)
  · have hsafe' := hsafe
    rw [h.layout] at hsafe'
    exact related_error (Memory.writeBytes_of_not_safe (Or.inr h.standard) hlen hsafe)
      (Memory.writeBytes_of_not_safe (Or.inr h.standard') hlen hsafe')

/-! ## Stretches -/

theorem spanSafe_congr {L : Layout} (hc : t.overflowChecks = t'.overflowChecks)
    (base : UInt64) (n : ℕ) : L.SpanSafe t base n ↔ L.SpanSafe t' base n := by
  simp only [Layout.SpanSafe, Layout.ByteSafe, hc]

/-- In a standard memory a stretch that ends in the address space is safe. -/
theorem spanSafe_of_standard {w : PtrWidth} {m : Memory w} (hm : m.Standard) {base : UInt64}
    {n : ℕ} (h : base.toNat + n < 2 ^ 64) : m.layout.SpanSafe t base n := by
  intro i hi
  refine ⟨fun _ => by omega, ?_⟩
  rw [Memory.safe_iff_of_standard hm (by norm_num), byteAddr, Nat.mod_eq_of_lt (by omega)]
  omega

/-- In a standard memory no byte of a safe stretch lies past the end of the
address space. -/
theorem byteAddr_of_spanSafe {w : PtrWidth} {m : Memory w} (hm : m.Standard) {base : UInt64}
    {n i : ℕ} (h : m.layout.SpanSafe t base n) (hi : i < n) :
    byteAddr base i = base.toNat + i := by
  have hbase := base.toNat_lt
  rw [byteAddr, Nat.mod_eq_of_lt]
  by_contra hge
  -- the byte at the very end of the address space is not safe to reach
  have hlast := (h (2 ^ 64 - 1 - base.toNat) (by omega)).2
  rw [Memory.safe_iff_of_standard hm (by norm_num), byteAddr] at hlast
  omega

theorem related_fill (h : SameMemory m m') (hc : t.overflowChecks = t'.overflowChecks)
    (dst n : UInt64) (val : UInt8) :
    Related SameMemory AnyReason (m.fill t dst val n) (m'.fill t' dst val n) := by
  by_cases hsafe : m.layout.SpanSafe t dst n.toNat
  · have hsafe' := hsafe
    rw [spanSafe_congr hc, h.layout] at hsafe'
    refine related_ok (Memory.fill_of_safe hsafe) (Memory.fill_of_safe hsafe') ?_
    exact rounds_related _ h fun i s u hsu => hsu.poke _ _
  · have hsafe' := hsafe
    rw [spanSafe_congr hc, h.layout] at hsafe'
    exact related_error (Memory.fill_of_not_safe (Or.inr h.standard) hsafe)
      (Memory.fill_of_not_safe (Or.inr h.standard') hsafe')

theorem copyBuffered_same {w w' : PtrWidth} {m : Memory w} {m' : Memory w'}
    (h : SameMemory m m') (dst src : ℕ → ℕ) (n : ℕ) :
    SameMemory ((Memory.cells w).copyBuffered dst src n m)
      ((Memory.cells w').copyBuffered dst src n m') := by
  refine rounds_related n h fun i s u hsu => ?_
  have hread : (Memory.cells w).peek m (src i) = (Memory.cells w').peek m' (src i) :=
    h.peek _
  rw [hread]
  exact hsu.poke _ _

/-- Lengths both platforms can allocate are copied alike through a buffer. -/
theorem related_bufferedCopy (h : SameMemory m m')
    (hc : t.overflowChecks = t'.overflowChecks) (dst src n : UInt64)
    (hn : n.toNat ≤ t.width.isizeMax) (hn' : n.toNat ≤ t'.width.isizeMax) :
    Related SameMemory AnyReason (m.bufferedCopy t dst src n)
      (m'.bufferedCopy t' dst src n) := by
  by_cases hsafe : m.layout.SpanSafe t dst n.toNat ∧ m.layout.SpanSafe t src n.toNat
  · have hsafe' := hsafe
    rw [spanSafe_congr hc, spanSafe_congr hc, h.layout] at hsafe'
    exact related_ok (Memory.bufferedCopy_of_safe hn hsafe.1 hsafe.2)
      (Memory.bufferedCopy_of_safe hn' hsafe'.1 hsafe'.2) (copyBuffered_same h _ _ _)
  · have hsafe' := hsafe
    rw [spanSafe_congr hc, spanSafe_congr hc, h.layout] at hsafe'
    exact related_error
      (Memory.bufferedCopy_of_not_safe (Or.inr h.standard) fun hall => hsafe hall.2)
      (Memory.bufferedCopy_of_not_safe (Or.inr h.standard') fun hall => hsafe' hall.2)

/-- **A buffered copy and a forward copy agree** unless the destination starts
inside the source. -/
theorem related_memcpy (h : SameMemory m m') (hc : t.overflowChecks = t'.overflowChecks)
    {dst src n : UInt64} (hn : n.toNat ≤ t.width.isizeMax)
    (hdisj : ¬ (src.toNat < dst.toNat ∧ dst.toNat < src.toNat + n.toNat)) :
    Related SameMemory AnyReason (m.bufferedCopy t dst src n)
      (m'.forwardCopy t' dst src n) := by
  by_cases hsafe : m.layout.SpanSafe t dst n.toNat ∧ m.layout.SpanSafe t src n.toNat
  · have hsafe' := hsafe
    rw [spanSafe_congr hc, spanSafe_congr hc, h.layout] at hsafe'
    refine related_ok (Memory.bufferedCopy_of_safe hn hsafe.1 hsafe.2)
      (Memory.forwardCopy_of_safe hsafe'.1 hsafe'.2) ?_
    rw [(Memory.cells t'.width).copyInPlace_eq_copyBuffered m' ?_]
    · exact copyBuffered_same h _ _ _
    · intro i hi j hj
      rw [byteAddr_of_spanSafe h.standard hsafe.2 hi,
        byteAddr_of_spanSafe h.standard hsafe.1 (hj.trans hi)]
      omega
  · have hsafe' := hsafe
    rw [spanSafe_congr hc, spanSafe_congr hc, h.layout] at hsafe'
    exact related_error
      (Memory.bufferedCopy_of_not_safe (Or.inr h.standard) fun hall => hsafe hall.2)
      (Memory.forwardCopy_of_not_safe (Or.inr h.standard') hsafe')

theorem related_collectBytes (h : SameMemory m m')
    (hc : t.overflowChecks = t'.overflowChecks) (base : UInt64) {n : ℕ}
    (hn : n ≤ t.width.isizeMax) (hn' : n ≤ t'.width.isizeMax) :
    Related (· = ·) AnyReason (Memory.collectBytes t n (m.readOrZero t base))
      (Memory.collectBytes t' n (m'.readOrZero t' base)) := by
  by_cases hsafe : m.layout.SpanSafe t base n
  · have hsafe' := hsafe
    rw [spanSafe_congr hc, h.layout] at hsafe'
    refine related_ok (Memory.collectBytes_of_safe hn hsafe)
      (Memory.collectBytes_of_safe hn' hsafe') ?_
    exact List.map_congr_left fun i _ => h.peek _
  · have hsafe' := hsafe
    rw [spanSafe_congr hc, h.layout] at hsafe'
    exact related_error
      (Memory.collectBytes_of_not_safe (Or.inr h.standard) fun hall => hsafe hall.2)
      (Memory.collectBytes_of_not_safe (Or.inr h.standard') fun hall => hsafe' hall.2)

end

end Tuniq
