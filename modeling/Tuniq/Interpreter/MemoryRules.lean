import Tuniq.Interpreter.Memory

/-!
# What an access does

`Memory::resolve` adds the size of an access to its address before it compares,
so near the end of the address space the sum overflows.  This module separates
the two questions an access raises.

* **Is it safe?**  `Layout.Safe` says that no sum the bound check forms overflows.
  A safe access never faults, whatever the overflow setting
  (`readBytes_of_safe`, `writeBytes_of_safe`).  An unsafe one always does
  (`readBytes_of_not_safe`, `writeBytes_of_not_safe`) when it `Traps`: overflow
  checks are compiled in, or the regions are where `Memory::new` puts them.
* **Where does it go?**  `Layout.lookup` is the resolution over plain numbers,
  and `Memory.get` and `Memory.put` are the read and the write over it.  They
  obey the laws of a store: a write is read back, and a write elsewhere is not
  seen.

Both depend only on where the two regions lie, the `Layout`, which no write
changes.  For the layout of `Memory::new` safety is one inequality
(`safe_iff_of_standard`), and an unsafe access faults even without overflow
checks, because the wrapped sum lets the stack be sliced at an offset no vector
has.
-/

namespace Tuniq

/-! ## Layouts -/

/-- Where the two regions lie. -/
structure Layout where
  stackBase : ℕ
  stackLen : ℕ
  heapBase : ℕ
  heapLen : ℕ
  deriving DecidableEq

namespace Layout

def base (L : Layout) : Region → ℕ
  | .stack => L.stackBase
  | .heap => L.heapBase

def len (L : Layout) : Region → ℕ
  | .stack => L.stackLen
  | .heap => L.heapLen

/-- `size` bytes at `addr` lie in region `r`. -/
def Within (L : Layout) (r : Region) (addr size : ℕ) : Prop :=
  L.base r ≤ addr ∧ addr + size ≤ L.base r + L.len r

instance (L : Layout) (r : Region) (addr size : ℕ) : Decidable (L.Within r addr size) :=
  inferInstanceAs (Decidable (_ ∧ _))

/-- The region and offset of an access, the stack first. -/
def lookup (L : Layout) (addr size : ℕ) : Option (Region × ℕ) :=
  if L.Within .stack addr size then some (.stack, addr - L.base .stack)
  else if L.Within .heap addr size then some (.heap, addr - L.base .heap)
  else none

/-- Neither sum formed to compare with the end of region `r` overflows. -/
def NoOverflow (L : Layout) (r : Region) (addr size : ℕ) : Prop :=
  L.base r ≤ addr → addr + size < 2 ^ 64 ∧ L.base r + L.len r < 2 ^ 64

/-- No sum the bound check forms overflows.  The heap is only compared with when
the stack did not contain the access. -/
def Safe (L : Layout) (addr size : ℕ) : Prop :=
  L.NoOverflow .stack addr size ∧
    (¬ L.Within .stack addr size → L.NoOverflow .heap addr size)

theorem lookup_eq_some {L : Layout} {addr size off : ℕ} {r : Region}
    (h : L.lookup addr size = some (r, off)) :
    addr = L.base r + off ∧ off + size ≤ L.len r := by
  rw [lookup] at h
  split at h
  · rename_i hin
    obtain ⟨rfl, rfl⟩ := Prod.mk.inj (Option.some.inj h)
    obtain ⟨hlo, hhi⟩ := hin
    exact ⟨by omega, by omega⟩
  · split at h
    · rename_i hin
      obtain ⟨rfl, rfl⟩ := Prod.mk.inj (Option.some.inj h)
      obtain ⟨hlo, hhi⟩ := hin
      exact ⟨by omega, by omega⟩
    · exact absurd h (by simp)

end Layout

namespace Memory

variable {w : PtrWidth} {t : Target}

def layout (m : Memory w) : Layout where
  stackBase := m.stackBase.toNat
  stackLen := m.stack.len
  heapBase := m.heapBase.toNat
  heapLen := m.heap.len

theorem layout_base (m : Memory w) (r : Region) : m.layout.base r = (m.base r).toNat := by
  cases r <;> rfl

theorem layout_len (m : Memory w) (r : Region) : m.layout.len r = (m.bytes r).len := by
  cases r <;> rfl

/-- No write changes the layout. -/
theorem layout_setBytes (m : Memory w) (r : Region) {v : Bytes w}
    (h : v.len = (m.bytes r).len) : (m.setBytes r v).layout = m.layout := by
  cases r
  · exact congrArg (Layout.mk _ · _ _) h
  · exact congrArg (Layout.mk _ _ _) h

/-! ## The bound check -/

theorem inRange_of_noOverflow {m : Memory w} {r : Region} {addr : UInt64} {size : ℕ}
    (hsize : size < 2 ^ 64) (h : m.layout.NoOverflow r addr.toNat size) :
    inRange t (m.base r) (m.bytes r).len addr size =
      .ok (decide (m.layout.Within r addr.toNat size)) := by
  have hlen : (m.bytes r).len < 2 ^ 64 := lt_trans (Vec.len_lt _) (by norm_num)
  have hsize' : (UInt64.ofNat size).toNat = size := UInt64.toNat_ofNat_of_lt' hsize
  have hlen' : (UInt64.ofNat (m.bytes r).len).toNat = (m.bytes r).len :=
    UInt64.toNat_ofNat_of_lt' hlen
  rw [Layout.NoOverflow, layout_base, layout_len] at h
  simp only [Layout.Within, layout_base, layout_len]
  rw [inRange]
  by_cases hb : m.base r ≤ addr
  · have hb' : (m.base r).toNat ≤ addr.toNat := UInt64.le_iff_toNat_le.mp hb
    obtain ⟨haddr, hbase⟩ := h hb'
    rw [if_pos hb, Target.addU64_of_lt (by omega), Target.addU64_of_lt (by omega)]
    have hsum : (addr + UInt64.ofNat size).toNat = addr.toNat + size := by
      rw [UInt64.toNat_add, hsize', Nat.mod_eq_of_lt haddr]
    have hend : (m.base r + UInt64.ofNat (m.bytes r).len).toNat =
        (m.base r).toNat + (m.bytes r).len := by
      rw [UInt64.toNat_add, hlen', Nat.mod_eq_of_lt hbase]
    have hcmp : (addr + UInt64.ofNat size ≤ m.base r + UInt64.ofNat (m.bytes r).len) ↔
        (m.base r).toNat ≤ addr.toNat ∧
          addr.toNat + size ≤ (m.base r).toNat + (m.bytes r).len := by
      rw [UInt64.le_iff_toNat_le, hsum, hend]
      exact ⟨fun h => ⟨hb', h⟩, fun h => h.2⟩
    exact congrArg Except.ok (decide_eq_decide.mpr hcmp)
  · have hb' : ¬ (m.base r).toNat ≤ addr.toNat := fun h => hb (UInt64.le_iff_toNat_le.mpr h)
    rw [if_neg hb]
    exact congrArg Except.ok (decide_eq_false fun h => hb' h.1).symm

theorem inRange_of_not_noOverflow {m : Memory w} {r : Region} {addr : UInt64} {size : ℕ}
    (hc : t.overflowChecks = true) (hsize : size < 2 ^ 64)
    (h : ¬ m.layout.NoOverflow r addr.toNat size) :
    inRange t (m.base r) (m.bytes r).len addr size = .error .arithmeticOverflow := by
  have hlen : (m.bytes r).len < 2 ^ 64 := lt_trans (Vec.len_lt _) (by norm_num)
  have hsize' : (UInt64.ofNat size).toNat = size := UInt64.toNat_ofNat_of_lt' hsize
  have hlen' : (UInt64.ofNat (m.bytes r).len).toNat = (m.bytes r).len :=
    UInt64.toNat_ofNat_of_lt' hlen
  rw [Layout.NoOverflow, layout_base, layout_len] at h
  obtain ⟨hb, hover⟩ := Classical.not_imp.mp h
  rw [inRange, if_pos (UInt64.le_iff_toNat_le.mpr hb)]
  by_cases haddr : addr.toNat + size < 2 ^ 64
  · have hbase : 2 ^ 64 ≤ (m.base r).toNat + (m.bytes r).len := by
      by_contra hlt
      exact hover ⟨haddr, by omega⟩
    rw [Target.addU64_of_lt (by omega), Target.addU64, if_pos ⟨hc, by omega⟩]
    rfl
  · rw [Target.addU64, if_pos ⟨hc, by omega⟩]
    rfl

/-- An offset the bound check allows is an offset of the region. -/
theorem pointer_of_within {m : Memory w} {r : Region} {addr : UInt64} {size : ℕ}
    (h : m.layout.Within r addr.toNat size) :
    m.pointer r addr = .ok (r, addr.toNat - m.layout.base r) := by
  obtain ⟨hlo, hhi⟩ := h
  rw [layout_base] at hlo hhi
  rw [layout_len] at hhi
  have hmax := (m.bytes r).len_le
  have hoff : (addr - m.base r).toNat = addr.toNat - (m.base r).toNat :=
    UInt64.toNat_sub_of_le _ _ (UInt64.le_iff_toNat_le.mpr hlo)
  rw [pointer, hoff, PtrWidth.asUsize_of_lt (by omega), if_pos (by omega), layout_base]

/-- **A safe access is resolved by looking it up.** -/
theorem resolve_of_safe {m : Memory t.width} {addr : UInt64} {size : ℕ}
    (hsize : size < 2 ^ 64) (h : m.layout.Safe addr.toNat size) :
    m.resolve t addr size = .ok (m.layout.lookup addr.toNat size) := by
  obtain ⟨hstack, hheap⟩ := h
  have hs : inRange t m.stackBase m.stack.len addr size = .ok _ :=
    inRange_of_noOverflow hsize hstack
  rw [resolve, hs, Layout.lookup]
  by_cases hin : m.layout.Within .stack addr.toNat size
  · rw [if_pos hin, decide_eq_true hin, pointer_of_within hin]
    rfl
  · have hh : inRange t m.heapBase m.heap.len addr size = .ok _ :=
      inRange_of_noOverflow hsize (hheap hin)
    rw [if_neg hin, decide_eq_false hin, hh]
    by_cases hin' : m.layout.Within .heap addr.toNat size
    · rw [if_pos hin', decide_eq_true hin', pointer_of_within hin']
      rfl
    · rw [if_neg hin', decide_eq_false hin']
      rfl

theorem resolve_of_not_safe_of_checks {m : Memory t.width} {addr : UInt64} {size : ℕ}
    (hc : t.overflowChecks = true) (hsize : size < 2 ^ 64)
    (h : ¬ m.layout.Safe addr.toNat size) :
    m.resolve t addr size = .error .arithmeticOverflow := by
  by_cases hstack : m.layout.NoOverflow .stack addr.toNat size
  · have hs : inRange t m.stackBase m.stack.len addr size = .ok _ :=
      inRange_of_noOverflow hsize hstack
    obtain ⟨hin, hheap⟩ := Classical.not_imp.mp fun hheap => h ⟨hstack, hheap⟩
    have hh : inRange t m.heapBase m.heap.len addr size = .error _ :=
      inRange_of_not_noOverflow hc hsize hheap
    rw [resolve, hs, decide_eq_false hin, hh]
    rfl
  · have hs : inRange t m.stackBase m.stack.len addr size = .error _ :=
      inRange_of_not_noOverflow hc hsize hstack
    rw [resolve, hs]
    rfl

/-! ## The memories `Memory::new` builds -/

/-- The regions are where `Memory::new` puts them. -/
def Standard (m : Memory w) : Prop :=
  m.stackBase = stackBaseNew ∧ m.heapBase = heapBaseNew

theorem standard_new {heapSize stackSize : ℕ} {m : Memory w}
    (h : Memory.new w heapSize stackSize = .ok m) : m.Standard := by
  rw [Memory.new] at h
  split at h
  · obtain rfl := Except.ok.inj h
    exact ⟨rfl, rfl⟩
  · exact absurd h (by simp)

/-- In a memory `Memory::new` built, an access is safe when it ends in the address
space. -/
theorem safe_iff_of_standard {m : Memory w} (hm : m.Standard) {addr size : ℕ}
    (hsize : size ≤ 2 ^ 32) : m.layout.Safe addr size ↔ addr + size < 2 ^ 64 := by
  have hstack := Vec.len_lt m.stack
  have hheap := Vec.len_lt m.heap
  have hsb : m.layout.base .stack = 2 ^ 32 := by
    rw [layout_base, base, hm.1]
    rfl
  have hhb : m.layout.base .heap = 3 * 2 ^ 32 := by
    rw [layout_base, base, hm.2]
    rfl
  have hsl : m.layout.len .stack = m.stack.len := rfl
  have hhl : m.layout.len .heap = m.heap.len := rfl
  simp only [Layout.Safe, Layout.NoOverflow, hsb, hhb, hsl, hhl]
  constructor
  · rintro ⟨h, -⟩
    by_contra hge
    exact hge (h (by omega)).1
  · intro h
    exact ⟨fun _ => ⟨h, by omega⟩, fun _ _ => ⟨h, by omega⟩⟩

/-- Without overflow checks the wrapped sum passes the check against the end of
the stack, and then no stack is long enough for the offset. -/
theorem resolve_of_not_safe_of_standard {m : Memory t.width} {addr : UInt64} {size : ℕ}
    (hm : m.Standard) (hsize : size ≤ 8) (h : ¬ m.layout.Safe addr.toNat size) :
    ∃ f, m.resolve t addr size = .error f := by
  by_cases hc : t.overflowChecks = true
  · exact ⟨_, resolve_of_not_safe_of_checks hc (by omega) h⟩
  rw [safe_iff_of_standard hm (by omega), Nat.not_lt] at h
  have haddr := addr.toNat_lt
  have hlen := Vec.len_lt m.stack
  have hmax := m.stack.len_le
  have hsize' : (UInt64.ofNat size).toNat = size := UInt64.toNat_ofNat_of_lt' (by
    show size < 2 ^ 64
    omega)
  have hlen' : (UInt64.ofNat m.stack.len).toNat = m.stack.len :=
    UInt64.toNat_ofNat_of_lt' (by
      show m.stack.len < 2 ^ 64
      omega)
  have hsb : m.stackBase.toNat = 2 ^ 32 := by
    rw [hm.1]
    rfl
  have hge : m.stackBase ≤ addr := by
    rw [UInt64.le_iff_toNat_le, hsb]
    omega
  have hadd : ∀ a b : UInt64, t.addU64 a b = .ok (a + b) := by
    intro a b
    rw [Target.addU64, if_neg fun hcb => hc hcb.1]
  have hle : addr + UInt64.ofNat size ≤ m.stackBase + UInt64.ofNat m.stack.len := by
    rw [UInt64.le_iff_toNat_le, UInt64.toNat_add, UInt64.toNat_add, hsize', hlen', hsb]
    omega
  have hcheck : inRange t m.stackBase m.stack.len addr size = .ok true := by
    rw [inRange, if_pos hge, hadd, hadd]
    exact congrArg Except.ok (decide_eq_true hle)
  have hsub : (addr - m.stackBase).toNat = addr.toNat - 2 ^ 32 := by
    rw [UInt64.toNat_sub_of_le _ _ hge, hsb]
  have hoff : ¬ t.width.asUsize (addr - m.base .stack).toNat ≤ (m.bytes .stack).len := by
    show ¬ t.width.asUsize (addr - m.stackBase).toNat ≤ m.stack.len
    rw [hsub]
    intro hle
    have hle' := hle.trans hmax
    rw [PtrWidth.asUsize] at hle'
    cases hw : t.width <;> rw [hw] at hle' <;>
      simp only [PtrWidth.usizeCard, PtrWidth.isizeMax, PtrWidth.bits] at hle' <;> omega
  refine ⟨.indexOutOfBounds, ?_⟩
  rw [resolve, hcheck]
  show (do return some (← m.pointer .stack addr)) = _
  rw [pointer, if_neg hoff]
  rfl

/-- Unsafe accesses fault: overflow is checked, or the regions are where
`Memory::new` puts them. -/
def Traps (t : Target) (m : Memory t.width) : Prop :=
  t.overflowChecks = true ∨ m.Standard

/-- **An unsafe access faults.** -/
theorem resolve_of_not_safe {m : Memory t.width} {addr : UInt64} {size : ℕ}
    (htrap : m.Traps t) (hsize : size ≤ 8) (h : ¬ m.layout.Safe addr.toNat size) :
    ∃ f, m.resolve t addr size = .error f := by
  rcases htrap with hc | hm
  · exact ⟨_, resolve_of_not_safe_of_checks hc (by omega) h⟩
  · exact resolve_of_not_safe_of_standard hm hsize h

/-! ## Reading and writing by lookup -/

/-- The bytes a read returns, if its bytes are mapped. -/
def get (m : Memory w) (addr size : ℕ) : Option (List UInt8) :=
  (m.layout.lookup addr size).map fun p => window (m.bytes p.1).toList p.2 size

/-- The memory a write leaves, if its bytes are mapped. -/
def put (m : Memory w) (addr : ℕ) (bs : List UInt8) : Option (Memory w) :=
  match h : m.layout.lookup addr bs.length with
  | none => none
  | some (r, off) =>
    some (m.setBytes r ((m.bytes r).overwrite off bs
      ((Layout.lookup_eq_some h).2.trans_eq (m.layout_len r))))

theorem put_eq_some {m m' : Memory w} {addr : ℕ} {bs : List UInt8}
    (h : m.put addr bs = some m') :
    ∃ r off, m.layout.lookup addr bs.length = some (r, off) ∧
      ∃ hfit : off + bs.length ≤ (m.bytes r).len,
        m' = m.setBytes r ((m.bytes r).overwrite off bs hfit) := by
  rw [put] at h
  split at h
  · exact absurd h (by simp)
  · rename_i r off hlook
    exact ⟨r, off, hlook, _, (Option.some.inj h).symm⟩

theorem put_of_lookup_none {m : Memory w} {addr : ℕ} {bs : List UInt8}
    (h : m.layout.lookup addr bs.length = none) : m.put addr bs = none := by
  rw [put]
  split
  · rfl
  · rename_i hsome
    rw [h] at hsome
    exact absurd hsome (by simp)

theorem put_of_lookup_some {m : Memory w} {addr off : ℕ} {bs : List UInt8} {r : Region}
    (h : m.layout.lookup addr bs.length = some (r, off))
    (hfit : off + bs.length ≤ (m.bytes r).len) :
    m.put addr bs = some (m.setBytes r ((m.bytes r).overwrite off bs hfit)) := by
  rw [put]
  split
  · rename_i hnone
    rw [h] at hnone
    exact absurd hnone (by simp)
  · rename_i r' off' hsome
    obtain ⟨rfl, rfl⟩ := Prod.mk.inj (Option.some.inj (h.symm.trans hsome))
    rfl

theorem layout_put {m m' : Memory w} {addr : ℕ} {bs : List UInt8}
    (h : m.put addr bs = some m') : m'.layout = m.layout := by
  obtain ⟨r, off, -, hfit, rfl⟩ := put_eq_some h
  exact layout_setBytes m r (Vec.len_overwrite _ _ _ hfit)

/-- Whether a write is refused depends on where it goes only. -/
theorem put_eq_none_iff {m : Memory w} {addr : ℕ} {bs : List UInt8} :
    m.put addr bs = none ↔ m.layout.lookup addr bs.length = none := by
  refine ⟨fun h => ?_, put_of_lookup_none⟩
  rw [put] at h
  split at h
  · assumption
  · exact absurd h (by simp)

/-- **A write is read back.** -/
theorem get_put_self {m m' : Memory w} {addr : ℕ} {bs : List UInt8}
    (h : m.put addr bs = some m') : m'.get addr bs.length = some bs := by
  have hlayout := layout_put h
  obtain ⟨r, off, hlook, hfit, rfl⟩ := put_eq_some h
  rw [get, hlayout, hlook, Option.map_some, bytes_setBytes_self, Vec.toList_overwrite,
    window_overwrite_self hfit]

/-- **A write elsewhere is not seen.** -/
theorem get_put_of_disjoint {m m' : Memory w} {addr addr' size : ℕ} {bs : List UInt8}
    (h : m.put addr bs = some m')
    (hdisj : addr' + size ≤ addr ∨ addr + bs.length ≤ addr') :
    m'.get addr' size = m.get addr' size := by
  have hlayout := layout_put h
  obtain ⟨r, off, hlook, hfit, rfl⟩ := put_eq_some h
  rw [get, get, hlayout]
  cases hlook' : m.layout.lookup addr' size with
  | none => rfl
  | some p =>
    obtain ⟨r', off'⟩ := p
    rw [Option.map_some, Option.map_some]
    by_cases hr : r' = r
    · subst hr
      have hpos := (Layout.lookup_eq_some hlook).1
      have hpos' := (Layout.lookup_eq_some hlook').1
      rw [bytes_setBytes_self, Vec.toList_overwrite,
        window_overwrite_of_disjoint hfit (by omega)]
    · rw [bytes_setBytes_of_ne m _ hr]

theorem readBytes_of_safe {m : Memory t.width} {addr : UInt64} {size : ℕ}
    (hsize : size < 2 ^ 64) (h : m.layout.Safe addr.toNat size) :
    m.readBytes t addr size = .ok (m.get addr.toNat size) := by
  rw [readBytes, resolve_of_safe hsize h, get]
  cases hlook : m.layout.lookup addr.toNat size with
  | none => rfl
  | some p =>
    obtain ⟨r, off⟩ := p
    have hfit := (Layout.lookup_eq_some hlook).2
    rw [layout_len] at hfit
    show (if _ then _ else _) = _
    rw [if_pos hfit]
    rfl

theorem readBytes_of_not_safe {m : Memory t.width} {addr : UInt64} {size : ℕ}
    (htrap : m.Traps t) (hsize : size ≤ 8) (h : ¬ m.layout.Safe addr.toNat size) :
    ∃ f, m.readBytes t addr size = .error f := by
  obtain ⟨f, hf⟩ := resolve_of_not_safe htrap hsize h
  refine ⟨f, ?_⟩
  rw [readBytes, hf]
  rfl

theorem writeBytes_of_safe {m : Memory t.width} {addr : UInt64} {bs : List UInt8}
    (hsize : bs.length < 2 ^ 64) (h : m.layout.Safe addr.toNat bs.length) :
    m.writeBytes t addr bs = .ok (m.put addr.toNat bs) := by
  rw [writeBytes, resolveMut, resolve_of_safe hsize h]
  cases hlook : m.layout.lookup addr.toNat bs.length with
  | none =>
    rw [put_of_lookup_none hlook]
    rfl
  | some p =>
    obtain ⟨r, off⟩ := p
    have hfit := (Layout.lookup_eq_some hlook).2
    rw [layout_len] at hfit
    rw [put_of_lookup_some hlook hfit]
    show (if _ : _ then _ else _) = _
    rw [dif_pos hfit]
    rfl

theorem writeBytes_of_not_safe {m : Memory t.width} {addr : UInt64} {bs : List UInt8}
    (htrap : m.Traps t) (hsize : bs.length ≤ 8)
    (h : ¬ m.layout.Safe addr.toNat bs.length) :
    ∃ f, m.writeBytes t addr bs = .error f := by
  obtain ⟨f, hf⟩ := resolve_of_not_safe htrap hsize h
  refine ⟨f, ?_⟩
  rw [writeBytes, resolveMut, hf]
  rfl

/-- Whatever the target, a write that happens keeps the layout. -/
theorem layout_writeBytes {m m' : Memory t.width} {addr : UInt64} {bs : List UInt8}
    (h : m.writeBytes t addr bs = .ok (some m')) : m'.layout = m.layout := by
  rw [writeBytes, bind_eq_ok] at h
  obtain ⟨p, -, h⟩ := h
  cases p with
  | none => exact absurd (Except.ok.inj h) (by simp)
  | some p =>
    obtain ⟨r, off⟩ := p
    dsimp only at h
    split at h
    · rename_i hfit
      obtain rfl := Option.some.inj (Except.ok.inj h)
      exact layout_setBytes m r (Vec.len_overwrite _ _ _ hfit)
    · exact absurd h (by simp)

theorem standard_congr {m m' : Memory w} (h : m'.layout = m.layout) :
    m'.Standard ↔ m.Standard := by
  have hs : m'.stackBase = m.stackBase := UInt64.toNat_inj.mp (congrArg Layout.stackBase h)
  have hh : m'.heapBase = m.heapBase := UInt64.toNat_inj.mp (congrArg Layout.heapBase h)
  rw [Standard, Standard, hs, hh]

theorem traps_congr {m m' : Memory t.width} (h : m'.layout = m.layout) :
    m'.Traps t ↔ m.Traps t := by
  rw [Traps, Traps, standard_congr h]

/-! ## Loads and stores -/

theorem length_of_readBytes {m : Memory t.width} {addr : UInt64} {size : ℕ} {bs : List UInt8}
    (h : m.readBytes t addr size = .ok (some bs)) : bs.length = size := by
  rw [readBytes, bind_eq_ok] at h
  obtain ⟨p, -, h⟩ := h
  cases p with
  | none => exact absurd (Except.ok.inj h) (by simp)
  | some p =>
    obtain ⟨r, off⟩ := p
    dsimp only at h
    split at h
    · rename_i hfit
      obtain rfl := Option.some.inj (Except.ok.inj h)
      exact length_window hfit
    · exact absurd h (by simp)

/-- A load of any width reads its bytes as one little-endian number. -/
theorem load_eq (m : Memory t.width) (n : Width) (addr : UInt64) :
    m.load t n addr =
      (do return (← m.readBytes t addr n.size).map fun bs => UInt64.ofNat (ofLe bs)) := by
  have hwiden : ∀ {k : ℕ} {bs : List UInt8}, m.readBytes t addr k = .ok (some bs) →
      ofLe bs < 256 ^ k := by
    intro k bs h
    rw [← length_of_readBytes h]
    exact ofLe_lt bs
  cases n with
  | b8 => rfl
  | b1 | b2 | b4 =>
    simp only [load, readU8, readU16, readU32, Width.size]
    cases h : m.readBytes t addr _ with
    | error f => rfl
    | ok r =>
      cases r with
      | none => rfl
      | some bs =>
        have hlt := hwiden h
        refine congrArg (fun v => Except.ok (some v)) (UInt64.toNat_inj.mp ?_)
        simp only [UInt8.toNat_toUInt64, UInt16.toNat_toUInt64, UInt32.toNat_toUInt64,
          UInt8.toNat_ofNat', UInt16.toNat_ofNat', UInt32.toNat_ofNat', UInt64.toNat_ofNat']
        omega

/-- The bytes a register store writes. -/
def regBytes : Width → UInt64 → List UInt8
  | .b1, v => toLe 1 v.toUInt8.toNat
  | .b2, v => toLe 2 v.toUInt16.toNat
  | .b4, v => toLe 4 v.toUInt32.toNat
  | .b8, v => toLe 8 v.toNat

/-- The bytes an immediate store writes. -/
def immBytes : Width → Int32 → List UInt8
  | .b1, imm => toLe 1 imm.toInt8.toUInt8.toNat
  | .b2, imm => toLe 2 imm.toInt16.toUInt16.toNat
  | .b4, imm => toLe 4 imm.toUInt32.toNat
  | .b8, imm => toLe 8 imm.toInt64.toUInt64.toNat

@[simp] theorem length_regBytes (n : Width) (v : UInt64) : (regBytes n v).length = n.size := by
  cases n <;> exact length_toLe _ _

@[simp] theorem length_immBytes (n : Width) (imm : Int32) :
    (immBytes n imm).length = n.size := by
  cases n <;> exact length_toLe _ _

theorem storeReg_eq (m : Memory t.width) (n : Width) (addr v : UInt64) :
    m.storeReg t n addr v = m.writeBytes t addr (regBytes n v) := by
  cases n <;> rfl

theorem storeImm_eq (m : Memory t.width) (n : Width) (addr : UInt64) (imm : Int32) :
    m.storeImm t n addr imm = m.writeBytes t addr (immBytes n imm) := by
  cases n <;> rfl

end Memory

theorem Width.size_le (n : Width) : n.size ≤ 8 := by
  cases n <;> decide

theorem Width.size_pos (n : Width) : 0 < n.size := by
  cases n <;> decide

end Tuniq
