import Tuniq.Interpreter.MemoryRules

/-!
# Accesses that go through are safe

The bound check of an access forms two sums.  With overflow checks a check that passes is
right about where the access ends.  Without them a sum may wrap around and pass, and then
the offset into the region, cut to a `usize`, decides whether anything is read or written.

It leaves no room for the access when the region is well placed: it does not reach a
multiple of the number of `usize` values (`Memory.WellPlaced`).  So on such memories too an
access that goes through overflows no sum (`safe_of_fits`).  Every memory of `Memory::new`
is one (`wellPlaced_of_standard`).
-/

namespace Tuniq
namespace Memory

variable {w : PtrWidth} {t : Target}

/-- No region reaches a multiple of the number of `usize` values. -/
def WellPlaced (m : Memory w) : Prop :=
  ∀ r, (m.base r).toNat % w.usizeCard + (m.bytes r).len < w.usizeCard

/-- The memories `Memory::new` builds are well placed. -/
theorem wellPlaced_of_standard {m : Memory w} (hm : m.Standard) : m.WellPlaced := by
  intro r
  have hlen := (m.bytes r).len_le
  have hbase : (m.base r).toNat = 2 ^ 32 ∨ (m.base r).toNat = 3 * 2 ^ 32 := by
    cases r with
    | stack =>
      rw [base, hm.1]
      exact Or.inl rfl
    | heap =>
      rw [base, hm.2]
      exact Or.inr rfl
  cases w <;> simp only [PtrWidth.isizeMax, PtrWidth.usizeCard, PtrWidth.bits] at hlen ⊢ <;>
    omega

/-- In a well-placed region the offset of an access behind the end of the address space
does not leave room for the access. -/
theorem len_lt_of_wrapped {card base len addr size : ℕ} (hcard : card = 2 ^ 32 ∨ card = 2 ^ 64)
    (hplaced : base % card + len < card) (hsize : size ≤ 8) (hbase : base ≤ addr)
    (haddr : addr < 2 ^ 64) (hover : 2 ^ 64 ≤ addr + size) :
    len < (addr - base) % card + size := by
  rcases hcard with rfl | rfl <;> omega

/-- A resolved access begins behind the base of its region, at the offset cut to a
`usize`. -/
theorem resolve_eq_some {m : Memory t.width} {addr : UInt64} {size off : ℕ} {r : Region}
    (h : m.resolve t addr size = .ok (some (r, off))) :
    (m.base r).toNat ≤ addr.toNat ∧
      off = t.width.asUsize (addr.toNat - (m.base r).toNat) := by
  have hregion : ∀ r' : Region, inRange t (m.base r') (m.bytes r').len addr size = .ok true →
      m.pointer r' addr = .ok (r, off) → (m.base r).toNat ≤ addr.toNat ∧
        off = t.width.asUsize (addr.toNat - (m.base r).toNat) := by
    intro r' hin hptr
    unfold pointer at hptr
    dsimp only at hptr
    split at hptr
    · obtain ⟨rfl, rfl⟩ := Prod.mk.inj (Except.ok.inj hptr)
      unfold inRange at hin
      split at hin
      · rename_i hle
        exact ⟨UInt64.le_iff_toNat_le.mp hle, by rw [UInt64.toNat_sub_of_le _ _ hle]⟩
      · exact absurd (Except.ok.inj hin) (by simp)
    · exact absurd hptr (by simp)
  obtain ⟨b, hstack, h⟩ := bind_eq_ok.mp h
  cases b with
  | true =>
    obtain ⟨p, hp, h⟩ := bind_eq_ok.mp h
    obtain rfl := Option.some.inj (Except.ok.inj h)
    exact hregion .stack hstack hp
  | false =>
    obtain ⟨b, hheap, h⟩ := bind_eq_ok.mp h
    cases b with
    | true =>
      obtain ⟨p, hp, h⟩ := bind_eq_ok.mp h
      obtain rfl := Option.some.inj (Except.ok.inj h)
      exact hregion .heap hheap hp
    | false => exact absurd (Except.ok.inj h) (by simp)

/-- **An access that fits behind its offset overflows no sum.** -/
theorem safe_of_fits {m : Memory t.width} {addr : UInt64} {size off : ℕ} {r : Region}
    (hplaced : t.overflowChecks = true ∨ m.WellPlaced) (hsize : size ≤ 8)
    (h : m.resolve t addr size = .ok (some (r, off))) (hfit : off + size ≤ (m.bytes r).len) :
    m.layout.Safe addr.toNat size := by
  rcases hplaced with hc | hplaced
  · by_contra hunsafe
    rw [resolve_of_not_safe_of_checks hc (by omega) hunsafe] at h
    exact absurd h (by simp)
  · obtain ⟨hbase, rfl⟩ := resolve_eq_some h
    have hcard : t.width.usizeCard = 2 ^ 32 ∨ t.width.usizeCard = 2 ^ 64 := by
      cases t.width with
      | w32 => exact Or.inl rfl
      | w64 => exact Or.inr rfl
    have hend : ∀ r, m.layout.base r + m.layout.len r < 2 ^ 64 := by
      intro r
      have hr := hplaced r
      have hlt := (m.base r).toNat_lt
      rw [layout_base, layout_len]
      rcases hcard with hcard | hcard <;> rw [hcard] at hr <;> omega
    have haddr : addr.toNat + size < 2 ^ 64 := by
      by_contra hover
      have hlt := len_lt_of_wrapped hcard (hplaced r) hsize hbase addr.toNat_lt (by omega)
      unfold PtrWidth.asUsize at hfit
      omega
    exact ⟨fun _ => ⟨haddr, hend _⟩, fun _ _ => ⟨haddr, hend _⟩⟩

theorem safe_of_readBytes {m : Memory t.width} {addr : UInt64} {size : ℕ} {bs : List UInt8}
    (hplaced : t.overflowChecks = true ∨ m.WellPlaced) (hsize : size ≤ 8)
    (h : m.readBytes t addr size = .ok (some bs)) : m.layout.Safe addr.toNat size := by
  obtain ⟨p, hp, h⟩ := bind_eq_ok.mp h
  cases p with
  | none => exact absurd (Except.ok.inj h) (by simp)
  | some p =>
    obtain ⟨r, off⟩ := p
    dsimp only at h
    split at h
    · rename_i hfit
      exact safe_of_fits hplaced hsize hp hfit
    · exact absurd h (by simp)

theorem safe_of_writeBytes {m m' : Memory t.width} {addr : UInt64} {bs : List UInt8}
    (hplaced : t.overflowChecks = true ∨ m.WellPlaced) (hsize : bs.length ≤ 8)
    (h : m.writeBytes t addr bs = .ok (some m')) : m.layout.Safe addr.toNat bs.length := by
  obtain ⟨p, hp, h⟩ := bind_eq_ok.mp h
  cases p with
  | none => exact absurd (Except.ok.inj h) (by simp)
  | some p =>
    obtain ⟨r, off⟩ := p
    dsimp only at h
    split at h
    · rename_i hfit
      exact safe_of_fits hplaced hsize hp hfit
    · exact absurd h (by simp)

theorem len_congr {m m' : Memory w} (h : m'.layout = m.layout) (r : Region) :
    (m'.bytes r).len = (m.bytes r).len := by
  rw [← layout_len, ← layout_len, h]

theorem base_congr {m m' : Memory w} (h : m'.layout = m.layout) (r : Region) :
    m'.base r = m.base r := by
  refine UInt64.toNat_inj.mp ?_
  rw [← layout_base, ← layout_base, h]

/-- A write leaves the regions where they are. -/
theorem wellPlaced_congr {m m' : Memory w} (h : m'.layout = m.layout) :
    m'.WellPlaced ↔ m.WellPlaced := by
  unfold WellPlaced
  simp only [base_congr h, len_congr h]

end Memory
end Tuniq
