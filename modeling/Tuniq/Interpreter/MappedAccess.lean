import Tuniq.Interpreter.MemoryRules

/-!
# Accesses and mapped bytes

An access of `n` bytes should succeed exactly when all its bytes are mapped, by one
region, and be refused otherwise.  The bound check decides that with a sum,
`addr + size <= base + len`, and the sum is formed on `u64`: an access that would
end behind the last address overflows before it can be refused.

`access_mapped_iff` says that this is the only way the check is wrong.  In a memory
whose regions are where `Memory::new` puts them, an access behaves as it should if and
only if it ends in the address space; an access that does not, faults.
-/

namespace Tuniq

/-- Region `r` maps the byte at `addr`. -/
def Layout.Maps (L : Layout) (r : Region) (addr : ℕ) : Prop :=
  L.base r ≤ addr ∧ addr < L.base r + L.len r

/-- A stretch lies in a region when the region maps each of its bytes. -/
theorem Layout.within_iff_maps {L : Layout} {r : Region} {addr size : ℕ} (hsize : 0 < size) :
    L.Within r addr size ↔ ∀ i, i < size → L.Maps r (addr + i) := by
  constructor
  · rintro ⟨hlo, hhi⟩ i hi
    exact ⟨by omega, by omega⟩
  · intro h
    have hfirst := h 0 hsize
    have hlast := h (size - 1) (by omega)
    exact ⟨hfirst.1, by have := hlast.2; omega⟩

/-- The regions have no address in common. -/
def Layout.Disjoint (L : Layout) : Prop :=
  ∀ addr, ¬ (L.Maps .stack addr ∧ L.Maps .heap addr)

namespace Memory

variable {w : PtrWidth} {t : Target}

/-- All bytes of an access are in the stack, or all are in the heap. -/
def AllMapped (m : Memory w) (n : Width) (addr : UInt64) : Prop :=
  ∃ r, ∀ i, i < n.size → m.layout.Maps r (addr.toNat + i)

/-- What the read and the write of `n` bytes should do: succeed when all the bytes are
mapped by one region, and return `None` otherwise. -/
structure AccessMapped (t : Target) (m : Memory t.width) (n : Width) (addr : UInt64) : Prop where
  read : m.AllMapped n addr → ∃ v, m.load t n addr = .ok (some v)
  write : m.AllMapped n addr → ∀ v, ∃ m', m.storeReg t n addr v = .ok (some m')
  readNone : ¬ m.AllMapped n addr → m.load t n addr = .ok none
  writeNone : ¬ m.AllMapped n addr → ∀ v, m.storeReg t n addr v = .ok none

theorem allMapped_iff {m : Memory w} {n : Width} {addr : UInt64} :
    m.AllMapped n addr ↔ m.layout.lookup addr.toNat n.size ≠ none := by
  have hwithin : m.AllMapped n addr ↔ ∃ r, m.layout.Within r addr.toNat n.size :=
    exists_congr fun r => (Layout.within_iff_maps n.size_pos).symm
  rw [hwithin, Layout.lookup]
  constructor
  · rintro ⟨r, hr⟩
    split
    · simp
    · rename_i hstack
      cases r with
      | stack => exact absurd hr hstack
      | heap => simp [hr]
  · intro h
    split at h
    · rename_i hstack
      exact ⟨.stack, hstack⟩
    · split at h
      · rename_i hheap
        exact ⟨.heap, hheap⟩
      · exact absurd rfl h

/-- A safe access is answered by looking its bytes up. -/
theorem accessMapped_of_safe {m : Memory t.width} {n : Width} {addr : UInt64}
    (h : m.layout.Safe addr.toNat n.size) : m.AccessMapped t n addr := by
  have hsize := n.size_le
  have hread : m.load t n addr =
      .ok ((m.get addr.toNat n.size).map fun bs => UInt64.ofNat (ofLe bs)) := by
    rw [load_eq, readBytes_of_safe (by omega) h]
    rfl
  have hwrite : ∀ v, m.storeReg t n addr v = .ok (m.put addr.toNat (regBytes n v)) := by
    intro v
    rw [← length_regBytes n v] at h
    rw [storeReg_eq, writeBytes_of_safe (by rw [length_regBytes]; omega) h]
  refine ⟨fun hm => ?_, fun hm v => ?_, fun hm => ?_, fun hm v => ?_⟩
  · obtain ⟨⟨r, off⟩, hlook⟩ := Option.ne_none_iff_exists'.mp (allMapped_iff.mp hm)
    rw [hread, get, hlook]
    exact ⟨_, rfl⟩
  · rw [hwrite]
    cases hput : m.put addr.toNat (regBytes n v) with
    | some m' => exact ⟨m', rfl⟩
    | none =>
      rw [put_eq_none_iff, length_regBytes] at hput
      exact absurd hput (allMapped_iff.mp hm)
  · have hlook := not_not.mp (mt allMapped_iff.mpr hm)
    rw [hread, get, hlook]
    rfl
  · have hlook := not_not.mp (mt allMapped_iff.mpr hm)
    rw [hwrite, put_eq_none_iff.mpr (by rw [length_regBytes]; exact hlook)]

/-- Nothing is mapped behind the end of the address space. -/
theorem not_allMapped_of_standard {m : Memory w} (hm : m.Standard) {n : Width} {addr : UInt64}
    (h : 2 ^ 64 ≤ addr.toNat + n.size) : ¬ m.AllMapped n addr := by
  rintro ⟨r, hr⟩
  have hpos := n.size_pos
  obtain ⟨-, hlast⟩ := hr (n.size - 1) (by omega)
  have hbase : m.layout.base r ≤ 3 * 2 ^ 32 := by
    rw [layout_base]
    cases r with
    | stack =>
      rw [base, hm.1]
      decide
    | heap =>
      rw [base, hm.2]
      decide
  have hlen := Vec.len_lt (m.bytes r)
  rw [layout_len] at hlast
  omega

/-- **When an access behaves as it should.**  In a memory whose regions are where
`Memory::new` puts them, whatever their lengths, and for every width and address: the
read and the write succeed when all bytes are mapped by one region and return `None`
otherwise, if and only if the access ends in the address space. -/
theorem access_mapped_iff {m : Memory t.width} (hm : m.Standard) (n : Width) (addr : UInt64) :
    m.AccessMapped t n addr ↔ addr.toNat + n.size < 2 ^ 64 := by
  have hsize := n.size_le
  have hsafe : m.layout.Safe addr.toNat n.size ↔ addr.toNat + n.size < 2 ^ 64 :=
    safe_iff_of_standard hm (by omega)
  constructor
  · intro h
    by_contra hge
    have hnone := h.readNone (not_allMapped_of_standard hm (Nat.le_of_not_lt hge))
    obtain ⟨f, hf⟩ := readBytes_of_not_safe (t := t) (Or.inr hm) hsize (mt hsafe.mp hge)
    rw [load_eq, hf] at hnone
    exact absurd hnone (by simp)
  · intro hlt
    exact accessMapped_of_safe (hsafe.mpr hlt)

/-- A memory with two regions of eight bytes. -/
def smallMemory : Memory .w64 where
  heap := Vec.zeroed 8 (by decide)
  stack := Vec.zeroed 8 (by decide)
  stackBase := stackBaseNew
  heapBase := heapBaseNew

theorem new_smallMemory : Memory.new .w64 8 8 = .ok smallMemory := by
  rw [Memory.new, dif_pos ⟨by decide, by decide⟩]
  rfl

/-- The first eight bytes of the stack can be accessed. -/
theorem access_mapped_smallMemory :
    smallMemory.AccessMapped ⟨.w64, true⟩ .b8 stackBaseNew :=
  (access_mapped_iff (t := ⟨.w64, true⟩) (standard_new new_smallMemory) .b8 stackBaseNew).mpr
    (by decide)

theorem disjoint_smallMemory : smallMemory.layout.Disjoint := by
  rintro addr ⟨⟨-, hstack⟩, hheap, -⟩
  have hend : smallMemory.layout.base .stack + smallMemory.layout.len .stack = 2 ^ 32 + 8 := by
    decide
  have hbase : smallMemory.layout.base .heap = 3 * 2 ^ 32 := by decide
  omega

/-- **The last address is not refused**: reading the byte there panics. -/
theorem access_at_last_address :
    ¬ ∀ (t : Target) (heapSize stackSize : ℕ) (m : Memory t.width) (n : Width) (addr : UInt64),
      Memory.new t.width heapSize stackSize = .ok m → m.layout.Disjoint →
        m.AccessMapped t n addr := by
  intro hall
  have h := hall ⟨.w64, true⟩ 8 8 smallMemory .b1 0xFFFFFFFFFFFFFFFF new_smallMemory
    disjoint_smallMemory
  have hm := standard_new new_smallMemory
  have hunsafe : ¬ smallMemory.layout.Safe (0xFFFFFFFFFFFFFFFF : UInt64).toNat Width.b1.size := by
    rw [safe_iff_of_standard hm (by decide)]
    decide
  obtain ⟨f, hf⟩ := readBytes_of_not_safe (t := ⟨.w64, true⟩) (Or.inl rfl) (Width.size_le .b1)
    hunsafe
  have hnone := h.readNone (not_allMapped_of_standard hm (by decide))
  rw [load_eq, hf] at hnone
  exact absurd hnone (by simp)

end Memory

end Tuniq
