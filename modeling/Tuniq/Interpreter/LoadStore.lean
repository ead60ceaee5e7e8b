import Tuniq.Interpreter.Copying

/-!
# Loads after stores

Four reads and four writes, of one, two, four and eight bytes at any address, over two
regions.  They are to be one store of bytes seen at four widths, and `StoreLaws` says what
that means for a write that went through: it is read back, what is read anywhere else is
as before, a read of several bytes is the little-endian combination of the reads of its
bytes, and no access is accepted or refused that was not before.

Two assumptions make this so.  The regions share no address, or an access that begins in
the stack and ends in the heap would be answered by neither while its bytes are.  And a
bound check that goes through is right about where the access ends.  Overflow checks see
to the second, and without them it is enough that no region reaches a multiple of the
number of `usize` values, as none does that `Memory::new` builds
(`wellPlaced_of_standard`).

Without either, the sum of a bound check may wrap around and pass, and the offset from the
base of the region, cut to a `usize`, may fall into the region.  `store_aliased` is such a
store, at the last address and on a 32-bit target: it changes a byte four gigabytes above
address zero.
-/

namespace Tuniq

/-- An access that was found, by sums that did not overflow, lies in a region. -/
theorem Layout.encloses_of_lookup {L : Layout} {addr size off : ℕ} {r : Region}
    (hsafe : L.Safe addr size) (hlook : L.lookup addr size = some (r, off)) :
    L.Encloses r addr size := by
  obtain ⟨haddr, hfit⟩ := lookup_eq_some hlook
  have hend : L.base r + L.len r < 2 ^ 64 := by
    cases r with
    | stack => exact (hsafe.1 (by omega)).2
    | heap =>
      have hout : ¬ L.Within .stack addr size := by
        intro hin
        rw [lookup, if_pos hin] at hlook
        exact absurd hlook (by simp)
      exact (hsafe.2 hout (by omega)).2
  intro i hi
  exact ⟨⟨by omega, by omega⟩, hend⟩

namespace Memory

variable {w : PtrWidth} {t : Target}

/-! ## Acceptance depends on the layout -/

theorem resolve_congr {m m' : Memory t.width} (h : m'.layout = m.layout) (addr : UInt64)
    (size : ℕ) : m'.resolve t addr size = m.resolve t addr size := by
  have hbase := base_congr h
  have hp : ∀ r, m'.pointer r addr = m.pointer r addr := by
    intro r
    unfold pointer
    rw [hbase, len_congr h]
  have hs : m'.stackBase = m.stackBase := hbase .stack
  have hh : m'.heapBase = m.heapBase := hbase .heap
  have hsl : m'.stack.len = m.stack.len := len_congr h .stack
  have hhl : m'.heap.len = m.heap.len := len_congr h .heap
  unfold resolve
  rw [hs, hsl, hh, hhl, hp, hp]

/-- Whether a read is accepted does not depend on what the bytes are. -/
theorem isSome_readBytes_congr {m m' : Memory t.width} (h : m'.layout = m.layout)
    (addr : UInt64) (size : ℕ) :
    (m'.readBytes t addr size).map Option.isSome =
      (m.readBytes t addr size).map Option.isSome := by
  unfold readBytes
  rw [resolve_congr h]
  cases m.resolve t addr size with
  | error f => rfl
  | ok p =>
    cases p with
    | none => rfl
    | some p =>
      obtain ⟨r, off⟩ := p
      rw [ok_bind, ok_bind]
      dsimp only
      rw [len_congr h]
      split <;> rfl

/-- Neither is whether a write is. -/
theorem isSome_writeBytes_congr {m m' : Memory t.width} (h : m'.layout = m.layout)
    (addr : UInt64) (bs : List UInt8) :
    (m'.writeBytes t addr bs).map Option.isSome =
      (m.writeBytes t addr bs).map Option.isSome := by
  unfold writeBytes resolveMut
  rw [resolve_congr h]
  cases m.resolve t addr bs.length with
  | error f => rfl
  | ok p =>
    cases p with
    | none => rfl
    | some p =>
      obtain ⟨r, off⟩ := p
      rw [ok_bind, ok_bind]
      dsimp only
      have hlen := len_congr h r
      split <;> split <;> first | rfl | omega

theorem isSome_load (m : Memory t.width) (n : Width) (addr : UInt64) :
    (m.load t n addr).map Option.isSome =
      (m.readBytes t addr n.size).map Option.isSome := by
  rw [load_eq]
  cases m.readBytes t addr n.size with
  | error f => rfl
  | ok r => cases r <;> rfl

/-! ## The laws of a store -/

/-- A read of several bytes is the little-endian combination of the reads of its bytes. -/
def ReadsBytes (t : Target) (m : Memory t.width) : Prop :=
  ∀ (n : Width) (addr v : UInt64), m.load t n addr = .ok (some v) →
    ∃ bs : List UInt8, bs.length = n.size ∧ v.toNat = ofLe bs ∧
      ∀ i, i < n.size → m.readU8 t (addr + UInt64.ofNat i) = .ok bs[i]?

/-- What holds of the memory `m'` behind a write of `v` at `a`, `n` bytes wide. -/
structure StoreLaws (t : Target) (m m' : Memory t.width) (n : Width) (a v : UInt64) : Prop where
  readBack : m'.load t n a = .ok (some (UInt64.ofNat (v.toNat % 256 ^ n.size)))
  bytewise : m'.ReadsBytes t
  frame : AgreeOutside byteAt (span a.toNat n.size) m m'
  elsewhere : ∀ (k : Width) (x : UInt64),
    x.toNat + k.size ≤ a.toNat ∨ a.toNat + n.size ≤ x.toNat → m'.load t k x = m.load t k x
  loads : ∀ (k : Width) (x : UInt64),
    (m'.load t k x).map Option.isSome = (m.load t k x).map Option.isSome
  stores : ∀ (k : Width) (x u : UInt64),
    (m'.storeReg t k x u).map Option.isSome = (m.storeReg t k x u).map Option.isSome

/-- A register store writes the low bytes of the register. -/
theorem ofLe_regBytes (n : Width) (v : UInt64) : ofLe (regBytes n v) = v.toNat % 256 ^ n.size := by
  have hlt := v.toNat_lt
  cases n <;> unfold regBytes Width.size <;> rw [ofLe_toLe] <;>
    simp only [UInt64.toNat_toUInt8, UInt64.toNat_toUInt16, UInt64.toNat_toUInt32] <;> omega

/-- A byte that a region maps is read. -/
theorem readU8_of_maps {m : Memory t.width} {a : UInt64} {r : Region} (hd : m.layout.Disjoint)
    (h : m.layout.Maps r a.toNat) (hend : m.layout.base r + m.layout.len r < 2 ^ 64) :
    m.readU8 t a = .ok (m.byteAt (r, a.toNat)) := by
  obtain ⟨b, hb⟩ := Option.ne_none_iff_exists'.mp (byteAt_ne_none_iff (c := (r, a.toNat)).mpr h)
  have hbyte := hb
  unfold byteAt at hbyte
  rw [if_pos h.1] at hbyte
  unfold readU8
  rw [readBytes_of_safe (by norm_num) (hd.safe h hend), hb, get, hd.lookup_eq h,
    Option.map_some, window_one hbyte]
  have hone : UInt8.ofNat (ofLe [b]) = b := by
    rw [ofLe_cons, ofLe_nil, Nat.mul_zero, Nat.add_zero, UInt8.ofNat_toNat]
  exact congrArg (fun b => Except.ok (some b)) hone

/-- **Reads of several bytes** are made of reads of single bytes. -/
theorem readsBytes {m : Memory t.width} (hd : m.layout.Disjoint)
    (hplaced : t.overflowChecks = true ∨ m.WellPlaced) : m.ReadsBytes t := by
  intro n addr v h
  have hsize := n.size_le
  rw [load_eq] at h
  obtain ⟨r, hread, h⟩ := bind_eq_ok.mp h
  obtain ⟨bs, rfl, hv⟩ := Option.map_eq_some_iff.mp (Except.ok.inj h)
  have hlen := length_of_readBytes hread
  have hsafe := safe_of_readBytes hplaced hsize hread
  rw [readBytes_of_safe (by omega) hsafe] at hread
  obtain ⟨⟨r, off⟩, hlook, rfl⟩ := Option.map_eq_some_iff.mp (Except.ok.inj hread)
  obtain ⟨haddr, hfit⟩ := Layout.lookup_eq_some hlook
  have hencl := Layout.encloses_of_lookup hsafe hlook
  refine ⟨_, hlen, ?_, fun i hi => ?_⟩
  · have hlt := ofLe_lt (window (m.bytes r).toList off n.size)
    have hpow : 256 ^ n.size ≤ 256 ^ 8 := Nat.pow_le_pow_right (by norm_num) hsize
    rw [hlen] at hlt
    rw [← hv, UInt64.toNat_ofNat_of_lt']
    exact lt_of_lt_of_le hlt hpow
  · obtain ⟨hmaps, hend⟩ := hencl i hi
    have hbyte : (addr + UInt64.ofNat i).toNat = addr.toNat + i := by
      have hlt := hmaps.2
      rw [UInt64.toNat_add, UInt64.toNat_ofNat_of_lt' (by
        show i < 2 ^ 64
        omega), Nat.mod_eq_of_lt (by omega)]
    rw [readU8_of_maps (r := r) hd (hbyte ▸ hmaps) hend, hbyte]
    unfold byteAt
    dsimp only
    rw [if_pos hmaps.1, getElem?_window, if_pos hi]
    congr 2
    omega

/-- **What is read elsewhere** is as before, whether the access goes through or not. -/
theorem load_put_of_disjoint {m m' : Memory t.width} {addr : ℕ} {bs : List UInt8} {k : Width}
    {x : UInt64} (hplaced : t.overflowChecks = true ∨ m.WellPlaced)
    (h : m.put addr bs = some m')
    (hdisj : x.toNat + k.size ≤ addr ∨ addr + bs.length ≤ x.toNat) :
    m'.load t k x = m.load t k x := by
  have hlayout := layout_put h
  have hsize := k.size_le
  rw [load_eq, load_eq]
  by_cases hsafe : m.layout.Safe x.toNat k.size
  · rw [readBytes_of_safe (by omega) hsafe,
      readBytes_of_safe (by omega) (by rw [hlayout]; exact hsafe),
      get_put_of_disjoint h hdisj]
  · -- an access that is not safe is answered by no bytes
    have hread : m'.readBytes t x k.size = m.readBytes t x k.size := by
      unfold readBytes
      rw [resolve_congr hlayout]
      cases hres : m.resolve t x k.size with
      | error f => rfl
      | ok p =>
        cases p with
        | none => rfl
        | some p =>
          obtain ⟨r, off⟩ := p
          have hfit : ¬ off + k.size ≤ (m.bytes r).len := fun hfit =>
            hsafe (safe_of_fits hplaced hsize hres hfit)
          rw [ok_bind, ok_bind]
          dsimp only
          rw [len_congr hlayout, if_neg hfit, if_neg hfit]
    rw [hread]

/-- **The algebra of loads and stores.**  In every memory whose regions share no address,
with overflow checks or where no region reaches a multiple of the number of `usize`
values, and for every width, address and value: a store that goes through obeys the laws
of a store. -/
theorem store_laws {m m' : Memory t.width} {n : Width} {a v : UInt64}
    (hd : m.layout.Disjoint) (hplaced : t.overflowChecks = true ∨ m.WellPlaced)
    (h : m.storeReg t n a v = .ok (some m')) : StoreLaws t m m' n a v := by
  have hsize := n.size_le
  have hlen := length_regBytes n v
  rw [storeReg_eq] at h
  have hlayout := layout_writeBytes h
  have hsafe := safe_of_writeBytes hplaced (by omega) h
  rw [writeBytes_of_safe (by omega) hsafe] at h
  have hput := Except.ok.inj h
  have hplaced' : t.overflowChecks = true ∨ m'.WellPlaced :=
    hplaced.imp_right (wellPlaced_congr hlayout).mpr
  refine ⟨?_, readsBytes (hlayout ▸ hd) hplaced', ?_, fun k x hdisj => ?_, fun k x => ?_,
    fun k x u => ?_⟩
  · have hget := get_put_self hput
    rw [hlen] at hsafe hget
    rw [load_eq, readBytes_of_safe (by omega) (by rw [hlayout]; exact hsafe), hget,
      ← ofLe_regBytes]
    rfl
  · obtain ⟨r, hr⟩ := agreeOutside_put hput
    rw [hlen] at hr
    exact hr.mono fun c hc => hc.2
  · exact load_put_of_disjoint hplaced hput (by rw [hlen]; exact hdisj)
  · rw [isSome_load, isSome_load, isSome_readBytes_congr hlayout]
  · rw [storeReg_eq, storeReg_eq, isSome_writeBytes_congr hlayout]

/-- Four bytes in the middle of the stack, on a target without overflow checks. -/
theorem store_laws_smallMemory :
    ∃ m', smallMemory.storeReg ⟨.w64, false⟩ .b4 (stackBaseNew + 3) 0xDEADBEEF =
        .ok (some m') ∧
      StoreLaws ⟨.w64, false⟩ smallMemory m' .b4 (stackBaseNew + 3) 0xDEADBEEF := by
  have hm := standard_new new_smallMemory
  have hstore : ∃ m', smallMemory.storeReg ⟨.w64, false⟩ .b4 (stackBaseNew + 3) 0xDEADBEEF =
      .ok (some m') := ⟨_, rfl⟩
  obtain ⟨m', hm'⟩ := hstore
  have hplaced : (Target.mk .w64 false).overflowChecks = true ∨ smallMemory.WellPlaced :=
    Or.inr (wellPlaced_of_standard hm)
  exact ⟨m', hm', store_laws disjoint_smallMemory hplaced hm'⟩

/-- A memory of one byte, at an address that is one below a multiple of `2 ^ 32`. -/
def farMemory : Memory .w32 where
  heap := Vec.zeroed 0 (by decide)
  stack := Vec.zeroed 1 (by decide)
  stackBase := 0xFFFFFFFF
  heapBase := heapBaseNew

theorem disjoint_farMemory : farMemory.layout.Disjoint := by
  rintro addr ⟨-, hlo, hhi⟩
  have hlen : farMemory.layout.len .heap = 0 := rfl
  omega

/-- **A store at the last address reaches a byte elsewhere**, when the sum of the bound
check may wrap around. -/
theorem store_aliased :
    ¬ ∀ (t : Target) (m m' : Memory t.width) (n : Width) (a v : UInt64),
      m.layout.Disjoint → m.storeReg t n a v = .ok (some m') → StoreLaws t m m' n a v := by
  intro hall
  have hstore : ∃ m', farMemory.storeReg ⟨.w32, false⟩ .b1 0xFFFFFFFFFFFFFFFF 7 = .ok (some m') ∧
      m'.load ⟨.w32, false⟩ .b1 0xFFFFFFFF = .ok (some 7) := ⟨_, rfl, rfl⟩
  obtain ⟨m', hm', hload⟩ := hstore
  have hlaws := hall ⟨.w32, false⟩ farMemory m' .b1 0xFFFFFFFFFFFFFFFF 7 disjoint_farMemory hm'
  have hsame := hlaws.elsewhere .b1 0xFFFFFFFF (Or.inl (by decide))
  have hzero : farMemory.load ⟨.w32, false⟩ .b1 0xFFFFFFFF = .ok (some 0) := rfl
  rw [hload, hzero] at hsame
  exact absurd hsame (by decide)

end Memory

end Tuniq
