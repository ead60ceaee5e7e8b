import Tuniq.Interpreter.Unmapped
import Tuniq.Library.Ebpf
import Tuniq.Library.Lockstep

/-!
# The memory as one store

The interpreter has two regions, and an access goes through when one of them contains it.
For the instruction set there is one memory, and an access goes through when all its bytes
are mapped.  `Memory.flat` forgets the regions.

The two agree when there is an address between the end of the stack and the start of the
heap (`Layout.Apart`): then the bytes of an access are all mapped only if one region maps
all of them.  `read_flat` and `write_flat` say so for accesses that end in the address
space, and `flat_rounds`, `flat_copyInPlace` and `flat_copyBuffered` carry the loops of the
memory syscalls over.
-/

namespace Tuniq

/-! ## Regions that do not touch -/

namespace Layout

variable {L : Layout}

/-- There is an address between the stack and the heap. -/
def Apart (L : Layout) : Prop := L.stackBase + L.stackLen < L.heapBase

instance (L : Layout) : Decidable L.Apart := inferInstanceAs (Decidable (_ < _))

theorem Apart.disjoint (h : L.Apart) : L.Disjoint := by
  rintro addr ⟨⟨-, hstack⟩, ⟨hheap, -⟩⟩
  unfold Apart at h
  dsimp only [base, len] at hstack hheap
  omega

theorem Apart.exists_region (h : L.Apart) {addr n : ℕ} (hn : 0 < n)
    (hall : ∀ i, i < n → L.Mapped (addr + i)) : ∃ r, L.Within r addr n := by
  unfold Apart at h
  obtain ⟨r, hfirst⟩ := hall 0 hn
  obtain ⟨r', hlast⟩ := hall (n - 1) (by omega)
  unfold Maps at hfirst hlast
  cases r with
  | heap =>
    cases r' with
    | heap => exact ⟨.heap, by omega, by omega⟩
    | stack =>
      dsimp only [base, len] at hfirst hlast
      omega
  | stack =>
    cases r' with
    | stack => exact ⟨.stack, by omega, by omega⟩
    | heap =>
      dsimp only [base, len] at hfirst hlast
      -- the first address behind the stack is one of the access, and unmapped
      obtain ⟨r, hgap⟩ := hall (L.stackBase + L.stackLen - addr) (by omega)
      unfold Maps at hgap
      cases r <;> dsimp only [base, len] at hgap <;> omega

/-- An access is found when each of its bytes is. -/
theorem Apart.lookup_ne_none_iff (h : L.Apart) {addr n : ℕ} (hn : 0 < n) :
    L.lookup addr n ≠ none ↔ ∀ i, i < n → L.Mapped (addr + i) := by
  constructor
  · intro hlook i hi
    obtain ⟨⟨r, off⟩, hsome⟩ := Option.ne_none_iff_exists'.mp hlook
    obtain ⟨haddr, hfit⟩ := lookup_eq_some hsome
    exact ⟨r, by omega, by omega⟩
  · intro hall
    obtain ⟨r, hr⟩ := h.exists_region hn hall
    unfold lookup
    split
    · simp
    · rename_i hstack
      cases r with
      | stack => exact absurd hr hstack
      | heap => simp [hr]

end Layout

namespace Memory

variable {w : PtrWidth}

/-! ## The bytes -/

/-- The memory without its regions. -/
def flat (m : Memory w) : Ebpf.Store :=
  fun a => (m.get a.toNat 1).map fun bs => UInt8.ofNat (ofLe bs)

@[simp] theorem peek_flat (m : Memory w) (a : Ebpf.Word) : m.flat.peek a = m.peek a.toNat := rfl

theorem isSome_flat {m : Memory w} {a : Ebpf.Word} :
    (m.flat a).isSome ↔ m.layout.Mapped a.toNat := by
  rw [Layout.mapped_iff, flat, get, Option.map_map, Option.isSome_map]
  exact Option.isSome_iff_ne_none

theorem flat_of_mapped {m : Memory w} {a : Ebpf.Word} (h : m.layout.Mapped a.toNat) :
    m.flat a = some (m.peek a.toNat) := by
  obtain ⟨b, hb⟩ := Option.isSome_iff_exists.mp (isSome_flat.mpr h)
  rw [← peek_flat, Ebpf.Store.peek, hb]
  rfl

/-- The bytes of an access, one by one. -/
theorem getElem?_of_get {m : Memory w} (hapart : m.layout.Apart) {addr n : ℕ}
    {bs : List UInt8} (h : m.get addr n = some bs) {i : ℕ} (hi : i < n) :
    bs[i]? = some (m.peek (addr + i)) := by
  obtain ⟨⟨r, off⟩, hlook, rfl⟩ := Option.map_eq_some_iff.mp h
  obtain ⟨haddr, hfit⟩ := Layout.lookup_eq_some hlook
  have hmaps : m.layout.Maps r (addr + i) := ⟨by omega, by omega⟩
  rw [← byteAt_eq_some_peek hapart.disjoint hmaps]
  unfold byteAt
  dsimp only
  rw [if_pos hmaps.1, getElem?_window, if_pos hi]
  congr 1
  omega

theorem toNat_add_ofNat {a : Ebpf.Word} {i n : ℕ} (hi : i < n) (hend : a.toNat + n ≤ 2 ^ 64) :
    (a + BitVec.ofNat 64 i).toNat = a.toNat + i := by
  rw [BitVec.toNat_add, BitVec.toNat_ofNat]
  omega

/-- All bytes of an access are mapped, in the words of either memory. -/
theorem forall_isSome_flat {m : Memory w} (hapart : m.layout.Apart) {a : Ebpf.Word} {n : ℕ}
    (hn : 0 < n) (hend : a.toNat + n ≤ 2 ^ 64) :
    (∀ i < n, (m.flat (a + BitVec.ofNat 64 i)).isSome) ↔
      m.layout.lookup a.toNat n ≠ none := by
  rw [hapart.lookup_ne_none_iff hn]
  refine forall₂_congr fun i hi => ?_
  rw [isSome_flat, toNat_add_ofNat hi hend]

/-! ## Accesses -/

theorem read_flat {m : Memory w} (hapart : m.layout.Apart) {a : Ebpf.Word} {n : ℕ}
    (hn : 0 < n) (hend : a.toNat + n ≤ 2 ^ 64) : m.flat.read a n = m.get a.toNat n := by
  rw [Ebpf.Store.read]
  cases hget : m.get a.toNat n with
  | none =>
    rw [if_neg]
    rw [forall_isSome_flat hapart hn hend, not_not]
    exact Option.map_eq_none_iff.mp hget
  | some bs =>
    obtain ⟨⟨r, off⟩, hlook, hbs⟩ := Option.map_eq_some_iff.mp hget
    have hlen : bs.length = n := by
      have hfit := (Layout.lookup_eq_some hlook).2
      rw [layout_len] at hfit
      rw [← hbs, length_window hfit]
    rw [if_pos ((forall_isSome_flat hapart hn hend).mpr (by simp [hlook]))]
    refine congrArg some (List.ext_getElem? fun i => ?_)
    rcases Nat.lt_or_ge i n with hi | hi
    · rw [getElem?_of_get hapart hget hi, List.getElem?_map, List.getElem?_range hi,
        Option.map_some, peek_flat, toNat_add_ofNat hi hend]
    · rw [List.getElem?_eq_none (by simpa using hi), List.getElem?_eq_none (by omega)]

theorem write_flat {m : Memory w} (hapart : m.layout.Apart) {a : Ebpf.Word}
    {bs : List UInt8} (hn : 0 < bs.length) (hend : a.toNat + bs.length ≤ 2 ^ 64) :
    m.flat.write a bs = (m.put a.toNat bs).map flat := by
  rw [Ebpf.Store.write]
  cases hput : m.put a.toNat bs with
  | none =>
    rw [if_neg]
    · rfl
    · rw [forall_isSome_flat hapart hn hend, not_not]
      exact put_eq_none_iff.mp hput
  | some m' =>
    have hlook : m.layout.lookup a.toNat bs.length ≠ none := by
      rw [Ne, ← put_eq_none_iff, hput]
      simp
    rw [if_pos ((forall_isSome_flat hapart hn hend).mpr hlook), Option.map_some]
    refine congrArg some (funext fun x => ?_)
    have hlayout := layout_put hput
    have hx := x.isLt
    split
    · rename_i hin
      have haddr : a.toNat + (x - a).toNat = x.toNat := by
        rw [BitVec.toNat_sub] at hin ⊢
        omega
      have hmapped : m'.layout.Mapped x.toNat := by
        rw [hlayout, ← haddr]
        exact (hapart.lookup_ne_none_iff hn).mp hlook _ hin
      rw [flat_of_mapped hmapped, ← haddr,
        getElem?_of_get (by rw [hlayout]; exact hapart) (get_put_self hput) hin]
    · rename_i hout
      rw [flat, flat, get_put_of_disjoint hput]
      rw [BitVec.toNat_sub] at hout
      omega

section

variable {t : Target} {m : Memory t.width} {n : Width} {addr : UInt64}

/-- A load that cannot fault reads the flat memory. -/
theorem load_flat (hstd : m.Standard) (hapart : m.layout.Apart)
    (hsafe : m.layout.Safe addr.toNat n.size) :
    m.load t n addr =
      .ok ((m.flat.read addr.toBitVec n.size).map fun bs => UInt64.ofNat (ofLe bs)) := by
  have hend := (safe_iff_of_standard hstd (n.size_le.trans (by norm_num))).mp hsafe
  have hread : m.flat.read addr.toBitVec n.size = m.get addr.toNat n.size :=
    read_flat hapart n.size_pos hend.le
  rw [load_eq, readBytes_of_safe (n.size_le.trans_lt (by norm_num)) hsafe, hread]
  rfl

/-- The bytes a store writes are the low ones of its register. -/
theorem regBytes_eq (n : Width) (v : UInt64) : regBytes n v = toLe n.size v.toNat := by
  cases n with
  | b1 => exact (congrArg (toLe 1) (UInt64.toNat_toUInt8 v)).trans (toLe_mod 1 v.toNat)
  | b2 => exact (congrArg (toLe 2) (UInt64.toNat_toUInt16 v)).trans (toLe_mod 2 v.toNat)
  | b4 => exact (congrArg (toLe 4) (UInt64.toNat_toUInt32 v)).trans (toLe_mod 4 v.toNat)
  | b8 => rfl

/-- A store that cannot fault writes to it. -/
theorem store_flat (hstd : m.Standard) (hapart : m.layout.Apart)
    (hsafe : m.layout.Safe addr.toNat n.size) (v : UInt64) :
    ∃ r, m.writeBytes t addr (regBytes n v) = .ok r ∧
      m.flat.write addr.toBitVec (toLe n.size v.toNat) = r.map flat ∧
      ∀ m', r = some m' → m'.layout = m.layout := by
  have hend := (safe_iff_of_standard hstd (n.size_le.trans (by norm_num))).mp hsafe
  have hlen : (regBytes n v).length = n.size := length_regBytes n v
  rw [← hlen] at hsafe hend
  refine ⟨_, writeBytes_of_safe (by rw [hlen]; exact n.size_le.trans_lt (by norm_num)) hsafe,
    ?_, fun m' => layout_put⟩
  rw [← regBytes_eq]
  exact write_flat hapart (by rw [hlen]; exact n.size_pos) hend.le

end

/-- Setting one byte. -/
theorem flat_poke (m : Memory w) (a : Ebpf.Word) (b : UInt8) :
    (m.poke a.toNat b).flat = m.flat.poke a b := by
  funext x
  rw [Ebpf.Store.poke]
  by_cases hx : x = a
  · subst hx
    by_cases hmapped : m.layout.Mapped x.toNat
    · rw [if_pos ⟨rfl, isSome_flat.mpr hmapped⟩,
        flat_of_mapped (by rw [layout_poke]; exact hmapped),
        peek_poke_self m b (Layout.mapped_iff.mp hmapped)]
    · rw [if_neg fun h => hmapped (isSome_flat.mp h.2), poke, put_of_lookup_none]
      · rfl
      · rw [length_toLe]
        exact not_not.mp fun hne => hmapped (Layout.mapped_iff.mpr hne)
  · rw [if_neg fun h => hx h.1]
    by_cases hmapped : m.layout.Mapped x.toNat
    · rw [flat_of_mapped hmapped, flat_of_mapped (by rw [layout_poke]; exact hmapped),
        peek_poke_of_ne m b fun h => hx (BitVec.eq_of_toNat_eq h)]
    · rw [Option.not_isSome_iff_eq_none.mp (mt isSome_flat.mp hmapped),
        Option.not_isSome_iff_eq_none.mp (mt isSome_flat.mp (by rw [layout_poke]; exact hmapped))]

/-! ## Loops -/

theorem byteAddr_eq (base : UInt64) (i : ℕ) :
    byteAddr base i = (base.toBitVec + BitVec.ofNat 64 i).toNat := by
  rw [byteAddr, BitVec.toNat_add, BitVec.toNat_ofNat, Nat.add_mod_mod]
  rfl

/-- The bytes of a stretch, as addresses of the instruction set. -/
def stretchAddr (base : UInt64) (i : ℕ) : Ebpf.Word := base.toBitVec + BitVec.ofNat 64 i

theorem flat_rounds {base : UInt64} (f : ℕ → Memory w → UInt8) (f' : ℕ → Ebpf.Store → UInt8)
    (hf : ∀ i m, f i m = f' i m.flat) (n : ℕ) (m : Memory w) :
    (rounds (fun i u => u.poke (byteAddr base i) (f i u)) n m).flat =
      rounds (fun i u => u.poke (stretchAddr base i) (f' i u)) n m.flat := by
  refine rounds_related (R := fun m u => flat m = u) n rfl fun i m u hu => ?_
  rw [← hu, byteAddr_eq, flat_poke, hf]
  rfl

theorem flat_copyInPlace (m : Memory w) (dst src : UInt64) (n : ℕ) :
    ((cells w).copyInPlace (byteAddr dst) (byteAddr src) n m).flat =
      Ebpf.Store.cells.copyInPlace (stretchAddr dst) (stretchAddr src) n m.flat :=
  flat_rounds (fun i m => m.peek (byteAddr src i)) (fun i u => u.peek (stretchAddr src i))
    (fun i m => by rw [peek_flat, byteAddr_eq, stretchAddr]) n m

theorem flat_copyBuffered (m : Memory w) (dst src : UInt64) (n : ℕ) :
    ((cells w).copyBuffered (byteAddr dst) (byteAddr src) n m).flat =
      Ebpf.Store.cells.copyBuffered (stretchAddr dst) (stretchAddr src) n m.flat :=
  flat_rounds (fun i _ => m.peek (byteAddr src i)) (fun i _ => m.flat.peek (stretchAddr src i))
    (fun i _ => by rw [peek_flat, byteAddr_eq, stretchAddr]) n m

end Memory
end Tuniq
