import Tuniq.Interpreter.MemoryFrame

/-!
# Copies and fills of mapped memory

`GuestSyscalls` copies and fills one byte at a time.  When the two stretches lie inside
regions, every read and every write of these loops goes through, and what they leave can
be said byte by byte.

* `sol_memmove` reads the source before it writes anything, so whatever the overlap the
  destination receives the old source bytes.
* `sol_memcpy` writes a byte before it reads the next.  It leaves the same memory unless
  the destination starts behind the start of the source and before its end.
* `sol_memset` writes its value.

None of them changes a byte outside the destination.  `copies_exact` collects this.

The regions must not share an address.  Otherwise an address of the heap may be answered
by the stack, and a bound check on the way to it may overflow
(`Layout.Disjoint.safe`).  The region of a stretch must end before the address space does.
The bound check forms that end, and at `2 ^ 64` the check has no right answer
(`copies_not_exact_lastMemory`).
-/

namespace Tuniq

/-! ## Stretches inside a region -/

namespace Layout

/-- The stretch lies in region `r`, and the region ends before the address space does. -/
def Encloses (L : Layout) (r : Region) (addr n : ℕ) : Prop :=
  ∀ i, i < n → L.Maps r (addr + i) ∧ L.base r + L.len r < 2 ^ 64

/-- A byte a region maps is found there. -/
theorem Disjoint.lookup_eq {L : Layout} (hd : L.Disjoint) {r : Region} {a : ℕ}
    (h : L.Maps r a) : L.lookup a 1 = some (r, a - L.base r) := by
  have hwithin : ∀ r', L.Within r' a 1 ↔ L.Maps r' a := by
    intro r'
    unfold Within Maps
    omega
  unfold lookup
  cases r with
  | stack => rw [if_pos ((hwithin _).mpr h)]
  | heap =>
    have hstack : ¬ L.Within .stack a 1 := fun hs => hd a ⟨(hwithin _).mp hs, h⟩
    rw [if_neg hstack, if_pos ((hwithin _).mpr h)]

/-- Finding it overflows no sum: behind the start of the stack, a byte of the heap is
behind its end as well. -/
theorem Disjoint.safe {L : Layout} (hd : L.Disjoint) {r : Region} {a : ℕ}
    (h : L.Maps r a) (hend : L.base r + L.len r < 2 ^ 64) : L.Safe a 1 := by
  have hlt := h.2
  cases r with
  | stack =>
    refine ⟨fun _ => ⟨by omega, hend⟩, fun hout => absurd ?_ hout⟩
    exact ⟨h.1, by omega⟩
  | heap =>
    refine ⟨fun hlo => ⟨by omega, ?_⟩, fun _ _ => ⟨by omega, hend⟩⟩
    have hout : ¬ L.Maps .stack a := fun hs => hd a ⟨hs, h⟩
    have hge : L.base .stack + L.len .stack ≤ a := by
      by_contra hlt
      exact hout ⟨hlo, by omega⟩
    omega

theorem Encloses.byteAddr_eq {L : Layout} {r : Region} {base : UInt64} {n i : ℕ}
    (h : L.Encloses r base.toNat n) (hi : i < n) : byteAddr base i = base.toNat + i := by
  obtain ⟨⟨-, hlt⟩, hend⟩ := h i hi
  exact Nat.mod_eq_of_lt (by omega)

/-- Every byte of an enclosed stretch can be reached. -/
theorem Encloses.spanSafe {L : Layout} {r : Region} {base : UInt64} {n : ℕ} (t : Target)
    (hd : L.Disjoint) (h : L.Encloses r base.toNat n) : L.SpanSafe t base n := by
  intro i hi
  obtain ⟨hmaps, hend⟩ := h i hi
  refine ⟨fun _ => ?_, ?_⟩
  · have hlt := hmaps.2
    omega
  · rw [h.byteAddr_eq hi]
    exact hd.safe hmaps hend

end Layout

namespace Memory

variable {w : PtrWidth} {t : Target}

/-- An enclosed stretch is no longer than an allocation can be. -/
theorem le_isizeMax_of_encloses {m : Memory w} {r : Region} {addr n : ℕ}
    (h : m.layout.Encloses r addr n) : n ≤ w.isizeMax := by
  rcases Nat.eq_zero_or_pos n with rfl | hpos
  · exact Nat.zero_le _
  · obtain ⟨⟨hlo, -⟩, -⟩ := h 0 hpos
    obtain ⟨⟨-, hhi⟩, -⟩ := h (n - 1) (by omega)
    have hlen := (m.bytes r).len_le
    rw [layout_len] at hhi
    omega

/-- What stands at a mapped address is what a read there finds. -/
theorem byteAt_eq_some_peek {m : Memory w} (hd : m.layout.Disjoint) {r : Region} {a : ℕ}
    (h : m.layout.Maps r a) : m.byteAt (r, a) = some (m.peek a) := by
  obtain ⟨b, hb⟩ := Option.ne_none_iff_exists'.mp (byteAt_ne_none_iff (c := (r, a)).mpr h)
  have hbyte := hb
  unfold byteAt at hbyte
  rw [if_pos h.1] at hbyte
  rw [hb, peek, get, hd.lookup_eq h, Option.map_some, window_one hbyte, Option.map_some,
    Option.getD_some, ofLe_cons, ofLe_nil, Nat.mul_zero, Nat.add_zero, UInt8.ofNat_toNat]

/-! ## Loops that write one byte a round -/

/-- No two bytes of a stretch have the same address. -/
theorem byteAddr_ne {base : UInt64} {n i j : ℕ} (hn : n ≤ 2 ^ 64) (hij : i < j) (hj : j < n) :
    byteAddr base i ≠ byteAddr base j := by
  have hlt := base.toNat_lt
  unfold byteAddr
  omega

/-- **What a mapped byte of the destination holds** behind the loop is what its own round
wrote there. -/
theorem peek_rounds_byteAddr {m : Memory w} {base : UInt64} {n i : ℕ}
    {f : ℕ → Memory w → UInt8} {g : ℕ → Memory w → Memory w}
    (hg : ∀ i u, g i u = u.poke (byteAddr base i) (f i u)) (hn : n ≤ 2 ^ 64) (hi : i < n)
    (hmaps : m.layout.lookup (byteAddr base i) 1 ≠ none) :
    (rounds g n m).peek (byteAddr base i) = f i (rounds g i m) := by
  refine (cells w).peek_rounds_self hg m hi
    (fun j hij hj => byteAddr_ne hn hij hj) fun v => ?_
  refine peek_poke_self _ v ?_
  rw [layout_pokes fun i u => ⟨_, hg i u⟩]
  exact hmaps

/-- The same, for a stretch inside a region. -/
theorem byteAt_rounds {m : Memory w} {base : UInt64} {n i : ℕ} {r : Region}
    {f : ℕ → Memory w → UInt8} {g : ℕ → Memory w → Memory w}
    (hg : ∀ i u, g i u = u.poke (byteAddr base i) (f i u)) (hd : m.layout.Disjoint)
    (h : m.layout.Encloses r base.toNat n) (hi : i < n) :
    (rounds g n m).byteAt (r, base.toNat + i) = some (f i (rounds g i m)) := by
  have hmaps := (h i hi).1
  have hlayout : (rounds g n m).layout = m.layout := layout_pokes fun i u => ⟨_, hg i u⟩
  have hlook : m.layout.lookup (byteAddr base i) 1 ≠ none := by
    rw [h.byteAddr_eq hi, hd.lookup_eq hmaps]
    simp
  have hn : n ≤ 2 ^ 64 := by
    have hmax := le_isizeMax_of_encloses h
    have hlt := w.isizeMax_lt
    omega
  rw [byteAt_eq_some_peek (hlayout ▸ hd) (hlayout ▸ hmaps), ← h.byteAddr_eq hi,
    peek_rounds_byteAddr hg hn hi hlook]

/-- Such a loop changes nothing outside the stretch. -/
theorem fills_rounds {m : Memory w} {base n : UInt64} {r : Region}
    {f : ℕ → Memory w → UInt8} {g : ℕ → Memory w → Memory w}
    (hg : ∀ i u, g i u = u.poke (byteAddr base i) (f i u))
    (h : m.layout.Encloses r base.toNat n.toNat) : Fills base n m (rounds g n.toNat m) := by
  have hg' : ∀ i u, ∃ b, g i u = u.poke (byteAddr base i) b := fun i u => ⟨_, hg i u⟩
  refine ⟨layout_pokes hg', (agreeOutside_stretch hg').mono ?_⟩
  exact stretch_subset_span fun _ hi => h.byteAddr_eq hi

/-! ## The three syscalls -/

/-- Unless the destination starts inside the source and behind its start, no source byte
is a destination byte of an earlier round. -/
theorem copyInPlace_eq_of_encloses {m : Memory w} {dst src : UInt64} {rd rs : Region} {n : ℕ}
    (hsrc : m.layout.Encloses rs src.toNat n) (hdst : m.layout.Encloses rd dst.toNat n)
    (hover : ¬ (src < dst ∧ dst.toNat < src.toNat + n)) :
    (cells w).copyInPlace (byteAddr dst) (byteAddr src) n m =
      (cells w).copyBuffered (byteAddr dst) (byteAddr src) n m := by
  refine (cells w).copyInPlace_eq_copyBuffered m fun i hi j hj heq => hover ?_
  rw [hsrc.byteAddr_eq hi, hdst.byteAddr_eq (by omega)] at heq
  rw [UInt64.lt_iff_toNat_lt]
  exact ⟨by omega, by omega⟩

/-- What the three syscalls do with the `n` bytes at `dst`, in region `rd`, and those at
`src`, in region `rs`.  `sol_memmove` puts the old source bytes into the destination,
`sol_memcpy` leaves the same memory unless `src < dst < src + n`, `sol_memset` makes the
bytes of the destination its value, and none of the three changes anything else. -/
def CopiesExactly (t : Target) (s : GuestSyscalls) (m : Memory t.width) (dst src n : UInt64)
    (rd rs : Region) : Prop :=
  (∃ m', Syscalls.solMemmove s dst src n m = .ok (s, m') ∧ Fills dst n m m' ∧
    (∀ i, i < n.toNat →
      m'.byteAt (rd, dst.toNat + i) = m.byteAt (rs, src.toNat + i)) ∧
    (¬ (src < dst ∧ dst.toNat < src.toNat + n.toNat) →
      Syscalls.solMemcpy s dst src n m = .ok (s, m'))) ∧
  (∃ m', Syscalls.solMemcpy s dst src n m = .ok (s, m') ∧ Fills dst n m m') ∧
  ∀ v, ∃ m', Syscalls.solMemset s dst v n m = .ok (s, m') ∧ Fills dst n m m' ∧
    ∀ i, i < n.toNat → m'.byteAt (rd, dst.toNat + i) = some v

/-- **Copies and fills of mapped memory are exact.**  In every memory whose regions share
no address, and for all stretches of `n` bytes at `dst` and `src` that lie inside a region
each, one that ends before the address space does. -/
theorem copies_exact {m : Memory t.width} {dst src n : UInt64} {rd rs : Region}
    (s : GuestSyscalls) (hdisj : m.layout.Disjoint)
    (hsrc : m.layout.Encloses rs src.toNat n.toNat)
    (hdst : m.layout.Encloses rd dst.toNat n.toNat) :
    CopiesExactly t s m dst src n rd rs := by
  have hsafe : m.layout.SpanSafe t dst n.toNat := hdst.spanSafe t hdisj
  have hsafe' : m.layout.SpanSafe t src n.toNat := hsrc.spanSafe t hdisj
  have hmove := bufferedCopy_of_safe (le_isizeMax_of_encloses hsrc) hsafe hsafe'
  have hcopy := forwardCopy_of_safe hsafe hsafe'
  have hmove' : Syscalls.solMemmove s dst src n m =
      .ok (s, (cells t.width).copyBuffered (byteAddr dst) (byteAddr src) n.toNat m) := by
    show (do return (s, ← m.bufferedCopy t dst src n)) = _
    rw [hmove]
    rfl
  have hcopy' : Syscalls.solMemcpy s dst src n m =
      .ok (s, (cells t.width).copyInPlace (byteAddr dst) (byteAddr src) n.toNat m) := by
    show (do return (s, ← m.forwardCopy t dst src n)) = _
    rw [hcopy]
    rfl
  refine ⟨⟨_, hmove', fills_rounds (fun _ _ => rfl) hdst, fun i hi => ?_, fun hover => ?_⟩,
    ⟨_, hcopy', fills_rounds (fun _ _ => rfl) hdst⟩, fun v => ?_⟩
  · rw [byteAt_eq_some_peek hdisj (hsrc i hi).1, ← hsrc.byteAddr_eq hi]
    exact byteAt_rounds (f := fun i _ => m.peek (byteAddr src i)) (fun _ _ => rfl) hdisj
      hdst hi
  · rw [hcopy', copyInPlace_eq_of_encloses hsrc hdst hover]
  · have hset : Syscalls.solMemset s dst v n m =
        .ok (s, rounds (fun i u => u.poke (byteAddr dst i) v) n.toNat m) := by
      show (do return (s, ← m.fill t dst v n)) = _
      rw [fill_of_safe hsafe]
      rfl
    refine ⟨_, hset, fills_rounds (fun _ _ => rfl) hdst, fun i hi => ?_⟩
    exact byteAt_rounds (f := fun _ _ => v) (fun _ _ => rfl) hdisj hdst hi

/-- Four bytes of the stack, moved up by one: the stretches overlap. -/
theorem copies_exact_smallMemory :
    ∃ m' : Memory .w64,
      (Syscalls.solMemmove ({} : GuestSyscalls) (stackBaseNew + 1) stackBaseNew 4 smallMemory :
        Except Fault (GuestSyscalls × Memory (Target.mk .w64 true).width)) = .ok ({}, m') ∧
      m'.byteAt (.stack, 0x100000001) = smallMemory.byteAt (.stack, 0x100000000) := by
  have hbase : smallMemory.layout.base .stack = 2 ^ 32 := by decide
  have hlen : smallMemory.layout.len .stack = 8 := by decide
  have hencl : ∀ k : ℕ, k ≤ 4 → smallMemory.layout.Encloses .stack (2 ^ 32 + k) 4 := by
    intro k hk i hi
    unfold Layout.Maps
    rw [hbase, hlen]
    omega
  have hsrc : smallMemory.layout.Encloses .stack stackBaseNew.toNat (4 : UInt64).toNat :=
    hencl 0 (by decide)
  have hdst : smallMemory.layout.Encloses .stack (stackBaseNew + 1).toNat (4 : UInt64).toNat :=
    hencl 1 (by decide)
  obtain ⟨⟨m', hm', -, hbytes, -⟩, -⟩ :=
    copies_exact (t := ⟨.w64, true⟩) {} disjoint_smallMemory hsrc hdst
  exact ⟨m', hm', hbytes 0 (by decide)⟩

/-! ## A region at the end of the address space -/

/-- A stack of eight zero bytes that ends where the address space does, and no heap. -/
def lastMemory : Memory .w64 :=
  { Memory.empty with stack := smallMemory.stack, stackBase := 0xFFFFFFFFFFFFFFF8 }

theorem disjoint_lastMemory : lastMemory.layout.Disjoint := by
  rintro addr ⟨-, hlo, hhi⟩
  have hlen : lastMemory.layout.len .heap = 0 := rfl
  omega

/-- Its first four bytes lie in the stack. -/
theorem maps_lastMemory {i : ℕ} (hi : i < 4) :
    lastMemory.layout.Maps .stack ((0xFFFFFFFFFFFFFFF8 : UInt64).toNat + i) := by
  have hbase : lastMemory.layout.base .stack = (0xFFFFFFFFFFFFFFF8 : UInt64).toNat := rfl
  have hlen : lastMemory.layout.len .stack = 8 := rfl
  exact ⟨by omega, by omega⟩

/-- **A stretch may lie inside a region and still be out of reach.**  The bound check forms
the end of the region.  When that is `2 ^ 64` the check overflows, which is a panic, or it
wraps around and the check fails, so that nothing is written. -/
theorem copies_not_exact_lastMemory :
    ¬ ∃ overflowChecks : Bool, ∀ (m : Memory .w64) (dst src n : UInt64) (rd rs : Region)
      (s : GuestSyscalls), m.layout.Disjoint →
      (∀ i, i < n.toNat → m.layout.Maps rs (src.toNat + i)) →
      (∀ i, i < n.toNat → m.layout.Maps rd (dst.toNat + i)) →
      CopiesExactly ⟨.w64, overflowChecks⟩ s m dst src n rd rs := by
  rintro ⟨overflowChecks, hall⟩
  have hmaps : ∀ i, i < (4 : UInt64).toNat →
      lastMemory.layout.Maps .stack ((0xFFFFFFFFFFFFFFF8 : UInt64).toNat + i) :=
    fun i hi => maps_lastMemory hi
  obtain ⟨-, -, hset⟩ := hall lastMemory 0xFFFFFFFFFFFFFFF8 0xFFFFFFFFFFFFFFF8 4 .stack .stack
    {} disjoint_lastMemory hmaps hmaps
  obtain ⟨m', hm', -, hbytes⟩ := hset 1
  cases overflowChecks with
  | true =>
    -- the sum panics in the first round
    have hpanic : (Syscalls.solMemset ({} : GuestSyscalls) 0xFFFFFFFFFFFFFFF8 1 4 lastMemory :
        Except Fault (GuestSyscalls × Memory (Target.mk .w64 true).width)) =
          .error .arithmeticOverflow := rfl
    rw [hpanic] at hm'
    exact absurd hm' (by simp)
  | false =>
    -- no byte is found to write, and the four results are dropped
    have hdrop : (Syscalls.solMemset ({} : GuestSyscalls) 0xFFFFFFFFFFFFFFF8 1 4 lastMemory :
        Except Fault (GuestSyscalls × Memory (Target.mk .w64 false).width)) =
          .ok ({}, lastMemory) := rfl
    rw [hdrop] at hm'
    obtain rfl := (Prod.mk.inj (Except.ok.inj hm')).2
    have hbyte := hbytes 0 (by decide)
    have hzero : lastMemory.byteAt (.stack, (0xFFFFFFFFFFFFFFF8 : UInt64).toNat + 0) = some 0 := rfl
    rw [hzero] at hbyte
    exact absurd hbyte (by decide)

end Memory

end Tuniq
