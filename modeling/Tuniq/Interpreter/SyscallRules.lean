import Tuniq.Library.Copy
import Tuniq.Interpreter.MemoryRules
import Tuniq.Interpreter.Syscalls

/-!
# What the memory syscalls do

The memory syscalls work byte by byte, treat an unreadable byte as `0` and drop a
refused write, so on bytes they are total: `Memory.peek` and `Memory.poke`.  What
can go wrong is the arithmetic on the way to the byte, `base + i` and then the
bound check of the access.  `Layout.SpanSafe` says it goes right for a whole
stretch.

Each loop then has two lemmas: on safe stretches it computes the copy (or the
fill) over `peek` and `poke`, and otherwise it faults.  A copy through a buffer
also faults when the buffer is longer than any allocation.

`Memory.cells` presents the memory as a store in the sense of `Tuniq.Library.Copy`,
which compares the two ways of copying.
-/

namespace Tuniq

/-- The address of byte `i` of a stretch: `base + i`, wrapped. -/
def byteAddr (base : UInt64) (i : ℕ) : ℕ := (base.toNat + i) % 2 ^ 64

/-- Reaching byte `i` of the stretch at `base` forms no sum that overflows. -/
def Layout.ByteSafe (t : Target) (L : Layout) (base : UInt64) (i : ℕ) : Prop :=
  (t.overflowChecks = true → base.toNat + i < 2 ^ 64) ∧ L.Safe (byteAddr base i) 1

/-- Reaching any of the first `n` bytes of the stretch at `base` is safe. -/
def Layout.SpanSafe (t : Target) (L : Layout) (base : UInt64) (n : ℕ) : Prop :=
  ∀ i, i < n → L.ByteSafe t base i

namespace Memory

variable {w : PtrWidth} {t : Target}

/-! ## Single bytes -/

/-- The byte at an address, `0` when it is not mapped. -/
def peek (m : Memory w) (a : ℕ) : UInt8 :=
  ((m.get a 1).map fun bs => UInt8.ofNat (ofLe bs)).getD 0

/-- Set the byte at an address, if it is mapped. -/
def poke (m : Memory w) (a : ℕ) (b : UInt8) : Memory w :=
  (m.put a (toLe 1 b.toNat)).getD m

@[simp] theorem layout_poke (m : Memory w) (a : ℕ) (b : UInt8) :
    (m.poke a b).layout = m.layout := by
  rw [poke]
  cases h : m.put a (toLe 1 b.toNat) with
  | none => rfl
  | some m' => exact layout_put h

theorem peek_poke_of_ne (m : Memory w) {a a' : ℕ} (b : UInt8) (h : a' ≠ a) :
    (m.poke a b).peek a' = m.peek a' := by
  rw [poke]
  cases hput : m.put a (toLe 1 b.toNat) with
  | none => rfl
  | some m' =>
    rw [Option.getD_some, peek, peek, get_put_of_disjoint hput]
    rw [length_toLe]
    omega

/-- A byte that is mapped is read back. -/
theorem peek_poke_self (m : Memory w) {a : ℕ} (b : UInt8)
    (h : m.layout.lookup a 1 ≠ none) : (m.poke a b).peek a = b := by
  rw [poke]
  cases hput : m.put a (toLe 1 b.toNat) with
  | none => exact absurd (put_eq_none_iff.mp hput) h
  | some m' =>
    have hget := get_put_self hput
    rw [length_toLe] at hget
    rw [Option.getD_some, peek, hget, Option.map_some, Option.getD_some,
      ofLe_toLe_of_lt b.toNat_lt, UInt8.ofNat_toNat]

/-- The memory as a store of bytes. -/
def cells (w : PtrWidth) : Cells (Memory w) ℕ UInt8 where
  peek := peek
  poke := poke
  peek_poke_of_ne := fun m _ _ b h => m.peek_poke_of_ne b h

/-- The sum `base + i`, when it is allowed to be formed. -/
theorem addU64_byte {base : UInt64} {i : ℕ} (hi : i < 2 ^ 64)
    (h : t.overflowChecks = true → base.toNat + i < 2 ^ 64) :
    ∃ a, t.addU64 base (UInt64.ofNat i) = .ok a ∧ a.toNat = byteAddr base i := by
  have hi' : (UInt64.ofNat i).toNat = i := UInt64.toNat_ofNat_of_lt' hi
  refine ⟨base + UInt64.ofNat i, ?_, ?_⟩
  · rw [Target.addU64, if_neg]
    rintro ⟨hc, hge⟩
    have := h hc
    omega
  · rw [UInt64.toNat_add, hi', byteAddr]

/-- A byte that is not safe to reach fails in the sum or in the access. -/
theorem byteSafe_cases {L : Layout} {base : UInt64} {i : ℕ} (hi : i < 2 ^ 64)
    (h : ¬ L.ByteSafe t base i) :
    (∃ f, t.addU64 base (UInt64.ofNat i) = .error f) ∨
      ∃ a, t.addU64 base (UInt64.ofNat i) = .ok a ∧ ¬ L.Safe a.toNat 1 := by
  have hi' : (UInt64.ofNat i).toNat = i := UInt64.toNat_ofNat_of_lt' hi
  by_cases hsum : t.overflowChecks = true → base.toNat + i < 2 ^ 64
  · obtain ⟨a, ha, haddr⟩ := addU64_byte hi hsum
    refine Or.inr ⟨a, ha, ?_⟩
    rw [haddr]
    exact fun hsafe => h ⟨hsum, hsafe⟩
  · obtain ⟨hc, hge⟩ := Classical.not_imp.mp hsum
    refine Or.inl ⟨.arithmeticOverflow, ?_⟩
    rw [Target.addU64, if_pos ⟨hc, by omega⟩]

theorem readOrZero_of_safe {m : Memory t.width} {base : UInt64} {i : ℕ} (hi : i < 2 ^ 64)
    (h : m.layout.ByteSafe t base i) :
    m.readOrZero t base i = .ok (m.peek (byteAddr base i)) := by
  obtain ⟨a, ha, haddr⟩ := addU64_byte hi h.1
  have hsafe := h.2
  rw [← haddr] at hsafe
  rw [readOrZero, ha, ← haddr, peek]
  show (do return (← m.readU8 t a).getD 0) = _
  rw [readU8, readBytes_of_safe (by norm_num) hsafe]
  rfl

theorem readOrZero_of_not_safe {m : Memory t.width} {base : UInt64} {i : ℕ}
    (htrap : m.Traps t) (hi : i < 2 ^ 64) (h : ¬ m.layout.ByteSafe t base i) :
    ∃ f, m.readOrZero t base i = .error f := by
  rcases byteSafe_cases hi h with ⟨f, hf⟩ | ⟨a, ha, hsafe⟩
  · refine ⟨f, ?_⟩
    rw [readOrZero, hf]
    rfl
  · obtain ⟨f, hf⟩ := readBytes_of_not_safe htrap (by norm_num) hsafe
    refine ⟨f, ?_⟩
    rw [readOrZero, ha]
    show (do return (← m.readU8 t a).getD 0) = _
    rw [readU8, hf]
    rfl

theorem writeIgnored_of_safe {m : Memory t.width} {base : UInt64} {i : ℕ} {b : UInt8}
    (hi : i < 2 ^ 64) (h : m.layout.ByteSafe t base i) :
    m.writeIgnored t base i b = .ok (m.poke (byteAddr base i) b) := by
  obtain ⟨a, ha, haddr⟩ := addU64_byte hi h.1
  have hsafe := h.2
  rw [← haddr, ← length_toLe 1 b.toNat] at hsafe
  rw [writeIgnored, ha, ← haddr, poke]
  show (do return (← m.writeU8 t a b).getD m) = _
  rw [writeU8, writeBytes_of_safe (by rw [length_toLe]; norm_num) hsafe]
  rfl

theorem writeIgnored_of_not_safe {m : Memory t.width} {base : UInt64} {i : ℕ} {b : UInt8}
    (htrap : m.Traps t) (hi : i < 2 ^ 64) (h : ¬ m.layout.ByteSafe t base i) :
    ∃ f, m.writeIgnored t base i b = .error f := by
  rcases byteSafe_cases hi h with ⟨f, hf⟩ | ⟨a, ha, hsafe⟩
  · refine ⟨f, ?_⟩
    rw [writeIgnored, hf]
    rfl
  · rw [← length_toLe 1 b.toNat] at hsafe
    obtain ⟨f, hf⟩ := writeBytes_of_not_safe htrap (by rw [length_toLe]; norm_num) hsafe
    refine ⟨f, ?_⟩
    rw [writeIgnored, ha]
    show (do return (← m.writeU8 t a b).getD m) = _
    rw [writeU8, hf]
    rfl

/-- Whatever the target, a dropped or a made write keeps the layout. -/
theorem layout_writeIgnored {m m' : Memory t.width} {base : UInt64} {i : ℕ} {b : UInt8}
    (h : m.writeIgnored t base i b = .ok m') : m'.layout = m.layout := by
  simp only [writeIgnored, bind_eq_ok] at h
  obtain ⟨a, -, r, hr, h⟩ := h
  obtain rfl := Except.ok.inj h
  cases r with
  | none => rfl
  | some m' => exact layout_writeBytes hr

/-! ## Stretches -/

/-- A vector collected from reads that succeed. -/
theorem collectBytes_eq_ok {read : ℕ → Except Fault UInt8} {f : ℕ → UInt8} {n : ℕ}
    (hn : n ≤ t.width.isizeMax) (h : ∀ i, i < n → read i = .ok (f i)) :
    collectBytes t n read = .ok ((List.range n).map f) := by
  rw [collectBytes, if_pos hn]
  have hloop : forUpTo (fun i acc => do return acc ++ [← read i]) n [] =
      .ok (rounds (fun i acc => acc ++ [f i]) n []) := by
    refine (forUpTo_eq_rounds (I := fun _ => True) trivial (fun _ _ _ => trivial) ?_).1
    intro i hi acc _
    rw [h i hi]
    rfl
  rw [hloop]
  refine congrArg Except.ok ?_
  clear hloop h hn
  induction n with
  | zero => rfl
  | succ n ih => rw [rounds, ih, List.range_succ, List.map_append, List.map_singleton]

theorem collectBytes_error_of_bad {read : ℕ → Except Fault UInt8} {n i : ℕ} (hi : i < n)
    (h : ∃ f, read i = .error f) : ∃ f, collectBytes t n read = .error f := by
  obtain ⟨f, hf⟩ := h
  rw [collectBytes]
  split
  · refine forUpTo_error_of_bad (I := fun _ => True) hi trivial (fun _ _ _ _ _ _ => trivial) ?_
    intro acc _
    refine ⟨f, ?_⟩
    rw [hf]
    rfl
  · exact ⟨_, rfl⟩

theorem collectBytes_of_long {read : ℕ → Except Fault UInt8} {n : ℕ}
    (h : t.width.isizeMax < n) : collectBytes t n read = .error .capacityOverflow := by
  rw [collectBytes, if_neg (Nat.not_le.mpr h)]

/-- **Filling a safe stretch.** -/
theorem fill_of_safe {m : Memory t.width} {dst n : UInt64} {val : UInt8}
    (h : m.layout.SpanSafe t dst n.toNat) :
    m.fill t dst val n = .ok (rounds (fun i u => u.poke (byteAddr dst i) val) n.toNat m) := by
  refine (forUpTo_eq_rounds (I := fun u => u.layout = m.layout) rfl ?_ ?_).1
  · intro i u hu
    rw [layout_poke, hu]
  · intro i hi u hu
    refine writeIgnored_of_safe (lt_trans hi n.toNat_lt) ?_
    rw [hu]
    exact h i hi

theorem fill_of_not_safe {m : Memory t.width} {dst n : UInt64} {val : UInt8}
    (htrap : m.Traps t) (h : ¬ m.layout.SpanSafe t dst n.toNat) :
    ∃ f, m.fill t dst val n = .error f := by
  simp only [Layout.SpanSafe, not_forall] at h
  obtain ⟨i, hi, hbad⟩ := h
  refine forUpTo_error_of_bad (I := fun u => u.layout = m.layout) hi rfl ?_ ?_
  · intro j _ u u' hu hstep
    rw [layout_writeIgnored hstep, hu]
  · intro u hu
    rw [← hu] at hbad
    exact writeIgnored_of_not_safe ((traps_congr hu).mpr htrap) (lt_trans hi n.toNat_lt) hbad

/-- **Copying byte by byte between safe stretches.** -/
theorem forwardCopy_of_safe {m : Memory t.width} {dst src n : UInt64}
    (hdst : m.layout.SpanSafe t dst n.toNat) (hsrc : m.layout.SpanSafe t src n.toNat) :
    m.forwardCopy t dst src n =
      .ok ((cells t.width).copyInPlace (byteAddr dst) (byteAddr src) n.toNat m) := by
  refine (forUpTo_eq_rounds (I := fun u => u.layout = m.layout) rfl ?_ ?_).1
  · intro i u hu
    exact (layout_poke u _ _).trans hu
  · intro i hi u hu
    have hi' := lt_trans hi n.toNat_lt
    rw [readOrZero_of_safe hi' (by rw [hu]; exact hsrc i hi)]
    show u.writeIgnored t dst i _ = _
    rw [writeIgnored_of_safe hi' (by rw [hu]; exact hdst i hi)]
    rfl

theorem forwardCopy_of_not_safe {m : Memory t.width} {dst src n : UInt64} (htrap : m.Traps t)
    (h : ¬ (m.layout.SpanSafe t dst n.toNat ∧ m.layout.SpanSafe t src n.toNat)) :
    ∃ f, m.forwardCopy t dst src n = .error f := by
  have hbad : ∃ i, i < n.toNat ∧
      ¬ (m.layout.ByteSafe t dst i ∧ m.layout.ByteSafe t src i) := by
    by_contra hall
    refine h ⟨fun i hi => ?_, fun i hi => ?_⟩
    · exact (not_not.mp fun hb => hall ⟨i, hi, hb⟩).1
    · exact (not_not.mp fun hb => hall ⟨i, hi, hb⟩).2
  obtain ⟨i, hi, hbad⟩ := hbad
  refine forUpTo_error_of_bad (I := fun u => u.layout = m.layout) hi rfl ?_ ?_
  · intro j _ u u' hu hstep
    obtain ⟨b, -, hstep⟩ := bind_eq_ok.mp hstep
    rw [layout_writeIgnored hstep, hu]
  · intro u hu
    have hi' := lt_trans hi n.toNat_lt
    have htrap' := (traps_congr hu).mpr htrap
    rw [← hu] at hbad
    by_cases hsrc : u.layout.ByteSafe t src i
    · have hdst : ¬ u.layout.ByteSafe t dst i := fun hdst => hbad ⟨hdst, hsrc⟩
      rw [readOrZero_of_safe hi' hsrc]
      exact writeIgnored_of_not_safe htrap' hi' hdst
    · obtain ⟨f, hf⟩ := readOrZero_of_not_safe htrap' hi' hsrc
      rw [hf]
      exact ⟨f, rfl⟩

/-- The bytes of a safe stretch, collected. -/
theorem collectBytes_of_safe {m : Memory t.width} {base : UInt64} {n : ℕ}
    (hn : n ≤ t.width.isizeMax) (h : m.layout.SpanSafe t base n) :
    collectBytes t n (m.readOrZero t base) =
      .ok ((List.range n).map fun i => m.peek (byteAddr base i)) := by
  have hmax := t.width.isizeMax_lt
  refine collectBytes_eq_ok hn fun i hi => readOrZero_of_safe ?_ (h i hi)
  omega

theorem collectBytes_of_not_safe {m : Memory t.width} {base : UInt64} {n : ℕ}
    (htrap : m.Traps t) (h : ¬ (n ≤ t.width.isizeMax ∧ m.layout.SpanSafe t base n)) :
    ∃ f, collectBytes t n (m.readOrZero t base) = .error f := by
  have hmax := t.width.isizeMax_lt
  by_cases hn : n ≤ t.width.isizeMax
  · have hspan : ¬ m.layout.SpanSafe t base n := fun hspan => h ⟨hn, hspan⟩
    simp only [Layout.SpanSafe, not_forall] at hspan
    obtain ⟨i, hi, hbad⟩ := hspan
    exact collectBytes_error_of_bad hi (readOrZero_of_not_safe htrap (by omega) hbad)
  · exact ⟨_, collectBytes_of_long (Nat.not_le.mp hn)⟩

/-- **Copying through a buffer between safe stretches.** -/
theorem bufferedCopy_of_safe {m : Memory t.width} {dst src n : UInt64}
    (hn : n.toNat ≤ t.width.isizeMax) (hdst : m.layout.SpanSafe t dst n.toNat)
    (hsrc : m.layout.SpanSafe t src n.toNat) :
    m.bufferedCopy t dst src n =
      .ok ((cells t.width).copyBuffered (byteAddr dst) (byteAddr src) n.toNat m) := by
  rw [bufferedCopy, collectBytes_of_safe hn hsrc]
  show m.writeAll t dst _ = _
  rw [writeAll, List.length_map, List.length_range]
  refine (forUpTo_eq_rounds (I := fun u => u.layout = m.layout) rfl ?_ ?_).1
  · intro i u hu
    exact (layout_poke u _ _).trans hu
  · intro i hi u hu
    rw [writeIgnored_of_safe (lt_trans hi n.toNat_lt) (by rw [hu]; exact hdst i hi)]
    have hget : ((List.range n.toNat).map fun i => m.peek (byteAddr src i)).getD i 0 =
        m.peek (byteAddr src i) := by
      rw [List.getD_eq_getElem?_getD, List.getElem?_map, List.getElem?_range hi]
      rfl
    rw [hget]
    rfl

theorem bufferedCopy_of_not_safe {m : Memory t.width} {dst src n : UInt64}
    (htrap : m.Traps t)
    (h : ¬ (n.toNat ≤ t.width.isizeMax ∧ m.layout.SpanSafe t dst n.toNat ∧
      m.layout.SpanSafe t src n.toNat)) :
    ∃ f, m.bufferedCopy t dst src n = .error f := by
  by_cases hread : n.toNat ≤ t.width.isizeMax ∧ m.layout.SpanSafe t src n.toNat
  · have hdst : ¬ m.layout.SpanSafe t dst n.toNat := fun hdst => h ⟨hread.1, hdst, hread.2⟩
    simp only [Layout.SpanSafe, not_forall] at hdst
    obtain ⟨i, hi, hbad⟩ := hdst
    rw [bufferedCopy, collectBytes_of_safe hread.1 hread.2]
    show ∃ f, m.writeAll t dst _ = .error f
    rw [writeAll, List.length_map, List.length_range]
    refine forUpTo_error_of_bad (I := fun u => u.layout = m.layout) hi rfl ?_ ?_
    · intro j _ u u' hu hstep
      rw [layout_writeIgnored hstep, hu]
    · intro u hu
      rw [← hu] at hbad
      exact writeIgnored_of_not_safe ((traps_congr hu).mpr htrap) (lt_trans hi n.toNat_lt) hbad
  · obtain ⟨f, hf⟩ := collectBytes_of_not_safe htrap hread
    refine ⟨f, ?_⟩
    rw [bufferedCopy, hf]
    rfl

end Memory

end Tuniq
