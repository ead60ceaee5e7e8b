import Tuniq.Interpreter.Copying
import Tuniq.Interpreter.PanicFree

/-!
# Syscalls on unmapped memory

A load or a store of an unmapped byte returns `InvalidMemoryAccess`.  The memory
syscalls do not: the methods of the `Syscalls` trait return nothing, a byte that cannot be
read counts as `0`, and a write that is refused is dropped.

So a call on a range that is partly mapped, or not mapped at all, goes through like any
other.  `never_refuse` says what it leaves.  Every mapped byte of the destination
receives its value, which for an unmapped source byte is `0`; no other byte changes; and
`sol_set_return_data` returns a `0` for each byte it could not read.

`sol_memcpy` reads byte `i` of the source after it has written bytes `0, …, i - 1` of the
destination, so where the two overlap it copies what it has just written.
-/

namespace Tuniq

/-- Some region maps the byte at `addr`. -/
def Layout.Mapped (L : Layout) (addr : ℕ) : Prop := ∃ r, L.Maps r addr

theorem Layout.mapped_iff {L : Layout} {addr : ℕ} :
    L.Mapped addr ↔ L.lookup addr 1 ≠ none := by
  have hwithin : ∀ r, L.Maps r addr ↔ L.Within r addr 1 := by
    intro r
    unfold Maps Within
    omega
  unfold Mapped lookup
  constructor
  · rintro ⟨r, hr⟩
    split
    · simp
    · rename_i hstack
      cases r with
      | stack => exact absurd ((hwithin _).mp hr) hstack
      | heap =>
        rw [if_pos ((hwithin _).mp hr)]
        simp
  · intro h
    split at h
    · rename_i hstack
      exact ⟨.stack, (hwithin _).mpr hstack⟩
    · split at h
      · rename_i hheap
        exact ⟨.heap, (hwithin _).mpr hheap⟩
      · exact absurd rfl h

namespace Memory

variable {w : PtrWidth} {t : Target}

/-- The mapped bytes of a stretch hold what `f` says, and no other byte has changed. -/
structure Receives (base n : UInt64) (f : ℕ → UInt8) (m m' : Memory w) : Prop where
  layout : m'.layout = m.layout
  frame : AgreeOutside byteAt (stretch base n.toNat) m m'
  bytes : ∀ i, i < n.toNat → m.layout.Mapped (byteAddr base i) →
    m'.peek (byteAddr base i) = f i

/-- **A loop that writes one byte a round** writes those that are mapped. -/
theorem receives_rounds {m : Memory w} {base n : UInt64} {f : ℕ → Memory w → UInt8}
    {g : ℕ → Memory w → Memory w} (hg : ∀ i u, g i u = u.poke (byteAddr base i) (f i u)) :
    Receives base n (fun i => f i (rounds g i m)) m (rounds g n.toNat m) where
  layout := layout_pokes fun i u => ⟨_, hg i u⟩
  frame := agreeOutside_stretch fun i u => ⟨_, hg i u⟩
  bytes := fun _ hi hmaps =>
    peek_rounds_byteAddr hg n.toNat_lt.le hi (Layout.mapped_iff.mp hmaps)

/-- What a copy in place reads in round `i`: where an earlier round has written, what it
left there, and elsewhere what stood there at the start. -/
theorem peek_copyInPlace (m : Memory w) {dst src : UInt64} {n i : ℕ} (hn : n ≤ 2 ^ 64)
    (hi : i < n) :
    ((cells w).copyInPlace (byteAddr dst) (byteAddr src) i m).peek (byteAddr src i) =
      if ∃ j < i, byteAddr src i = byteAddr dst j then
        ((cells w).copyInPlace (byteAddr dst) (byteAddr src) n m).peek (byteAddr src i)
      else m.peek (byteAddr src i) := by
  split
  · rename_i hover
    obtain ⟨j, hj, heq⟩ := hover
    rw [heq]
    refine ((cells w).peek_rounds_of_ne (fun _ _ => rfl) m hi.le fun k hik hk => ?_).symm
    exact byteAddr_ne hn (by omega) hk
  · rename_i hover
    refine (cells w).peek_rounds_of_ne (fun _ _ => rfl) m (Nat.zero_le i) fun j _ hj heq => ?_
    exact hover ⟨j, hj, heq⟩

theorem receives_copyInPlace (m : Memory w) (dst src n : UInt64) :
    Receives dst n
      (fun i =>
        if ∃ j < i, byteAddr src i = byteAddr dst j then
          ((cells w).copyInPlace (byteAddr dst) (byteAddr src) n.toNat m).peek (byteAddr src i)
        else m.peek (byteAddr src i))
      m ((cells w).copyInPlace (byteAddr dst) (byteAddr src) n.toNat m) := by
  have hrounds : Receives dst n
      (fun i => ((cells w).copyInPlace (byteAddr dst) (byteAddr src) i m).peek (byteAddr src i))
      m ((cells w).copyInPlace (byteAddr dst) (byteAddr src) n.toNat m) :=
    receives_rounds (f := fun i u => u.peek (byteAddr src i)) fun _ _ => rfl
  refine ⟨hrounds.layout, hrounds.frame, fun i hi hmaps => ?_⟩
  rw [hrounds.bytes i hi hmaps]
  exact peek_copyInPlace m n.toNat_lt.le hi

theorem receives_copyBuffered (m : Memory w) (dst src n : UInt64) :
    Receives dst n (fun i => m.peek (byteAddr src i)) m
      ((cells w).copyBuffered (byteAddr dst) (byteAddr src) n.toNat m) :=
  receives_rounds (f := fun i _ => m.peek (byteAddr src i)) fun _ _ => rfl

theorem receives_fill (m : Memory w) (dst n : UInt64) (val : UInt8) :
    Receives dst n (fun _ => val) m
      (rounds (fun i u => u.poke (byteAddr dst i) val) n.toNat m) :=
  receives_rounds (f := fun _ _ => val) fun _ _ => rfl

end Memory

namespace Vm

variable {t : Target} {S : Type}

/-- The hashes of `sol_memcpy_`, `sol_memset_`, `sol_memmove_`, and the two of
`sol_set_return_data`. -/
def byteHashes : List UInt32 := memoryHashes ++ [0x5b839aba, 5]

/-- The addresses an arm of `dispatch_syscall` reads and writes. -/
def Touches (vm : Vm t S) : Hash → Set ℕ
  | .solMemcpy | .solMemmove =>
    {a | ∃ i < (vm.regs.get .r3).toNat,
      a = byteAddr (vm.regs.get .r1) i ∨ a = byteAddr (vm.regs.get .r2) i}
  | .solMemset => {a | ∃ i < (vm.regs.get .r3).toNat, a = byteAddr (vm.regs.get .r1) i}
  | .solSetReturnData =>
    {a | ∃ i < t.width.asUsize (vm.regs.get .r2).toNat, a = byteAddr (vm.regs.get .r1) i}
  | .solLog | .solPanic | .unknown => ∅

/-- What an arm of `dispatch_syscall` leaves in the memory and in the return data, mapped
or not. -/
def BytesEffect (vm : Vm t S) (m : Memory t.width) (data : List UInt8) : Hash → Prop
  | .solMemcpy =>
    data = vm.returnData ∧ Memory.Receives (vm.regs.get .r1) (vm.regs.get .r3)
      (fun i =>
        if ∃ j < i, byteAddr (vm.regs.get .r2) i = byteAddr (vm.regs.get .r1) j then
          m.peek (byteAddr (vm.regs.get .r2) i)
        else vm.mem.peek (byteAddr (vm.regs.get .r2) i)) vm.mem m
  | .solMemset =>
    data = vm.returnData ∧ Memory.Receives (vm.regs.get .r1) (vm.regs.get .r3)
      (fun _ => (vm.regs.get .r2).toUInt8) vm.mem m
  | .solMemmove =>
    data = vm.returnData ∧ Memory.Receives (vm.regs.get .r1) (vm.regs.get .r3)
      (fun i => vm.mem.peek (byteAddr (vm.regs.get .r2) i)) vm.mem m
  | .solSetReturnData =>
    m = vm.mem ∧ data = (List.range (t.width.asUsize (vm.regs.get .r2).toNat)).map fun i =>
      vm.mem.peek (byteAddr (vm.regs.get .r1) i)
  | .solLog | .solPanic | .unknown => m = vm.mem ∧ data = vm.returnData

/-- The state behind a call that left `m` and `data`. -/
def afterCall (vm : Vm t S) (m : Memory t.width) (data : List UInt8) : Vm t S :=
  { vm with pc := vm.pc + 1, regs := vm.regs.put .r0 0, mem := m, returnData := data }

/-- No arm of `dispatch_syscall` returns an error. -/
theorem performSyscall_ne_err [Syscalls t S] (vm u : Vm t S) (k : Hash) (e : SbpfError) :
    vm.performSyscall k ≠ .error (.err e u) := by
  intro h
  cases k with
  | solLog | solPanic | unknown => exact absurd h (by simp [performSyscall])
  | solMemcpy | solMemset | solMemmove | solSetReturnData =>
    rcases bind_eq_error.mp h with h | ⟨r, -, h⟩
    · obtain ⟨f, hf⟩ := panic_of_liftHalt h
      exact absurd hf (by simp)
    · exact absurd h (by simp [pure, Except.pure])

/-- A safe arm has its effect. -/
theorem performSyscall_of_safe {vm : Vm t GuestSyscalls} {k : Hash} (hk : k ≠ .unknown)
    (h : vm.SyscallSafe k) :
    ∃ m data, vm.advance.performSyscall k = .ok (vm.afterCall m data) ∧
      vm.BytesEffect m data k := by
  cases k with
  | unknown => exact absurd rfl hk
  | solLog | solPanic => exact ⟨vm.mem, vm.returnData, rfl, rfl, rfl⟩
  | solMemcpy =>
    refine ⟨_, vm.returnData, ?_, rfl, Memory.receives_copyInPlace _ _ _ _⟩
    refine bind_eq_ok.mpr ⟨({}, _), liftHalt_eq_ok.mpr ?_, rfl⟩
    exact bind_eq_ok.mpr ⟨_, Memory.forwardCopy_of_safe h.1 h.2, rfl⟩
  | solMemset =>
    refine ⟨_, vm.returnData, ?_, rfl, Memory.receives_fill _ _ _ _⟩
    refine bind_eq_ok.mpr ⟨({}, _), liftHalt_eq_ok.mpr ?_, rfl⟩
    exact bind_eq_ok.mpr ⟨_, Memory.fill_of_safe h, rfl⟩
  | solMemmove =>
    obtain ⟨hn, hdst, hsrc⟩ := h
    refine ⟨_, vm.returnData, ?_, rfl, Memory.receives_copyBuffered _ _ _ _⟩
    refine bind_eq_ok.mpr ⟨({}, _), liftHalt_eq_ok.mpr ?_, rfl⟩
    exact bind_eq_ok.mpr ⟨_, Memory.bufferedCopy_of_safe hn hdst hsrc, rfl⟩
  | solSetReturnData =>
    obtain ⟨hn, hspan⟩ := h
    refine ⟨vm.mem, _, ?_, rfl, rfl⟩
    exact bind_eq_ok.mpr
      ⟨_, liftHalt_eq_ok.mpr (Memory.collectBytes_of_safe hn hspan), rfl⟩

/-- The four syscalls are in the table. -/
theorem ofU32_ne_unknown {hash : UInt32} (h : hash ∈ byteHashes) :
    Hash.ofU32 hash ≠ .unknown := by
  rw [Ne, ofU32_eq_unknown_iff, not_not]
  have hsub : byteHashes ⊆ syscallTable := by decide
  exact hsub h

/-- **The memory syscalls never refuse a range.**  Whichever bytes of it are mapped, a
call of `sol_memcpy_`, `sol_memset_`, `sol_memmove_` or `sol_set_return_data` returns no
error.  When no address sum overflows and the buffer can be allocated, it goes on behind
the call with `r0 = 0`: an unmapped byte reads as `0`, a write to one is dropped, and every
other byte is as `BytesEffect` says. -/
theorem never_refuse {vm : Vm t GuestSyscalls} {hash : UInt32} (hcall : vm.CallsSyscall hash)
    (hhash : hash ∈ byteHashes) :
    (∀ e u, vm.step ≠ .error (.err e u)) ∧
      (vm.SyscallSafe (Hash.ofU32 hash) →
        ∃ m data, vm.step = .ok (vm.afterCall m data) ∧
          vm.BytesEffect m data (Hash.ofU32 hash)) := by
  rw [step_of_callsSyscall hcall]
  refine ⟨fun e u => performSyscall_ne_err vm.advance u _ e, fun hsafe => ?_⟩
  exact performSyscall_of_safe (ofU32_ne_unknown hhash) hsafe

/-- `sol_memset_`, and an exit. -/
def fillText : Vec .w32 8 UInt64 := ⟨[0x3770fb220000008D, 0x95], by decide⟩

/-- The machine that fills eleven bytes at address `11` of a memory that maps none. -/
def filling : Vm ⟨.w32, true⟩ GuestSyscalls :=
  start fillText (Vector.replicate 11 11) Memory.empty {}

theorem filling_callsSyscall : filling.CallsSyscall 0x3770fb22 :=
  ⟨_, rfl, Or.inr (by decide), by decide⟩

theorem filling_safe : filling.SyscallSafe (Hash.ofU32 0x3770fb22) := by
  intro i hi
  have hi' : i < 11 := hi
  have hbyte : byteAddr (filling.regs.get .r1) i = 11 + i := by
    show (11 + i) % 2 ^ 64 = 11 + i
    omega
  refine ⟨fun _ => ?_, ?_⟩
  · show 11 + i < 2 ^ 64
    omega
  · rw [hbyte, Memory.safe_iff_of_standard ⟨rfl, rfl⟩ (by decide)]
    omega

/-- The call goes through. -/
theorem never_refuse_filling :
    (∀ e u, filling.step ≠ .error (.err e u)) ∧
      ∃ m data, filling.step = .ok (filling.afterCall m data) := by
  obtain ⟨hne, hok⟩ := never_refuse filling_callsSyscall (by decide)
  obtain ⟨m, data, hstep, -⟩ := hok filling_safe
  exact ⟨hne, m, data, hstep⟩

/-- **Filling unmapped memory is not refused.** -/
theorem unmapped_fill_accepted :
    ¬ ∀ (vm : Vm ⟨.w32, true⟩ GuestSyscalls) (hash : UInt32),
      vm.CallsSyscall hash → hash ∈ byteHashes →
        (∃ a ∈ vm.Touches (Hash.ofU32 hash), ¬ vm.mem.layout.Mapped a) →
          ∃ a n u, vm.step = .error (.err (.invalidMemoryAccess a n) u) ∧
            u.mem = vm.mem ∧ u.returnData = vm.returnData := by
  intro hall
  have htouch : 11 ∈ filling.Touches (Hash.ofU32 0x3770fb22) := ⟨0, by decide, by decide⟩
  have hunmapped : ¬ filling.mem.layout.Mapped 11 := by
    rw [Layout.mapped_iff]
    decide
  obtain ⟨a, n, u, hstep, -⟩ :=
    hall filling 0x3770fb22 filling_callsSyscall (by decide) ⟨11, htouch, hunmapped⟩
  rw [step_of_callsSyscall filling_callsSyscall] at hstep
  exact performSyscall_ne_err filling.advance u _ _ hstep

end Vm
end Tuniq
