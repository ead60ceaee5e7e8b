import Tuniq.Library.Framing
import Tuniq.Interpreter.Failures
import Tuniq.Interpreter.MappedAccess
import Tuniq.Interpreter.StackFrames
import Tuniq.Interpreter.SwallowedCalls
import Tuniq.Interpreter.SyscallRules

/-!
# What a step writes

The interpreter writes through raw pointers, and it hands the whole memory to the
syscalls.  Still a step changes only what its instruction names.  A store changes bytes
at its effective address, as many as it is wide, and in one region.  A copy or a fill
changes bytes between `r1` and `r1 + r3`.  Every other step leaves the memory alone, and
so does a step that returns an error.

A byte is addressed by its region and its virtual address, `Memory.byteAt`, so a set of
bytes does not depend on the memory it is looked up in.  What a write may change is then
a footprint in the sense of `Tuniq.Library.Framing`: of a single write in
`agreeOutside_put`, of a byte in `agreeOutside_poke`, and of the loops by the frame rule.

The overflow checks enter in one place: they keep the addresses `r1 + i` from wrapping
around.
-/

namespace Tuniq

/-! ## The bytes of a memory -/

namespace Memory

variable {w : PtrWidth} {t : Target}

/-- The byte of a region at a virtual address, if it is mapped. -/
def byteAt (m : Memory w) (c : Region × ℕ) : Option UInt8 :=
  if m.layout.base c.1 ≤ c.2 then (m.bytes c.1).toList[c.2 - m.layout.base c.1]? else none

/-- The bytes between two addresses. -/
def span (lo n : ℕ) : Set (Region × ℕ) := {c | lo ≤ c.2 ∧ c.2 < lo + n}

theorem byteAt_ne_none_iff {m : Memory w} {c : Region × ℕ} :
    m.byteAt c ≠ none ↔ m.layout.Maps c.1 c.2 := by
  have hlen : (m.bytes c.1).toList.length = m.layout.len c.1 := (layout_len m c.1).symm
  unfold byteAt Layout.Maps
  split
  · rename_i hbase
    rw [Ne, List.getElem?_eq_none_iff, hlen]
    omega
  · rename_i hbase
    exact iff_of_false (by simp) fun h => hbase h.1

/-- **The footprint of a write**: its bytes, in one region. -/
theorem agreeOutside_put {m m' : Memory w} {a : ℕ} {bs : List UInt8}
    (h : m.put a bs = some m') :
    ∃ r, AgreeOutside byteAt {c | c.1 = r ∧ c ∈ span a bs.length} m m' := by
  have hlayout := layout_put h
  obtain ⟨r, off, hlook, hfit, rfl⟩ := put_eq_some h
  obtain ⟨haddr, -⟩ := Layout.lookup_eq_some hlook
  refine ⟨r, fun c hc => ?_⟩
  unfold byteAt
  rw [hlayout]
  by_cases hr : c.1 = r
  · have hout : ¬ (a ≤ c.2 ∧ c.2 < a + bs.length) := fun hin => hc ⟨hr, hin⟩
    rw [hr, bytes_setBytes_self, Vec.toList_overwrite, getElem?_overwrite hfit]
    split
    · rw [if_neg (by omega)]
    · rfl
  · rw [bytes_setBytes_of_ne m _ hr]

/-- Writing one byte changes that byte. -/
theorem agreeOutside_poke (m : Memory w) (a : ℕ) (b : UInt8) :
    AgreeOutside byteAt (span a 1) m (m.poke a b) := by
  rw [poke]
  cases h : m.put a (toLe 1 b.toNat) with
  | none => exact AgreeOutside.refl m
  | some m' =>
    obtain ⟨r, hr⟩ := agreeOutside_put h
    rw [length_toLe] at hr
    exact hr.mono fun c hc => hc.2

/-- The addresses of a safe stretch do not wrap around. -/
theorem byteAddr_of_checks {L : Layout} {base : UInt64} {n i : ℕ}
    (hc : t.overflowChecks = true) (h : L.SpanSafe t base n) (hi : i < n) :
    byteAddr base i = base.toNat + i :=
  Nat.mod_eq_of_lt ((h i hi).1 hc)

/-- The bytes of the stretch at `base`, which may wrap around. -/
def stretch (base : UInt64) (n : ℕ) : Set (Region × ℕ) :=
  {c | ∃ i, i < n ∧ c.2 = byteAddr base i}

/-- **The footprint of a loop of writes.** -/
theorem agreeOutside_stretch {m : Memory w} {base : UInt64} {n : ℕ}
    {g : ℕ → Memory w → Memory w} (hg : ∀ i u, ∃ b, g i u = u.poke (byteAddr base i) b) :
    AgreeOutside byteAt (stretch base n) m (rounds g n m) := by
  refine agreeOutside_rounds (fun i hi u => ?_) m
  obtain ⟨b, hb⟩ := hg i u
  rw [hb]
  refine (agreeOutside_poke u _ b).mono fun c hc => ⟨i, hi, ?_⟩
  obtain ⟨hlo, hhi⟩ := hc
  omega

/-- A stretch that does not wrap around lies between two addresses. -/
theorem stretch_subset_span {base : UInt64} {n : ℕ}
    (h : ∀ i, i < n → byteAddr base i = base.toNat + i) :
    stretch base n ⊆ span base.toNat n := by
  rintro c ⟨i, hi, hc⟩
  rw [h i hi] at hc
  exact ⟨by omega, by omega⟩

theorem agreeOutside_pokes {m : Memory w} {L : Layout} {base : UInt64} {n : ℕ}
    {g : ℕ → Memory w → Memory w} (hc : t.overflowChecks = true)
    (h : L.SpanSafe t base n) (hg : ∀ i u, ∃ b, g i u = u.poke (byteAddr base i) b) :
    AgreeOutside byteAt (span base.toNat n) m (rounds g n m) :=
  (agreeOutside_stretch hg).mono
    (stretch_subset_span fun _ hi => byteAddr_of_checks hc h hi)

/-- The same loop keeps the layout. -/
theorem layout_pokes {m : Memory w} {addr : ℕ → ℕ} {n : ℕ} {g : ℕ → Memory w → Memory w}
    (hg : ∀ i u, ∃ b, g i u = u.poke (addr i) b) : (rounds g n m).layout = m.layout := by
  induction n with
  | zero => rfl
  | succ n ih =>
    obtain ⟨b, hb⟩ := hg n (rounds g n m)
    rw [rounds, hb, layout_poke, ih]

/-- A byte that changes is a mapped one. -/
theorem agreeOutside_mapped {m m' : Memory w} {s : Set (Region × ℕ)}
    (hlayout : m'.layout = m.layout) (h : AgreeOutside byteAt s m m') :
    AgreeOutside byteAt {c | m.layout.Maps c.1 c.2 ∧ c ∈ s} m m' := by
  intro c hc
  by_cases hmaps : m.layout.Maps c.1 c.2
  · exact h fun hs => hc ⟨hmaps, hs⟩
  · have hnone : m.byteAt c = none := not_not.mp fun hne => hmaps (byteAt_ne_none_iff.mp hne)
    have hnone' : m'.byteAt c = none :=
      not_not.mp fun hne => hmaps (hlayout ▸ byteAt_ne_none_iff.mp hne)
    rw [hnone, hnone']

/-- What the memory syscalls change. -/
def Fills (dst n : UInt64) (m m' : Memory w) : Prop :=
  m'.layout = m.layout ∧ AgreeOutside byteAt (span dst.toNat n.toNat) m m'

theorem fills_of_pokes {m m' : Memory w} {L : Layout} {dst n : UInt64}
    {g : ℕ → Memory w → Memory w} (hc : t.overflowChecks = true)
    (h : L.SpanSafe t dst n.toNat) (hg : ∀ i u, ∃ b, g i u = u.poke (byteAddr dst i) b)
    (hm : rounds g n.toNat m = m') : Fills dst n m m' := by
  subst hm
  exact ⟨layout_pokes hg, agreeOutside_pokes hc h hg⟩

theorem fills_of_fill {m m' : Memory t.width} {dst n : UInt64} {val : UInt8}
    (hc : t.overflowChecks = true) (h : m.fill t dst val n = .ok m') : Fills dst n m m' := by
  by_cases hsafe : m.layout.SpanSafe t dst n.toNat
  · rw [fill_of_safe hsafe] at h
    exact fills_of_pokes hc hsafe (fun i u => ⟨val, rfl⟩) (Except.ok.inj h)
  · obtain ⟨f, hf⟩ : ∃ f, m.fill t dst val n = .error f := fill_of_not_safe (Or.inl hc) hsafe
    rw [hf] at h
    exact absurd h (by simp)

theorem fills_of_forwardCopy {m m' : Memory t.width} {dst src n : UInt64}
    (hc : t.overflowChecks = true) (h : m.forwardCopy t dst src n = .ok m') :
    Fills dst n m m' := by
  by_cases hsafe : m.layout.SpanSafe t dst n.toNat ∧ m.layout.SpanSafe t src n.toNat
  · rw [forwardCopy_of_safe hsafe.1 hsafe.2] at h
    exact fills_of_pokes hc hsafe.1 (fun i u => ⟨_, rfl⟩) (Except.ok.inj h)
  · obtain ⟨f, hf⟩ := forwardCopy_of_not_safe (Or.inl hc) hsafe
    rw [hf] at h
    exact absurd h (by simp)

theorem fills_of_bufferedCopy {m m' : Memory t.width} {dst src n : UInt64}
    (hc : t.overflowChecks = true) (h : m.bufferedCopy t dst src n = .ok m') :
    Fills dst n m m' := by
  by_cases hsafe : n.toNat ≤ t.width.isizeMax ∧ m.layout.SpanSafe t dst n.toNat ∧
      m.layout.SpanSafe t src n.toNat
  · rw [bufferedCopy_of_safe hsafe.1 hsafe.2.1 hsafe.2.2] at h
    exact fills_of_pokes hc hsafe.2.1 (fun i u => ⟨_, rfl⟩) (Except.ok.inj h)
  · obtain ⟨f, hf⟩ := bufferedCopy_of_not_safe (Or.inl hc) hsafe
    rw [hf] at h
    exact absurd h (by simp)

end Memory

/-! ## The instructions that write -/

/-- The eight store opcodes, with their widths. -/
def storeOpcodes : List (UInt8 × Width) :=
  [(0x73, .b1), (0x6B, .b2), (0x63, .b4), (0x7B, .b8),
    (0x72, .b1), (0x6A, .b2), (0x62, .b4), (0x7A, .b8)]

theorem Insn.mem_storeOpcodes {i : Insn} {n : Width} (h : i.action.storeWidth = some n) :
    (i.opcode, n) ∈ storeOpcodes := by
  unfold Insn.action at h
  split at h
  all_goals
    first
    | cases h
      done
    | rename_i hop
      obtain rfl := Option.some.inj h
      rw [hop]
      decide

namespace Vm

/-- The hashes of `sol_memcpy_`, `sol_memset_` and `sol_memmove_`. -/
def memoryHashes : List UInt32 := [0xa92366c4, 0x3770fb22, 0x0d667e63]

theorem mem_memoryHashes {hash : UInt32} (h : (Hash.ofU32 hash).WritesMemory) :
    hash ∈ memoryHashes := by
  unfold Hash.ofU32 at h
  split at h <;> simp_all [Hash.WritesMemory, memoryHashes]

variable {t : Target} {S : Type}

/-- What a step may do to the memory: nothing; what a store does, which is to change
bytes at its effective address, no more than it is wide and all in one region; or what
one of the three syscalls does, which is to change mapped bytes between `r1` and
`r1 + r3`. -/
inductive MemoryEffect (vm vm' : Vm t S) : Prop where
  | same (h : vm'.mem = vm.mem)
  | store {i : Insn} {n : Width} {a : UInt64} {r : Region} (hi : vm.fetch = some i)
      (hop : (i.opcode, n) ∈ storeOpcodes) (ha : vm.regs[i.dst]? = some a)
      (h : AgreeOutside Memory.byteAt
        {c | c.1 = r ∧ c ∈ Memory.span (a + offU64 i.off).toNat n.size} vm.mem vm'.mem)
  | syscall {hash : UInt32} (hcall : vm.CallsSyscall hash) (hhash : hash ∈ memoryHashes)
      (h : AgreeOutside Memory.byteAt
        {c | vm.mem.layout.Maps c.1 c.2 ∧
          c ∈ Memory.span (vm.regs.get .r1).toNat (vm.regs.get .r3).toNat} vm.mem vm'.mem)

theorem fills_of_performSyscall {vm vm' : Vm t GuestSyscalls} {k : Hash}
    (hc : t.overflowChecks = true) (hk : k.WritesMemory)
    (h : vm.performSyscall k = .ok vm') :
    Memory.Fills (vm.regs.get .r1) (vm.regs.get .r3) vm.mem vm'.mem := by
  rcases hk with rfl | rfl | rfl
  · obtain ⟨r, hr, h⟩ := bind_eq_ok.mp h
    obtain rfl := Except.ok.inj h
    obtain ⟨m, hm, hr⟩ := bind_eq_ok.mp (liftHalt_eq_ok.mp hr)
    obtain rfl := Except.ok.inj hr
    exact Memory.fills_of_forwardCopy hc hm
  · obtain ⟨r, hr, h⟩ := bind_eq_ok.mp h
    obtain rfl := Except.ok.inj h
    obtain ⟨m, hm, hr⟩ := bind_eq_ok.mp (liftHalt_eq_ok.mp hr)
    obtain rfl := Except.ok.inj hr
    exact Memory.fills_of_fill hc hm
  · obtain ⟨r, hr, h⟩ := bind_eq_ok.mp h
    obtain rfl := Except.ok.inj h
    obtain ⟨m, hm, hr⟩ := bind_eq_ok.mp (liftHalt_eq_ok.mp hr)
    obtain rfl := Except.ok.inj hr
    exact Memory.fills_of_bufferedCopy hc hm

/-- **What one step writes.** -/
theorem memoryEffect_of_step {vm vm' : Vm t GuestSyscalls} (hc : t.overflowChecks = true)
    (h : vm.step = .ok vm') :
    vm'.mem.layout = vm.mem.layout ∧ vm.MemoryEffect vm' := by
  rcases mem_step h with ⟨i, hi, ⟨n, hn⟩ | ⟨hcalls, hk⟩⟩ | hmem
  · obtain ⟨a, bs, ha, hbs, -, hput, -⟩ := step_of_store (Or.inl hc) hi hn h
    have hlen : bs.length = n.size := by
      rcases hbs with ⟨-, v, -, rfl⟩ | ⟨-, rfl⟩
      · exact Memory.length_regBytes n v
      · exact Memory.length_immBytes n i.imm
    obtain ⟨r, hr⟩ := Memory.agreeOutside_put hput
    rw [hlen] at hr
    exact ⟨Memory.layout_put hput, .store hi (Insn.mem_storeOpcodes hn) ha hr⟩
  · have hcall : vm.CallsSyscall (immU32 i.imm) := by
      refine ⟨i, hi, hcalls.imp (fun ha => ⟨?_, ha.2⟩) fun ha => ?_, rfl⟩
      · exact Insn.action_eq_call_iff.mp ha.1
      · exact Insn.action_eq_syscall_iff.mp ha
    rw [step_of_callsSyscall hcall] at h
    obtain ⟨hlayout, hfills⟩ := fills_of_performSyscall hc hk h
    exact ⟨hlayout, .syscall hcall (mem_memoryHashes hk)
      (Memory.agreeOutside_mapped hlayout hfills)⟩
  · rw [hmem]
    exact ⟨rfl, .same hmem⟩

/-- No step moves a region or changes its length. -/
theorem layout_of_reaches {vm vm' : Vm t GuestSyscalls} (hc : t.overflowChecks = true)
    (h : Reaches step vm vm') : vm'.mem.layout = vm.mem.layout :=
  h.invariant (I := fun u => u.mem.layout = vm.mem.layout)
    (fun _ _ hu hstep => (memoryEffect_of_step hc hstep).1.trans hu) rfl

/-- **A program writes only where its instructions say.**  On every run of the guest
with checked arithmetic, and in any memory: the two regions stay where they are and as
long as they are, every step that continues has one of the effects `MemoryEffect` lists,
and a step that stops the run, with an error or with `Ok`, leaves the memory as it
was. -/
theorem writes_confined {vm₀ vm : Vm t GuestSyscalls} (hc : t.overflowChecks = true)
    (hrun : Reaches step vm₀ vm) :
    vm.mem.layout = vm₀.mem.layout ∧
      (∀ vm', vm.step = .ok vm' → vm'.mem.layout = vm₀.mem.layout ∧ vm.MemoryEffect vm') ∧
      (∀ e u, vm.step = .error (.err e u) → u.mem = vm.mem) ∧
      (∀ r0 u, vm.step = .error (.ok r0 u) → u.mem = vm.mem) := by
  have hlayout := layout_of_reaches hc hrun
  refine ⟨hlayout, fun vm' h => ?_, fun e u h => (noEffect_of_err h).mem, fun r0 u h => ?_⟩
  · obtain ⟨hstep, heffect⟩ := memoryEffect_of_step hc h
    exact ⟨hstep.trans hlayout, heffect⟩
  · obtain ⟨i, -, -, -, -, rfl⟩ := step_eq_halt_ok h
    rfl

/-- The store of a called function, two steps into a run. -/
theorem writes_confined_caller :
    ∃ vm vm', Reaches step (caller sparingStore) vm ∧ vm.step = .ok vm' ∧
      vm'.mem.layout = (caller sparingStore).mem.layout ∧ vm.MemoryEffect vm' := by
  have hobs : observe step depth 3 (caller sparingStore) = some 1 := by
    decide +kernel
  obtain ⟨vm', hrun, -⟩ := observe_eq_some.mp hobs
  obtain ⟨vm, hvm, hstep⟩ := iter_succ_eq_ok.mp hrun
  have hreach : Reaches step (caller sparingStore) vm := ⟨2, hvm⟩
  obtain ⟨hlayout, heffect⟩ := (writes_confined rfl hreach).2.1 vm' hstep
  exact ⟨vm, vm', hreach, hstep, hlayout, heffect⟩

end Vm
end Tuniq
