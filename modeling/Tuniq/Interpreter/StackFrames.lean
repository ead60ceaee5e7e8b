import Tuniq.Interpreter.CallStack
import Tuniq.Interpreter.Placement

/-!
# Stack frames

An internal call pushes a frame of registers but leaves `r10` alone, so caller
and callee address the same bytes of the stack.  A callee that stores at
`[r10 - 8]` overwrites what its caller stored there: `callee_overwrites_slot`.

What does hold is the frame rule.  A slot of the caller survives a call when no
store on the way touches one of its eight bytes, even though all the stores go
through the same `r10` (`slot_survives_call`).  The stores are described by the
offsets they cover relative to `r10` (`Vm.frameStore`); that the addresses wrap
at `2 ^ 64` does not matter, since offsets are small.  The bound check of a store has to
be right about where the store ends.  Overflow checks see to that, or a well-placed memory
(`Memory.WellPlaced`), as every one of `Memory::new` is.
-/

namespace Tuniq

theorem toNat_offU64 (off : Int16) : ((offU64 off).toNat : ℤ) = off.toInt % 2 ^ 64 := by
  have h : ((offU64 off).toNat : ℤ) = off.toInt64.toInt % 2 ^ 64 := by
    show (off.toInt64.toBitVec.toNat : ℤ) = off.toInt64.toBitVec.toInt % 2 ^ 64
    have hlt := off.toInt64.toBitVec.isLt
    rw [BitVec.toInt_eq_toNat_bmod]
    exact (Int.bmod_emod.trans (Int.emod_eq_of_lt (by omega) (by omega))).symm
  rw [h, Int16.toInt_toInt64]

/-- The address of an offset, as a number: offsets wrap around at `2 ^ 64`. -/
theorem toNat_add_offU64 (top : UInt64) (off : Int16) :
    ((top + offU64 off).toNat : ℤ) = (top.toNat + off.toInt) % 2 ^ 64 := by
  rw [UInt64.toNat_add]
  push_cast
  rw [toNat_offU64]
  omega

namespace Vm

variable {t : Target} {S : Type}

/-- When the next instruction is a store with base register `r10`, the offsets
from `r10` it covers, as a half-open interval. -/
def frameStore (vm : Vm t S) : Option (ℤ × ℤ) := do
  let i ← vm.fetch
  let n ← i.action.storeWidth
  if i.dst = 10 then some (i.off.toInt, i.off.toInt + n.size) else none

/-- The next instruction stores the `u64` value `v` at `[r10 - k]`. -/
def StoresU64At (vm : Vm t S) (k : ℕ) (v : UInt64) : Prop :=
  ∃ i, vm.fetch = some i ∧ i.dst = 10 ∧ i.off.toInt = -k ∧
    (i.opcode = 0x7B ∧ vm.regs[i.src]? = some v ∨ i.opcode = 0x7A ∧ immU64 i.imm = v)

/-- The step from `vm` to `vm'` writes nothing, or is a store with base register
`r10`, which has the value `top`, to offsets in `[-4096, -1]`. -/
def WritesFrame (top : UInt64) (vm vm' : Vm t S) : Prop :=
  vm'.mem = vm.mem ∨
    ∃ lo hi, vm.frameStore = some (lo, hi) ∧ vm.regs.get .r10 = top ∧ -4096 ≤ lo ∧ hi ≤ 0

/-- As `WritesFrame`, and no byte stored to is one of the eight at `[r10 - k]`. -/
def SparesSlot (top : UInt64) (k : ℕ) (vm vm' : Vm t S) : Prop :=
  vm'.mem = vm.mem ∨
    ∃ lo hi, vm.frameStore = some (lo, hi) ∧ vm.regs.get .r10 = top ∧ -4096 ≤ lo ∧ hi ≤ 0 ∧
      (hi ≤ -k ∨ -k + 8 ≤ lo)

theorem frameStore_eq_some {vm : Vm t S} {lo hi : ℤ} (h : vm.frameStore = some (lo, hi)) :
    ∃ i n, vm.fetch = some i ∧ i.action.storeWidth = some n ∧ i.dst = 10 ∧
      i.off.toInt = lo ∧ lo + n.size = hi := by
  simp only [frameStore, Option.bind_eq_bind, Option.bind_eq_some_iff] at h
  obtain ⟨i, hi, n, hn, h⟩ := h
  split at h
  · rename_i hdst
    obtain ⟨hlo, hhi⟩ := Prod.mk.inj (Option.some.inj h)
    exact ⟨i, n, hi, hn, hdst, hlo, by rw [← hlo]; exact hhi⟩
  · exact absurd h (by simp)

/-! ## What a store does -/

section

variable [Syscalls t S]

/-- A write that went through was safe, and put its bytes. -/
theorem put_of_writeBytes {m m' : Memory t.width} {addr : UInt64} {bs : List UInt8}
    (hplaced : t.overflowChecks = true ∨ m.WellPlaced) (hlen : bs.length ≤ 8)
    (h : m.writeBytes t addr bs = .ok (some m')) :
    m.layout.Safe addr.toNat bs.length ∧ m.put addr.toNat bs = some m' := by
  have hsafe := Memory.safe_of_writeBytes hplaced hlen h
  rw [Memory.writeBytes_of_safe (by omega) hsafe] at h
  exact ⟨hsafe, Except.ok.inj h⟩

/-- **A store that continues put its bytes** at the address of its base register
and offset, and changed nothing but the memory and the program counter. -/
theorem step_of_store {vm vm' : Vm t S} {i : Insn} {n : Width}
    (hplaced : t.overflowChecks = true ∨ vm.mem.WellPlaced)
    (hi : vm.fetch = some i) (hn : i.action.storeWidth = some n) (hstep : vm.step = .ok vm') :
    ∃ base bs, vm.regs[i.dst]? = some base ∧
      (i.action = .storeReg n ∧ (∃ v, vm.regs[i.src]? = some v ∧ bs = Memory.regBytes n v) ∨
        i.action = .storeImm n ∧ bs = Memory.immBytes n i.imm) ∧
      vm.mem.layout.Safe (base + offU64 i.off).toNat n.size ∧
      vm.mem.put (base + offU64 i.off).toNat bs = some vm'.mem ∧
      vm'.regs = vm.regs := by
  obtain ⟨j, hj, hp⟩ := step_eq_ok.mp hstep
  obtain rfl : j = i := Option.some.inj (hj.symm.trans hi)
  have hadv : vm.advance.mem = vm.mem := rfl
  cases ha : j.action with
  | storeReg n' =>
    rw [ha] at hn hp
    obtain rfl : n' = n := Option.some.inj hn
    simp only [perform, bind_eq_ok, reg_eq_ok] at hp
    obtain ⟨base, hbase, v, hv, r, hr, hp⟩ := hp
    cases r with
    | none => exact absurd hp (by simp)
    | some m =>
      obtain rfl := Except.ok.inj hp
      rw [liftHalt_eq_ok, Memory.storeReg_eq, hadv] at hr
      obtain ⟨hsafe, hput⟩ :=
        put_of_writeBytes hplaced (by rw [Memory.length_regBytes]; exact n'.size_le) hr
      rw [Memory.length_regBytes] at hsafe
      exact ⟨base, _, hbase, Or.inl ⟨rfl, v, hv, rfl⟩, hsafe, hput, rfl⟩
  | storeImm n' =>
    rw [ha] at hn hp
    obtain rfl : n' = n := Option.some.inj hn
    simp only [perform, bind_eq_ok, reg_eq_ok] at hp
    obtain ⟨base, hbase, r, hr, hp⟩ := hp
    cases r with
    | none => exact absurd hp (by simp)
    | some m =>
      obtain rfl := Except.ok.inj hp
      rw [liftHalt_eq_ok, Memory.storeImm_eq, hadv] at hr
      obtain ⟨hsafe, hput⟩ :=
        put_of_writeBytes hplaced (by rw [Memory.length_immBytes]; exact n'.size_le) hr
      rw [Memory.length_immBytes] at hsafe
      exact ⟨base, _, hbase, Or.inr ⟨rfl, rfl⟩, hsafe, hput, rfl⟩
  | _ =>
    rw [ha] at hn
    exact absurd hn (by simp [Action.storeWidth])

/-- Offsets that are apart are addresses that are apart. -/
theorem disjoint_of_offsets {top : UInt64} {a b : UInt64} {off off' : Int16} {n k : ℕ}
    (ha : a = top + offU64 off) (hb : b = top + offU64 off')
    (hlo : -4096 ≤ off.toInt) (hlo' : -4096 ≤ off'.toInt)
    (hhi : off.toInt + n ≤ 0) (hhi' : off'.toInt + k ≤ 0)
    (hdisj : off'.toInt + k ≤ off.toInt ∨ off.toInt + n ≤ off'.toInt) :
    a.toNat + n ≤ b.toNat ∨ b.toNat + k ≤ a.toNat := by
  subst ha hb
  have ha := toNat_add_offU64 top off
  have hb := toNat_add_offU64 top off'
  have htop := top.toNat_lt
  omega

/-- The address of a slot, as an offset and as a difference. -/
theorem slot_address {top : UInt64} {off : Int16} {k : ℕ} (hoff : off.toInt = -k)
    (hk : k ≤ 4096) : top + offU64 off = top - UInt64.ofNat k := by
  have hk' : (UInt64.ofNat k).toNat = k := UInt64.toNat_ofNat_of_lt' (by
    show k < 2 ^ 64
    omega)
  have hadd := toNat_add_offU64 top off
  have htop := top.toNat_lt
  apply UInt64.toNat_inj.mp
  rw [UInt64.toNat_sub, hk']
  omega

/-- **One step spares the slot.** -/
theorem get_of_sparesSlot {vm vm' : Vm t S} {top : UInt64} {off : Int16} {k : ℕ}
    (hplaced : t.overflowChecks = true ∨ vm.mem.WellPlaced) (hoff : off.toInt = -k)
    (hk : 8 ≤ k ∧ k ≤ 4096) (hspare : SparesSlot top k vm vm') (hstep : vm.step = .ok vm') :
    vm'.mem.layout = vm.mem.layout ∧
      vm'.mem.get (top + offU64 off).toNat 8 = vm.mem.get (top + offU64 off).toNat 8 := by
  rcases hspare with hmem | ⟨lo, hi, hframe, htop, hlo, hhi, hdisj⟩
  · rw [hmem]
    exact ⟨rfl, rfl⟩
  · obtain ⟨i, n, hi', hn, hdst, rfl, rfl⟩ := frameStore_eq_some hframe
    obtain ⟨base, bs, hbase, hbs, -, hput, -⟩ := step_of_store hplaced hi' hn hstep
    have hlen : bs.length = n.size := by
      rcases hbs with ⟨-, v, -, rfl⟩ | ⟨-, rfl⟩
      · exact Memory.length_regBytes n v
      · exact Memory.length_immBytes n i.imm
    have hbase' : base = top := by
      rw [hdst, Vector.getElem?_eq_getElem (by decide)] at hbase
      exact (Option.some.inj hbase).symm.trans htop
    subst hbase'
    refine ⟨Memory.layout_put hput, Memory.get_put_of_disjoint hput ?_⟩
    rw [hlen]
    exact disjoint_of_offsets rfl rfl (by omega) hlo (by omega) hhi (by omega)

/-- A run whose steps all spare the slot keeps its bytes. -/
theorem get_of_iter {vm vm' : Vm t S} {top : UInt64} {off : Int16} {k n : ℕ}
    (hplaced : t.overflowChecks = true ∨ vm.mem.WellPlaced) (hoff : off.toInt = -k)
    (hk : 8 ≤ k ∧ k ≤ 4096)
    (hspare : ∀ j u u', j < n → iter step j vm = .ok u → u.step = .ok u' →
      SparesSlot top k u u')
    (hn : iter step n vm = .ok vm') :
    vm'.mem.layout = vm.mem.layout ∧
      vm'.mem.get (top + offU64 off).toNat 8 = vm.mem.get (top + offU64 off).toNat 8 := by
  induction n generalizing vm' with
  | zero =>
    obtain rfl := Except.ok.inj hn
    exact ⟨rfl, rfl⟩
  | succ n ih =>
    obtain ⟨u, hu, hstep⟩ := iter_succ_eq_ok.mp hn
    obtain ⟨hlayout, hget⟩ := ih (fun j u u' hj => hspare j u u' (by omega)) hu
    have hplaced' := hplaced.imp_right (Memory.wellPlaced_congr hlayout).mpr
    obtain ⟨hlayout', hget'⟩ :=
      get_of_sparesSlot hplaced' hoff hk (hspare n u vm' (by omega) hu hstep) hstep
    exact ⟨hlayout'.trans hlayout, hget'.trans hget⟩

/-- The bytes behind a store of a `u64`. -/
theorem get_of_storesU64At {vm vm' : Vm t S} {k : ℕ} {v : UInt64}
    (hplaced : t.overflowChecks = true ∨ vm.mem.WellPlaced)
    (hstore : vm.StoresU64At k v) (hstep : vm.step = .ok vm') :
    ∃ off : Int16, off.toInt = -k ∧
      vm.mem.layout.Safe (vm.regs.get .r10 + offU64 off).toNat 8 ∧
      vm'.mem.layout = vm.mem.layout ∧
      vm'.mem.get (vm.regs.get .r10 + offU64 off).toNat 8 = some (toLe 8 v.toNat) := by
  obtain ⟨i, hi, hdst, hoff, hv⟩ := hstore
  have haction : i.action = .storeReg .b8 ∨ i.action = .storeImm .b8 := by
    rcases hv with ⟨hop, -⟩ | ⟨hop, -⟩
    · exact Or.inl (Insn.action_of_opcode hop)
    · exact Or.inr (Insn.action_of_opcode hop)
  have hn : i.action.storeWidth = some .b8 := by
    rcases haction with h | h <;> rw [h] <;> rfl
  obtain ⟨base, bs, hbase, hbs, hsafe, hput, -⟩ := step_of_store hplaced hi hn hstep
  have hbase' : base = vm.regs.get .r10 := by
    rw [hdst, Vector.getElem?_eq_getElem (by decide)] at hbase
    exact (Option.some.inj hbase).symm
  have hbytes : bs = toLe 8 v.toNat := by
    rcases hv with ⟨hop, hv⟩ | ⟨hop, hv⟩ <;> rcases hbs with ⟨ha, u, hu, rfl⟩ | ⟨ha, rfl⟩
    · rw [hv] at hu
      rw [Option.some.inj hu]
      rfl
    · cases (Insn.action_of_opcode hop).symm.trans ha
    · cases (Insn.action_of_opcode hop).symm.trans ha
    · rw [← hv]
      rfl
  subst hbase' hbytes
  have hget := Memory.get_put_self hput
  rw [length_toLe] at hget
  exact ⟨i.off, hoff, hsafe, Memory.layout_put hput, hget⟩

/-- An internal call that goes through was made below the maximal depth. -/
theorem depth_lt_of_call {vm vm' : Vm t S} (hcall : vm.AtInternalCall)
    (hstep : vm.step = .ok vm') : vm.depth < maxCallDepth := by
  obtain ⟨i, hi, hop, hsrc⟩ := hcall
  by_contra hge
  have hge' : maxCallDepth ≤ vm.advance.callStack.length := Nat.not_lt.mp hge
  obtain ⟨j, hj, hp⟩ := step_eq_ok.mp hstep
  obtain rfl : j = i := Option.some.inj (hj.symm.trans hi)
  rw [Insn.action_eq_call_iff.mpr hop, perform, if_neg hsrc, if_pos hge'] at hp
  exact absurd hp (by simp)

/-- A run that stores `v` at `[r10 - k]`, executes an internal call `m` steps
later, with `r10` as it was, and is back at the depth of the call for the first
time `n` steps after that. -/
structure StoreCallReturn (vm c e : Vm t S) (k : ℕ) (v : UInt64) (m n : ℕ) : Prop where
  slot : 8 ≤ k ∧ k ≤ 4096
  stores : vm.StoresU64At k v
  toCall_pos : 0 < m
  toCall : iter step m vm = .ok c
  top : c.regs.get .r10 = vm.regs.get .r10
  atCall : c.AtInternalCall
  toReturn_pos : 0 < n
  toReturn : iter step n c = .ok e
  back : e.depth = c.depth
  first : ∀ j, 0 < j → j < n → ∀ u, iter step j c = .ok u → u.depth ≠ c.depth

/-- **A slot of the caller survives a call** that spares it.  When every step from
the store to the matching exit writes nothing, or stores through `r10` beside the
slot, the caller reads the value back. -/
theorem slot_survives_call {vm c e : Vm t S} {k : ℕ} {v : UInt64} {m n : ℕ}
    (hplaced : t.overflowChecks = true ∨ vm.mem.WellPlaced) (h : StoreCallReturn vm c e k v m n)
    (hspare : ∀ j u u', 0 < j → j < m + n → iter step j vm = .ok u → u.step = .ok u' →
      SparesSlot (vm.regs.get .r10) k u u') :
    e.mem.readU64 t (e.regs.get .r10 - UInt64.ofNat k) = .ok (some v) := by
  have hm := h.toCall_pos
  have hn := h.toReturn_pos
  -- the store is the first step of the run; the rest of it spares the slot
  obtain ⟨vm₁, hvm₁, hrest⟩ :=
    iter_ok_of_le (by omega : 1 ≤ m + n) (iter_add_eq_ok.mpr ⟨c, h.toCall, h.toReturn⟩)
  obtain ⟨u, hu, hstep⟩ := iter_succ_eq_ok.mp hvm₁
  obtain rfl : vm = u := Except.ok.inj hu
  obtain ⟨off, hoff, hsafe, hlayout₁, hget₁⟩ := get_of_storesU64At hplaced h.stores hstep
  have hspare₁ : ∀ j u u', j < m + n - 1 → iter step j vm₁ = .ok u → u.step = .ok u' →
      SparesSlot (vm.regs.get .r10) k u u' := by
    intro j u u' hj hu hu'
    refine hspare (j + 1) u u' (by omega) (by omega) ?_ hu'
    rw [iter_succ_head, hstep]
    exact hu
  obtain ⟨hlayout, hget⟩ :=
    get_of_iter (hplaced.imp_right (Memory.wellPlaced_congr hlayout₁).mpr) hoff h.slot hspare₁ hrest
  -- the matching exit restores the caller's `r10`
  obtain ⟨c₁, hc₁, -⟩ := iter_ok_of_le (by omega : 1 ≤ n) h.toReturn
  obtain ⟨_, hc, hcstep⟩ := iter_succ_eq_ok.mp hc₁
  obtain rfl := Except.ok.inj hc
  have hdepth := depth_lt_of_call h.atCall hcstep
  obtain ⟨x, -, -, hx⟩ := matching_exit h.atCall hdepth hn h.toReturn h.back h.first
  have hr10 : e.regs.get .r10 = vm.regs.get .r10 := by
    rw [hx, ← h.top]
    exact Vector.getElem_set_ne (by decide) (by decide) (by decide)
  rw [hget₁] at hget
  rw [← hlayout₁, ← hlayout] at hsafe
  rw [hr10, ← slot_address hoff h.slot.2, Memory.readU64,
    Memory.readBytes_of_safe (by norm_num) hsafe, hget]
  refine congrArg (fun x => Except.ok (some x)) (UInt64.toNat_inj.mp ?_)
  show (UInt64.ofNat (ofLe (toLe 8 v.toNat))).toNat = v.toNat
  rw [ofLe_toLe_of_lt (lt_of_lt_of_eq v.toNat_lt (by norm_num)), UInt64.ofNat_toNat]

end

/-! ## One function calls another -/

/-- `stdw [r10 - 8], 7; call f; ldxdw r0, [r10 - 8]; exit; f: callee; exit` -/
def callerText (callee : UInt64) : Vec .w32 8 UInt64 :=
  ⟨[0x00000007FFF80A7A, 0x0000000200000085, 0x00000000FFF8A079, 0x95, callee, 0x95],
    show 6 * 8 ≤ _ by decide⟩

/-- `callerText` on a stack of four words. -/
def caller (callee : UInt64) : Vm ⟨.w32, true⟩ GuestSyscalls :=
  start (callerText callee) (Regs.put (Vector.replicate 11 0) .r10 (Memory.stackBaseNew + 32))
    { Memory.empty with stack := Vec.zeroed 32 (by decide) } {}

/-- `stdw [r10 - 8], 9` -/
def overwritingStore : UInt64 := 0x00000009FFF80A7A

/-- `stdw [r10 - 16], 9` -/
def sparingStore : UInt64 := 0x00000009FFF00A7A

/-- Both callees store through `r10`, and the call comes back after three steps. -/
theorem storeCallReturn_caller (callee : UInt64)
    (hcallee : callee ∈ [overwritingStore, sparingStore]) :
    ∃ c e, StoreCallReturn (caller callee) c e 8 7 1 3 := by
  obtain ⟨h2, h3, h1, h4⟩ : observe step depth 2 (caller callee) = some 1 ∧
      observe step depth 3 (caller callee) = some 1 ∧
      observe step (fun u => (u.depth, u.fetch.map Insn.opcode, u.fetch.map Insn.src,
        u.regs.get .r10)) 1 (caller callee) =
          some (0, some 0x85, some 0, Memory.stackBaseNew + 32) ∧
      observe step depth 4 (caller callee) = some 0 := by
    rcases List.mem_pair.mp hcallee with rfl | rfl
    · decide +kernel
    · decide +kernel
  obtain ⟨c, hc, hshow⟩ := observe_eq_some.mp h1
  obtain ⟨e, he, hback⟩ := observe_eq_some.mp h4
  obtain ⟨hcdepth, hshow⟩ := Prod.mk.inj hshow
  obtain ⟨hop, hshow⟩ := Prod.mk.inj hshow
  obtain ⟨hsrc, htop⟩ := Prod.mk.inj hshow
  obtain ⟨c', hc', hce⟩ := iter_ok_of_le (by decide : 1 ≤ 4) he
  obtain rfl : c = c' := Except.ok.inj (hc.symm.trans hc')
  obtain ⟨i, hi, hiop⟩ := Option.map_eq_some_iff.mp hop
  rw [hi] at hsrc
  refine ⟨c, e, by decide, ⟨_, rfl, by decide, by decide, Or.inr ⟨by decide, by decide⟩⟩,
    by decide, hc, htop, ⟨i, hi, hiop, ?_⟩, by decide, hce, hback.trans hcdepth.symm, ?_⟩
  · have : i.src = 0 := Option.some.inj hsrc
    omega
  · intro j hpos hlt u hu
    have hju : iter step (1 + j) (caller callee) = .ok u := iter_add_eq_ok.mpr ⟨c, hc, hu⟩
    have hone : u.depth = 1 := by
      interval_cases j
      · obtain ⟨u', hu', hd⟩ := observe_eq_some.mp h2
        obtain rfl := Except.ok.inj (hju.symm.trans hu')
        exact hd
      · obtain ⟨u', hu', hd⟩ := observe_eq_some.mp h3
        obtain rfl := Except.ok.inj (hju.symm.trans hu')
        exact hd
    omega

/-- The runs of the two callers, as far as memory and `r10` are concerned. -/
theorem observe_caller :
    ∀ p ∈ [(overwritingStore, (-8 : ℤ), (0 : ℤ)), (sparingStore, -16, -8)],
      observe step mem 1 (caller p.1) = observe step mem 2 (caller p.1) ∧
      observe step mem 3 (caller p.1) = observe step mem 4 (caller p.1) ∧
      observe step (fun u => (u.frameStore, u.regs.get .r10)) 2 (caller p.1) =
        some (some (p.2.1, p.2.2), (caller p.1).regs.get .r10) := by
  decide +kernel

/-- From the call to its exit nothing is written but by the callee's store. -/
theorem step_caller {callee : UInt64} {lo hi : ℤ}
    (hcallee : (callee, lo, hi) ∈ [(overwritingStore, -8, 0), (sparingStore, -16, -8)])
    {j : ℕ} {u u' : Vm ⟨.w32, true⟩ GuestSyscalls} (hpos : 0 < j) (hlt : j < 1 + 3)
    (hu : iter step j (caller callee) = .ok u) (hstep : u.step = .ok u') :
    u'.mem = u.mem ∨
      (u.frameStore = some (lo, hi) ∧ u.regs.get .r10 = (caller callee).regs.get .r10) := by
  obtain ⟨h12, h34, h2⟩ := observe_caller _ hcallee
  have hsame : ∀ {j}, iter step j (caller callee) = .ok u →
      observe step mem j (caller callee) = observe step mem (j + 1) (caller callee) →
      u'.mem = u.mem := by
    intro j hu hobs
    have hu' := iter_succ_eq_ok.mpr ⟨u, hu, hstep⟩
    rw [observe, observe, hu, hu'] at hobs
    exact (Option.some.inj hobs).symm
  interval_cases j
  · exact Or.inl (hsame hu h12)
  · obtain ⟨v, hv, hvshow⟩ := observe_eq_some.mp h2
    obtain rfl := Except.ok.inj (hu.symm.trans hv)
    exact Or.inr (Prod.mk.inj hvshow)
  · exact Or.inl (hsame hu h34)

/-- The caller reads its `7` back behind a callee that stores beside the slot. -/
theorem slot_survives_call_sparing :
    ∃ c e, StoreCallReturn (caller sparingStore) c e 8 7 1 3 ∧
      e.mem.readU64 ⟨.w32, true⟩ (e.regs.get .r10 - 8) = .ok (some 7) := by
  obtain ⟨c, e, h⟩ := storeCallReturn_caller sparingStore (by decide)
  refine ⟨c, e, h, slot_survives_call (Or.inr (Memory.wellPlaced_of_standard ⟨rfl, rfl⟩)) h ?_⟩
  intro j u u' hpos hlt hu hstep
  have hcallee : (sparingStore, (-16 : ℤ), (-8 : ℤ)) ∈
      [(overwritingStore, -8, 0), (sparingStore, -16, -8)] := by decide
  refine (step_caller hcallee hpos hlt hu hstep).imp id ?_
  rintro ⟨hframe, htop⟩
  exact ⟨_, _, hframe, htop, by decide, by decide, by decide⟩

/-- **A callee may overwrite its caller's slot** although it only stores through
`r10`, at offsets in `[-4096, -1]`. -/
theorem callee_overwrites_slot :
    ¬ ∀ (vm c e : Vm ⟨.w32, true⟩ GuestSyscalls) (k : ℕ) (v : UInt64) (m n : ℕ),
      vm.mem.Standard → StoreCallReturn vm c e k v m n →
      (∀ j u u', 0 < j → j < m + n → iter step j vm = .ok u → u.step = .ok u' →
        WritesFrame (vm.regs.get .r10) u u') →
      e.mem.readU64 ⟨.w32, true⟩ (e.regs.get .r10 - UInt64.ofNat k) = .ok (some v) := by
  intro hall
  obtain ⟨c, e, h⟩ := storeCallReturn_caller overwritingStore (by decide)
  have hcallee : (overwritingStore, (-8 : ℤ), (0 : ℤ)) ∈
      [(overwritingStore, -8, 0), (sparingStore, -16, -8)] := by decide
  have hread := hall _ c e 8 7 1 3 ⟨rfl, rfl⟩ h fun j u u' hpos hlt hu hstep =>
    (step_caller hcallee hpos hlt hu hstep).imp id fun hframe =>
      ⟨_, _, hframe.1, hframe.2, by decide, by decide⟩
  have hobs : observe step
      (fun u => u.mem.readU64 ⟨.w32, true⟩ (u.regs.get .r10 - UInt64.ofNat 8)) 4
      (caller overwritingStore) = some (.ok (some 9)) := by decide +kernel
  obtain ⟨e', he', hread'⟩ := observe_eq_some.mp hobs
  have he : iter step 4 (caller overwritingStore) = .ok e :=
    iter_add_eq_ok.mpr ⟨c, h.toCall, h.toReturn⟩
  obtain rfl := Except.ok.inj (he.symm.trans he')
  rw [hread] at hread'
  exact absurd hread' (by decide)

end Vm
end Tuniq
