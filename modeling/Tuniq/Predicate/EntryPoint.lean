import Tuniq.Predicate.Drivers

/-!
# Where a run starts

An ELF image says where its program starts: at the address `e_entry`.  Both
drivers rely on it, "The entrypoint does ldxdw r1,[r1+0] first", when they hand
the program a pointer to a pointer.  But `load_text` returns the contents of the
`.text` section only, and `Vm::new` starts at its first word, so `e_entry` is
never looked at.

A linker may put any function first.  The run then starts at the entry point
exactly when the entry point is the address of the section
(`starts_at_entry_iff`), and with another function in front it starts in that
function (`starts_before_entry`).
-/

namespace Tuniq

/-- The words of the section whose header is at `sh`. -/
def sectionWords (elf : List UInt8) (sh : ℕ) : List UInt64 :=
  leWords (window elf (shOffset elf sh) (shSize elf sh))

/-- The entry point is the address of a word of the section whose header is at
`sh`. -/
structure EntersSection (elf : List UInt8) (sh : ℕ) : Prop where
  addr_le : shAddr elf sh ≤ eEntry elf
  lt_end : eEntry elf < shAddr elf sh + shSize elf sh
  aligned : 8 ∣ eEntry elf - shAddr elf sh

namespace Vm

variable {t : Target} {S : Type} {c c' : Bool}

/-- The first instruction `vm` executes, if it executes one, is the one at index
`k` of `words`. -/
def StartsAt (vm : Vm t S) (words : List UInt64) (k : ℕ) : Prop :=
  ∀ i, vm.fetch = some i → vm.pc = k ∧ words[k]?.map decode = some i

/-- A machine at the first word of a text that begins like `words` starts at index
`0` of `words`. -/
theorem startsAt_zero {vm : Vm t S} {words : List UInt64} {n : ℕ} (hpc : vm.pc = 0)
    (htext : vm.text.toList = words.take n) : vm.StartsAt words 0 := by
  intro i hi
  rw [fetch, hpc, htext, Option.map_eq_some_iff] at hi
  obtain ⟨word, hword, rfl⟩ := hi
  rw [List.getElem?_take] at hword
  split at hword
  · exact ⟨hpc, by rw [hword]; rfl⟩
  · exact absurd hword (by simp)

/-- However the buffer is written, a driver's machine starts at the first word of its
text. -/
theorem prepareVm_eq_ok {keep : Memory t.width → Option (Memory t.width) →
      Except Fault (Memory t.width)} {text : Vec t.width 8 UInt64} {buf : List UInt8}
    {syscalls : S} {vm : Vm t S} (h : prepareVm t keep text buf syscalls = .ok vm) :
    vm.pc = 0 ∧ vm.text = text := by
  simp only [prepareVm, Vm.new, bind_eq_ok] at h
  obtain ⟨_, -, _, -, _, -, _, -, _, -, vm', ⟨_, -, hvm'⟩, h⟩ := h
  obtain rfl := Except.ok.inj hvm'
  obtain rfl := Except.ok.inj h
  exact ⟨rfl, rfl⟩

/-- The guest's machine starts at the first word of what it was sent. -/
theorem guestMain_eq_ok {W : Type} {σ : Serde W} {text : Vec .w64 8 UInt64}
    {balance threshold : UInt64} {vm : GuestVm c}
    (h : guestMain c σ (proverInput σ text balance threshold) = .ok vm) :
    vm.pc = 0 ∧ vm.text.toList = text.toList.take (text.len % 2 ^ 32) := by
  rw [guestMain, bind_eq_ok] at h
  obtain ⟨⟨bytecode, buf⟩, hread, h⟩ := h
  obtain ⟨hpc, htext⟩ := prepareVm_eq_ok h
  exact ⟨hpc, by rw [htext, bytecode_eq_take σ hread]⟩

/-- What `run_predicate`, and the guest fed by `prove_predicate`, execute first is the
instruction at index `k` of `words`. -/
def DriversStartAt {W : Type} (c c' : Bool) (σ : Serde W) (text : Vec .w64 8 UInt64)
    (balance threshold : UInt64) (words : List UInt64) (k : ℕ) : Prop :=
  (∀ vm, runPredicate c text balance threshold = .ok vm → vm.StartsAt words k) ∧
    ∀ vm, guestMain c' σ (proverInput σ text balance threshold) = .ok vm →
      vm.StartsAt words k

/-- Both drivers start at the first instruction. -/
theorem driversStartAt_zero {W : Type} (σ : Serde W) (text : Vec .w64 8 UInt64)
    (balance threshold : UInt64) :
    DriversStartAt c c' σ text balance threshold text.toList 0 := by
  refine ⟨fun vm hvm => ?_, fun vm hvm => ?_⟩
  · obtain ⟨hpc, htext⟩ := prepareVm_eq_ok hvm
    refine startsAt_zero (n := text.toList.length) hpc ?_
    rw [htext, List.take_length]
  · obtain ⟨hpc, htext⟩ := guestMain_eq_ok hvm
    exact startsAt_zero hpc htext

/-- The harness does start, at no other instruction. -/
theorem eq_zero_of_driversStartAt {W : Type} {σ : Serde W} {text : Vec .w64 8 UInt64}
    {balance threshold : UInt64} {words : List UInt64} {k : ℕ} (hne : text.toList ≠ [])
    (h : DriversStartAt c c' σ text balance threshold words k) : k = 0 := by
  obtain ⟨word, rest, htext⟩ := List.exists_cons_of_ne_nil hne
  have hvm := runPredicate_eq (c := c) text balance threshold
  have hfetch : (start text inputRegs
      (inputMemory .w64 _ (buildInputBuffer_fits balance threshold)) {} : HostVm c).fetch =
        some (decode word) := by
    show (text.toList[0]?).map decode = _
    rw [htext]
    rfl
  exact ((h.1 _ hvm) _ hfetch).1.symm

/-- **A run starts at the entry point exactly when the entry point is the address of
`.text`.**  This is said for every image that `load_text` accepts whose entry point
is the address of a word of `.text`, for the harness on the host and for the guest. -/
theorem starts_at_entry_iff {W : Type} (σ : Serde W) {elf : Bytes .w64}
    {text : Vec .w64 8 UInt64} {sh : ℕ} (hload : loadText ⟨.w64, c⟩ elf = .ok text)
    (hsh : findText ⟨.w64, c⟩ elf = .ok sh) (hentry : EntersSection elf.toList sh)
    (balance threshold : UInt64) :
    DriversStartAt c c' σ text balance threshold (sectionWords elf.toList sh)
        ((eEntry elf.toList - shAddr elf.toList sh) / 8) ↔
      eEntry elf.toList = shAddr elf.toList sh := by
  obtain ⟨sh', hsh', hfit, htext⟩ := loadText_eq_ok hload
  obtain rfl : sh' = sh := Except.ok.inj (hsh'.symm.trans hsh)
  obtain ⟨hle, hlt, haligned⟩ := hentry
  have hwords : sectionWords elf.toList sh' = text.toList := htext.symm
  rw [hwords]
  constructor
  · intro h
    by_contra hne
    -- an entry point behind the first word leaves room for that word
    have hlong : text.toList.length ≠ 0 := by
      rw [htext, length_leWords, length_window hfit]
      omega
    have hzero := eq_zero_of_driversStartAt (List.length_pos_iff.mp (by omega)) h
    omega
  · intro heq
    rw [heq, Nat.sub_self, Nat.zero_div]
    exact driversStartAt_zero σ text balance threshold

/-! ## An image with two functions -/

/-- An ELF64 section header. -/
def sectionHeader (name type flags addr offset size : ℕ) : List UInt8 :=
  toLe 4 name ++ toLe 4 type ++ toLe 8 flags ++ toLe 8 addr ++ toLe 8 offset ++ toLe 8 size ++
    List.replicate 8 0 ++ toLe 8 1 ++ toLe 8 0

/-- The section headers at `64`, `128` and `192`, and the contents of `.text` and
`.shstrtab` behind them.  `.text` is two functions: `mov r0, 1` at address `256`, and
`exit` at address `264`, which is the entry point. -/
def twoFunctions : List UInt8 :=
  [0x7F, 0x45, 0x4C, 0x46, 2, 1, 1, 0] ++ List.replicate 8 0 ++
    toLe 2 3 ++ toLe 2 0xF7 ++ toLe 4 1 ++ toLe 8 264 ++ toLe 8 0 ++ toLe 8 64 ++
    toLe 4 0 ++ toLe 2 64 ++ toLe 2 56 ++ toLe 2 0 ++ toLe 2 64 ++ toLe 2 3 ++ toLe 2 2 ++
    sectionHeader 0 0 0 0 0 0 ++ sectionHeader 1 1 6 256 256 16 ++
    sectionHeader 7 3 0 0 272 17 ++
    toLe 8 0x00000001000000B7 ++ toLe 8 0x95 ++
    [0, 0x2E, 0x74, 0x65, 0x78, 0x74, 0, 0x2E, 0x73, 0x68, 0x73, 0x74, 0x72, 0x74, 0x61, 0x62, 0]

/-- The image, in memory. -/
def entersSecond : Bytes .w64 := ⟨twoFunctions, by decide +kernel⟩

/-- Its words. -/
def entersSecondText : Vec .w64 8 UInt64 := ⟨[0x00000001000000B7, 0x95], by decide⟩

theorem loadText_entersSecond : loadText ⟨.w64, true⟩ entersSecond = .ok entersSecondText := by
  decide +kernel

theorem findText_entersSecond : findText ⟨.w64, true⟩ entersSecond = .ok 128 := by
  decide +kernel

theorem eEntry_entersSecond : eEntry entersSecond.toList = 264 := by decide +kernel

theorem shAddr_entersSecond : shAddr entersSecond.toList 128 = 256 := by decide +kernel

theorem entersSection_entersSecond : EntersSection entersSecond.toList 128 := by
  have hsize : shSize entersSecond.toList 128 = 16 := by decide +kernel
  constructor
  · rw [eEntry_entersSecond, shAddr_entersSecond]
    decide
  · rw [eEntry_entersSecond, shAddr_entersSecond, hsize]
    decide
  · rw [eEntry_entersSecond, shAddr_entersSecond]

/-- The image does not start at its second function. -/
theorem starts_at_entry_iff_entersSecond :
    ¬ DriversStartAt true true wordSerde entersSecondText 7 5
      (sectionWords entersSecond.toList 128)
      ((eEntry entersSecond.toList - shAddr entersSecond.toList 128) / 8) := by
  intro h
  have heq := (starts_at_entry_iff wordSerde loadText_entersSecond findText_entersSecond
    entersSection_entersSecond 7 5).mp h
  rw [eEntry_entersSecond, shAddr_entersSecond] at heq
  exact absurd heq (by decide)

/-- **A run may start before the entry point.** -/
theorem starts_before_entry :
    ¬ ∀ (elf : Bytes .w64) (text : Vec .w64 8 UInt64) (sh : ℕ) (balance threshold : UInt64),
      loadText ⟨.w64, true⟩ elf = .ok text → findText ⟨.w64, true⟩ elf = .ok sh →
      EntersSection elf.toList sh →
      DriversStartAt true true wordSerde text balance threshold (sectionWords elf.toList sh)
        ((eEntry elf.toList - shAddr elf.toList sh) / 8) := by
  intro hall
  have h := hall entersSecond entersSecondText 128 7 5 loadText_entersSecond findText_entersSecond
    entersSection_entersSecond
  have hzero := eq_zero_of_driversStartAt (by decide) h
  rw [eEntry_entersSecond, shAddr_entersSecond] at hzero
  exact absurd hzero (by decide)

end Vm
end Tuniq
