import Tuniq.Rust.Basic

/-!
# Loading the text of an ELF image

`load_text` walks the section-header table of an ELF64 image, compares each
section's name with `.text`, and returns the contents of the first match as
little-endian words.  Every offset comes from the image, so every sum can
overflow and every slice can be out of range; both end in a panic.

`findText` is the walk and returns the offset of the section header it stopped
at, `loadText` is the rest.  For the results the header fields are also read
without bounds (`eEntry`, `shAddr`, `shSize`): on an image that `loadText`
accepts these are the same bytes (`loadText_eq_ok`).
-/

namespace Tuniq

/-- `.collect::<Vec<_>>()` of values at hand. -/
def collectVec {α : Type} (w : PtrWidth) (size : ℕ) (l : List α) :
    Except Fault (Vec w size α) :=
  if h : l.length * size ≤ w.isizeMax then .ok ⟨l, h⟩ else .error .capacityOverflow

theorem collectVec_eq_ok {α : Type} {w : PtrWidth} {size : ℕ} {l : List α}
    {v : Vec w size α} : collectVec w size l = .ok v ↔ v.toList = l := by
  rw [collectVec]
  split
  · rw [Except.ok.injEq, Vec.ext_iff, eq_comm]
  · rename_i h
    constructor
    · exact fun hv => absurd hv (by simp)
    · rintro rfl
      exact absurd v.size_le h

/-- `chunks_exact(8).map(u64::from_le_bytes)` -/
def leWords (bs : List UInt8) : List UInt64 :=
  (List.range (bs.length / 8)).map fun i => UInt64.ofNat (ofLe (window bs (8 * i) 8))

theorem length_leWords (bs : List UInt8) : (leWords bs).length = bs.length / 8 := by
  rw [leWords, List.length_map, List.length_range]

section

variable (t : Target)

/-- `from_le_bytes(elf[base + lo..base + hi])` -/
def readField (elf : Bytes t.width) (base lo hi : ℕ) : Except Fault ℕ := do
  let a ← t.addUsize base lo
  let b ← t.addUsize base hi
  return ofLe (← slice elf.toList a b)

/-- The name of the section whose name stands at `nameOff` of the string table: the
bytes up to the next zero, and none when there is no zero. -/
def sectionName (elf : Bytes t.width) (shstrOff nameOff : ℕ) :
    Except Fault (List UInt8) := do
  let ns ← t.addUsize shstrOff nameOff
  let rest ← slice elf.toList ns elf.len
  let ne := match rest.findIdx? (· == 0) with
    | some p => ns + p
    | none => ns
  slice elf.toList ns ne

/-- `b".text"` -/
def dotText : List UInt8 := [0x2E, 0x74, 0x65, 0x78, 0x74]

/-- The loop of `load_text` over the sections `i, …, i + n - 1`, up to the first
one called `.text`: the offset of its header. -/
def searchText (elf : Bytes t.width) (eShoff eShentsize shstrOff : ℕ) (i : ℕ) :
    ℕ → Except Fault ℕ
  | 0 => .error .explicitPanic
  | n + 1 => do
    let sh ← t.addUsize eShoff (← t.mulUsize i eShentsize)
    let nameOff := t.width.asUsize (← readField t elf sh 0 4)
    let name ← sectionName t elf shstrOff nameOff
    if name = dotText then return sh
    else searchText elf eShoff eShentsize shstrOff (i + 1) n

/-- `load_text` up to the section header it finds. -/
def findText (elf : Bytes t.width) : Except Fault ℕ := do
  let eShoff := t.width.asUsize (← readField t elf 0 40 48)
  let eShentsize ← readField t elf 0 58 60
  let eShnum ← readField t elf 0 60 62
  let eShstrndx ← readField t elf 0 62 64
  let shstrSh ← t.addUsize eShoff (← t.mulUsize eShstrndx eShentsize)
  let shstrOff := t.width.asUsize (← readField t elf shstrSh 24 32)
  searchText t elf eShoff eShentsize shstrOff 0 eShnum

/-- `load_text` -/
def loadText (elf : Bytes t.width) : Except Fault (Vec t.width 8 UInt64) := do
  let sh ← findText t elf
  let off := t.width.asUsize (← readField t elf sh 24 32)
  let size := t.width.asUsize (← readField t elf sh 32 40)
  let stop ← t.addUsize off size
  let bytes ← slice elf.toList off stop
  collectVec t.width 8 (leWords bytes)

end

/-! ## Header fields -/

/-- `e_entry`, the entry point in the file header. -/
def eEntry (elf : List UInt8) : ℕ := ofLe (window elf 24 8)

/-- `sh_addr` of the section header at `sh`. -/
def shAddr (elf : List UInt8) (sh : ℕ) : ℕ := ofLe (window elf (sh + 16) 8)

/-- `sh_offset` of the section header at `sh`. -/
def shOffset (elf : List UInt8) (sh : ℕ) : ℕ := ofLe (window elf (sh + 24) 8)

/-- `sh_size` of the section header at `sh`. -/
def shSize (elf : List UInt8) (sh : ℕ) : ℕ := ofLe (window elf (sh + 32) 8)

section

variable {t : Target}

theorem addUsize_lt {a b v : ℕ} (h : t.addUsize a b = .ok v) : v < t.width.usizeCard := by
  have hpos : 0 < t.width.usizeCard := Nat.two_pow_pos _
  rw [Target.addUsize] at h
  split at h
  · rename_i hlt
    rw [← Except.ok.inj h]
    exact hlt
  · split at h
    · exact absurd h (by simp)
    · rw [← Except.ok.inj h]
      exact Nat.mod_lt _ hpos

/-- A sum that is not below its first part did not wrap. -/
theorem eq_add_of_addUsize {a b v : ℕ} (hb : b < t.width.usizeCard)
    (h : t.addUsize a b = .ok v) (ha : a < t.width.usizeCard) (hle : a ≤ v) : v = a + b := by
  rw [Target.addUsize] at h
  split at h
  · exact (Except.ok.inj h).symm
  · rename_i hge
    split at h
    · exact absurd h (by simp)
    · have hwrap : (a + b) % t.width.usizeCard = a + b - t.width.usizeCard := by
        rw [Nat.mod_eq_sub_mod (by omega), Nat.mod_eq_of_lt (by omega)]
      have hv : t.width.asUsize (a + b) = v := Except.ok.inj h
      rw [PtrWidth.asUsize, hwrap] at hv
      omega

/-- A field whose end is below `2 ^ 64` is read where it stands. -/
theorem readField_of_lt {elf : Bytes t.width} {base lo hi : ℕ} (hlohi : lo ≤ hi)
    (hlt : base + hi < t.width.usizeCard) {v : ℕ} :
    readField t elf base lo hi = .ok v ↔
      base + hi ≤ elf.len ∧ ofLe (window elf.toList (base + lo) (hi - lo)) = v := by
  have hwidth : base + hi - (base + lo) = hi - lo := by omega
  rw [readField, Target.addUsize_of_lt (by omega), Target.addUsize_of_lt hlt]
  show (do return ofLe (← slice elf.toList (base + lo) (base + hi))) = _ ↔ _
  rw [slice, hwidth]
  by_cases hfit : base + hi ≤ elf.len
  · rw [if_pos ⟨by omega, hfit⟩, and_iff_right hfit]
    exact ⟨fun h => Except.ok.inj h, fun h => congrArg Except.ok h⟩
  · rw [if_neg fun h => hfit h.2]
    exact iff_of_false (by simp [bind, Except.bind]) fun h => hfit h.1

/-- The first field of a header is only read when it lies in the image: past the end
of the address space its end would wrap below its start. -/
theorem le_len_of_readField {elf : Bytes t.width} {base v : ℕ}
    (hbase : base < t.width.usizeCard) (h : readField t elf base 0 4 = .ok v) :
    base + 4 ≤ elf.len := by
  have hcard : 4 < t.width.usizeCard := by cases t.width <;> decide
  rw [readField, Target.addUsize_of_lt (by omega), bind_eq_ok] at h
  obtain ⟨a, ha, h⟩ := h
  obtain rfl := Except.ok.inj ha
  rw [bind_eq_ok] at h
  obtain ⟨b, hb, h⟩ := h
  rw [bind_eq_ok] at h
  obtain ⟨bs, hbs, -⟩ := h
  obtain ⟨⟨hle, hfit⟩, -⟩ := slice_eq_ok.mp hbs
  obtain rfl := eq_add_of_addUsize hcard hb hbase hle
  exact hfit

/-- The header the walk stops at is one whose name could be read. -/
theorem searchText_eq_ok {elf : Bytes t.width} {eShoff eShentsize shstrOff i n sh : ℕ}
    (h : searchText t elf eShoff eShentsize shstrOff i n = .ok sh) : sh + 4 ≤ elf.len := by
  induction n generalizing i with
  | zero => exact absurd h (by simp [searchText])
  | succ n ih =>
    simp only [searchText, bind_eq_ok] at h
    obtain ⟨off, -, u, hu, nameOff, hname, name, -, h⟩ := h
    split at h
    · obtain rfl := Except.ok.inj h
      exact le_len_of_readField (addUsize_lt hu) hname
    · exact ih h

theorem findText_eq_ok {elf : Bytes t.width} {sh : ℕ} (h : findText t elf = .ok sh) :
    sh + 4 ≤ elf.len := by
  simp only [findText, bind_eq_ok] at h
  obtain ⟨_, -, _, -, _, -, _, -, _, -, _, -, _, -, h⟩ := h
  exact searchText_eq_ok h

end

/-- **What `load_text` returns on the host**: the contents of the section whose
header the walk found, as words. -/
theorem loadText_eq_ok {c : Bool} {elf : Bytes .w64} {text : Vec .w64 8 UInt64}
    (h : loadText ⟨.w64, c⟩ elf = .ok text) :
    ∃ sh, findText ⟨.w64, c⟩ elf = .ok sh ∧
      shOffset elf.toList sh + shSize elf.toList sh ≤ elf.len ∧
      text.toList = leWords (window elf.toList (shOffset elf.toList sh)
        (shSize elf.toList sh)) := by
  have hlen := Vec.len_lt elf
  have hcard : PtrWidth.w64.usizeCard = 2 ^ 64 := rfl
  simp only [loadText, bind_eq_ok] at h
  obtain ⟨sh, hsh, off, hoff, size, hsize, stop, hstop, bytes, hbytes, hvec⟩ := h
  have hhead := findText_eq_ok hsh
  have hlt : ∀ k, k ≤ 64 → sh + k < PtrWidth.w64.usizeCard := by
    intro k hk
    rw [hcard]
    have : sh + 4 ≤ elf.len := hhead
    omega
  obtain ⟨hoffLen, rfl⟩ := (readField_of_lt (by norm_num) (hlt 32 (by norm_num))).mp hoff
  obtain ⟨hsizeLen, rfl⟩ := (readField_of_lt (by norm_num) (hlt 40 (by norm_num))).mp hsize
  -- eight bytes are below `2 ^ 64`, so the casts to `usize` keep them
  have hcast : ∀ k, sh + k + 8 ≤ elf.len → PtrWidth.w64.asUsize
      (ofLe (window elf.toList (sh + k) 8)) = ofLe (window elf.toList (sh + k) 8) := by
    intro k hk
    have hlt := ofLe_lt (window elf.toList (sh + k) 8)
    rw [length_window hk] at hlt
    exact Nat.mod_eq_of_lt (lt_of_lt_of_eq hlt (by decide))
  have hoffset : PtrWidth.w64.asUsize (ofLe (window elf.toList (sh + 24) (32 - 24))) =
      shOffset elf.toList sh := hcast 24 hoffLen
  have hsize' : PtrWidth.w64.asUsize (ofLe (window elf.toList (sh + 32) (40 - 32))) =
      shSize elf.toList sh := hcast 32 hsizeLen
  rw [hoffset] at hstop hbytes
  rw [hsize'] at hstop
  obtain ⟨⟨hle, hfit⟩, rfl⟩ := slice_eq_ok.mp hbytes
  have hlt64 : ∀ k, PtrWidth.w64.asUsize k < 2 ^ 64 := fun k => Nat.mod_lt _ (by decide)
  obtain rfl := eq_add_of_addUsize (hsize' ▸ hlt64 _) hstop (hoffset ▸ hlt64 _) hle
  refine ⟨sh, hsh, hfit, ?_⟩
  rw [collectVec_eq_ok.mp hvec, Nat.add_sub_cancel_left]

end Tuniq
