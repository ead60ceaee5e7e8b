import Tuniq.Predicate.EntryPoint

/-!
# Finding the section called `.text`

`load_text` follows offsets through three tables: the file header says where the section
headers are and which of them describes the table of names, that table says what each
section is called, and the header of the section says where its contents are.  The first
section whose name, up to the terminating zero, is `.text` is the one it loads.

`SectionTable` is what an image must have for these offsets to lead somewhere: the header,
the section headers, at least forty bytes apart, and the table of names lie in the image.
Then no sum overflows and no slice of the tables is out of range, and the names decide
alone (`searchText_of_first`, `searchText_of_none`), as long as they begin in the image.
The slice `elf[ns..]` panics at a name that does not, whatever section comes later
(`loadText_stray_name`).

A name is compared whole.  `.text.unlikely` does not stop the search, because the scan for
the zero runs on past the fifth byte; neither does a `.text` that the image ends before it
is terminated, because a name without an end counts as empty (`take_findIdx_eq_iff`).
-/

namespace Tuniq

/-! ## The fields of the header -/

/-- `e_shoff`, where the section headers begin. -/
def eShoff (elf : List UInt8) : ℕ := ofLe (window elf 40 8)

/-- `e_shentsize`, how far apart they are. -/
def eShentsize (elf : List UInt8) : ℕ := ofLe (window elf 58 2)

/-- `e_shnum`, how many there are. -/
def eShnum (elf : List UInt8) : ℕ := ofLe (window elf 60 2)

/-- `e_shstrndx`, which of them describes the table of names. -/
def eShstrndx (elf : List UInt8) : ℕ := ofLe (window elf 62 2)

/-- `sh_name` of the section header at `sh`. -/
def shName (elf : List UInt8) (sh : ℕ) : ℕ := ofLe (window elf sh 4)

/-- The offset of section header `i`. -/
def sectionAt (elf : List UInt8) (i : ℕ) : ℕ := eShoff elf + i * eShentsize elf

/-- The offset of the table of names. -/
def nameTable (elf : List UInt8) : ℕ := shOffset elf (sectionAt elf (eShstrndx elf))

/-- The offset of the name of section `i`. -/
def nameStart (elf : List UInt8) (i : ℕ) : ℕ := nameTable elf + shName elf (sectionAt elf i)

/-- Section `i` is called `.text`: its name is these five bytes and a zero. -/
def NamedText (elf : List UInt8) (i : ℕ) : Prop :=
  window elf (nameStart elf i) 6 = dotText ++ [0]

instance (elf : List UInt8) (i : ℕ) : Decidable (NamedText elf i) :=
  inferInstanceAs (Decidable (_ = _))

/-- The section headers and the table of names lie in the image. -/
structure SectionTable (elf : List UInt8) : Prop where
  header : 64 ≤ elf.length
  entsize : 40 ≤ eShentsize elf
  headers : eShoff elf + eShnum elf * eShentsize elf ≤ elf.length
  strndx : eShstrndx elf < eShnum elf
  names : nameTable elf + shSize elf (sectionAt elf (eShstrndx elf)) ≤ elf.length

instance (elf : List UInt8) : Decidable (SectionTable elf) :=
  decidable_of_iff (64 ≤ elf.length ∧ 40 ≤ eShentsize elf ∧
      eShoff elf + eShnum elf * eShentsize elf ≤ elf.length ∧ eShstrndx elf < eShnum elf ∧
      nameTable elf + shSize elf (sectionAt elf (eShstrndx elf)) ≤ elf.length)
    ⟨fun ⟨h₁, h₂, h₃, h₄, h₅⟩ => ⟨h₁, h₂, h₃, h₄, h₅⟩,
      fun ⟨h₁, h₂, h₃, h₄, h₅⟩ => ⟨h₁, h₂, h₃, h₄, h₅⟩⟩

/-- Each section header lies in the image. -/
theorem SectionTable.sectionAt_le {elf : List UInt8} (h : SectionTable elf) {i : ℕ}
    (hi : i < eShnum elf) : sectionAt elf i + 40 ≤ elf.length := by
  have hmul : (i + 1) * eShentsize elf ≤ eShnum elf * eShentsize elf :=
    Nat.mul_le_mul_right _ hi
  have hent := h.entsize
  have hall := h.headers
  rw [Nat.succ_mul] at hmul
  unfold sectionAt
  omega

/-! ## Terminated names -/

/-- What stands before the first zero is a given name, when the name is followed by a
zero. -/
theorem take_findIdx_eq_iff {l name : List UInt8} (hne : name ≠ []) (hzero : 0 ∉ name) :
    (match l.findIdx? (· == 0) with
      | some p => l.take p
      | none => []) = name ↔ l.take (name.length + 1) = name ++ [0] := by
  constructor
  · intro h
    split at h
    · rename_i p hp
      obtain ⟨hlt, hbyte, -⟩ := List.findIdx?_eq_some_iff_getElem.mp hp
      have hlen : name.length = p := by
        rw [← h, List.length_take]
        omega
      rw [hlen, List.take_succ_eq_append_getElem hlt, h, beq_iff_eq.mp hbyte]
    · exact absurd h.symm hne
  · intro h
    obtain ⟨rest, rfl⟩ : ∃ rest, l = name ++ 0 :: rest := by
      refine ⟨l.drop (name.length + 1), ?_⟩
      conv_lhs => rw [← List.take_append_drop (name.length + 1) l, h]
      rw [List.append_assoc, List.singleton_append]
    have hfind : (name ++ 0 :: rest).findIdx? (· == 0) = some name.length := by
      rw [List.findIdx?_eq_some_iff_getElem]
      refine ⟨by rw [List.length_append, List.length_cons]; omega, ?_, fun j hj => ?_⟩
      · rw [List.getElem_append_right le_rfl]
        simp
      · rw [List.getElem_append_left hj, beq_iff_eq]
        intro heq
        exact hzero (heq ▸ List.getElem_mem hj)
    rw [hfind]
    exact List.take_left

section

variable {t : Target}

/-! ## Reading inside the image -/

theorem mulUsize_of_lt {a b : ℕ} (h : a * b < t.width.usizeCard) :
    t.mulUsize a b = .ok (a * b) := by
  rw [Target.mulUsize, if_pos h]

theorem lt_usizeCard {elf : Bytes t.width} {n : ℕ} (h : n ≤ elf.len) :
    n < t.width.usizeCard := by
  have hlen := elf.len_le
  have hcard := t.width.usizeCard_eq
  omega

/-- A field of the image is read where it stands. -/
theorem readField_of_le {elf : Bytes t.width} {base lo hi : ℕ} (hlohi : lo ≤ hi)
    (hfit : base + hi ≤ elf.len) :
    readField t elf base lo hi = .ok (ofLe (window elf.toList (base + lo) (hi - lo))) :=
  (readField_of_lt hlohi (lt_usizeCard hfit)).mpr ⟨hfit, rfl⟩

/-- The offset of a section header inside the image. -/
theorem sectionAt_eq_ok {elf : Bytes t.width} {i : ℕ}
    (h : sectionAt elf.toList i ≤ elf.len) :
    (do
      let d ← t.mulUsize i (eShentsize elf.toList)
      t.addUsize (eShoff elf.toList) d) = .ok (sectionAt elf.toList i) := by
  have hlt := lt_usizeCard h
  unfold sectionAt at hlt
  refine bind_eq_ok.mpr ⟨_, mulUsize_of_lt (by omega), ?_⟩
  rw [Target.addUsize_of_lt hlt]
  rfl

/-- A name that begins in the image, up to its zero. -/
theorem sectionName_of_le {elf : Bytes t.width} {shstrOff nameOff : ℕ}
    (h : shstrOff + nameOff ≤ elf.len) :
    sectionName t elf shstrOff nameOff =
      .ok (match (elf.toList.drop (shstrOff + nameOff)).findIdx? (· == 0) with
        | some p => (elf.toList.drop (shstrOff + nameOff)).take p
        | none => []) := by
  have hrest : slice elf.toList (shstrOff + nameOff) elf.len =
      .ok (elf.toList.drop (shstrOff + nameOff)) := by
    refine slice_eq_ok.mpr ⟨⟨h, le_rfl⟩, ?_⟩
    refine List.take_of_length_le ?_
    rw [List.length_drop]
    exact le_rfl
  refine bind_eq_ok.mpr ⟨_, Target.addUsize_of_lt (lt_usizeCard h), ?_⟩
  refine bind_eq_ok.mpr ⟨_, hrest, ?_⟩
  cases hp : (elf.toList.drop (shstrOff + nameOff)).findIdx? (· == 0) with
  | none =>
    refine slice_eq_ok.mpr ⟨⟨le_rfl, h⟩, ?_⟩
    rw [Nat.sub_self]
    rfl
  | some p =>
    obtain ⟨hlt, -, -⟩ := List.findIdx?_eq_some_iff_getElem.mp hp
    rw [List.length_drop] at hlt
    have hend : shstrOff + nameOff + p ≤ elf.toList.length := by omega
    refine slice_eq_ok.mpr ⟨⟨Nat.le_add_right _ p, hend⟩, ?_⟩
    rw [Nat.add_sub_cancel_left]
    rfl

/-- It is `.text` when the five bytes are followed by a zero. -/
theorem sectionName_eq_dotText_iff {elf : Bytes t.width} {shstrOff nameOff : ℕ}
    (h : shstrOff + nameOff ≤ elf.len) :
    sectionName t elf shstrOff nameOff = .ok dotText ↔
      window elf.toList (shstrOff + nameOff) 6 = dotText ++ [0] := by
  rw [sectionName_of_le h, Except.ok.injEq]
  exact take_findIdx_eq_iff (by decide) (by decide)

/-! ## The search -/

/-- Four bytes are below `2 ^ 32`, so the cast to `usize` keeps them. -/
theorem asUsize_shName (elf : List UInt8) (sh : ℕ) :
    t.width.asUsize (shName elf sh) = shName elf sh := by
  have hlen : (window elf sh 4).length ≤ 4 := List.length_take_le _ _
  have hlt := ofLe_lt (window elf sh 4)
  have hpow : 256 ^ (window elf sh 4).length ≤ 256 ^ 4 := Nat.pow_le_pow_right (by norm_num) hlen
  have hcard : 256 ^ 4 ≤ t.width.usizeCard := by cases t.width <;> decide
  exact Nat.mod_eq_of_lt (by
    unfold shName
    omega)

/-- One round of the search. -/
theorem searchText_succ {elf : Bytes t.width} (h : SectionTable elf.toList) {i : ℕ}
    (hi : i < eShnum elf.toList) (n : ℕ) :
    searchText t elf (eShoff elf.toList) (eShentsize elf.toList) (nameTable elf.toList) i (n + 1) =
      sectionName t elf (nameTable elf.toList) (shName elf.toList (sectionAt elf.toList i)) >>=
        fun name => if name = dotText then .ok (sectionAt elf.toList i)
          else searchText t elf (eShoff elf.toList) (eShentsize elf.toList)
            (nameTable elf.toList) (i + 1) n := by
  have hle : sectionAt elf.toList i + 40 ≤ elf.len := h.sectionAt_le hi
  have hsection : sectionAt elf.toList i ≤ elf.len := by omega
  obtain ⟨d, hd, hsh⟩ := bind_eq_ok.mp (sectionAt_eq_ok (t := t) hsection)
  have hname : readField t elf (sectionAt elf.toList i) 0 4 =
      .ok (shName elf.toList (sectionAt elf.toList i)) :=
    readField_of_le (Nat.zero_le 4) (by omega)
  rw [searchText, hd, ok_bind, hsh, ok_bind, hname, ok_bind, asUsize_shName]
  rfl

/-- **The search stops at the first section called `.text`**, when the names before it
begin in the image. -/
theorem searchText_of_first {elf : Bytes t.width} (h : SectionTable elf.toList) {i k n : ℕ}
    (hk : k < n) (hn : i + n = eShnum elf.toList) (hnamed : NamedText elf.toList (i + k))
    (hfirst : ∀ j, i ≤ j → j < i + k →
      ¬ NamedText elf.toList j ∧ nameStart elf.toList j ≤ elf.len) :
    searchText t elf (eShoff elf.toList) (eShentsize elf.toList) (nameTable elf.toList) i n =
      .ok (sectionAt elf.toList (i + k)) := by
  induction k generalizing i n with
  | zero =>
    obtain ⟨n, rfl⟩ := Nat.exists_eq_succ_of_ne_zero (Nat.ne_zero_of_lt hk)
    rw [Nat.add_zero] at hnamed
    have hstart : nameStart elf.toList i ≤ elf.len := by
      show nameStart elf.toList i ≤ elf.toList.length
      have hwindow := congrArg List.length hnamed
      rw [window, List.length_take, List.length_drop] at hwindow
      have h6 : (dotText ++ [0]).length = 6 := rfl
      rw [h6] at hwindow
      omega
    have hname := (sectionName_eq_dotText_iff (t := t) hstart).mpr hnamed
    rw [searchText_succ h (by omega), hname, ok_bind, if_pos rfl]
    rfl
  | succ k ih =>
    obtain ⟨n, rfl⟩ := Nat.exists_eq_succ_of_ne_zero (Nat.ne_zero_of_lt hk)
    obtain ⟨hnot, hstart⟩ := hfirst i le_rfl (by omega)
    have hname := sectionName_of_le (t := t) hstart
    have hne := mt (sectionName_eq_dotText_iff (t := t) hstart).mp hnot
    rw [hname, Except.ok.injEq] at hne
    have hrest := ih (i := i + 1) (n := n) (by omega) (by omega)
      (by rw [Nat.succ_add_eq_add_succ]; exact hnamed) fun j hj hjk =>
        hfirst j (by omega) (by omega)
    rw [searchText_succ h (by omega)]
    rw [hname, ok_bind, if_neg hne, hrest, Nat.succ_add_eq_add_succ]

end

section

variable {c : Bool}

/-- On the host, a name that begins behind the image panics. -/
theorem sectionName_of_lt {elf : Bytes .w64} {shstrOff sh : ℕ} (hoff : shstrOff ≤ elf.len)
    (h : elf.len < shstrOff + shName elf.toList sh) :
    ∃ f, sectionName ⟨.w64, c⟩ elf shstrOff (shName elf.toList sh) = .error f := by
  have hlen := Vec.len_lt elf
  have hlt : shName elf.toList sh < 2 ^ 32 := by
    have heq : shName elf.toList sh % 2 ^ 32 = shName elf.toList sh :=
      asUsize_shName (t := ⟨.w32, c⟩) elf.toList sh
    omega
  have hsum : (⟨.w64, c⟩ : Target).addUsize shstrOff (shName elf.toList sh) =
      .ok (shstrOff + shName elf.toList sh) := by
    refine Target.addUsize_of_lt ?_
    show shstrOff + shName elf.toList sh < 2 ^ 64
    omega
  have hslice : slice elf.toList (shstrOff + shName elf.toList sh) elf.len =
      .error .indexOutOfBounds := by
    rw [slice, if_neg (by omega)]
  refine ⟨.indexOutOfBounds, ?_⟩
  rw [sectionName, hsum, ok_bind, hslice]
  rfl

/-- **The search fails when no section is called `.text`**: it runs out of sections, or a
name begins behind the image. -/
theorem searchText_of_none {elf : Bytes .w64} (h : SectionTable elf.toList) {i n : ℕ}
    (hn : i + n = eShnum elf.toList) (hnone : ∀ j, i ≤ j → j < i + n → ¬ NamedText elf.toList j) :
    ∃ f, searchText ⟨.w64, c⟩ elf (eShoff elf.toList) (eShentsize elf.toList)
      (nameTable elf.toList) i n = .error f := by
  induction n generalizing i with
  | zero => exact ⟨.explicitPanic, rfl⟩
  | succ n ih =>
    obtain ⟨f, hf⟩ := ih (i := i + 1) (by omega) fun j hj hjn => hnone j (by omega) (by omega)
    rw [searchText_succ (t := ⟨.w64, c⟩) h (by omega), hf]
    by_cases hstart : nameStart elf.toList i ≤ elf.len
    · have hname := sectionName_of_le (t := ⟨.w64, c⟩) hstart
      have hne := mt (sectionName_eq_dotText_iff (t := ⟨.w64, c⟩) hstart).mp
        (hnone i le_rfl (by omega))
      rw [hname, Except.ok.injEq] at hne
      rw [hname, ok_bind, if_neg hne]
      exact ⟨f, rfl⟩
    · have htable : nameTable elf.toList ≤ elf.len :=
        le_trans (Nat.le_add_right _ _) h.names
      obtain ⟨g, hg⟩ := sectionName_of_lt (c := c) htable (Nat.lt_of_not_le hstart)
      rw [hg]
      exact ⟨g, rfl⟩

end

/-! ## Loading -/

section

variable {t : Target} {c : Bool}

/-- `load_text` searches the section headers from the first one on. -/
theorem findText_eq {elf : Bytes t.width} (h : SectionTable elf.toList) :
    findText t elf = searchText t elf (eShoff elf.toList) (eShentsize elf.toList)
      (nameTable elf.toList) 0 (eShnum elf.toList) := by
  have hheader : 64 ≤ elf.len := h.header
  have hmax := elf.len_le
  have hheaders := h.headers
  have hshoff : eShoff elf.toList ≤ elf.len := le_trans (Nat.le_add_right _ _) hheaders
  have htable : nameTable elf.toList ≤ elf.len := le_trans (Nat.le_add_right _ _) h.names
  have hstr : sectionAt elf.toList (eShstrndx elf.toList) + 40 ≤ elf.len := h.sectionAt_le h.strndx
  have hcast : t.width.asUsize (eShoff elf.toList) = eShoff elf.toList :=
    PtrWidth.asUsize_of_lt (hshoff.trans hmax)
  have hcast' : t.width.asUsize (nameTable elf.toList) = nameTable elf.toList :=
    PtrWidth.asUsize_of_lt (htable.trans hmax)
  have hfield : ∀ lo hi, lo ≤ hi → hi ≤ 64 →
      readField t elf 0 lo hi = .ok (ofLe (window elf.toList lo (hi - lo))) := by
    intro lo hi hlohi hle
    rw [readField_of_le hlohi (by omega), Nat.zero_add]
  have hsection : sectionAt elf.toList (eShstrndx elf.toList) ≤ elf.len := by omega
  obtain ⟨d, hd, hsh⟩ := bind_eq_ok.mp (sectionAt_eq_ok (t := t) hsection)
  have hnames : readField t elf (sectionAt elf.toList (eShstrndx elf.toList)) 24 32 =
      .ok (nameTable elf.toList) := readField_of_le (by norm_num) (by omega)
  have h40 : readField t elf 0 40 48 = .ok (eShoff elf.toList) :=
    hfield 40 48 (by norm_num) (by norm_num)
  have h58 : readField t elf 0 58 60 = .ok (eShentsize elf.toList) :=
    hfield 58 60 (by norm_num) (by norm_num)
  have h60 : readField t elf 0 60 62 = .ok (eShnum elf.toList) :=
    hfield 60 62 (by norm_num) (by norm_num)
  have h62 : readField t elf 0 62 64 = .ok (eShstrndx elf.toList) :=
    hfield 62 64 (by norm_num) (by norm_num)
  rw [findText, h40, ok_bind, h58, ok_bind, h60, ok_bind, h62, ok_bind, hd, ok_bind, hcast, hsh,
    ok_bind, hnames, ok_bind, hcast']

/-- The contents of a section that lies in the image, as words. -/
theorem loadText_of_findText {elf : Bytes t.width} {sh : ℕ} (hfind : findText t elf = .ok sh)
    (hsh : sh + 40 ≤ elf.len)
    (hfit : shOffset elf.toList sh + shSize elf.toList sh ≤ elf.len) :
    ∃ text, loadText t elf = .ok text ∧ text.toList = sectionWords elf.toList sh := by
  have hmax := elf.len_le
  have hoff : readField t elf sh 24 32 = .ok (shOffset elf.toList sh) :=
    readField_of_le (by norm_num) (by omega)
  have hsize : readField t elf sh 32 40 = .ok (shSize elf.toList sh) :=
    readField_of_le (by norm_num) hsh
  have hcast : t.width.asUsize (shOffset elf.toList sh) = shOffset elf.toList sh :=
    PtrWidth.asUsize_of_lt (by omega)
  have hcast' : t.width.asUsize (shSize elf.toList sh) = shSize elf.toList sh :=
    PtrWidth.asUsize_of_lt (by omega)
  have hslice : slice elf.toList (shOffset elf.toList sh)
      (shOffset elf.toList sh + shSize elf.toList sh) =
        .ok (window elf.toList (shOffset elf.toList sh) (shSize elf.toList sh)) := by
    refine slice_eq_ok.mpr ⟨⟨Nat.le_add_right _ _, hfit⟩, ?_⟩
    rw [Nat.add_sub_cancel_left]
  have hbound : (sectionWords elf.toList sh).length * 8 ≤ t.width.isizeMax := by
    rw [sectionWords, length_leWords, length_window hfit]
    omega
  refine ⟨⟨sectionWords elf.toList sh, hbound⟩, ?_, rfl⟩
  refine bind_eq_ok.mpr ⟨sh, hfind, ?_⟩
  refine bind_eq_ok.mpr ⟨_, hoff, ?_⟩
  refine bind_eq_ok.mpr ⟨_, hsize, ?_⟩
  rw [hcast, hcast']
  refine bind_eq_ok.mpr ⟨_, Target.addUsize_of_lt (lt_usizeCard hfit), ?_⟩
  exact bind_eq_ok.mpr ⟨_, hslice, collectVec_eq_ok.mpr rfl⟩

/-- A word of a section, from its bytes in the image. -/
theorem getElem?_sectionWords {elf : List UInt8} {sh k : ℕ} (hk : k < shSize elf sh / 8)
    (hfit : shOffset elf sh + shSize elf sh ≤ elf.length) :
    (sectionWords elf sh)[k]? =
      some (UInt64.ofNat (ofLe (window elf (shOffset elf sh + 8 * k) 8))) := by
  have hwindow : window (window elf (shOffset elf sh) (shSize elf sh)) (8 * k) 8 =
      window elf (shOffset elf sh + 8 * k) 8 := by
    apply List.ext_getElem?
    intro i
    rw [getElem?_window, getElem?_window, getElem?_window, Nat.add_assoc]
    split
    · rw [if_pos (by omega)]
    · rfl
  rw [sectionWords, leWords, length_window hfit, List.getElem?_map, List.getElem?_range hk,
    Option.map_some, hwindow]

/-- The contents of section `i` as little-endian words, an eighth of their size in number:
word `k` is made of the bytes `8 * k, …, 8 * k + 7`. -/
def IsContents (elf : List UInt8) (i : ℕ) (words : List UInt64) : Prop :=
  words.length = shSize elf (sectionAt elf i) / 8 ∧
    ∀ k, k < shSize elf (sectionAt elf i) / 8 →
      words[k]? = some (UInt64.ofNat (ofLe (window elf
        (shOffset elf (sectionAt elf i) + 8 * k) 8)))

/-- **`load_text` loads the first section called `.text`.**  On the host, and for every
image whose section headers and table of names lie in it:

* if section `i` is the first one called `.text`, the names before it begin in the image
  and its contents lie in the image, the result is these contents;
* if no section is called `.text`, the call fails. -/
theorem loadText_first_dotText {elf : Bytes .w64} (h : SectionTable elf.toList) :
    (∀ i, i < eShnum elf.toList → NamedText elf.toList i →
      (∀ j, j < i → ¬ NamedText elf.toList j ∧ nameStart elf.toList j ≤ elf.len) →
      shOffset elf.toList (sectionAt elf.toList i) +
          shSize elf.toList (sectionAt elf.toList i) ≤ elf.len →
      ∃ text, loadText ⟨.w64, c⟩ elf = .ok text ∧ IsContents elf.toList i text.toList) ∧
    ((∀ i, i < eShnum elf.toList → ¬ NamedText elf.toList i) →
      ∃ f, loadText ⟨.w64, c⟩ elf = .error f) := by
  have hfind := findText_eq (t := ⟨.w64, c⟩) h
  refine ⟨fun i hi hnamed hfirst hfit => ?_, fun hnone => ?_⟩
  · have hsearch := searchText_of_first (t := ⟨.w64, c⟩) h (i := 0) (k := i) hi
      (Nat.zero_add _) (by rwa [Nat.zero_add]) fun j _ hj => hfirst j (by omega)
    rw [hsearch, Nat.zero_add] at hfind
    obtain ⟨text, hload, htext⟩ :=
      loadText_of_findText (t := ⟨.w64, c⟩) hfind (h.sectionAt_le hi) hfit
    refine ⟨text, hload, ?_, fun k hk => ?_⟩
    · rw [htext, sectionWords, length_leWords, length_window hfit]
    · rw [htext]
      exact getElem?_sectionWords hk hfit
  · obtain ⟨f, hf⟩ := searchText_of_none (c := c) h (Nat.zero_add _) fun j _ hj =>
      hnone j (by omega)
    refine ⟨f, ?_⟩
    rw [loadText, hfind, hf]
    rfl

end

/-- The `.text` of an image with two functions is its second section. -/
theorem loadText_first_dotText_entersSecond :
    ∃ text, loadText ⟨.w64, true⟩ Vm.entersSecond = .ok text ∧
      text.toList[1]? = some (UInt64.ofNat (ofLe (window Vm.entersSecond.toList 264 8))) := by
  have htable : SectionTable Vm.entersSecond.toList := by decide +kernel
  have hnum : 1 < eShnum Vm.entersSecond.toList := by decide +kernel
  have hnamed : NamedText Vm.entersSecond.toList 1 := by decide +kernel
  have hnot : ¬ NamedText Vm.entersSecond.toList 0 := by decide +kernel
  have hstart : nameStart Vm.entersSecond.toList 0 ≤ Vm.entersSecond.len := by decide +kernel
  have hoff : shOffset Vm.entersSecond.toList (sectionAt Vm.entersSecond.toList 1) = 256 := by
    decide +kernel
  have hsize : shSize Vm.entersSecond.toList (sectionAt Vm.entersSecond.toList 1) = 16 := by
    decide +kernel
  have hlen : Vm.entersSecond.len = 289 := by decide +kernel
  have hfirst : ∀ j, j < 1 → ¬ NamedText Vm.entersSecond.toList j ∧
      nameStart Vm.entersSecond.toList j ≤ Vm.entersSecond.len := by
    intro j hj
    obtain rfl : j = 0 := by omega
    exact ⟨hnot, hstart⟩
  obtain ⟨text, hload, -, hwords⟩ := (loadText_first_dotText (c := true) htable).1 1 hnum hnamed
    hfirst (by rw [hoff, hsize, hlen]; decide)
  have hword := hwords 1 (by rw [hsize]; decide)
  rw [hoff] at hword
  exact ⟨text, hload, hword⟩

/-! ## A name behind the image -/

/-- The image with two functions, where the name of the null section begins far behind the
end of the image. -/
def strayName : Bytes .w64 :=
  ⟨Vm.twoFunctions.take 64 ++ Vm.sectionHeader 0xFFFFFFFF 0 0 0 0 0 ++
    Vm.twoFunctions.drop 128, by decide +kernel⟩

theorem sectionTable_strayName : SectionTable strayName.toList := by decide +kernel

/-- Its second section is the first one called `.text`. -/
theorem namedText_strayName :
    NamedText strayName.toList 1 ∧ ∀ j, j < 1 → ¬ NamedText strayName.toList j := by
  refine ⟨by decide +kernel, fun j hj => ?_⟩
  obtain rfl : j = 0 := by omega
  decide +kernel

/-- `elf[ns..]` panics at the null section. -/
theorem loadText_strayName (c : Bool) :
    loadText ⟨.w64, c⟩ strayName = .error .indexOutOfBounds := by
  cases c <;> decide +kernel

/-- **A section before `.text` can make the search panic**, when its name begins behind the
image. -/
theorem loadText_stray_name :
    ¬ ∃ c : Bool, ∀ elf : Bytes .w64, SectionTable elf.toList →
      ∀ i, i < eShnum elf.toList → NamedText elf.toList i →
        (∀ j, j < i → ¬ NamedText elf.toList j) →
        shOffset elf.toList (sectionAt elf.toList i) +
            shSize elf.toList (sectionAt elf.toList i) ≤ elf.len →
        ∃ text, loadText ⟨.w64, c⟩ elf = .ok text ∧ IsContents elf.toList i text.toList := by
  rintro ⟨c, hall⟩
  have hnum : 1 < eShnum strayName.toList := by decide +kernel
  have hfit : shOffset strayName.toList (sectionAt strayName.toList 1) +
      shSize strayName.toList (sectionAt strayName.toList 1) ≤ strayName.len := by decide +kernel
  obtain ⟨hnamed, hfirst⟩ := namedText_strayName
  obtain ⟨text, hload, -⟩ := hall strayName sectionTable_strayName 1 hnum hnamed hfirst hfit
  rw [loadText_strayName] at hload
  exact absurd hload (by simp)

end Tuniq
