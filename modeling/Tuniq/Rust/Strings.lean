import Tuniq.Library.Positional
import Tuniq.Rust.Basic

/-!
# The strings of Rust

A `str` is a sequence of Unicode scalar values, kept in UTF-8.  Lengths and slices
count bytes, so a slice can fall inside a character, and then it panics
(`strSlice`).

* `trim` cuts the characters with the Unicode property `White_Space` off both
  ends.
* `u32FromStrRadix16` is `u32::from_str_radix(_, 16)`.  It takes one leading `+`,
  which is easy to forget: the strings of eight bytes that it accepts are eight
  hexadecimal digits and a `+` with seven of them
  (`u32FromStrRadix16_isOk_iff`).
* `lowerHex08` is the format `{w:08x}`; it is a right inverse of the parser
  (`u32FromStrRadix16_lowerHex08`), and the parser is one up to the case of the
  digits (`lowerHex08_hexValue`).
-/

namespace Tuniq

/-- `str` -/
abbrev Str := List Char

/-! ## Bytes and slices -/

/-- `str::as_bytes` -/
def asBytes (s : Str) : List UInt8 := s.flatMap String.utf8EncodeChar

/-- `str::len` -/
def byteLen (s : Str) : ℕ := (s.map Char.utf8Size).sum

@[simp] theorem byteLen_nil : byteLen [] = 0 := rfl

@[simp] theorem byteLen_cons (c : Char) (s : Str) : byteLen (c :: s) = c.utf8Size + byteLen s := by
  rw [byteLen, List.map_cons, List.sum_cons, byteLen]

@[simp] theorem byteLen_append (s s' : Str) : byteLen (s ++ s') = byteLen s + byteLen s' := by
  rw [byteLen, List.map_append, List.sum_append, byteLen, byteLen]

theorem byteLen_flatten {n : ℕ} {chunks : List Str} (h : ∀ c ∈ chunks, byteLen c = n) :
    byteLen chunks.flatten = chunks.length * n := by
  induction chunks with
  | nil => simp
  | cons c chunks ih =>
    rw [List.flatten_cons, byteLen_append, h c List.mem_cons_self,
      ih fun c' hc' => h c' (List.mem_cons_of_mem _ hc'), List.length_cons]
    ring

/-- A string of characters of one byte has as many bytes as characters. -/
theorem byteLen_of_ascii {s : Str} (h : ∀ c ∈ s, c.utf8Size = 1) : byteLen s = s.length := by
  induction s with
  | nil => rfl
  | cons c s ih =>
    rw [byteLen_cons, h c List.mem_cons_self,
      ih fun c' hc' => h c' (List.mem_cons_of_mem _ hc'), List.length_cons, Nat.add_comm]

theorem eq_nil_of_byteLen {s : Str} (h : byteLen s = 0) : s = [] := by
  cases s with
  | nil => rfl
  | cons c s =>
    have hpos := c.utf8Size_pos
    rw [byteLen_cons] at h
    omega

/-- Of two beginnings of one string, the one with fewer bytes begins the other. -/
theorem append_eq_append_of_byteLen_le {a b c d : Str} (h : a ++ b = c ++ d)
    (hle : byteLen a ≤ byteLen c) : ∃ mid, c = a ++ mid ∧ b = mid ++ d := by
  rcases List.append_eq_append_iff.mp h with ⟨mid, rfl, rfl⟩ | ⟨mid, rfl, rfl⟩
  · exact ⟨mid, rfl, rfl⟩
  · rw [byteLen_append] at hle
    obtain rfl : mid = [] := eq_nil_of_byteLen (by omega)
    exact ⟨[], by rw [List.append_nil, List.append_nil], rfl⟩

/-- `str::split_at_checked`: nothing when the offset is inside a character or behind
the end. -/
def splitAtChecked : ℕ → Str → Option (Str × Str)
  | 0, s => some ([], s)
  | _ + 1, [] => none
  | n + 1, c :: s =>
    if c.utf8Size ≤ n + 1 then
      (splitAtChecked (n + 1 - c.utf8Size) s).map fun p => (c :: p.1, p.2)
    else none

theorem splitAtChecked_append (s s' : Str) :
    splitAtChecked (byteLen s) (s ++ s') = some (s, s') := by
  induction s with
  | nil => cases s' <;> rfl
  | cons c s ih =>
    obtain ⟨n, hn⟩ : ∃ n, c.utf8Size + byteLen s = n + 1 :=
      ⟨c.utf8Size + byteLen s - 1, by have := c.utf8Size_pos; omega⟩
    have hrest : n + 1 - c.utf8Size = byteLen s := by omega
    rw [byteLen_cons, List.cons_append, hn, splitAtChecked, if_pos (by omega), hrest, ih]
    rfl

theorem splitAtChecked_eq_some {n : ℕ} {s front back : Str}
    (h : splitAtChecked n s = some (front, back)) : s = front ++ back ∧ byteLen front = n := by
  induction s generalizing n front with
  | nil =>
    cases n with
    | zero =>
      rw [splitAtChecked, Option.some_inj, Prod.mk.injEq] at h
      rw [← h.1, ← h.2]
      exact ⟨rfl, rfl⟩
    | succ n => cases h
  | cons c s ih =>
    cases n with
    | zero =>
      rw [splitAtChecked, Option.some_inj, Prod.mk.injEq] at h
      rw [← h.1, ← h.2]
      exact ⟨rfl, rfl⟩
    | succ n =>
      rw [splitAtChecked] at h
      split at h
      · next hle =>
        obtain ⟨⟨front', back'⟩, hsplit, hcons⟩ := Option.map_eq_some_iff.mp h
        rw [Prod.mk.injEq] at hcons
        obtain ⟨rfl, rfl⟩ := hcons
        obtain ⟨rfl, hlen⟩ := ih hsplit
        refine ⟨rfl, ?_⟩
        rw [byteLen_cons, hlen]
        omega
      · cases h

/-- `&s[a..b]`: panics when an end is not at the boundary of a character. -/
def strSlice (s : Str) (a b : ℕ) : Except Fault Str :=
  match splitAtChecked b s with
  | none => .error .indexOutOfBounds
  | some (front, _) =>
    match splitAtChecked a front with
    | none => .error .indexOutOfBounds
    | some (_, slice) => .ok slice

/-- A slice that falls on characters. -/
theorem strSlice_append (front mid back : Str) :
    strSlice (front ++ (mid ++ back)) (byteLen front) (byteLen front + byteLen mid) = .ok mid := by
  have hb := splitAtChecked_append (front ++ mid) back
  rw [List.append_assoc, byteLen_append] at hb
  rw [strSlice, hb]
  dsimp only
  rw [splitAtChecked_append front mid]

/-- **A slice ends at the boundary of a character, or it panics.** -/
theorem strSlice_panics {s : Str} {a b : ℕ}
    (h : ∀ front back, s = front ++ back → byteLen front ≠ b) :
    strSlice s a b = .error .indexOutOfBounds := by
  have hb : splitAtChecked b s = none := by
    rw [Option.eq_none_iff_forall_not_mem]
    rintro ⟨front, back⟩ hmem
    obtain ⟨hs, hlen⟩ := splitAtChecked_eq_some hmem
    exact h front back hs hlen
  rw [strSlice, hb]

/-! ## White space -/

/-- `char::is_whitespace`, the Unicode property `White_Space`. -/
def isWhitespace (c : Char) : Bool :=
  (0x9 ≤ c.toNat ∧ c.toNat ≤ 0xd) ∨ c.toNat = 0x20 ∨ c.toNat = 0x85 ∨ c.toNat = 0xa0 ∨
    c.toNat = 0x1680 ∨ (0x2000 ≤ c.toNat ∧ c.toNat ≤ 0x200a) ∨ c.toNat = 0x2028 ∨
    c.toNat = 0x2029 ∨ c.toNat = 0x202f ∨ c.toNat = 0x205f ∨ c.toNat = 0x3000

/-- `str::trim` -/
def trim (s : Str) : Str := (s.dropWhile isWhitespace).rdropWhile isWhitespace

theorem rdropWhile_append_of_pos {p : Char → Bool} (s : Str) {back : Str}
    (hback : ∀ c ∈ back, p c = true) : (s ++ back).rdropWhile p = s.rdropWhile p := by
  rw [List.rdropWhile, List.reverse_append, List.dropWhile_append_of_pos, List.rdropWhile]
  exact fun c hc => hback c (List.mem_reverse.mp hc)

/-- **White space around a string without any is cut off.** -/
theorem trim_append {front s back : Str} (hfront : ∀ c ∈ front, isWhitespace c = true)
    (hs : ∀ c ∈ s, isWhitespace c = false) (hback : ∀ c ∈ back, isWhitespace c = true) :
    trim (front ++ s ++ back) = s := by
  rw [trim, List.append_assoc, List.dropWhile_append_of_pos hfront]
  cases s with
  | nil =>
    rw [List.nil_append, List.dropWhile_eq_nil_iff.mpr hback, List.rdropWhile_nil]
  | cons c s =>
    have hc : ¬ isWhitespace c = true := by
      rw [hs c List.mem_cons_self]
      exact Bool.false_ne_true
    rw [List.cons_append, List.dropWhile_cons_of_neg hc, ← List.cons_append,
      rdropWhile_append_of_pos _ hback, List.rdropWhile_eq_self_iff]
    intro hne
    rw [hs _ (List.getLast_mem hne)]
    exact Bool.false_ne_true

theorem trim_of_no_whitespace {s : Str} (hs : ∀ c ∈ s, isWhitespace c = false) : trim s = s := by
  have h : trim ([] ++ s ++ []) = s := trim_append (by simp) hs (by simp)
  rwa [List.nil_append, List.append_nil] at h

/-! ## Hexadecimal digits -/

/-- `char::to_digit(16)` -/
def toDigit16 (c : Char) : Option ℕ :=
  if '0' ≤ c ∧ c ≤ '9' then some (c.toNat - '0'.toNat)
  else if 'a' ≤ c ∧ c ≤ 'f' then some (c.toNat - 'a'.toNat + 10)
  else if 'A' ≤ c ∧ c ≤ 'F' then some (c.toNat - 'A'.toNat + 10)
  else none

/-- The string has hexadecimal digits only. -/
def AllHex (s : Str) : Prop := ∀ c ∈ s, (toDigit16 c).isSome

/-- The value of a string of hexadecimal digits, the first one the most significant. -/
def hexValue (s : Str) : ℕ := ofDigitsBe 16 (s.map fun c => (toDigit16 c).getD 0)

/-- A property of the characters below 128, checked one by one. -/
theorem forall_ascii {P : Char → Prop} (h : ∀ n < 128, P (Char.ofNat n)) {c : Char}
    (hc : c.toNat < 128) : P c := by
  have hn := h c.toNat hc
  rwa [Char.ofNat_toNat] at hn

theorem toNat_lt_of_toDigit16 {c : Char} {d : ℕ} (h : toDigit16 c = some d) : c.toNat < 128 := by
  have hle : c ≤ 'f' := by
    rw [toDigit16] at h
    split at h
    · next hc => exact hc.2.trans (by decide)
    · split at h
      · next hc => exact hc.2
      · split at h
        · next hc => exact hc.2.trans (by decide)
        · cases h
  exact lt_of_le_of_lt (UInt32.le_iff_toNat_le.mp hle) (by decide)

/-- **What a hexadecimal digit is.**  One byte, no white space and no sign; its value
is below 16, and the digit that is written for the value is the digit in lower case. -/
theorem hexDigit_spec {c : Char} {d : ℕ} (h : toDigit16 c = some d) :
    c.utf8Size = 1 ∧ isWhitespace c = false ∧ c ≠ '+' ∧ d < 16 ∧ d.digitChar = c.toLower := by
  have hascii : ∀ n < 128, ∀ d ∈ toDigit16 (Char.ofNat n),
      (Char.ofNat n).utf8Size = 1 ∧ isWhitespace (Char.ofNat n) = false ∧ Char.ofNat n ≠ '+' ∧
        d < 16 ∧ d.digitChar = (Char.ofNat n).toLower := by decide +kernel
  exact forall_ascii (P := fun c => ∀ d ∈ toDigit16 c, c.utf8Size = 1 ∧ isWhitespace c = false ∧
    c ≠ '+' ∧ d < 16 ∧ d.digitChar = c.toLower) hascii (toNat_lt_of_toDigit16 h) d h

theorem toDigit16_digitChar {d : ℕ} (h : d < 16) : toDigit16 d.digitChar = some d := by
  have hall : ∀ d < 16, toDigit16 (Nat.digitChar d) = some d := by decide +kernel
  exact hall d h

namespace AllHex

variable {s s' : Str}

theorem cons {c : Char} {d : ℕ} (hc : toDigit16 c = some d) (hs : AllHex s) : AllHex (c :: s) := by
  intro c' hc'
  rcases List.mem_cons.mp hc' with rfl | hc'
  · rw [hc]
    rfl
  · exact hs c' hc'

theorem tail {c : Char} (h : AllHex (c :: s)) : AllHex s :=
  fun c' hc' => h c' (List.mem_cons_of_mem _ hc')

theorem head {c : Char} (h : AllHex (c :: s)) : ∃ d, toDigit16 c = some d :=
  Option.isSome_iff_exists.mp (h c List.mem_cons_self)

theorem append_iff : AllHex (s ++ s') ↔ AllHex s ∧ AllHex s' := List.forall_mem_append

theorem flatten {chunks : List Str} (h : ∀ c ∈ chunks, AllHex c) : AllHex chunks.flatten := by
  intro c hc
  obtain ⟨chunk, hchunk, hmem⟩ := List.mem_flatten.mp hc
  exact h chunk hchunk c hmem

theorem byteLen_eq (h : AllHex s) : byteLen s = s.length := by
  apply byteLen_of_ascii
  intro c hc
  obtain ⟨d, hd⟩ := Option.isSome_iff_exists.mp (h c hc)
  exact (hexDigit_spec hd).1

theorem not_whitespace (h : AllHex s) : ∀ c ∈ s, isWhitespace c = false := by
  intro c hc
  obtain ⟨d, hd⟩ := Option.isSome_iff_exists.mp (h c hc)
  exact (hexDigit_spec hd).2.1

theorem plus_notMem (h : AllHex s) : '+' ∉ s := by
  intro hc
  obtain ⟨d, hd⟩ := Option.isSome_iff_exists.mp (h '+' hc)
  exact (hexDigit_spec hd).2.2.1 rfl

end AllHex

@[simp] theorem hexValue_nil : hexValue [] = 0 := rfl

theorem hexValue_cons {c : Char} {d : ℕ} (hc : toDigit16 c = some d) (s : Str) :
    hexValue (c :: s) = d * 16 ^ s.length + hexValue s := by
  rw [hexValue, List.map_cons, ofDigitsBe_cons, List.length_map, hc, hexValue]
  rfl

theorem hexDigits_lt (s : Str) : ∀ d ∈ s.map fun c => (toDigit16 c).getD 0, d < 16 := by
  intro d hd
  obtain ⟨c, -, rfl⟩ := List.mem_map.mp hd
  cases hc : toDigit16 c with
  | none => decide
  | some d => exact (hexDigit_spec hc).2.2.2.1

theorem hexValue_lt (s : Str) : hexValue s < 16 ^ s.length := by
  have h := ofDigitsBe_lt (by decide) (hexDigits_lt s)
  rwa [List.length_map] at h

theorem toNat_ofNat_hexValue {s : Str} (h : s.length = 8) :
    (UInt32.ofNat (hexValue s)).toNat = hexValue s := by
  have hlt := hexValue_lt s
  rw [h] at hlt
  rw [UInt32.toNat_ofNat']
  exact Nat.mod_eq_of_lt hlt

/-! ## Parsing a number -/

/-- `IntErrorKind` -/
inductive IntErrorKind where
  | empty
  | invalidDigit
  | posOverflow
  deriving DecidableEq, Repr

/-- The loop over the digits, with the number that was read so far. -/
def readDigits16 : ℕ → Str → Except IntErrorKind ℕ
  | acc, [] => .ok acc
  | acc, c :: s =>
    match toDigit16 c with
    | none => .error .invalidDigit
    | some d => if acc * 16 + d < 2 ^ 32 then readDigits16 (acc * 16 + d) s else .error .posOverflow

/-- `u32::from_str_radix(_, 16)`: a number may have one leading `+`. -/
def u32FromStrRadix16 (s : Str) : Except IntErrorKind UInt32 :=
  match s with
  | [] => .error .empty
  | ['+'] => .error .invalidDigit
  | '+' :: digits => (readDigits16 0 digits).map UInt32.ofNat
  | digits => (readDigits16 0 digits).map UInt32.ofNat

theorem readDigits16_of_allHex {acc : ℕ} {s : Str} (h : AllHex s)
    (hlt : acc * 16 ^ s.length + hexValue s < 2 ^ 32) :
    readDigits16 acc s = .ok (acc * 16 ^ s.length + hexValue s) := by
  induction s generalizing acc with
  | nil => rw [readDigits16, List.length_nil, pow_zero, hexValue_nil, Nat.mul_one, Nat.add_zero]
  | cons c s ih =>
    obtain ⟨d, hd⟩ := h.head
    have hsum : acc * 16 ^ (c :: s).length + hexValue (c :: s) =
        (acc * 16 + d) * 16 ^ s.length + hexValue s := by
      rw [hexValue_cons hd, List.length_cons, pow_succ]
      ring
    have hle : acc * 16 + d ≤ (acc * 16 + d) * 16 ^ s.length :=
      Nat.le_mul_of_pos_right _ (by positivity)
    rw [hsum] at hlt ⊢
    rw [readDigits16, hd]
    dsimp only
    rw [if_pos (by omega), ih h.tail hlt]

theorem allHex_of_readDigits16 {acc v : ℕ} {s : Str} (h : readDigits16 acc s = .ok v) :
    AllHex s := by
  induction s generalizing acc with
  | nil => exact fun c hc => absurd hc (List.not_mem_nil)
  | cons c s ih =>
    rw [readDigits16] at h
    cases hc : toDigit16 c with
    | none =>
      rw [hc] at h
      cases h
    | some d =>
      rw [hc] at h
      dsimp only at h
      split at h
      · exact AllHex.cons hc (ih h)
      · cases h

/-- Without a sign, the parser reads the digits. -/
theorem u32FromStrRadix16_of_no_plus {c : Char} (hc : c ≠ '+') (s : Str) :
    u32FromStrRadix16 (c :: s) = (readDigits16 0 (c :: s)).map UInt32.ofNat := by
  rw [u32FromStrRadix16]
  · simp
  · simp [hc]
  · simpa using hc

theorem u32FromStrRadix16_plus {c : Char} (s : Str) :
    u32FromStrRadix16 ('+' :: c :: s) = (readDigits16 0 (c :: s)).map UInt32.ofNat := by
  rw [u32FromStrRadix16]
  simp

/-- **Eight hexadecimal digits are parsed to their value.** -/
theorem u32FromStrRadix16_of_allHex {s : Str} (h : AllHex s) (hlen : s.length = 8) :
    u32FromStrRadix16 s = .ok (UInt32.ofNat (hexValue s)) := by
  have hlt := hexValue_lt s
  rw [hlen] at hlt
  cases s with
  | nil => cases hlen
  | cons c s =>
    have hplus : c ≠ '+' := fun heq => h.plus_notMem (heq ▸ List.mem_cons_self)
    rw [u32FromStrRadix16_of_no_plus hplus, readDigits16_of_allHex h (by omega), Nat.zero_mul,
      Nat.zero_add]
    rfl

/-- A number as the parser takes it: hexadecimal digits, with or without a `+`. -/
def Numeral (s : Str) : Prop := AllHex s ∨ ∃ digits, s = '+' :: digits ∧ AllHex digits

theorem Numeral.byteLen_eq {s : Str} (h : Numeral s) : byteLen s = s.length := by
  rcases h with h | ⟨digits, rfl, h⟩
  · exact h.byteLen_eq
  · have hplus : Char.utf8Size '+' = 1 := by decide
    rw [byteLen_cons, h.byteLen_eq, hplus, List.length_cons, Nat.add_comm]

/-- A number with the sign counted in has at most seven digits. -/
theorem u32FromStrRadix16_of_plus {digits : Str} (h : AllHex digits) (hlen : digits.length = 7) :
    u32FromStrRadix16 ('+' :: digits) = .ok (UInt32.ofNat (hexValue digits)) := by
  have hlt := hexValue_lt digits
  rw [hlen] at hlt
  cases digits with
  | nil => cases hlen
  | cons c s =>
    rw [u32FromStrRadix16_plus, readDigits16_of_allHex h (by omega), Nat.zero_mul, Nat.zero_add]
    rfl

theorem numeral_of_u32FromStrRadix16 {s : Str} {w : UInt32} (h : u32FromStrRadix16 s = .ok w) :
    Numeral s := by
  have hread : ∀ {digits : Str},
      (readDigits16 0 digits).map UInt32.ofNat = .ok w → AllHex digits := by
    intro digits hmap
    cases hv : readDigits16 0 digits with
    | error e =>
      rw [hv] at hmap
      cases hmap
    | ok v => exact allHex_of_readDigits16 hv
  cases s with
  | nil => exact Or.inl fun c hc => absurd hc List.not_mem_nil
  | cons c s =>
    rcases eq_or_ne c '+' with rfl | hc
    · cases s with
      | nil => cases h
      | cons c s =>
        rw [u32FromStrRadix16_plus] at h
        exact Or.inr ⟨c :: s, rfl, hread h⟩
    · rw [u32FromStrRadix16_of_no_plus hc] at h
      exact Or.inl (hread h)

/-- **The strings of eight bytes the parser accepts.** -/
theorem u32FromStrRadix16_isOk_iff {s : Str} (hlen : byteLen s = 8) :
    (∃ w, u32FromStrRadix16 s = .ok w) ↔ Numeral s := by
  constructor
  · rintro ⟨w, h⟩
    exact numeral_of_u32FromStrRadix16 h
  · intro h
    rw [h.byteLen_eq] at hlen
    rcases h with h | ⟨digits, rfl, h⟩
    · exact ⟨_, u32FromStrRadix16_of_allHex h hlen⟩
    · exact ⟨_, u32FromStrRadix16_of_plus h (Nat.succ.inj hlen)⟩

/-! ## Writing a number -/

/-- `format!("{w:08x}")`; a `u32` has no more than eight digits. -/
def lowerHex08 (w : UInt32) : Str := (toDigitsBe 16 8 w.toNat).map Nat.digitChar

@[simp] theorem length_lowerHex08 (w : UInt32) : (lowerHex08 w).length = 8 := by
  rw [lowerHex08, List.length_map, length_toDigitsBe]

theorem digits_lowerHex08 (w : UInt32) :
    ((lowerHex08 w).map fun c => (toDigit16 c).getD 0) = toDigitsBe 16 8 w.toNat := by
  rw [lowerHex08, List.map_map]
  refine (List.map_congr_left fun d hd => ?_).trans (List.map_id _)
  rw [Function.comp_apply, toDigit16_digitChar (toDigitsBe_lt (by decide) _ _ d hd)]
  rfl

theorem allHex_lowerHex08 (w : UInt32) : AllHex (lowerHex08 w) := by
  intro c hc
  obtain ⟨d, hd, rfl⟩ := List.mem_map.mp hc
  rw [toDigit16_digitChar (toDigitsBe_lt (by decide) _ _ d hd)]
  rfl

theorem hexValue_lowerHex08 (w : UInt32) : hexValue (lowerHex08 w) = w.toNat := by
  rw [hexValue, digits_lowerHex08, ofDigitsBe_toDigitsBe]
  exact lt_of_lt_of_eq w.toNat_lt (by decide)

/-- **A number that was written is read back.** -/
theorem u32FromStrRadix16_lowerHex08 (w : UInt32) : u32FromStrRadix16 (lowerHex08 w) = .ok w := by
  rw [u32FromStrRadix16_of_allHex (allHex_lowerHex08 w) (length_lowerHex08 w),
    hexValue_lowerHex08, UInt32.ofNat_toNat]

/-- **Eight digits are written again as they were, in lower case.** -/
theorem lowerHex08_hexValue {s : Str} (h : AllHex s) (hlen : s.length = 8) :
    lowerHex08 (UInt32.ofNat (hexValue s)) = s.map Char.toLower := by
  have hdigits := toDigitsBe_ofDigitsBe (by decide) (hexDigits_lt s)
  rw [List.length_map, hlen] at hdigits
  rw [lowerHex08, toNat_ofNat_hexValue hlen, hexValue, hdigits, List.map_map]
  refine List.map_congr_left fun c hc => ?_
  obtain ⟨d, hd⟩ := Option.isSome_iff_exists.mp (h c hc)
  rw [Function.comp_apply, hd]
  exact (hexDigit_spec hd).2.2.2.2

end Tuniq
