import Tuniq.Library.Iteration
import Tuniq.Rust.Strings

/-!
# The image id of a wrap request

The prover takes the image id as text, 64 hexadecimal digits for eight words.
`parse_image_id` cuts white space off both ends, checks that 64 bytes are left,
and hands eight slices of eight bytes to `u32::from_str_radix`.

The check counts bytes and the parser has a grammar of its own, so the strings it
accepts are not quite the intended ones.  After the check there are three
cases, and each of them says what the function does:

* eight numbers (`EightNumbers`): the result is `Ok`, also when numbers begin with
  a `+`;
* some numbers, and then eight bytes that are not one: the result is an error;
* some numbers, and then a character that straddles the end of the next eight
  bytes (`Straddles`): the slice panics.

`parsesHex64_iff` says for which strings the function does what it is meant to
do: for all but those with a `+` among eight numbers and those with a straddling
character.  `handleWrapImageId_panics_iff` stands on its own: it says which requests end
the handler in a panic, where the others get an answer.
-/

namespace Tuniq
namespace Prover

/-- `[u32; 8]` -/
abbrev ImageId := Vector UInt32 8

/-! ## The functions -/

/-- The errors of `parse_image_id`. -/
inductive ParseImageIdError where
  | wrongLength (got : ℕ)
  | word (i : ℕ) (source : IntErrorKind)
  deriving DecidableEq, Repr

/-- The text of an error. -/
def ParseImageIdError.text : ParseImageIdError → String
  | wrongLength got => s!"image_id must be 64 hex chars, got {got}"
  | word i _ => s!"parsing image-id word {i}"

/-- One round of the loop over the words. -/
def parseWord (hex : Str) (i : ℕ) (id : ImageId) : Except (Stop ParseImageIdError) ImageId := do
  let chunk ← liftFault (strSlice hex (i * 8) ((i + 1) * 8))
  match u32FromStrRadix16 chunk with
  | .ok word => .ok (id.setIfInBounds i word)
  | .error e => .error (.err (.word i e))

/-- `parse_image_id` -/
def parseImageId (s : Str) : Except (Stop ParseImageIdError) ImageId :=
  let hex := trim s
  if byteLen hex ≠ 64 then .error (.err (.wrongLength (byteLen hex)))
  else forUpTo (parseWord hex) 8 (Vector.replicate 8 0)

/-- `image_id_to_hex` -/
def imageIdToHex (id : ImageId) : Str := id.toList.flatMap lowerHex08

/-- The part of `handle_wrap` that reads the image id; an error is the answer with
status and text. -/
def handleWrapImageId (imageIdHex : Str) : Except (Stop (ℕ × String)) ImageId :=
  match parseImageId imageIdHex with
  | .ok id => .ok id
  | .error (.err e) => .error (.err (400, "invalid image_id: " ++ e.text))
  | .error (.fault f) => .error (.fault f)

/-! ## What the function is meant to do -/

/-- 64 hexadecimal digits. -/
def IsHex64 (t : Str) : Prop := t.length = 64 ∧ AllHex t

/-- **What `parse_image_id` is meant to do.**  On 64 hexadecimal digits it returns
the eight words they spell, on every other string it returns an error. -/
def ParsesHex64 (s : Str) : Prop :=
  (IsHex64 (trim s) → ∃ id, parseImageId s = .ok id ∧
    ∀ i : Fin 8, (id.get i).toNat = hexValue (window (trim s) (i * 8) 8)) ∧
  (¬ IsHex64 (trim s) → ∃ e, parseImageId s = .error (.err e))

/-- All pieces are numbers of eight characters. -/
def Numbers (chunks : List Str) : Prop := ∀ c ∈ chunks, c.length = 8 ∧ Numeral c

/-- The string is eight numbers of eight characters. -/
def EightNumbers (t : Str) : Prop :=
  ∃ chunks : List Str, chunks.length = 8 ∧ Numbers chunks ∧ t = chunks.flatten

/-- The string has 64 bytes, and behind some numbers a character straddles the end
of the next eight bytes. -/
def Straddles (t : Str) : Prop :=
  byteLen t = 64 ∧ ∃ (chunks : List Str) (rest : Str), chunks.length < 8 ∧ Numbers chunks ∧
    t = chunks.flatten ++ rest ∧ ∀ front back, rest = front ++ back → byteLen front ≠ 8

/-- Behind some numbers, the next eight bytes are characters, but not a number. -/
def Misspelt (t : Str) : Prop :=
  ∃ (chunks : List Str) (c rest : Str), chunks.length < 8 ∧ Numbers chunks ∧
    t = chunks.flatten ++ (c ++ rest) ∧ byteLen c = 8 ∧ ¬ Numeral c

/-! ## The rounds -/

theorem Numbers.append {chunks : List Str} {c : Str} (h : Numbers chunks) (hlen : byteLen c = 8)
    (hc : Numeral c) : Numbers (chunks ++ [c]) := by
  intro c' hc'
  rcases List.mem_append.mp hc' with hc' | hc'
  · exact h c' hc'
  · rw [List.mem_singleton.mp hc', ← hc.byteLen_eq]
    exact ⟨hlen, hc⟩

theorem Numbers.byteLen_eq {chunks : List Str} (h : Numbers chunks) :
    ∀ c ∈ chunks, byteLen c = 8 := by
  intro c hc
  rw [(h c hc).2.byteLen_eq]
  exact (h c hc).1

theorem Numbers.byteLen_flatten {chunks : List Str} (h : Numbers chunks) :
    byteLen chunks.flatten = chunks.length * 8 :=
  Tuniq.byteLen_flatten h.byteLen_eq

/-- The slice of a round, when characters fill it. -/
theorem strSlice_chunk {chunks : List Str} (h : Numbers chunks) {c : Str} (hc : byteLen c = 8)
    (rest : Str) :
    strSlice (chunks.flatten ++ (c ++ rest)) (chunks.length * 8) ((chunks.length + 1) * 8) =
      .ok c := by
  have hslice := strSlice_append chunks.flatten c rest
  rw [h.byteLen_flatten, hc] at hslice
  rwa [Nat.succ_mul]

/-- **What the rounds over numbers do.** -/
theorem forUpTo_parseWord {chunks : List Str} (h : Numbers chunks) (hlen : chunks.length ≤ 8)
    (rest : Str) :
    ∃ id, forUpTo (parseWord (chunks.flatten ++ rest)) chunks.length (Vector.replicate 8 0) =
        .ok id ∧
      ∀ (i : Fin 8) (c : Str), chunks[i.val]? = some c → u32FromStrRadix16 c = .ok (id.get i) := by
  induction chunks using List.reverseRecOn generalizing rest with
  | nil => exact ⟨Vector.replicate 8 0, rfl, by simp⟩
  | append_singleton chunks c ih =>
    rw [List.length_append, List.length_singleton] at hlen
    have hchunks : Numbers chunks := fun c' hc' => h c' (List.mem_append_left _ hc')
    have hmem : c ∈ chunks ++ [c] := List.mem_append_right _ (List.mem_singleton_self c)
    have hc : byteLen c = 8 := h.byteLen_eq c hmem
    obtain ⟨id, hrun, hid⟩ := ih hchunks (by omega) (c ++ rest)
    obtain ⟨w, hw⟩ := (u32FromStrRadix16_isOk_iff hc).mpr (h c hmem).2
    refine ⟨id.setIfInBounds chunks.length w, ?_, ?_⟩
    · rw [List.flatten_append, List.flatten_singleton, List.append_assoc, List.length_append,
        List.length_singleton]
      refine forUpTo_succ_eq_ok.mpr ⟨id, hrun, ?_⟩
      rw [parseWord, strSlice_chunk hchunks hc]
      simp only [liftFault_ok, ok_bind, hw]
    · intro i c' hc'
      have hget : (id.setIfInBounds chunks.length w).get i =
          if chunks.length = i.val then w else id.get i :=
        Vector.getElem_setIfInBounds i.isLt
      rw [hget]
      rcases Nat.lt_or_ge i.val chunks.length with hlt | hge
      · rw [List.getElem?_append_left hlt] at hc'
        rw [if_neg (by omega)]
        exact hid i c' hc'
      · rw [List.getElem?_append_right hge, List.getElem?_singleton] at hc'
        split at hc'
        · next heq =>
          obtain rfl := Option.some_inj.mp hc'
          rw [if_pos (by omega)]
          exact hw
        · cases hc'

/-! ## The three cases -/

theorem parseImageId_eq {s : Str} (h : byteLen (trim s) = 64) :
    parseImageId s = forUpTo (parseWord (trim s)) 8 (Vector.replicate 8 0) := by
  rw [parseImageId, if_neg (not_not.mpr h)]

/-- **Every string of 64 bytes is in one of the three cases.** -/
theorem cases_of_byteLen {t : Str} (ht : byteLen t = 64) :
    EightNumbers t ∨ Straddles t ∨ Misspelt t := by
  have hrounds : ∀ (k : ℕ) (chunks : List Str) (rest : Str), chunks.length + k = 8 →
      Numbers chunks → t = chunks.flatten ++ rest →
      EightNumbers t ∨ Straddles t ∨ Misspelt t := by
    intro k
    induction k with
    | zero =>
      intro chunks rest hlen hchunks heq
      have hrest : byteLen rest = 0 := by
        have hsum := congrArg byteLen heq
        rw [ht, byteLen_append, hchunks.byteLen_flatten] at hsum
        omega
      refine Or.inl ⟨chunks, by omega, hchunks, ?_⟩
      rw [heq, eq_nil_of_byteLen hrest, List.append_nil]
    | succ k ih =>
      intro chunks rest hlen hchunks heq
      by_cases hcut : ∃ front back, rest = front ++ back ∧ byteLen front = 8
      · obtain ⟨front, back, rfl, hfront⟩ := hcut
        by_cases hnum : Numeral front
        · refine ih (chunks ++ [front]) back ?_ (hchunks.append hfront hnum) ?_
          · rw [List.length_append, List.length_singleton]
            omega
          · rw [List.flatten_append, List.flatten_singleton, List.append_assoc]
            exact heq
        · exact Or.inr (Or.inr ⟨chunks, front, back, by omega, hchunks, heq, hfront, hnum⟩)
      · refine Or.inr (Or.inl ⟨ht, chunks, rest, by omega, hchunks, heq, ?_⟩)
        exact fun front back hsplit hfront => hcut ⟨front, back, hsplit, hfront⟩
  exact hrounds 8 [] t rfl (fun c hc => absurd hc List.not_mem_nil) rfl

/-- **Eight numbers are accepted**, each for its value. -/
theorem parseImageId_of_numbers {s : Str} {chunks : List Str} (hlen : chunks.length = 8)
    (hchunks : Numbers chunks) (ht : trim s = chunks.flatten) :
    ∃ id, parseImageId s = .ok id ∧
      ∀ (i : Fin 8) (c : Str), chunks[i.val]? = some c → u32FromStrRadix16 c = .ok (id.get i) := by
  have hbytes : byteLen (trim s) = 64 := by
    rw [ht, hchunks.byteLen_flatten, hlen]
  have hrun := forUpTo_parseWord hchunks hlen.le []
  rwa [List.append_nil, hlen, ← ht, ← parseImageId_eq hbytes] at hrun

/-- **A straddling character is a panic.** -/
theorem parseImageId_of_straddles {s : Str} (h : Straddles (trim s)) :
    parseImageId s = .error (.fault .indexOutOfBounds) := by
  obtain ⟨hbytes, chunks, rest, hlen, hchunks, heq, hcut⟩ := h
  obtain ⟨id, hrun, -⟩ := forUpTo_parseWord hchunks hlen.le rest
  rw [parseImageId_eq hbytes, heq]
  refine forUpTo_error_at hlen hrun ?_
  have hslice : strSlice (chunks.flatten ++ rest) (chunks.length * 8) ((chunks.length + 1) * 8) =
      .error .indexOutOfBounds := by
    refine strSlice_panics fun front back hsplit hfront => ?_
    have hle : byteLen chunks.flatten ≤ byteLen front := by
      rw [hchunks.byteLen_flatten, hfront]
      omega
    obtain ⟨mid, rfl, hrest⟩ := append_eq_append_of_byteLen_le hsplit hle
    rw [byteLen_append, hchunks.byteLen_flatten] at hfront
    exact hcut mid back hrest (by omega)
  rw [parseWord, hslice]
  rfl

/-- **Eight bytes that are not a number are an error.** -/
theorem parseImageId_of_misspelt {s : Str} (hbytes : byteLen (trim s) = 64)
    (h : Misspelt (trim s)) : ∃ e, parseImageId s = .error (.err e) := by
  obtain ⟨chunks, c, rest, hlen, hchunks, heq, hc, hnum⟩ := h
  obtain ⟨id, hrun, -⟩ := forUpTo_parseWord hchunks hlen.le (c ++ rest)
  cases hparse : u32FromStrRadix16 c with
  | ok w => exact absurd ((u32FromStrRadix16_isOk_iff hc).mp ⟨w, hparse⟩) hnum
  | error e =>
    refine ⟨.word chunks.length e, ?_⟩
    rw [parseImageId_eq hbytes, heq]
    refine forUpTo_error_at hlen hrun ?_
    rw [parseWord, strSlice_chunk hchunks hc]
    simp only [liftFault_ok, ok_bind, hparse]

/-- **What the function does to a string**: the result is `Ok` on eight numbers, a panic
on a straddling character, and an error on everything else. -/
theorem parseImageId_cases (s : Str) :
    (EightNumbers (trim s) ∧ ∃ id, parseImageId s = .ok id) ∨
      (Straddles (trim s) ∧ parseImageId s = .error (.fault .indexOutOfBounds)) ∨
      ∃ e, parseImageId s = .error (.err e) := by
  by_cases hbytes : byteLen (trim s) = 64
  · rcases cases_of_byteLen hbytes with ⟨chunks, hlen, hchunks, ht⟩ | hcut | hmiss
    · obtain ⟨id, hid, -⟩ := parseImageId_of_numbers hlen hchunks ht
      exact Or.inl ⟨⟨chunks, hlen, hchunks, ht⟩, id, hid⟩
    · exact Or.inr (Or.inl ⟨hcut, parseImageId_of_straddles hcut⟩)
    · exact Or.inr (Or.inr (parseImageId_of_misspelt hbytes hmiss))
  · exact Or.inr (Or.inr ⟨.wrongLength (byteLen (trim s)), by rw [parseImageId, if_pos hbytes]⟩)

/-! ## The strings the function is meant for -/

theorem IsHex64.byteLen_eq {t : Str} (h : IsHex64 t) : byteLen t = 64 := by
  rw [h.2.byteLen_eq, h.1]

/-- Eight numbers without a sign are 64 digits. -/
theorem EightNumbers.isHex64 {t : Str} (h : EightNumbers t) (hplus : '+' ∉ t) : IsHex64 t := by
  obtain ⟨chunks, hlen, hchunks, rfl⟩ := h
  have hall : AllHex chunks.flatten := by
    refine AllHex.flatten fun c hc => ?_
    rcases (hchunks c hc).2 with h | ⟨digits, rfl, -⟩
    · exact h
    · exact absurd (List.mem_flatten_of_mem hc List.mem_cons_self) hplus
  refine ⟨?_, hall⟩
  rw [← hall.byteLen_eq, hchunks.byteLen_flatten, hlen]

/-- 64 digits are eight numbers. -/
theorem IsHex64.eightNumbers {t : Str} (h : IsHex64 t) : EightNumbers t := by
  rcases cases_of_byteLen h.byteLen_eq with hnum | hcut | hmiss
  · exact hnum
  · obtain ⟨-, chunks, rest, hlen, hchunks, rfl, hcut⟩ := hcut
    have hrest := (AllHex.append_iff.mp h.2).2
    have hlong : 8 ≤ rest.length := by
      have hbytes := h.byteLen_eq
      rw [byteLen_append, hchunks.byteLen_flatten, hrest.byteLen_eq] at hbytes
      omega
    have htake : AllHex (rest.take 8) := fun c hc => hrest c (List.mem_of_mem_take hc)
    have hbytes : byteLen (rest.take 8) = 8 := by
      rw [htake.byteLen_eq, List.length_take]
      omega
    exact absurd hbytes (hcut _ _ (List.take_append_drop 8 rest).symm)
  · obtain ⟨chunks, c, rest, -, -, rfl, -, hnum⟩ := hmiss
    exact absurd (Or.inl (AllHex.append_iff.mp (AllHex.append_iff.mp h.2).2).1) hnum

/-- 64 digits are read in eight pieces, each for its value. -/
theorem parseImageId_pieces {s : Str} (h : IsHex64 (trim s)) :
    ∃ (chunks : List Str) (id : ImageId), chunks.length = 8 ∧ trim s = chunks.flatten ∧
      (∀ c ∈ chunks, c.length = 8 ∧ AllHex c) ∧ parseImageId s = .ok id ∧
      ∀ (i : Fin 8) (c : Str), chunks[i.val]? = some c → id.get i = UInt32.ofNat (hexValue c) := by
  obtain ⟨chunks, hlen, hchunks, ht⟩ := h.eightNumbers
  obtain ⟨id, hid, hwords⟩ := parseImageId_of_numbers hlen hchunks ht
  have hpieces : ∀ c ∈ chunks, c.length = 8 ∧ AllHex c := by
    intro c hc
    refine ⟨(hchunks c hc).1, fun d hd => h.2 d ?_⟩
    rw [ht]
    exact List.mem_flatten_of_mem hc hd
  refine ⟨chunks, id, hlen, ht, hpieces, hid, fun i c hc => ?_⟩
  obtain ⟨hlen8, hall⟩ := hpieces c (List.mem_of_getElem? hc)
  have hw := hwords i c hc
  rw [u32FromStrRadix16_of_allHex hall hlen8, Except.ok.injEq] at hw
  exact hw.symm

/-- **64 hexadecimal digits are parsed to the words they spell.** -/
theorem parseImageId_of_isHex64 {s : Str} (h : IsHex64 (trim s)) :
    ∃ id, parseImageId s = .ok id ∧
      ∀ i : Fin 8, (id.get i).toNat = hexValue (window (trim s) (i * 8) 8) := by
  obtain ⟨chunks, id, hlen, ht, hpieces, hid, hwords⟩ := parseImageId_pieces h
  refine ⟨id, hid, fun i => ?_⟩
  have hi : i.val < chunks.length := by
    rw [hlen]
    exact i.isLt
  have hget : chunks[i.val]? = some chunks[i.val] := List.getElem?_eq_getElem hi
  have hlen8 := (hpieces _ (List.getElem_mem hi)).1
  rw [ht, window_flatten (fun c hc => (hpieces c hc).1) hget, hwords i _ hget,
    toNat_ofNat_hexValue hlen8]

/-- **For which strings the function does what it is meant to do.**  It goes wrong on
eight numbers when one of them has a sign, which it accepts, and on a character that
straddles the end of a slice, on which it panics. -/
theorem parsesHex64_iff (s : Str) :
    ParsesHex64 s ↔ ¬ (EightNumbers (trim s) ∧ '+' ∈ trim s) ∧ ¬ Straddles (trim s) := by
  constructor
  · rintro ⟨-, hother⟩
    constructor
    · rintro ⟨⟨chunks, hlen, hchunks, ht⟩, hplus⟩
      obtain ⟨e, he⟩ := hother fun h => h.2.plus_notMem hplus
      obtain ⟨id, hid, -⟩ := parseImageId_of_numbers hlen hchunks ht
      rw [hid] at he
      cases he
    · intro hcut
      have hpanic := parseImageId_of_straddles hcut
      by_cases h : IsHex64 (trim s)
      · obtain ⟨id, hid, -⟩ := parseImageId_of_isHex64 h
        rw [hid] at hpanic
        cases hpanic
      · obtain ⟨e, he⟩ := hother h
        rw [he] at hpanic
        cases hpanic
  · rintro ⟨hsign, hcut⟩
    refine ⟨parseImageId_of_isHex64, fun h => ?_⟩
    rcases parseImageId_cases s with ⟨hnum, -⟩ | ⟨hstraddles, -⟩ | herr
    · exact absurd (hnum.isHex64 fun hplus => hsign ⟨hnum, hplus⟩) h
    · exact absurd hstraddles hcut
    · exact herr

/-- Eight times the number one, with its sign. -/
def signedOnes : Str := (List.replicate 8 "+0000001".toList).flatten

/-- Seven zeros, a letter of two bytes, and 55 more zeros. -/
def letterAtTheEnd : Str := List.replicate 7 '0' ++ 'é' :: List.replicate 55 '0'

/-- **Neither kind of string is refused with an error.**  The first one is accepted,
the second one is a panic. -/
theorem signedOnes_accepted :
    (parseImageId signedOnes = .ok (Vector.replicate 8 1) ∧ ¬ ParsesHex64 signedOnes) ∧
      parseImageId letterAtTheEnd = .error (.fault .indexOutOfBounds) ∧
      ¬ ParsesHex64 letterAtTheEnd := by
  have hones : parseImageId signedOnes = .ok (Vector.replicate 8 1) := by decide +kernel
  have hletter : parseImageId letterAtTheEnd = .error (.fault .indexOutOfBounds) := by
    decide +kernel
  refine ⟨⟨hones, ?_⟩, hletter, ?_⟩
  · rintro ⟨-, hother⟩
    obtain ⟨e, he⟩ := hother fun h => h.2.plus_notMem (by decide +kernel)
    rw [hones] at he
    cases he
  · rintro ⟨-, hother⟩
    have hhex : toDigit16 'é' = none := by decide
    obtain ⟨e, he⟩ := hother fun h => by
      have hsome := h.2 'é' (by decide +kernel)
      rw [hhex] at hsome
      cases hsome
    rw [hletter] at he
    cases he

/-! ## The answer to a wrap request -/

/-- **When a wrap request is not answered.**  Every other string is an image id, or
the answer is a bad request. -/
theorem handleWrapImageId_panics_iff (s : Str) :
    (∃ f, handleWrapImageId s = .error (.fault f)) ↔ Straddles (trim s) := by
  constructor
  · rintro ⟨f, hf⟩
    rw [handleWrapImageId] at hf
    rcases parseImageId_cases s with ⟨-, id, hid⟩ | ⟨hcut, -⟩ | ⟨e, he⟩
    · rw [hid] at hf
      cases hf
    · exact hcut
    · rw [he] at hf
      cases hf
  · intro hcut
    exact ⟨.indexOutOfBounds, by rw [handleWrapImageId, parseImageId_of_straddles hcut]⟩

end Prover
end Tuniq
