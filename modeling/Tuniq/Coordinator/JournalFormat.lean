import Tuniq.Coordinator.JournalDecode

/-!
# The format of a journal

`decode_nullifier_from_journal` computes with positions and byte offsets.  What it
recognises is a format of words, and that is said here without positions: a
parser takes words from the front of a list (`decodeWords`).

The two agree on every journal whose length is a multiple of four
(`decodeNullifierFromJournal_eq`), on either pointer width.  Positions beyond the
journal are the only difficulty.  The program may stop at the checked sum that
leads there, or go on and stop at the next read; either way with
`JournalTooShort`, which is what the parser says of a list with no words left.
-/

namespace Tuniq
namespace Coordinator

/-! ## Words and bytes -/

/-- The words of a journal, an incomplete one at the end left out. -/
def journalWords (bytes : List UInt8) : List UInt32 :=
  (List.range (bytes.length / 4)).map fun i => UInt32.ofNat (ofLe (window bytes (4 * i) 4))

/-- The bytes of some words. -/
def wordBytes (words : List UInt32) : List UInt8 := words.flatMap fun w => toLe 4 w.toNat

theorem length_journalWords (bytes : List UInt8) :
    (journalWords bytes).length = bytes.length / 4 := by
  rw [journalWords, List.length_map, List.length_range]

theorem getElem?_journalWords {bytes : List UInt8} {i : ℕ} (h : 4 * i + 4 ≤ bytes.length) :
    (journalWords bytes)[i]? = some (UInt32.ofNat (ofLe (window bytes (4 * i) 4))) := by
  rw [journalWords, List.getElem?_map, List.getElem?_range (by omega)]
  rfl

theorem length_wordBytes (words : List UInt32) :
    (wordBytes words).length = 4 * words.length := by
  induction words with
  | nil => rfl
  | cons w words ih =>
    rw [wordBytes, List.flatMap_cons, List.length_append, length_toLe, ← wordBytes, ih,
      List.length_cons]
    omega

/-- The bytes of word `i`. -/
theorem window_wordBytes {words : List UInt32} {i : ℕ} {w : UInt32} (h : words[i]? = some w) :
    window (wordBytes words) (4 * i) 4 = toLe 4 w.toNat := by
  induction words generalizing i with
  | nil => exact absurd h (by simp)
  | cons v words ih =>
    rw [wordBytes, List.flatMap_cons, ← wordBytes]
    cases i with
    | zero =>
      obtain rfl : v = w := Option.some.inj h
      exact window_toLe 4 _ _
    | succ i =>
      rw [show 4 * (i + 1) = 4 + 4 * i by omega, window_behind_toLe]
      exact ih h

/-- Words written as bytes are read back. -/
theorem journalWords_wordBytes (words : List UInt32) :
    journalWords (wordBytes words) = words := by
  apply List.ext_getElem?
  intro i
  have hlen := length_wordBytes words
  by_cases hi : i < words.length
  · have hw : words[i]? = some words[i] := List.getElem?_eq_getElem hi
    rw [getElem?_journalWords (by omega), window_wordBytes hw, hw,
      ofLe_toLe_of_lt words[i].toNat_lt, UInt32.ofNat_toNat]
  · have hout : (journalWords (wordBytes words)).length ≤ i := by
      rw [length_journalWords]
      omega
    rw [List.getElem?_eq_none hout, List.getElem?_eq_none (by omega)]

/-- Words appended to whole words. -/
theorem journalWords_append {bytes : List UInt8} (h : bytes.length % 4 = 0)
    (bytes' : List UInt8) :
    journalWords (bytes ++ bytes') = journalWords bytes ++ journalWords bytes' := by
  apply List.ext_getElem?
  intro i
  have hlen := length_journalWords bytes
  have happend : (bytes ++ bytes').length = bytes.length + bytes'.length := List.length_append
  rcases Nat.lt_or_ge i (bytes.length / 4) with hi | hi
  · rw [List.getElem?_append_left (by omega), getElem?_journalWords (by omega),
      getElem?_journalWords (by omega), window_append_left (by omega)]
  · obtain ⟨j, rfl⟩ := Nat.exists_eq_add_of_le hi
    rw [List.getElem?_append_right (by omega), hlen, Nat.add_sub_cancel_left]
    by_cases hj : 4 * j + 4 ≤ bytes'.length
    · rw [getElem?_journalWords (by omega), getElem?_journalWords hj,
        show 4 * (bytes.length / 4 + j) = bytes.length + 4 * j by omega, window_append_right]
    · have hout : (journalWords (bytes ++ bytes')).length ≤ bytes.length / 4 + j := by
        rw [length_journalWords]
        omega
      have hout' : (journalWords bytes').length ≤ j := by
        rw [length_journalWords]
        omega
      rw [List.getElem?_eq_none hout, List.getElem?_eq_none hout']

/-! ## The parser -/

/-- The next word. -/
def takeWord : List UInt32 → Except JournalDecodeError (UInt32 × List UInt32)
  | [] => .error .journalTooShort
  | w :: words => .ok (w, words)

/-- Continue if `cond` holds. -/
def check (cond : Bool) (e : JournalDecodeError) : Except JournalDecodeError Unit :=
  if cond then .ok () else .error e

@[simp] theorem check_true (e : JournalDecodeError) : check true e = .ok () := rfl

@[simp] theorem check_false (e : JournalDecodeError) : check false e = .error e := rfl

/-- The next word, which must be a byte. -/
def takeByte (words : List UInt32) : Except JournalDecodeError UInt8 := do
  let (w, _) ← takeWord words
  check (w ≤ 0xFF) .invalidByteWord
  return w.toUInt8

/-- The next 32 words, which must be bytes. -/
def takeBytes32 (words : List UInt32) : Except JournalDecodeError Bytes32 :=
  forUpTo (fun k out => do
    let b ← takeByte (words.drop k)
    return out.setIfInBounds k b) 32 (Vector.replicate 32 0)

/-- Skip a length and as many words behind it. -/
def skipVec (words : List UInt32) : Except JournalDecodeError (List UInt32) := do
  let (len, words) ← takeWord words
  return words.drop len.toNat

/-- The format `decode_nullifier_from_journal` recognises. -/
def decodeWords (words : List UInt32) (entryIndex : ℕ) : Except JournalDecodeError Bytes32 := do
  let (preLen, words) ← takeWord words
  check (preLen = 0) .unsupportedShape
  let (postLen, words) ← takeWord words
  check (postLen = 0) .unsupportedShape
  let (ciphertextCount, words) ← takeWord words
  let words ← iter skipVec ciphertextCount.toNat words
  let (commitmentCount, words) ← takeWord words
  let (nullifierCount, words) ← takeWord (words.drop (commitmentCount.toNat * 32))
  check (entryIndex < nullifierCount.toNat) .nullifierIndexOutOfRange
  takeBytes32 (words.drop (entryIndex * 64))

/-! ## The program and the parser -/

section

variable {t : Target} {journal : Bytes t.width}

/-- `read_word` reads a word of the journal. -/
theorem readWord_eq (i : ℕ) :
    readWord t journal i = match (journalWords journal.toList)[i]? with
      | some w => .ok w
      | none => .error (.err .journalTooShort) := by
  have hlen : journal.toList.length ≤ t.width.isizeMax := journal.len_le
  have hcard := t.width.usizeCard_eq
  by_cases hfit : 4 * i + 4 ≤ journal.toList.length
  · have hmul : t.width.checkedMul i 4 = some (i * 4) := if_pos (by omega)
    have hadd : t.width.checkedAdd (i * 4) 4 = some (i * 4 + 4) := if_pos (by omega)
    have hreq : decide (i * 4 + 4 ≤ journal.len) = true :=
      decide_eq_true (show i * 4 + 4 ≤ journal.toList.length by omega)
    rw [getElem?_journalWords hfit, readWord, hmul, okOr_some, ok_bind, hadd, okOr_some, ok_bind,
      hreq, require_true, ok_bind, slice, if_pos ⟨by omega, by omega⟩, Nat.add_sub_cancel_left,
      Nat.mul_comm i 4]
    rfl
  · have hout : (journalWords journal.toList).length ≤ i := by
      rw [length_journalWords]
      omega
    rw [List.getElem?_eq_none hout, readWord, PtrWidth.checkedMul]
    split
    · rw [okOr_some, ok_bind, PtrWidth.checkedAdd]
      split
      · have hreq : decide (i * 4 + 4 ≤ journal.len) = false :=
          decide_eq_false (show ¬ i * 4 + 4 ≤ journal.toList.length by omega)
        rw [okOr_some, ok_bind, hreq, require_false, error_bind]
      · rw [okOr_none, error_bind]
    · rw [okOr_none, error_bind]

/-- A read and what follows it, with the words taken from the front. -/
theorem readWord_bind {α : Type} {i : ℕ} {f : UInt32 → Except (Stop JournalDecodeError) α}
    {g : UInt32 × List UInt32 → Except JournalDecodeError α}
    (h : ∀ w, i < (journalWords journal.toList).length →
      f w = (g (w, (journalWords journal.toList).drop (i + 1))).mapError .err) :
    readWord t journal i >>= f =
      (takeWord ((journalWords journal.toList).drop i) >>= g).mapError .err := by
  rw [readWord_eq]
  by_cases hi : i < (journalWords journal.toList).length
  · rw [List.getElem?_eq_getElem hi, List.drop_eq_getElem_cons hi]
    exact h _ hi
  · rw [List.getElem?_eq_none (by omega), List.drop_eq_nil_of_le (by omega)]
    rfl

theorem require_bind {α : Type} {c : Bool} {e : JournalDecodeError}
    {f : Unit → Except (Stop JournalDecodeError) α} {g : Unit → Except JournalDecodeError α}
    (h : c = true → f () = (g ()).mapError .err) :
    require c e >>= f = (check c e >>= g).mapError .err := by
  cases c with
  | false => rfl
  | true => exact h rfl

/-- There are fewer words than positions. -/
theorem length_journalWords_lt (journal : Bytes t.width) :
    4 * (journalWords journal.toList).length < t.width.usizeCard := by
  have hlen : journal.toList.length ≤ t.width.isizeMax := journal.len_le
  have hcard := t.width.usizeCard_eq
  rw [length_journalWords]
  omega

/-- `word += 1` behind a word that was read. -/
theorem addUsize_one {i : ℕ} (h : i < (journalWords journal.toList).length) :
    t.addUsize i 1 = .ok (i + 1) := by
  have hlt := length_journalWords_lt journal
  exact Target.addUsize_of_lt (by omega)

theorem drop_journalWords_eq_nil {i : ℕ} (h : t.width.usizeCard ≤ i) :
    (journalWords journal.toList).drop i = [] := by
  have hlt := length_journalWords_lt journal
  exact List.drop_eq_nil_of_le (by omega)

theorem asUsize_u32 (w : PtrWidth) (x : UInt32) : w.asUsize x.toNat = x.toNat := by
  have hcard : 2 ^ 32 ≤ w.usizeCard := by cases w <;> decide
  exact Nat.mod_eq_of_lt (lt_of_lt_of_le x.toNat_lt hcard)

/-! ### Positions -/

/-- A position in the program, and the words the parser has left.  Behind the last
word the program may have stopped already. -/
inductive Follows (journal : Bytes t.width) :
    Except (Stop JournalDecodeError) ℕ → Except JournalDecodeError (List UInt32) → Prop
  | here {i : ℕ} (h : i < t.width.usizeCard) :
    Follows journal (.ok i) (.ok ((journalWords journal.toList).drop i))
  | stop (e : JournalDecodeError) : Follows journal (.error (.err e)) (.error e)
  | past : Follows journal (.error (.err .journalTooShort)) (.ok [])

/-- A checked sum. -/
theorem follows_checkedAdd (i n : ℕ) :
    Follows journal (okOr (t.width.checkedAdd i n) .journalTooShort)
      (.ok ((journalWords journal.toList).drop (i + n))) := by
  rw [PtrWidth.checkedAdd]
  split
  · rename_i hlt
    exact .here hlt
  · rename_i hge
    rw [drop_journalWords_eq_nil (by omega)]
    exact .past

/-- A sequence of two moves. -/
theorem Follows.bind {x : Except (Stop JournalDecodeError) ℕ}
    {y : Except JournalDecodeError (List UInt32)}
    {f : ℕ → Except (Stop JournalDecodeError) ℕ}
    {g : List UInt32 → Except JournalDecodeError (List UInt32)} (h : Follows journal x y)
    (hfg : ∀ i, Follows journal (f i) (g ((journalWords journal.toList).drop i)))
    (hnil : g [] = .error .journalTooShort) : Follows journal (x >>= f) (y >>= g) := by
  cases h with
  | here _ => exact hfg _
  | stop e => exact .stop e
  | past =>
    rw [ok_bind, hnil]
    exact .stop _

/-- A move, and what is read behind it. -/
theorem Follows.bind_eq {α : Type} {x : Except (Stop JournalDecodeError) ℕ}
    {y : Except JournalDecodeError (List UInt32)} {f : ℕ → Except (Stop JournalDecodeError) α}
    {g : List UInt32 → Except JournalDecodeError α} (h : Follows journal x y)
    (hfg : ∀ i, i < t.width.usizeCard →
      f i = (g ((journalWords journal.toList).drop i)).mapError .err)
    (hnil : g [] = .error .journalTooShort) : x >>= f = (y >>= g).mapError .err := by
  cases h with
  | here hi => exact hfg _ hi
  | stop e => rfl
  | past =>
    rw [ok_bind, hnil]
    rfl

/-- A jump over `n` entries of `k` words. -/
theorem jump_bind {α : Type} {i n k : ℕ} {f : ℕ → Except (Stop JournalDecodeError) α}
    {g : List UInt32 → Except JournalDecodeError α}
    (hfg : ∀ i, i < t.width.usizeCard →
      f i = (g ((journalWords journal.toList).drop i)).mapError .err)
    (hnil : g [] = .error .journalTooShort) :
    (do
      let m ← okOr (t.width.checkedMul n k) .journalTooShort
      let i' ← okOr (t.width.checkedAdd i m) .journalTooShort
      f i') = (g ((journalWords journal.toList).drop (i + n * k))).mapError .err := by
  rw [PtrWidth.checkedMul]
  split
  · rw [okOr_some, ok_bind]
    exact (follows_checkedAdd i (n * k)).bind_eq hfg hnil
  · rw [okOr_none, error_bind, drop_journalWords_eq_nil (by omega), hnil]
    rfl

/-- The body of the loop over the ciphertexts. -/
theorem follows_skipCiphertext (i : ℕ) :
    Follows journal (skipCiphertext t journal i)
      (skipVec ((journalWords journal.toList).drop i)) := by
  rw [skipCiphertext, skipVec, readWord_eq]
  by_cases hi : i < (journalWords journal.toList).length
  · rw [List.getElem?_eq_getElem hi, List.drop_eq_getElem_cons hi]
    dsimp only
    rw [ok_bind, addUsize_one hi, liftFault_ok, ok_bind, asUsize_u32]
    show Follows journal _ (.ok (((journalWords journal.toList).drop (i + 1)).drop _))
    rw [List.drop_drop]
    exact follows_checkedAdd _ _
  · rw [List.getElem?_eq_none (by omega), List.drop_eq_nil_of_le (by omega)]
    exact .stop _

/-- The loop over the ciphertexts. -/
theorem follows_skipCiphertexts {i : ℕ} (hi : i < t.width.usizeCard) (n : ℕ) :
    Follows journal (forUpTo (fun _ => skipCiphertext t journal) n i)
      (iter skipVec n ((journalWords journal.toList).drop i)) := by
  induction n with
  | zero => exact .here hi
  | succ n ih =>
    rw [forUpTo_succ, iter, forUpTo_succ]
    exact ih.bind follows_skipCiphertext rfl

/-! ### Entries -/

theorem readU8Word_eq (i : ℕ) :
    readU8Word t journal i =
      (takeByte ((journalWords journal.toList).drop i)).mapError .err := by
  refine readWord_bind fun w _ => ?_
  exact require_bind fun _ => rfl

theorem setByte_of_lt (out : Bytes32) {k : ℕ} (hk : k < 32) (b : UInt8) :
    setByte out k b = .ok (out.setIfInBounds k b) := by
  rw [setByte, dif_pos hk]
  simp [Vector.setIfInBounds, Vector.set, Array.setIfInBounds, hk]

/-- One round of `read_bytes32`. -/
theorem readBytes32_round (journal : Bytes t.width) {i k : ℕ} (hk : k < 32)
    (hi : i + k < t.width.usizeCard) (out : Bytes32) :
    (do
      let at_k ← liftFault (t.addUsize i k)
      let b ← readU8Word t journal at_k
      liftFault (setByte out k b)) =
    (do
      let b ← takeByte (((journalWords journal.toList).drop i).drop k)
      return out.setIfInBounds k b : Except JournalDecodeError Bytes32).mapError .err := by
  rw [Target.addUsize_of_lt hi, liftFault_ok, ok_bind, readU8Word_eq, List.drop_drop]
  cases takeByte ((journalWords journal.toList).drop (i + k)) with
  | error e => rfl
  | ok b =>
    show liftFault (setByte out k b) = _
    rw [setByte_of_lt out hk]
    rfl

/-- `read_bytes32` reads the next 32 bytes. -/
theorem readBytes32_eq {i : ℕ} (hi : i < t.width.usizeCard) :
    readBytes32 t journal i =
      (takeBytes32 ((journalWords journal.toList).drop i)).mapError .err := by
  by_cases hin : i < (journalWords journal.toList).length
  · -- no position of an entry that begins in the journal is too large
    have hlt := length_journalWords_lt journal
    have hcard : 2 ^ 32 ≤ t.width.usizeCard := by cases t.width <;> decide
    exact forUpTo_mapError (fun k hk out => readBytes32_round journal hk (by omega) out) _
  · have hround := readBytes32_round journal (k := 0) (by decide) hi (Vector.replicate 32 0)
    have hnil : (journalWords journal.toList).drop i = [] :=
      List.drop_eq_nil_of_le (Nat.not_lt.mp hin)
    rw [hnil] at hround ⊢
    exact forUpTo_error_head hround 31

/-- **The program decodes the format**, on journals of any content, for either pointer
width and whether or not overflow is checked. -/
theorem decodeNullifierFromJournal_eq (journal : Bytes t.width) (entryIndex : UInt8) :
    decodeNullifierFromJournal t journal entryIndex =
      if journal.len % 4 = 0 then
        (decodeWords (journalWords journal.toList) entryIndex.toNat).mapError .err
      else .error (.err .notWordAligned) := by
  by_cases haligned : journal.len % 4 = 0
  · rw [if_pos haligned, decodeNullifierFromJournal, decide_eq_true haligned, require_true,
      ok_bind]
    by_cases hlong : 4 ≤ journal.len
    · rw [decide_eq_true hlong, require_true, ok_bind]
      -- the two lists of public states
      refine readWord_bind fun preLen hpre => ?_
      refine require_bind fun _ => ?_
      rw [addUsize_one hpre, liftFault_ok, ok_bind]
      refine readWord_bind fun postLen hpost => ?_
      refine require_bind fun _ => ?_
      rw [addUsize_one hpost, liftFault_ok, ok_bind]
      -- the ciphertexts
      refine readWord_bind fun ciphertextCount hciphertext => ?_
      rw [addUsize_one hciphertext, liftFault_ok, ok_bind]
      have hlt := length_journalWords_lt journal
      refine (follows_skipCiphertexts (by omega) _).bind_eq (fun word _ => ?_) rfl
      -- the commitments
      refine readWord_bind fun commitmentCount hcommitment => ?_
      rw [addUsize_one hcommitment, liftFault_ok, ok_bind, asUsize_u32]
      dsimp only
      rw [List.drop_drop]
      refine jump_bind (g := fun words => takeWord words >>= _) (fun word _ => ?_) rfl
      -- the entry
      refine readWord_bind fun nullifierCount hnullifier => ?_
      rw [addUsize_one hnullifier, liftFault_ok, ok_bind]
      refine require_bind fun _ => ?_
      rw [List.drop_drop]
      exact jump_bind (fun _ => readBytes32_eq) rfl
    · have hwords : journalWords journal.toList = [] := by
        apply List.eq_nil_of_length_eq_zero
        rw [length_journalWords]
        have : journal.toList.length = journal.len := rfl
        omega
      rw [decide_eq_false hlong, require_false, error_bind, hwords]
      rfl
  · rw [if_neg haligned, decodeNullifierFromJournal, decide_eq_false haligned, require_false,
      error_bind]

/-- The program on a journal given by its words. -/
theorem decodeNullifierFromJournal_wordBytes {words : List UInt32}
    (h : journal.toList = wordBytes words) (entryIndex : UInt8) :
    decodeNullifierFromJournal t journal entryIndex =
      (decodeWords words entryIndex.toNat).mapError .err := by
  have haligned : journal.len % 4 = 0 := by
    rw [Vec.len, h, length_wordBytes, Nat.mul_mod_right]
  rw [decodeNullifierFromJournal_eq, if_pos haligned, h, journalWords_wordBytes]

end

end Coordinator
end Tuniq
