import Tuniq.Library.Bytes

/-!
# The Rust the programs are written in

What the programs use of the language: the pointer width of the target, the
arithmetic that panics on overflow or wraps, vectors whose length fits `isize`,
slicing, and the ways a call can fail to return.

Two switches change what one and the same program text does, so they are data:
the **pointer width** (64 bits on the host and on chain, 32 bits inside the
proving machine) and whether **overflow checks** are compiled in.  A `Target`
is a choice of both.

A `Vec` carries the bound the allocator guarantees --- no vector or slice is
longer than `isize::MAX` bytes --- as a field, so a list that no program could
hold is never a value of the model.  `usize` values are natural numbers; every
operation that can leave their range says so.

A call that returns `Result` can stop with its own error or with a fault, and
the two are kept apart (`Stop`): an error is a value the caller sees, a fault
ends the program.
-/

namespace Tuniq

/-! ## Targets -/

/-- The pointer width of a target. -/
inductive PtrWidth where
  | w32
  | w64
  deriving DecidableEq, Repr

namespace PtrWidth

def bits : PtrWidth → ℕ
  | .w32 => 32
  | .w64 => 64

/-- How many values `usize` has. -/
def usizeCard (w : PtrWidth) : ℕ := 2 ^ w.bits

/-- `isize::MAX`, the largest size of an allocation in bytes. -/
def isizeMax (w : PtrWidth) : ℕ := 2 ^ (w.bits - 1) - 1

theorem usizeCard_eq (w : PtrWidth) : w.usizeCard = 2 * (w.isizeMax + 1) := by
  cases w <;> decide

theorem isizeMax_lt (w : PtrWidth) : w.isizeMax < 2 ^ 63 := by
  cases w <;> decide

theorem le_isizeMax (w : PtrWidth) : 2 ^ 31 - 1 ≤ w.isizeMax := by
  cases w <;> decide

/-- A cast to `usize`: the low bits. -/
def asUsize (w : PtrWidth) (x : ℕ) : ℕ := x % w.usizeCard

theorem asUsize_of_lt {w : PtrWidth} {x : ℕ} (h : x ≤ w.isizeMax) : w.asUsize x = x := by
  have := w.usizeCard_eq
  exact Nat.mod_eq_of_lt (by omega)

/-- A cast from `i64` to `usize`. -/
def usizeOfI64 (w : PtrWidth) (x : ℤ) : ℕ := (x % (w.usizeCard : ℤ)).toNat

end PtrWidth

/-- What the compiler was told: the pointer width and whether arithmetic is
checked for overflow. -/
structure Target where
  width : PtrWidth
  overflowChecks : Bool
  deriving DecidableEq, Repr

/-! ## Ways not to return -/

/-- A panic, or an access the surrounding unsafe code has no right to make. -/
inductive Fault where
  | indexOutOfBounds
  | arithmeticOverflow
  | capacityOverflow
  | explicitPanic
  | undefinedBehavior
  deriving DecidableEq, Repr

/-- How a call returning `Result` stops short: with its own error, or with a
fault. -/
inductive Stop (ε : Type*) where
  | err : ε → Stop ε
  | fault : Fault → Stop ε
  deriving DecidableEq, Repr

/-- Run a computation that can only fault inside one that can also fail. -/
def liftFault {ε α : Type*} : Except Fault α → Except (Stop ε) α
  | .ok a => .ok a
  | .error f => .error (.fault f)

@[simp] theorem liftFault_ok {ε α : Type*} (a : α) :
    (liftFault (.ok a) : Except (Stop ε) α) = .ok a := rfl

@[simp] theorem liftFault_error {ε α : Type*} (f : Fault) :
    (liftFault (.error f) : Except (Stop ε) α) = .error (.fault f) := rfl

@[simp] theorem ok_bind {ε α β : Type} (a : α) (f : α → Except ε β) :
    ((Except.ok a : Except ε α) >>= f) = f a := rfl

@[simp] theorem error_bind {ε α β : Type} (e : ε) (f : α → Except ε β) :
    ((Except.error e : Except ε α) >>= f) = .error e := rfl

theorem bind_eq_ok {ε α β : Type} {x : Except ε α} {f : α → Except ε β} {b : β} :
    x >>= f = .ok b ↔ ∃ a, x = .ok a ∧ f a = .ok b := by
  cases x <;> simp [bind, Except.bind]

theorem bind_eq_error {ε α β : Type} {x : Except ε α} {f : α → Except ε β} {e : ε} :
    x >>= f = .error e ↔ x = .error e ∨ ∃ a, x = .ok a ∧ f a = .error e := by
  cases x <;> simp [bind, Except.bind]

/-- `Result::unwrap`. -/
def unwrap {ε α : Type*} : Except ε α → Except Fault α
  | .ok a => .ok a
  | .error _ => .error .explicitPanic

@[simp] theorem unwrap_ok {ε α : Type*} (a : α) : unwrap (.ok a : Except ε α) = .ok a := rfl

/-- `Option::ok_or`. -/
def okOr {ε α : Type*} (x : Option α) (e : ε) : Except (Stop ε) α :=
  match x with
  | some a => .ok a
  | none => .error (.err e)

@[simp] theorem okOr_some {ε α : Type*} (a : α) (e : ε) : okOr (some a) e = .ok a := rfl

@[simp] theorem okOr_none {ε α : Type*} (e : ε) :
    (okOr none e : Except (Stop ε) α) = .error (.err e) := rfl

/-- `require!(cond, err)`. -/
def require {ε : Type*} (cond : Bool) (e : ε) : Except (Stop ε) Unit :=
  if cond then .ok () else .error (.err e)

@[simp] theorem require_true {ε : Type*} (e : ε) : require true e = .ok () := rfl

@[simp] theorem require_false {ε : Type*} (e : ε) : require false e = .error (.err e) := rfl

/-! ## Arithmetic -/

namespace Target

/-- `a + b` on `u64`. -/
def addU64 (t : Target) (a b : UInt64) : Except Fault UInt64 :=
  if t.overflowChecks ∧ 2 ^ 64 ≤ a.toNat + b.toNat then .error .arithmeticOverflow
  else .ok (a + b)

/-- `a + b` on `usize`. -/
def addUsize (t : Target) (a b : ℕ) : Except Fault ℕ :=
  if a + b < t.width.usizeCard then .ok (a + b)
  else if t.overflowChecks then .error .arithmeticOverflow
  else .ok (t.width.asUsize (a + b))

/-- `a * b` on `usize`. -/
def mulUsize (t : Target) (a b : ℕ) : Except Fault ℕ :=
  if a * b < t.width.usizeCard then .ok (a * b)
  else if t.overflowChecks then .error .arithmeticOverflow
  else .ok (t.width.asUsize (a * b))

/-- `a + b` on `i64`. -/
def addI64 (t : Target) (a b : ℤ) : Except Fault ℤ :=
  if -2 ^ 63 ≤ a + b ∧ a + b < 2 ^ 63 then .ok (a + b)
  else if t.overflowChecks then .error .arithmeticOverflow
  else .ok (Int.bmod (a + b) (2 ^ 64))

theorem addU64_of_lt {t : Target} {a b : UInt64} (h : a.toNat + b.toNat < 2 ^ 64) :
    t.addU64 a b = .ok (a + b) := by
  rw [addU64, if_neg]
  rintro ⟨-, h'⟩
  omega

theorem addUsize_of_lt {t : Target} {a b : ℕ} (h : a + b < t.width.usizeCard) :
    t.addUsize a b = .ok (a + b) := by
  rw [addUsize, if_pos h]

theorem addI64_of_range {t : Target} {a b : ℤ} (h : -2 ^ 63 ≤ a + b ∧ a + b < 2 ^ 63) :
    t.addI64 a b = .ok (a + b) := by
  rw [addI64, if_pos h]

end Target

/-- `usize::checked_add`. -/
def PtrWidth.checkedAdd (w : PtrWidth) (a b : ℕ) : Option ℕ :=
  if a + b < w.usizeCard then some (a + b) else none

/-- `usize::checked_mul`. -/
def PtrWidth.checkedMul (w : PtrWidth) (a b : ℕ) : Option ℕ :=
  if a * b < w.usizeCard then some (a * b) else none

/-! ## Vectors and slices -/

/-- A vector or slice of elements of `size` bytes.  No allocation is larger than
`isize::MAX` bytes, and the bound travels with the value. -/
structure Vec (w : PtrWidth) (size : ℕ) (α : Type*) where
  toList : List α
  size_le : toList.length * size ≤ w.isizeMax
  deriving DecidableEq

/-- `Vec<u8>` and `&[u8]`. -/
abbrev Bytes (w : PtrWidth) := Vec w 1 UInt8

namespace Vec

variable {w : PtrWidth} {size : ℕ} {α : Type*}

def len (v : Vec w size α) : ℕ := v.toList.length

@[ext] theorem ext {v v' : Vec w size α} (h : v.toList = v'.toList) : v = v' := by
  cases v
  cases v'
  simp only [Vec.mk.injEq]
  exact h

theorem len_le (v : Bytes w) : v.len ≤ w.isizeMax := by
  simpa [len] using v.size_le

theorem len_lt (v : Bytes w) : v.len < 2 ^ 63 :=
  lt_of_le_of_lt v.len_le w.isizeMax_lt

/-- `alloc::vec![0u8; n]`: the size is a `usize` an allocation can have. -/
def zeroed (n : ℕ) (h : n ≤ w.isizeMax) : Bytes w :=
  ⟨List.replicate n 0, by simpa using h⟩

@[simp] theorem len_zeroed (n : ℕ) (h : n ≤ w.isizeMax) : (zeroed n h : Bytes w).len = n := by
  simp [zeroed, len]

/-- Replace a stretch in place; the length stays, so the bound does. -/
def overwrite (v : Bytes w) (off : ℕ) (bs : List UInt8) (h : off + bs.length ≤ v.len) :
    Bytes w :=
  ⟨Tuniq.overwrite v.toList off bs, by
    rw [length_overwrite h]
    exact v.size_le⟩

@[simp] theorem toList_overwrite (v : Bytes w) (off : ℕ) (bs : List UInt8)
    (h : off + bs.length ≤ v.len) :
    (v.overwrite off bs h).toList = Tuniq.overwrite v.toList off bs := rfl

@[simp] theorem len_overwrite (v : Bytes w) (off : ℕ) (bs : List UInt8)
    (h : off + bs.length ≤ v.len) : (v.overwrite off bs h).len = v.len :=
  length_overwrite h

end Vec

/-- `v[a..b]`: panics when the range is decreasing or ends past the slice. -/
def slice {α : Type*} (v : List α) (a b : ℕ) : Except Fault (List α) :=
  if a ≤ b ∧ b ≤ v.length then .ok (window v a (b - a)) else .error .indexOutOfBounds

theorem slice_eq_ok {α : Type*} {v : List α} {a b : ℕ} {l : List α} :
    slice v a b = .ok l ↔ (a ≤ b ∧ b ≤ v.length) ∧ window v a (b - a) = l := by
  rw [slice]
  split <;> simp_all

/-- `v.try_into().unwrap()` to an array of `n` elements. -/
def tryIntoArray {α : Type*} (n : ℕ) (v : List α) : Except Fault (Vector α n) :=
  if h : v.length = n then .ok ⟨v.toArray, h⟩ else .error .explicitPanic

theorem tryIntoArray_of_length {α : Type*} {n : ℕ} {v : List α} (h : v.length = n) :
    tryIntoArray n v = .ok ⟨v.toArray, h⟩ := by
  rw [tryIntoArray, dif_pos h]

end Tuniq
