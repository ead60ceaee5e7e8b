import Tuniq.Interpreter.Casts
import Tuniq.Interpreter.MemoryRules
import Tuniq.Interpreter.StepRules

/-!
# Immediate and register forms

Thirty-eight operations come in two forms, which take their second operand from the
immediate or from a register.  The two arms are written apart, and what the one casts
from `i32` the other casts from `u64`.

With the sign-extended immediate in the register they do the same
(`forms_agree`).  There are four shapes of pairs, `Insn.Pair`: assignments, divisions,
jumps and stores.  In the table of the thirty-eight the casts are compared
(`Insn.pair_of_registerForm`), after that only the shapes are left.

The two forms are different words, so they stand in different programs:
`Vm.withText` is a machine with another program.
-/

namespace Tuniq

/-! ## The pairs -/

/-- The opcode of the register form of an operation, by that of its immediate form: `mov`,
`add`, `sub`, `mul`, `or`, `and`, `xor`, `lsh`, `rsh` and `arsh` of 64 and of 32 bits, the
divisions, the conditional jumps and the stores. -/
def registerForm (op : UInt8) : Option UInt8 :=
  match op with
  | 0xB7 => some 0xBF
  | 0x07 => some 0x0F
  | 0x17 => some 0x1F
  | 0x27 => some 0x2F
  | 0x47 => some 0x4F
  | 0x57 => some 0x5F
  | 0xA7 => some 0xAF
  | 0x67 => some 0x6F
  | 0x77 => some 0x7F
  | 0xC7 => some 0xCF
  | 0xB4 => some 0xBC
  | 0x04 => some 0x0C
  | 0x14 => some 0x1C
  | 0x24 => some 0x2C
  | 0x44 => some 0x4C
  | 0x54 => some 0x5C
  | 0xA4 => some 0xAC
  | 0x64 => some 0x6C
  | 0x74 => some 0x7C
  | 0xC4 => some 0xCC
  | 0x37 => some 0x3F
  | 0x97 => some 0x9F
  | 0x34 => some 0x3C
  | 0x15 => some 0x1D
  | 0x55 => some 0x5D
  | 0x25 => some 0x2D
  | 0x35 => some 0x3D
  | 0xA5 => some 0xAD
  | 0xB5 => some 0xBD
  | 0x45 => some 0x4D
  | 0x65 => some 0x6D
  | 0x75 => some 0x7D
  | 0xC5 => some 0xCD
  | 0xD5 => some 0xDD
  | 0x72 => some 0x73
  | 0x6A => some 0x6B
  | 0x62 => some 0x63
  | 0x7A => some 0x7B
  | _ => none

/-- The two forms of one operation, by shape: applied to the immediate, and to the
sign-extended immediate, the arms agree. -/
inductive Insn.Pair (i j : Insn) : Prop where
  | alu {f : UInt64 → Int32 → UInt64} {g : UInt64 → UInt64 → UInt64}
      (hi : i.action = .aluImm f) (hj : j.action = .aluReg g)
      (h : ∀ a, g a (immU64 i.imm) = f a i.imm)
  | div {z : Int32 → Bool} {f : UInt64 → Int32 → UInt64} {z' : UInt64 → Bool}
      {g : UInt64 → UInt64 → UInt64} (hi : i.action = .divImm z f)
      (hj : j.action = .divReg z' g) (hz : z' (immU64 i.imm) = z i.imm)
      (h : ∀ a, g a (immU64 i.imm) = f a i.imm)
  | jump {c : UInt64 → Int32 → Bool} {c' : UInt64 → UInt64 → Bool}
      (hi : i.action = .jumpImm c) (hj : j.action = .jumpReg c')
      (h : ∀ a, c' a (immU64 i.imm) = c a i.imm)
  | store {n : Width} (hi : i.action = .storeImm n) (hj : j.action = .storeReg n)

/-- **The casts of the thirty-eight pairs agree.** -/
theorem Insn.pair_of_registerForm {i j : Insn} (h : registerForm i.opcode = some j.opcode) :
    i.Pair j := by
  have h32 := toUInt32_immU64 i.imm
  unfold registerForm at h
  split at h
  case h_39 => exact absurd h (by simp)
  all_goals
    rename_i hop
    have hi := action_of_opcode hop
    have hj := action_of_opcode (Option.some.inj h).symm
  case h_1 | h_2 | h_3 | h_4 | h_5 | h_6 | h_7 => exact .alu hi hj fun _ => rfl
  case h_8 | h_9 | h_10 | h_11 | h_12 | h_13 | h_14 | h_15 | h_16 | h_17 | h_18 | h_19 | h_20 =>
    refine .alu hi hj fun a => ?_
    rw [h32]
  case h_21 | h_22 => exact .div hi hj rfl fun _ => rfl
  case h_23 =>
    refine .div hi hj ?_ fun a => ?_
    · rw [h32]
    · rw [h32]
  case h_24 | h_25 | h_26 | h_27 | h_28 | h_29 | h_30 | h_31 | h_32 | h_33 | h_34 =>
    exact .jump hi hj fun _ => rfl
  case h_35 | h_36 | h_37 | h_38 => exact .store hi hj

/-- The stores truncate the register to the bytes of the immediate. -/
theorem Memory.regBytes_immU64 (n : Width) (imm : Int32) :
    regBytes n (immU64 imm) = immBytes n imm := by
  cases n with
  | b1 => rw [regBytes, immBytes, toUInt8_immU64]
  | b2 => rw [regBytes, immBytes, toUInt16_immU64]
  | b4 =>
    rw [regBytes, immBytes, toUInt32_immU64]
    rfl
  | b8 => rfl

/-! ## Another program -/

namespace Vm

variable {t : Target} {S : Type}

/-- The machine with another program. -/
def withText (vm : Vm t S) (text : Vec t.width 8 UInt64) : Vm t S := { vm with text := text }

end Vm

/-- The outcome with another program in the machine. -/
def Halt.withText {t : Target} {S : Type} (r : Halt t S) (text : Vec t.width 8 UInt64) :
    Halt t S :=
  match r with
  | .ok r0 vm => .ok r0 (vm.withText text)
  | .err e vm => .err e (vm.withText text)
  | .panic f => .panic f

namespace Vm

variable {t : Target} {S : Type}

/-- The result of a step with another program in the machine. -/
def resultWithText (x : Except (Halt t S) (Vm t S)) (text : Vec t.width 8 UInt64) :
    Except (Halt t S) (Vm t S) :=
  match x with
  | .ok vm => .ok (vm.withText text)
  | .error r => .error (r.withText text)

variable (text : Vec t.width 8 UInt64)

theorem setReg_withText (vm : Vm t S) (r : ℕ) (v : UInt64) :
    (vm.withText text).setReg r v = resultWithText (vm.setReg r v) text := by
  unfold setReg
  split
  · rfl
  · rfl

theorem jumpBy_withText (vm : Vm t S) (d : ℤ) :
    (vm.withText text).jumpBy d = resultWithText (vm.jumpBy d) text := by
  unfold jumpBy
  show (liftHalt (t.addI64 (Int.bmod vm.pc (2 ^ 64)) d) >>= _) = _
  cases t.addI64 (Int.bmod vm.pc (2 ^ 64)) d with
  | ok target => rfl
  | error f => rfl

/-- A register read stops without a machine. -/
theorem reg_cases (vm : Vm t S) (r : ℕ) :
    (∃ v, vm.reg r = .ok v) ∨ vm.reg r = .error (.panic .indexOutOfBounds) := by
  rcases Nat.lt_or_ge r 11 with hr | hr
  · exact Or.inl ⟨_, reg_of_lt vm hr⟩
  · exact Or.inr (reg_eq_error.mpr ⟨hr, rfl⟩)

section

variable [Syscalls t S]

/-- **The shapes agree**, in a machine whose source register holds the sign-extended
immediate. -/
theorem perform_pair {vm : Vm t S} {i j : Insn} (hpair : i.Pair j) (hdst : j.dst = i.dst)
    (hoff : j.off = i.off) (hsrc : vm.regs[j.src]? = some (immU64 i.imm)) :
    (vm.withText text).perform j j.action =
      resultWithText (vm.perform i i.action) text := by
  have hb : (vm.withText text).reg j.src = .ok (immU64 i.imm) := reg_eq_ok.mpr hsrc
  have ha : (vm.withText text).reg i.dst = vm.reg i.dst := rfl
  cases hpair with
  | @alu f g hi hj h =>
    rw [hi, hj, perform, perform, hb, hdst, ha]
    rcases vm.reg_cases i.dst with ⟨a, hreg⟩ | hreg
    · rw [hreg]
      show (vm.withText text).setReg i.dst (g a (immU64 i.imm)) = _
      rw [h, setReg_withText]
      rfl
    · rw [hreg]
      rfl
  | @div z f z' g hi hj hz h =>
    rw [hi, hj, perform, perform, hb, hdst, ha]
    show (if z' (immU64 i.imm) = true then _ else _) = _
    rw [hz]
    split
    · rfl
    · rcases vm.reg_cases i.dst with ⟨a, hreg⟩ | hreg
      · rw [hreg]
        show (vm.withText text).setReg i.dst (g a (immU64 i.imm)) = _
        rw [h, setReg_withText]
        rfl
      · rw [hreg]
        rfl
  | @jump c c' hi hj h =>
    rw [hi, hj, perform, perform, hb, hdst, ha, hoff]
    rcases vm.reg_cases i.dst with ⟨a, hreg⟩ | hreg
    · rw [hreg]
      show (if c' a (immU64 i.imm) = true then (vm.withText text).jumpBy i.off.toInt
        else .ok (vm.withText text)) =
          resultWithText (if c a i.imm = true then vm.jumpBy i.off.toInt else .ok vm) text
      rw [h]
      split
      · exact jumpBy_withText text vm i.off.toInt
      · rfl
    · rw [hreg]
      rfl
  | @store n hi hj =>
    rw [hi, hj, perform, perform, hb, hdst, ha, hoff]
    rcases vm.reg_cases i.dst with ⟨a, hreg⟩ | hreg
    · have hstore : vm.mem.storeReg t n (a + offU64 i.off) (immU64 i.imm) =
          vm.mem.storeImm t n (a + offU64 i.off) i.imm := by
        rw [Memory.storeReg_eq, Memory.storeImm_eq, Memory.regBytes_immU64]
      rw [hreg]
      show (liftHalt (vm.mem.storeReg t n (a + offU64 i.off) (immU64 i.imm)) >>= _) =
        resultWithText (liftHalt (vm.mem.storeImm t n (a + offU64 i.off) i.imm) >>= _) text
      rw [hstore]
      cases vm.mem.storeImm t n (a + offU64 i.off) i.imm with
      | error f => rfl
      | ok r =>
        cases r with
        | none => rfl
        | some m => rfl
    · rw [hreg]
      rfl

/-- **The immediate form and the register form do the same.**  For each of the
thirty-eight operations and every machine: when the source register holds the
sign-extended immediate, the step of the immediate form and the step of the register
form, in the same state but for the program, have the same result --- registers,
memory, program counter and all the rest, or the same error. -/
theorem forms_agree {vm : Vm t S} {i j : Insn} {text : Vec t.width 8 UInt64}
    (hform : registerForm i.opcode = some j.opcode) (hdst : j.dst = i.dst)
    (hoff : j.off = i.off) (hsrc : vm.regs[j.src]? = some (immU64 i.imm))
    (hi : vm.fetch = some i) (hj : (vm.withText text).fetch = some j) :
    (vm.withText text).step = resultWithText vm.step text := by
  rw [step_of_fetch hi, step_of_fetch hj]
  have hsrc' : vm.advance.regs[j.src]? = some (immU64 i.imm) := hsrc
  exact perform_pair text (Insn.pair_of_registerForm hform) hdst hoff hsrc'

/-- `jsgt r1, -1, +1; exit; exit`, with `r2 = -1`. -/
def signedJump : Vm ⟨.w64, true⟩ GuestSyscalls :=
  start ⟨[0xFFFFFFFF00010165, 0x95, 0x95], by decide⟩
    (Regs.put (Vector.replicate 11 0) .r2 0xFFFFFFFFFFFFFFFF) Memory.empty {}

/-- `jsgt r1, r2, +1; exit; exit`. -/
def signedJumpReg : Vec .w64 8 UInt64 := ⟨[0x1216D, 0x95, 0x95], by decide⟩

/-- A signed jump against `-1`, in both forms. -/
theorem forms_agree_signedJump :
    (signedJump.withText signedJumpReg).step =
      resultWithText signedJump.step signedJumpReg := by
  have hi : signedJump.fetch = some (decode 0xFFFFFFFF00010165) := rfl
  have hj : (signedJump.withText signedJumpReg).fetch = some (decode 0x1216D) := rfl
  have hform : registerForm (decode 0xFFFFFFFF00010165).opcode = some (decode 0x1216D).opcode :=
    rfl
  have hsrc : signedJump.regs[(decode 0x1216D).src]? =
      some (immU64 (decode 0xFFFFFFFF00010165).imm) := rfl
  exact forms_agree hform rfl rfl hsrc hi hj

end

end Vm
end Tuniq
