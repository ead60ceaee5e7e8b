import Tuniq.Predicate.Drivers

/-!
# Verdicts

The balance predicate documents a return code: `0` when the balance reaches the
threshold, something else when it does not.  A program that keeps to this
(`FollowsConvention`) is run by two drivers, and each ends in a boolean.

* `prove_predicate` returns the second component of the pair the guest commits:
  `success=no VM fault`.
* `test!` of the harness computes `is_ok` from the return data: `Ok=empty
  return_data`.

Neither looks at `r0`.  So `prove_predicate` answers `true` for every balance and
threshold, and `is_ok` is `true` for every balance and threshold unless the run
calls `sol_set_return_data` (`verdicts`).  The return code itself does reach the
journal: the guest commits `r0` next to the boolean.
-/

namespace Tuniq
namespace Vm

variable {t : Target} {S : Type} {c : Bool}

/-- **The return-code convention** of the balance predicate, for the machine a
driver prepares from a balance and a threshold. -/
def FollowsConvention [Syscalls t S] (prepare : UInt64 → UInt64 → Except Fault (Vm t S)) :
    Prop :=
  ∀ balance threshold, ∃ r0 vm, Outcome (prepare balance threshold) (.ok r0 vm) ∧
    (r0 = 0 ↔ threshold ≤ balance)

/-- `is_ok` of `test!`, for a run that returned `Ok`. -/
def isOk : Halt t S → Option Bool
  | .ok _ vm => some vm.returnData.isEmpty
  | .err _ _ => none
  | .panic _ => none

/-- `test!` computes `is_ok = verdict` on a balance and a threshold. -/
def HarnessVerdict (c : Bool) (text : Vec .w64 8 UInt64) (balance threshold : UInt64)
    (verdict : Bool) : Prop :=
  ∃ r, Outcome (runPredicate c text balance threshold) r ∧ isOk r = some verdict

/-- Return data that a run ends with was set by one of its steps. -/
theorem returnData_of_halts [Syscalls t S] {vm₀ vm : Vm t S} {r0 : UInt64}
    (h₀ : vm₀.returnData = []) (h : Halts step vm₀ (.ok r0 vm)) :
    vm.returnData = [] ∨
      ∃ u i, Reaches step vm₀ u ∧ u.fetch = some i ∧ i.SetsReturnData := by
  by_cases hset : ∃ u i, Reaches step vm₀ u ∧ u.fetch = some i ∧ i.SetsReturnData
  · exact Or.inr hset
  · left
    have hstep : ∀ u u', (Reaches step vm₀ u ∧ u.returnData = []) → u.step = .ok u' →
        Reaches step vm₀ u' ∧ u'.returnData = [] := by
      rintro u u' ⟨hu, hdata⟩ hs
      refine ⟨hu.trans ((Reaches.refl u').head hs), ?_⟩
      rcases returnData_step hs with ⟨i, hi, hcall⟩ | hsame
      · exact absurd ⟨u, i, hu, hi, hcall⟩ hset
      · exact hsame.trans hdata
    obtain ⟨u, hu, hhalt⟩ := h
    obtain ⟨-, hdata⟩ := hu.invariant hstep ⟨Reaches.refl vm₀, h₀⟩
    obtain ⟨-, -, -, -, -, rfl⟩ := step_eq_halt_ok hhalt
    exact hdata

/-- **What the two verdicts say** about a program that follows the convention, on
every balance and threshold.  The guest commits the return code of the convention
together with `true`; `prove_predicate` answers `true`; and `is_ok` says whether
the run ended without return data, which it does when it calls no
`sol_set_return_data`. -/
theorem verdicts {W : Type} (σ : Serde W) (text : Vec .w64 8 UInt64)
    (hhost : FollowsConvention (runPredicate c text))
    (hguest : FollowsConvention fun balance threshold =>
      guestMain c σ (proverInput σ text balance threshold))
    (balance threshold : UInt64) :
    (∃ r r0, Outcome (guestMain c σ (proverInput σ text balance threshold)) r ∧
      committed r = some (r0, true) ∧ (r0 = 0 ↔ threshold ≤ balance)) ∧
    (∀ success, ProvesPredicate c σ text balance threshold success ↔ success = true) ∧
    ∃ r0 vm, Outcome (runPredicate c text balance threshold) (.ok r0 vm) ∧
      (r0 = 0 ↔ threshold ≤ balance) ∧
      (∀ verdict, HarnessVerdict c text balance threshold verdict ↔
        verdict = vm.returnData.isEmpty) ∧
      (vm.returnData = [] ∨ ∃ vm₀ u i, runPredicate c text balance threshold = .ok vm₀ ∧
        Reaches step vm₀ u ∧ u.fetch = some i ∧ i.SetsReturnData) := by
  obtain ⟨r0, vm, hout, hr0⟩ := hguest balance threshold
  obtain ⟨r0', vm', hout', hr0'⟩ := hhost balance threshold
  refine ⟨⟨_, r0, hout, rfl, hr0⟩, fun success => ⟨?_, ?_⟩, r0', vm', hout', hr0', ?_, ?_⟩
  · rintro ⟨r, pair, r0'', hr, hpair, hread⟩
    obtain rfl := hr.unique hout
    obtain rfl := Option.some.inj hpair
    rw [σ.result.read_write] at hread
    exact (Prod.mk.inj (Option.some.inj hread)).2.symm
  · rintro rfl
    exact ⟨_, _, r0, hout, rfl, by rw [σ.result.read_write]; rfl⟩
  · intro verdict
    constructor
    · rintro ⟨r, hr, hverdict⟩
      obtain rfl := hr.unique hout'
      exact (Option.some.inj hverdict).symm
    · rintro rfl
      exact ⟨_, hout', rfl⟩
  · have hprep := runPredicate_eq (c := c) text balance threshold
    rw [hprep] at hout'
    rcases returnData_of_halts rfl (outcome_ok.mp hout') with hdata | ⟨u, i, hu, hi, hset⟩
    · exact Or.inl hdata
    · exact Or.inr ⟨_, u, i, hprep, hu, hi, hset⟩

/-! ## A program that follows the convention -/

/-- `ldxdw r2, [r1]; ldxdw r3, [r2 + 16]; ldxdw r4, [r2 + 24]; mov r0, 0;
jge r3, r4, +1; mov r0, 1; exit` -/
def predicateText (w : PtrWidth) : Vec w 8 UInt64 :=
  ⟨[0x0000000000001279, 0x0000000000102379, 0x0000000000182479, 0x00000000000000B7,
    0x000000000001433D, 0x00000001000000B7, 0x95], by cases w <;> decide⟩

/-- The program with its registers and program counter set. -/
def predicateAt (regs : Regs) (pc : ℕ) (m : Memory t.width) (s : S) : Vm t S :=
  { start (predicateText t.width) regs m s with pc := pc }

/-- The registers behind the three loads and the move. -/
def loadedRegs (balance threshold : UInt64) : Regs :=
  (((inputRegs.put .r2 bufPtr).put .r3 balance).put .r4 threshold).put .r0 0

/-- The program loads both numbers. -/
theorem reaches_loaded [Syscalls t S] (balance threshold : UInt64) {m : Memory t.width} (s : S)
    (hm : m = inputMemory t.width _ (buildInputBuffer_fits balance threshold)) :
    Reaches step (predicateAt inputRegs 0 m s : Vm t S)
      (predicateAt (loadedRegs balance threshold) 4 m s) := by
  have hpointer : step (predicateAt inputRegs 0 m s : Vm t S) =
      .ok (predicateAt (inputRegs.put .r2 bufPtr) 1 m s) :=
    step_of_load (i := decode 0x1279) (n := .b8) rfl rfl (by decide) rfl 
      (hm ▸ load_pointer (buildInputBuffer_fits balance threshold))
  have hbalance : step (predicateAt (inputRegs.put .r2 bufPtr) 1 m s : Vm t S) =
      .ok (predicateAt ((inputRegs.put .r2 bufPtr).put .r3 balance) 2 m s) :=
    step_of_load (i := decode 0x102379) (n := .b8) rfl rfl (by decide) rfl
      (hm ▸ load_balance balance threshold)
  have hthreshold :
      step (predicateAt ((inputRegs.put .r2 bufPtr).put .r3 balance) 2 m s : Vm t S) =
        .ok (predicateAt (((inputRegs.put .r2 bufPtr).put .r3 balance).put .r4 threshold) 3 m s) :=
    step_of_load (i := decode 0x182479) (n := .b8) rfl rfl (by decide) rfl
      (hm ▸ load_threshold balance threshold)
  have hmov : step
      (predicateAt (((inputRegs.put .r2 bufPtr).put .r3 balance).put .r4 threshold) 3 m s :
        Vm t S) = .ok (predicateAt (loadedRegs balance threshold) 4 m s) := rfl
  exact ((((Reaches.refl _).head hmov).head hthreshold).head hbalance).head hpointer

/-- It compares them, and returns `0` or `1`. -/
theorem halts_loaded [Syscalls t S] (balance threshold : UInt64) (m : Memory t.width) (s : S) :
    ∃ r0 vm, Halts step (predicateAt (loadedRegs balance threshold) 4 m s : Vm t S) (.ok r0 vm) ∧
      (r0 = 0 ↔ threshold ≤ balance) ∧ vm.returnData = [] := by
  have hjge : step (predicateAt (loadedRegs balance threshold) 4 m s : Vm t S) =
      if decide (balance ≥ threshold) then
        (predicateAt (loadedRegs balance threshold) 4 m s : Vm t S).advance.jumpBy 1
      else .ok (predicateAt (loadedRegs balance threshold) 4 m s : Vm t S).advance :=
    step_of_jumpReg (i := decode 0x000000000001433D) rfl rfl rfl rfl
  have htarget : t.width.usizeOfI64 (5 + 1) = 6 := by
    cases t.width <;> rfl
  by_cases hle : threshold ≤ balance
  · have hjump : step (predicateAt (loadedRegs balance threshold) 4 m s : Vm t S) =
        .ok (predicateAt (loadedRegs balance threshold) 6 m s) := by
      rw [hjge, if_pos (decide_eq_true hle), jumpBy_of_le (show 5 ≤ 7 by decide) (by decide)]
      exact congrArg (fun pc => Except.ok (predicateAt (loadedRegs balance threshold) pc m s))
        htarget
    have hexit : step (predicateAt (loadedRegs balance threshold) 6 m s : Vm t S) =
        .error (.ok 0 (predicateAt (loadedRegs balance threshold) 7 m s)) := rfl
    exact ⟨0, _, (Halts.congr_of_step hjump).mpr (Halts.of_step hexit), by simp [hle], rfl⟩
  · have hnext : step (predicateAt (loadedRegs balance threshold) 4 m s : Vm t S) =
        .ok (predicateAt (loadedRegs balance threshold) 5 m s) := by
      rw [hjge, if_neg (by simpa using hle)]
      rfl
    have hone : step (predicateAt (loadedRegs balance threshold) 5 m s : Vm t S) =
        .ok (predicateAt ((loadedRegs balance threshold).put .r0 1) 6 m s) := rfl
    have hexit : step (predicateAt ((loadedRegs balance threshold).put .r0 1) 6 m s : Vm t S) =
        .error (.ok 1 (predicateAt ((loadedRegs balance threshold).put .r0 1) 7 m s)) := rfl
    exact ⟨1, _, (Halts.congr_of_step hnext).mpr
      ((Halts.congr_of_step hone).mpr (Halts.of_step hexit)), by simp [hle], rfl⟩

/-- The whole run, in either driver. -/
theorem halts_predicateText [Syscalls t S] (balance threshold : UInt64) (s : S) :
    ∃ r0 vm, Halts step (start (predicateText t.width) inputRegs
        (inputMemory t.width _ (buildInputBuffer_fits balance threshold)) s : Vm t S) (.ok r0 vm) ∧
      (r0 = 0 ↔ threshold ≤ balance) ∧ vm.returnData = [] := by
  obtain ⟨r0, vm, hhalt, hvm⟩ := halts_loaded balance threshold
    (inputMemory t.width _ (buildInputBuffer_fits balance threshold)) s
  exact ⟨r0, vm, (Halts.congr_of_reaches (reaches_loaded balance threshold s rfl)).mpr hhalt, hvm⟩

theorem followsConvention_host :
    FollowsConvention (runPredicate c (onHost (predicateText .w32))) := by
  intro balance threshold
  obtain ⟨r0, vm, hhalt, hr0, -⟩ := halts_predicateText (t := ⟨.w64, c⟩) balance threshold
    (⟨⟩ : StubSyscalls)
  refine ⟨r0, vm, ?_, hr0⟩
  rw [runPredicate_eq]
  exact outcome_ok.mpr hhalt

theorem followsConvention_guest {W : Type} (σ : Serde W) :
    FollowsConvention fun balance threshold =>
      guestMain c σ (proverInput σ (onHost (predicateText .w32)) balance threshold) := by
  intro balance threshold
  obtain ⟨r0, vm, hhalt, hr0, -⟩ := halts_predicateText (t := ⟨.w32, c⟩) balance threshold
    (⟨⟩ : GuestSyscalls)
  refine ⟨r0, vm, ?_, hr0⟩
  dsimp only
  rw [guestMain_eq, guestVm_eq]
  exact outcome_ok.mpr hhalt

/-- On a balance below the threshold `prove_predicate` answers `true` all the same. -/
theorem verdicts_predicateText :
    ProvesPredicate true wordSerde (onHost (predicateText .w32)) 0 1 true :=
  ((verdicts wordSerde _ followsConvention_host (followsConvention_guest _) 0 1).2.1 true).mpr rfl

/-- **Neither verdict is the predicate**, on a program that follows the convention. -/
theorem verdicts_ignore_predicate :
    (¬ ∀ text : Vec .w64 8 UInt64, FollowsConvention (runPredicate true text) →
      (FollowsConvention fun balance threshold =>
        guestMain true wordSerde (proverInput wordSerde text balance threshold)) →
      ∀ balance threshold success, ProvesPredicate true wordSerde text balance threshold success →
        (success = true ↔ threshold ≤ balance)) ∧
    (¬ ∀ text : Vec .w64 8 UInt64, FollowsConvention (runPredicate true text) →
      (FollowsConvention fun balance threshold =>
        guestMain true wordSerde (proverInput wordSerde text balance threshold)) →
      ∀ balance threshold verdict, HarnessVerdict true text balance threshold verdict →
        (verdict = true ↔ threshold ≤ balance)) := by
  have hhost : FollowsConvention (runPredicate true (onHost (predicateText .w32))) :=
    followsConvention_host
  have hguest := followsConvention_guest (c := true) wordSerde
  have hlt : ¬ (1 : UInt64) ≤ 0 := by decide
  constructor
  · intro hall
    obtain ⟨r0, vm, hout, -⟩ := hguest 0 1
    have hproves : ProvesPredicate true wordSerde (onHost (predicateText .w32)) 0 1 true :=
      ⟨_, _, r0, hout, rfl, by rw [wordSerde.result.read_write]; rfl⟩
    exact hlt ((hall _ hhost hguest 0 1 true hproves).mp rfl)
  · intro hall
    obtain ⟨r0, vm, hhalt, -, hdata⟩ := halts_predicateText (t := ⟨.w64, true⟩) 0 1
      (⟨⟩ : StubSyscalls)
    have hverdict : HarnessVerdict true (onHost (predicateText .w32)) 0 1 true := by
      refine ⟨.ok r0 vm, ?_, ?_⟩
      · rw [runPredicate_eq]
        exact outcome_ok.mpr hhalt
      · rw [isOk, hdata]
        rfl
    exact hlt ((hall _ hhost hguest 0 1 true hverdict).mp rfl)

end Vm
end Tuniq
