import Tuniq.Interpreter.Calls

/-!
# Contracts for functions

A program is verified one function at a time.  Each function has a **contract**:
what must hold of the machine that enters it, and what then holds of the machine
that leaves it.  The body is checked against its contract with every call
replaced by the contract of the function it calls, so that no proof ever follows
a call into another body.

`Vm.BodyStep` is the machine that runs a body this way.  It takes the steps of
the interpreter, except that a call is one step to *any* state the contract of
the callee allows.  `Vm.Verified` says that every body, run this way from its
precondition, is `Proper` throughout: it goes on, it calls a function of the table
in a state the function's precondition admits, or it leaves with its
postcondition.

Functions call each other, and themselves, so reading a contract off the table
while proving it looks circular.  It is not, for two different reasons.

* `Vm.contracts_sound`: a run that stops is finite, and the run of a callee is
  shorter than the run of its caller.  So whatever a verified function stops
  with is what its contract says.
* `Vm.contracts_total`: the call stack has a bottom *and* a top.  Each call uses
  up one of its `MAX_CALL_DEPTH` frames, so recursion needs no variant; only the
  loops inside a body do.

The price of the bound is the third way a verified function can end, and the only
one that is an error: `CallStackOverflow`.
-/

namespace Tuniq

namespace Vm

variable {t : Target} {S : Type}

/-- What a function asks of the machine that enters it, and what it promises of the one
that leaves it. -/
structure Contract (t : Target) (S : Type) where
  pre : Vm t S → Prop
  post : Vm t S → Vm t S → Prop

/-- The machine that enters the function at word `k`, on the registers and the memory of
`vm`: it has the program of `vm`, but not its frames. -/
def entry (vm : Vm t S) (k : ℕ) : Vm t S := { vm with pc := k, callStack := [] }

/-- The functions that have a contract, by their first word. -/
abbrev Contracts (t : Target) (S : Type) := ℕ → Option (Contract t S)

/-- `vm` enters the function at word `k` of the program, in a state its contract admits. -/
structure Enters (text : Vec t.width 8 UInt64) (k : ℕ) (C : Contract t S) (vm : Vm t S) :
    Prop where
  text : vm.text = text
  pc : vm.pc = k
  callStack : vm.callStack = []
  pre : C.pre vm

/-- The program counters of a body and of its image in a larger run agree. -/
theorem Placed.pc_eq {outer : List (ℕ × Regs)} {s u : Vm t S} (h : Placed 0 outer s u)
    (hs : s.pc < s.text.len) : u.pc = s.pc :=
  h.pc.resolve_right (Nat.not_le.mpr hs)

/-- On top of no frames the image is the body itself. -/
theorem Placed.eq_of_nil {s u : Vm t S} (h : Placed 0 [] s u) (htext : u.text = s.text)
    (hstack : s.callStack = []) (hs : s.pc < s.text.len) : u = s := by
  have hpc := h.pc_eq hs
  obtain ⟨⟨hregs, -, hframes, hmem, hsys, hdata⟩, -⟩ := h
  cases u
  cases s
  simp only at hregs hframes hmem hsys hdata hpc htext hstack
  rw [hstack] at hframes
  simp only [hregs, hframes, hmem, hsys, hdata, hpc, htext, hstack, shiftFrames_nil,
    List.append_nil]

/-- A machine without frames is its own image. -/
theorem placed_self {text : Vec t.width 8 UInt64} {k : ℕ} {C : Contract t S} {vm : Vm t S}
    (h : Enters text k C vm) : Placed 0 [] vm vm where
  regs := rfl
  text := ⟨[], [], (List.append_nil _).symm, rfl⟩
  callStack := by rw [h.callStack]; rfl
  mem := rfl
  syscalls := rfl
  returnData := rfl
  pc := Or.inl rfl

/-- The state a function returns to, when it leaves in `v` the frame on top of `outer`. -/
def backTo (frame : ℕ × Regs) (outer : List (ℕ × Regs)) (text : Vec t.width 8 UInt64)
    (v : Vm t S) : Vm t S :=
  { v with regs := frame.2.put .r0 (v.regs.get .r0), pc := frame.1
           text := text, callStack := outer }

/-- The callee returns to the image of the body behind its call. -/
theorem Placed.afterReturn {outer : List (ℕ × Regs)} {s u : Vm t S} (h : Placed 0 outer s u)
    (hstack : s.callStack = []) (hs : s.pc < s.text.len) (v : Vm t S) :
    Placed 0 outer (s.afterReturn v) (backTo u.frame u.callStack u.text v) where
  regs := by rw [backTo, Vm.afterReturn, frame, h.regs]
  text := h.text
  callStack := by rw [backTo, Vm.afterReturn, h.callStack, hstack]
  mem := rfl
  syscalls := rfl
  returnData := rfl
  pc := Or.inl (congrArg (· + 1) (h.pc_eq hs))

variable [Syscalls t S]

/-! ## Running a body -/

/-- One step of a body: a step of the interpreter, or a whole call, which ends anywhere
the contract of the callee allows. -/
inductive BodyStep (table : Contracts t S) : Vm t S → Vm t S → Prop where
  | step {vm vm' : Vm t S} (hcall : ¬ vm.AtInternalCall) (h : vm.step = .ok vm') :
      BodyStep table vm vm'
  | call {vm v : Vm t S} {k : ℕ} {C : Contract t S} (hcall : vm.CallsFunction k)
      (hk : table k = some C) (hpre : C.pre (vm.entry k)) (hpost : C.post (vm.entry k) v) :
      BodyStep table vm (vm.afterReturn v)

/-- What a body may be about to do. -/
inductive Proper (table : Contracts t S) (post : Vm t S → Prop) (vm : Vm t S) : Prop where
  | step {vm' : Vm t S} (hcall : ¬ vm.AtInternalCall) (h : vm.step = .ok vm')
  | call {k : ℕ} {C : Contract t S} (hcall : vm.CallsFunction k) (hk : table k = some C)
      (hpre : C.pre (vm.entry k))
  | leave (hexit : vm.AtLastExit) (hpost : post vm.advance)

/-- **Every body keeps its contract**, as long as the functions it calls keep theirs. -/
def Verified (table : Contracts t S) (text : Vec t.width 8 UInt64) : Prop :=
  ∀ k C vm s, table k = some C → Enters text k C vm →
    Relation.ReflTransGen (BodyStep table) vm s → Proper table (C.post vm) s

/-- What a function with postcondition `post` may stop with. -/
def Delivers (post : Vm t S → Prop) (r : Halt t S) : Prop :=
  (∃ r0 v, r = .ok r0 v ∧ post v) ∨ ∃ v, r = .err .callStackOverflow v

/-! ## The states of a body -/

theorem Proper.pc_lt {table : Contracts t S} {post : Vm t S → Prop} {vm : Vm t S}
    (h : Proper table post vm) : vm.pc < vm.text.len := by
  obtain ⟨i, hi⟩ : ∃ i, vm.fetch = some i := by
    cases h with
    | step _ h =>
      obtain ⟨i, hi, -⟩ := step_eq_ok.mp h
      exact ⟨i, hi⟩
    | call hcall =>
      obtain ⟨i, hi, -⟩ := hcall
      exact ⟨i, hi⟩
    | leave hexit =>
      obtain ⟨⟨i, hi, -⟩, -⟩ := hexit
      exact ⟨i, hi⟩
  exact pc_lt_of_fetch hi

/-- A step that is no call leaves a body without frames. -/
theorem callStack_eq_nil_of_step {vm vm' : Vm t S} (hcall : ¬ vm.AtInternalCall)
    (hstack : vm.callStack = []) (h : vm.step = .ok vm') : vm'.callStack = [] := by
  obtain ⟨i, hi, ⟨ha, hsrc, -, -⟩ | ⟨-, retPc, saved, rest, hframes, -⟩ | ⟨hsame, -⟩⟩ :=
    step_cases h
  · exact absurd ⟨i, hi, Insn.action_eq_call_iff.mp ha, hsrc⟩ hcall
  · rw [hstack] at hframes
    exact absurd hframes (by simp)
  · rw [hsame, hstack]

/-- A body stays in its program and has no frames. -/
theorem BodyStep.frame {table : Contracts t S} {vm s : Vm t S}
    (h : Relation.ReflTransGen (BodyStep table) vm s) (hstack : vm.callStack = []) :
    s.text = vm.text ∧ s.callStack = [] := by
  induction h with
  | refl => exact ⟨rfl, hstack⟩
  | tail _ hstep ih =>
    obtain ⟨htext, hnil⟩ := ih
    cases hstep with
    | step hcall h => exact ⟨(text_step h).trans htext, callStack_eq_nil_of_step hcall hnil h⟩
    | call => exact ⟨htext, hnil⟩

/-! ## A body on top of other frames -/

section

variable {table : Contracts t S} {post : Vm t S → Prop} {outer : List (ℕ × Regs)}
variable {s u : Vm t S}

/-- A step that is no call is taken on top of any frames. -/
theorem Placed.step_of_not_call (h : Placed 0 outer s u) (hcall : ¬ s.AtInternalCall)
    {s' : Vm t S} (hstep : s.step = .ok s') : ∃ u', u.step = .ok u' ∧ Placed 0 outer s' u' := by
  have hin : s.StaysInside := by
    intro pc v hstop
    rw [hstep] at hstop
    exact absurd hstop (by simp)
  have hexit : s.AtLastExit → outer = [] := by
    intro hlast
    rw [hlast.step_eq] at hstep
    exact absurd hstep (by simp)
  exact (h.related_step hin (fun hc => absurd hc hcall) hexit).exists_ok hstep

/-- A call enters the callee on top of one more frame, if there is room for it. -/
theorem Placed.enters {k : ℕ} (h : Placed 0 outer s u) (htext : u.text = s.text)
    (hcall : s.CallsFunction k) (hk : k ≤ s.text.len) :
    (maxCallDepth ≤ u.depth → u.step = .error (.err .callStackOverflow u.advance)) ∧
    (u.depth < maxCallDepth → ∃ u', u.step = .ok u' ∧ u'.text = u.text ∧
      Placed 0 (u.frame :: u.callStack) (s.entry k) u') := by
  obtain ⟨i, hi, hop, hsrc, htarget⟩ := hcall
  have hpc := h.pc_eq (pc_lt_of_fetch hi)
  have hi' : u.fetch = some i := by rw [← hi, fetch, fetch, hpc, htext]
  have hcall' : u.CallsFunction k := ⟨i, hi', hop, hsrc, by rw [hpc]; exact htarget⟩
  refine ⟨step_of_full hcall'.atInternalCall, fun hdepth => ?_⟩
  refine ⟨_, hcall'.step_eq (by rw [htext]; exact hk) hdepth, rfl, ?_⟩
  exact { regs := h.regs, text := h.text, callStack := rfl, mem := h.mem
          syscalls := h.syscalls, returnData := h.returnData, pc := Or.inl rfl }

/-- A body that leaves on top of a frame returns to it. -/
theorem Placed.step_of_leave {frame : ℕ × Regs} (h : Placed 0 (frame :: outer) s u)
    (hexit : s.AtLastExit) : u.step = .ok (backTo frame outer u.text s.advance) :=
  h.step_of_atLastExit hexit

end

/-! ## Soundness -/

section

variable {table : Contracts t S} {text : Vec t.width 8 UInt64}

/-- A verified function is entered inside the program. -/
theorem Verified.le_len (h : Verified table text) {k : ℕ} {C : Contract t S} {s : Vm t S}
    (hk : table k = some C) (htext : s.text = text) (hpre : C.pre (s.entry k)) :
    Enters text k C (s.entry k) ∧ k ≤ s.text.len := by
  have hentry : Enters text k C (s.entry k) := ⟨htext, rfl, rfl, hpre⟩
  exact ⟨hentry, (h k C _ _ hk hentry .refl).pc_lt.le⟩

/-- How a run that stops goes on from a body on top of the frames `outer`: the body
leaves, or there is no room for one of its calls. -/
def Leaves (post : Vm t S → Prop) (outer : List (ℕ × Regs)) (n : ℕ) (u : Vm t S)
    (r : Halt t S) : Prop :=
  match outer with
  | [] => Delivers post r
  | frame :: rest =>
    (∃ i v, 0 < i ∧ i ≤ n ∧ post v ∧ iter step i u = .ok (backTo frame rest u.text v)) ∨
      ∃ v, r = .err .callStackOverflow v

theorem Leaves.of_overflow {post : Vm t S → Prop} {outer : List (ℕ × Regs)} {n : ℕ}
    {u v : Vm t S} {r : Halt t S} (h : r = .err .callStackOverflow v) :
    Leaves post outer n u r := by
  cases outer with
  | nil => exact Or.inr ⟨v, h⟩
  | cons frame rest => exact Or.inr ⟨v, h⟩

/-- Steps taken before the body leaves. -/
theorem Leaves.of_iter {post : Vm t S → Prop} {outer : List (ℕ × Regs)} {n j : ℕ}
    {u u' : Vm t S} {r : Halt t S} (hj : iter step j u = .ok u') (htext : u'.text = u.text)
    (h : Leaves post outer n u' r) : Leaves post outer (n + j) u r := by
  cases outer with
  | nil => exact h
  | cons frame rest =>
    rcases h with ⟨i, v, hpos, hle, hpost, hi⟩ | hover
    · rw [htext] at hi
      have hrun : iter step (j + i) u = .ok (backTo frame rest u.text v) :=
        iter_add_eq_ok.mpr ⟨u', hj, hi⟩
      exact Or.inl ⟨j + i, v, by omega, by omega, hpost, hrun⟩
    · exact Or.inr hover

/-- **The induction on the length of the run.**  The callee's part of a run is shorter
than the run, and so is the part behind the call. -/
theorem leaves_of_stopsIn (hver : Verified table text) {n : ℕ} :
    ∀ {k : ℕ} {C : Contract t S} {vm s u : Vm t S} {outer : List (ℕ × Regs)} {r : Halt t S},
      table k = some C → Enters text k C vm → Relation.ReflTransGen (BodyStep table) vm s →
      Placed 0 outer s u → u.text = text → StopsIn step n u r →
      Leaves (C.post vm) outer n u r := by
  induction n using Nat.strong_induction_on with
  | _ n ih =>
    intro k C vm s u outer r hk henter hbody hplaced htext hstops
    obtain ⟨hstext, hnil⟩ := BodyStep.frame hbody henter.callStack
    rw [henter.text] at hstext
    have hproper := hver k C vm s hk henter hbody
    have hpc := hproper.pc_lt
    cases hproper with
    | step hcall hstep =>
      obtain ⟨u', hu', hplaced'⟩ := hplaced.step_of_not_call hcall hstep
      obtain ⟨m, rfl, hstops'⟩ := hstops.of_step hu'
      have hleaves := ih m (Nat.lt_succ_self m) hk henter (hbody.tail (.step hcall hstep))
        hplaced' ((text_step hu').trans htext) hstops'
      have hone : iter step 1 u = .ok u' := iter_succ_eq_ok.mpr ⟨u, rfl, hu'⟩
      exact hleaves.of_iter hone (text_step hu')
    | call hcall hk' hpre =>
      obtain ⟨henter', hle⟩ := hver.le_len hk' hstext hpre
      obtain ⟨hfull, hcalls⟩ := hplaced.enters (htext.trans hstext.symm) hcall hle
      by_cases hdepth : u.depth < maxCallDepth
      · obtain ⟨u', hu', htext', hplaced'⟩ := hcalls hdepth
        obtain ⟨m, rfl, hstops'⟩ := hstops.of_step hu'
        have hcallee := ih m (Nat.lt_succ_self m) hk' henter' .refl hplaced'
          (htext'.trans htext) hstops'
        rcases hcallee with ⟨i, v, hpos, hi, hpost, hrun⟩ | ⟨v, hover⟩
        · -- the callee returns, and the body goes on behind the call
          obtain ⟨m', rfl, hrest⟩ := hstops'.of_iter hrun
          rw [htext'] at hrun hrest
          have hreturn := hplaced.afterReturn hnil hpc v
          have hleaves := ih m' (by omega) hk henter
            (hbody.tail (.call hcall hk' hpre hpost)) hreturn htext hrest
          have hrun' : iter step (i + 1) u = .ok (backTo u.frame u.callStack u.text v) := by
            rw [iter_succ_head, hu']
            exact hrun
          show Leaves _ _ (m' + (i + 1)) _ _
          exact hleaves.of_iter hrun' rfl
        · exact .of_overflow hover
      · have hstop := hfull (Nat.not_lt.mp hdepth)
        exact .of_overflow (hstops.eq_of_step hstop).symm
    | leave hexit hpost =>
      cases outer with
      | nil =>
        obtain rfl : u = s := hplaced.eq_of_nil (htext.trans hstext.symm) hnil hpc
        have hr := hstops.eq_of_step hexit.step_eq
        exact Or.inl ⟨_, _, hr.symm, hpost⟩
      | cons frame rest =>
        have hback := hplaced.step_of_leave hexit
        obtain ⟨m, rfl, -⟩ := hstops.of_step hback
        exact Or.inl ⟨1, s.advance, Nat.one_pos, Nat.succ_le_succ (Nat.zero_le m), hpost,
          iter_succ_eq_ok.mpr ⟨u, rfl, hback⟩⟩

/-- **Verified functions keep their contracts.**  Whatever a run of a verified function
stops with, it is `Ok` with the postcondition, or the call stack is full. -/
theorem contracts_sound (hver : Verified table text) {k : ℕ} {C : Contract t S} {vm : Vm t S}
    {r : Halt t S} (hk : table k = some C) (henter : Enters text k C vm)
    (hr : Halts step vm r) : Delivers (C.post vm) r := by
  obtain ⟨n, hn⟩ := halts_iff_stopsIn.mp hr
  exact leaves_of_stopsIn hver hk henter .refl (placed_self henter) henter.text hn

/-! ## Termination -/

/-- The body has no endless run, whatever the functions it calls return. -/
def Terminates (table : Contracts t S) (vm : Vm t S) : Prop :=
  Acc (fun s' s => BodyStep table s s') vm

/-- A body on top of the frames `outer` comes to its end: it leaves, or there is no room
for one of its calls. -/
def Finishes (post : Vm t S → Prop) (outer : List (ℕ × Regs)) (u : Vm t S) : Prop :=
  match outer with
  | [] => ∃ r, Halts step u r ∧ Delivers post r
  | frame :: rest =>
    (∃ v, post v ∧ Reaches step u (backTo frame rest u.text v)) ∨
      ∃ v, Halts step u (.err .callStackOverflow v)

theorem Finishes.of_overflow {post : Vm t S → Prop} {outer : List (ℕ × Regs)} {u v : Vm t S}
    (h : Halts step u (.err .callStackOverflow v)) : Finishes post outer u := by
  cases outer with
  | nil => exact ⟨_, h, Or.inr ⟨v, rfl⟩⟩
  | cons frame rest => exact Or.inr ⟨v, h⟩

theorem Finishes.of_reaches {post : Vm t S → Prop} {outer : List (ℕ × Regs)} {u u' : Vm t S}
    (hu : Reaches step u u') (htext : u'.text = u.text) (h : Finishes post outer u') :
    Finishes post outer u := by
  cases outer with
  | nil =>
    obtain ⟨r, hr, hpost⟩ := h
    exact ⟨r, (Halts.congr_of_reaches hu).mpr hr, hpost⟩
  | cons frame rest =>
    rcases h with ⟨v, hpost, hv⟩ | ⟨v, hover⟩
    · rw [htext] at hv
      exact Or.inl ⟨v, hpost, hu.trans hv⟩
    · exact Or.inr ⟨v, (Halts.congr_of_reaches hu).mpr hover⟩

/-- **The induction on the body**, when the functions it calls, on top of one more frame,
come to their ends. -/
theorem finishes_of_callees (hver : Verified table text) {outer : List (ℕ × Regs)}
    (hcallees : ∀ frame k C vm u, outer.length < maxCallDepth → table k = some C →
      Enters text k C vm → Placed 0 (frame :: outer) vm u → u.text = text →
      Finishes (C.post vm) (frame :: outer) u)
    {k : ℕ} {C : Contract t S} {vm s u : Vm t S} (hk : table k = some C)
    (henter : Enters text k C vm) (hterm : Terminates table s)
    (hbody : Relation.ReflTransGen (BodyStep table) vm s) (hplaced : Placed 0 outer s u)
    (htext : u.text = text) : Finishes (C.post vm) outer u := by
  induction hterm generalizing u with
  | intro s _ ih =>
    obtain ⟨hstext, hnil⟩ := BodyStep.frame hbody henter.callStack
    rw [henter.text] at hstext
    have hproper := hver k C vm s hk henter hbody
    have hpc := hproper.pc_lt
    cases hproper with
    | step hcall hstep =>
      obtain ⟨u', hu', hplaced'⟩ := hplaced.step_of_not_call hcall hstep
      have hnext : BodyStep table s _ := .step hcall hstep
      have hfinish := ih _ hnext (hbody.tail hnext) hplaced' ((text_step hu').trans htext)
      exact hfinish.of_reaches ((Reaches.refl u').head hu') (text_step hu')
    | call hcall hk' hpre =>
      obtain ⟨henter', hle⟩ := hver.le_len hk' hstext hpre
      obtain ⟨hfull, hcalls⟩ := hplaced.enters (htext.trans hstext.symm) hcall hle
      have hframes : u.callStack = outer := by
        rw [hplaced.callStack, hnil]
        rfl
      by_cases hdepth : u.depth < maxCallDepth
      · obtain ⟨u', hu', htext', hplaced'⟩ := hcalls hdepth
        rw [depth, hframes] at hdepth
        rw [hframes] at hplaced'
        rcases hcallees u.frame _ _ _ u' hdepth hk' henter' hplaced' (htext'.trans htext) with
          ⟨v, hpost, hv⟩ | ⟨v, hover⟩
        · -- the callee returns, and the body goes on behind the call
          have hreturn := hplaced.afterReturn hnil hpc v
          have hnext : BodyStep table s (s.afterReturn v) := .call hcall hk' hpre hpost
          have hfinish := ih _ hnext (hbody.tail hnext) hreturn htext
          rw [htext', ← hframes] at hv
          exact hfinish.of_reaches (hv.head hu') rfl
        · exact .of_overflow ((Halts.congr_of_step hu').mpr hover)
      · exact .of_overflow (Halts.of_step (hfull (Nat.not_lt.mp hdepth)))
    | leave hexit hpost =>
      cases outer with
      | nil =>
        obtain rfl : u = s := hplaced.eq_of_nil (htext.trans hstext.symm) hnil hpc
        exact ⟨_, Halts.of_step hexit.step_eq, Or.inl ⟨_, _, rfl, hpost⟩⟩
      | cons frame rest =>
        have hback := hplaced.step_of_leave hexit
        exact Or.inl ⟨s.advance, hpost, (Reaches.refl _).head hback⟩

/-- **Verified functions without endless bodies come to their ends.**  Recursion needs no
variant: each call takes one of the frames there are. -/
theorem contracts_total (hver : Verified table text)
    (hterm : ∀ k C vm, table k = some C → Enters text k C vm → Terminates table vm)
    {k : ℕ} {C : Contract t S} {vm : Vm t S} (hk : table k = some C)
    (henter : Enters text k C vm) :
    ∃ r, Halts step vm r ∧ Delivers (C.post vm) r := by
  -- the induction is on the number of frames that are left
  have hall : ∀ (d : ℕ) (outer : List (ℕ × Regs)) (k : ℕ) (C : Contract t S) (vm u : Vm t S),
      maxCallDepth ≤ outer.length + d → table k = some C → Enters text k C vm →
      Placed 0 outer vm u → u.text = text → Finishes (C.post vm) outer u := by
    intro d
    induction d with
    | zero =>
      intro outer k C vm u hd hk henter hplaced htext
      refine finishes_of_callees hver ?_ hk henter (hterm k C vm hk henter) .refl hplaced htext
      intro _ _ _ _ _ hlt
      exact absurd hd (Nat.not_le.mpr hlt)
    | succ d ih =>
      intro outer k C vm u hd hk henter hplaced htext
      refine finishes_of_callees hver ?_ hk henter (hterm k C vm hk henter) .refl hplaced htext
      intro frame k' C' vm' u' _ hk' henter' hplaced' htext'
      refine ih (frame :: outer) k' C' vm' u' ?_ hk' henter' hplaced' htext'
      rw [List.length_cons]
      omega
  exact hall maxCallDepth [] k C vm vm (Nat.le_add_left _ _) hk henter (placed_self henter)
    henter.text

end

/-! ## A recursive function -/

/-- `mov64 r0, 0; jeq r1, 0, +3; sub64 r1, 1; call -4; add64 r0, 2; exit` -/
def doubleText : Vec .w64 8 UInt64 :=
  ⟨[0xB7, 0x30115, 0x100000117, 0xFFFFFFFC00000085, 0x200000007, 0x95], by decide⟩

/-- The function that calls itself `r1` times and returns twice that. -/
def doubles : Contract ⟨.w64, true⟩ GuestSyscalls where
  pre _ := True
  post vm v := v.regs.get .r0 = 2 * vm.regs.get .r1

def doubleTable : Contracts ⟨.w64, true⟩ GuestSyscalls
  | 0 => some doubles
  | _ => none

/-- What `r0` and `r1` hold at each word of the body, when it was entered with `x` in
`r1`. -/
def DoubleAt (x : UInt64) (regs : Regs) : ℕ → Prop
  | 0 => regs.get .r1 = x
  | 1 => regs.get .r0 = 0 ∧ regs.get .r1 = x
  | 2 => regs.get .r1 = x
  | 3 => regs.get .r1 = x - 1
  | 4 => regs.get .r0 = 2 * (x - 1)
  | 5 => regs.get .r0 = 2 * x
  | _ => False

theorem eq_of_doubleTable {k : ℕ} {C : Contract ⟨.w64, true⟩ GuestSyscalls}
    (h : doubleTable k = some C) : k = 0 ∧ C = doubles := by
  cases k with
  | zero => exact ⟨rfl, (Option.some.inj h).symm⟩
  | succ k => exact absurd h (by simp [doubleTable])

/-- A step forward in the body, to a state its table describes. -/
structure DoubleNext (x : UInt64) (s s' : Vm ⟨.w64, true⟩ GuestSyscalls) : Prop where
  at_pc : DoubleAt x s'.regs s'.pc
  lt : s.pc < s'.pc
  le : s'.pc ≤ 5

section

variable {x : UInt64} {s : Vm ⟨.w64, true⟩ GuestSyscalls}

/-- A word that is no call takes one step of the interpreter. -/
theorem doubleNext_of_step {s' : Vm ⟨.w64, true⟩ GuestSyscalls} {i : Insn}
    (hi : s.fetch = some i) (hop : i.opcode ≠ 0x85) (hstep : s.step = .ok s')
    (h : DoubleNext x s s') :
    Proper doubleTable (fun v => v.regs.get .r0 = 2 * x) s ∧
      ∀ s', BodyStep doubleTable s s' → DoubleNext x s s' := by
  have hcall : ¬ s.AtInternalCall := by
    rintro ⟨j, hj, hopj, -⟩
    obtain rfl := Option.some.inj (hi.symm.trans hj)
    exact hop hopj
  refine ⟨.step hcall hstep, fun s'' hs'' => ?_⟩
  cases hs'' with
  | step _ hstep' =>
    obtain rfl := Except.ok.inj (hstep.symm.trans hstep')
    exact h
  | call hc => exact absurd hc.atInternalCall hcall

/-- **One step of the body**, the call of the function itself counted as one. -/
theorem doubleNext (htext : s.text = doubleText) (hnil : s.callStack = [])
    (h : DoubleAt x s.regs s.pc) :
    Proper doubleTable (fun v => v.regs.get .r0 = 2 * x) s ∧
      ∀ s', BodyStep doubleTable s s' → DoubleNext x s s' := by
  obtain ⟨regs, pc, text, callStack, mem, syscalls, data⟩ := s
  simp only at htext hnil h
  subst htext hnil
  match pc, h with
  | 0, h =>
    refine doubleNext_of_step rfl (by decide) rfl ⟨⟨?_, ?_⟩, Nat.zero_lt_one, Nat.one_le_ofNat⟩
    · exact Regs.get_put_self regs .r0 0
    · exact (Regs.get_put_of_ne regs (r := .r0) 0 (by decide)).trans h
  | 1, ⟨h0, h⟩ =>
    have hstep : step (⟨regs, 1, doubleText, [], mem, syscalls, data⟩ : Vm _ GuestSyscalls) =
        if x == 0 then .ok ⟨regs, 5, doubleText, [], mem, syscalls, data⟩
        else .ok ⟨regs, 2, doubleText, [], mem, syscalls, data⟩ := by
      have himm : immU64 (decode 0x30115).imm = 0 := by decide
      have hjump : jumpBy (⟨regs, 2, doubleText, [], mem, syscalls, data⟩ : Vm _ _) 3 =
          .ok ⟨regs, 5, doubleText, [], mem, syscalls, data⟩ := by
        have htarget : PtrWidth.w64.usizeOfI64 ((2 : ℕ) + 3) = 5 := by decide
        rw [jumpBy_of_le]
        · rw [← htarget]
        · exact Nat.le_of_ble_eq_true rfl
        · decide
      rw [step_of_fetch (i := decode 0x30115) rfl, ← hjump, ← h, ← himm]
      rfl
    by_cases hx : x = 0
    · rw [if_pos (beq_iff_eq.mpr hx)] at hstep
      refine doubleNext_of_step rfl (by decide) hstep ⟨?_, Nat.one_lt_ofNat, le_rfl⟩
      rw [hx]
      exact h0
    · rw [if_neg (beq_iff_eq.not.mpr hx)] at hstep
      exact doubleNext_of_step rfl (by decide) hstep ⟨h, Nat.one_lt_two, Nat.le_of_ble_eq_true rfl⟩
  | 2, h =>
    refine doubleNext_of_step rfl (by decide) rfl
      ⟨(Regs.get_put_self regs .r1 _).trans ?_, Nat.lt_succ_self 2, Nat.le_of_ble_eq_true rfl⟩
    exact congrArg (· - 1) h
  | 3, h =>
    have hcalls : CallsFunction
        (⟨regs, 3, doubleText, [], mem, syscalls, data⟩ : Vm ⟨.w64, true⟩ GuestSyscalls) 0 :=
      ⟨_, rfl, by decide, by decide,
        (by decide : (3 + 1 : ℤ) + (decode 0xFFFFFFFC00000085).imm.toInt = 0)⟩
    refine ⟨.call hcalls rfl trivial, fun s' hs' => ?_⟩
    cases hs' with
    | step hcall => exact absurd hcalls.atInternalCall hcall
    | @call v k C _ hk _ hpost =>
      obtain ⟨rfl, rfl⟩ := eq_of_doubleTable hk
      have hpost' : v.regs.get .r0 = 2 * regs.get .r1 := hpost
      refine ⟨(Regs.get_put_self regs .r0 _).trans ?_, Nat.lt_succ_self 3,
        Nat.le_of_ble_eq_true rfl⟩
      rw [hpost', h]
  | 4, h =>
    refine doubleNext_of_step rfl (by decide) rfl
      ⟨(Regs.get_put_self regs .r0 _).trans ?_, Nat.lt_succ_self 4, le_rfl⟩
    have hr0 : regs.get .r0 = 2 * (x - 1) := h
    show regs.get .r0 + 2 = 2 * x
    rw [hr0]
    grind
  | 5, h =>
    have hexit : AtLastExit
        (⟨regs, 5, doubleText, [], mem, syscalls, data⟩ : Vm ⟨.w64, true⟩ GuestSyscalls) :=
      ⟨⟨_, rfl, by decide⟩, rfl⟩
    refine ⟨.leave hexit h, fun s' hs' => ?_⟩
    cases hs' with
    | step _ hstep =>
      rw [hexit.step_eq] at hstep
      exact absurd hstep (by simp)
    | call hcall =>
      obtain ⟨i, hi, hop, -⟩ := hcall
      obtain rfl := Option.some.inj (hi.symm.trans rfl)
      exact absurd hop (by decide)

/-- The body keeps its table, and its program counter goes up. -/
theorem doubleAt_of_body {vm : Vm ⟨.w64, true⟩ GuestSyscalls} (h : Enters doubleText 0 doubles vm)
    (hbody : Relation.ReflTransGen (BodyStep doubleTable) vm s) :
    DoubleAt (vm.regs.get .r1) s.regs s.pc := by
  induction hbody with
  | refl =>
    rw [h.pc]
    exact rfl
  | tail hbody hstep ih =>
    obtain ⟨htext, hnil⟩ := BodyStep.frame hbody h.callStack
    exact ((doubleNext (htext.trans h.text) hnil ih).2 _ hstep).at_pc

theorem verified_double : Verified doubleTable doubleText := by
  intro k C vm s hk henter hbody
  obtain ⟨rfl, rfl⟩ := eq_of_doubleTable hk
  obtain ⟨htext, hnil⟩ := BodyStep.frame hbody henter.callStack
  exact (doubleNext (htext.trans henter.text) hnil (doubleAt_of_body henter hbody)).1

theorem terminates_double {n : ℕ} (htext : s.text = doubleText) (hnil : s.callStack = [])
    (h : DoubleAt x s.regs s.pc) (hn : 5 < s.pc + n) : Terminates doubleTable s := by
  induction n generalizing s with
  | zero =>
    refine ⟨_, fun s' hs' => ?_⟩
    obtain ⟨-, hlt, hle⟩ := (doubleNext htext hnil h).2 s' hs'
    omega
  | succ n ih =>
    refine ⟨_, fun s' hs' => ?_⟩
    obtain ⟨hat, hlt, -⟩ := (doubleNext htext hnil h).2 s' hs'
    obtain ⟨htext', hnil'⟩ := BodyStep.frame (.single hs') hnil
    exact ih (htext'.trans htext) hnil' hat (by omega)

end

/-- The machine that runs `doubleText` with `x` in `r1`. -/
def doubling (x : UInt64) : Vm ⟨.w64, true⟩ GuestSyscalls :=
  start doubleText (Vector.replicate 11 x) Memory.empty {}

theorem enters_doubling (x : UInt64) : Enters doubleText 0 doubles (doubling x) :=
  ⟨rfl, rfl, rfl, trivial⟩

/-- What `doubleText` returns for `1`. -/
theorem contracts_sound_double :
    ∃ r, Halts step (doubling 1) r ∧ Delivers (doubles.post (doubling 1)) r := by
  obtain ⟨r, hr, -⟩ := halts_of_outcome
    (by decide +kernel : outcome step Halt.result 8 (doubling 1) = some (.ok 2))
  exact ⟨r, hr, contracts_sound verified_double rfl (enters_doubling 1) hr⟩

/-- It returns for `1000` as well, or runs out of frames. -/
theorem contracts_total_double :
    ∃ r, Halts step (doubling 1000) r ∧ Delivers (doubles.post (doubling 1000)) r := by
  refine contracts_total verified_double ?_ rfl (enters_doubling 1000)
  intro k C vm hk henter
  obtain ⟨rfl, rfl⟩ := eq_of_doubleTable hk
  exact terminates_double (n := 6) henter.text henter.callStack (doubleAt_of_body henter .refl)
    (by omega)

end Vm
end Tuniq
