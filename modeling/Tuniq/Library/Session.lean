import Mathlib

/-!
# Sessions

A client talks to a peer, which has a state.  It computes, it asks, it stops at the first
error; and what the peer has done by then stays done.  `Session` is the monad of such
programs: the state survives an error.

`Keeps R m Q` is what is said of one.  However it ends, the state of the peer has moved
along `R`; and when it ends with a value, the value has `Q`.  The rule for sequences
(`Keeps.bind`) takes `R` to be transitive; a step that only computes stays where it is
(`keeps_lift`) and a value it returns is the one it computed.
-/

namespace Tuniq

variable {κ ε α β : Type}

/-- A program that talks to a peer with states `κ` and may stop with an error. -/
abbrev Session (κ ε : Type) := ExceptT ε (StateM κ)

namespace Session

/-- A computation of the client's own. -/
def lift (x : Except ε α) : Session κ ε α := fun k => (x, k)

/-- A question to the peer. -/
def ask (op : κ → Except ε α × κ) : Session κ ε α := op

/-- A question whose answer is not looked at. -/
def tell (op : κ → Except ε α × κ) : Session κ ε Unit := fun k => (.ok (), (op k).2)

theorem bind_apply (m : Session κ ε α) (f : α → Session κ ε β) (k : κ) :
    (m >>= f) k = match m k with
      | (.ok a, k') => f a k'
      | (.error e, k') => (.error e, k') := by
  show (ExceptT.bindCont f (m k).1) (m k).2 = _
  rcases m k with ⟨_ | _, _⟩ <;> rfl

/-- However the program ends, the peer has moved along `R`, and a value has `Q`. -/
def Keeps (R : κ → κ → Prop) (m : Session κ ε α) (Q : α → Prop) : Prop :=
  ∀ k, R k (m k).2 ∧ ∀ a, (m k).1 = .ok a → Q a

variable {R : κ → κ → Prop} {Q : α → Prop} {Q' : β → Prop}

/-- **The rule for sequences.** -/
theorem Keeps.bind {m : Session κ ε α} {f : α → Session κ ε β}
    (htrans : ∀ x y z, R x y → R y z → R x z) (hm : Keeps R m Q)
    (hf : ∀ a, Q a → Keeps R (f a) Q') : Keeps R (m >>= f) Q' := by
  intro k
  rw [bind_apply]
  obtain ⟨hmove, hvalue⟩ := hm k
  cases hmk : m k with
  | mk result k' =>
    rw [hmk] at hmove hvalue
    cases result with
    | error e => exact ⟨hmove, fun a ha => nomatch ha⟩
    | ok a =>
      obtain ⟨hrest, hlast⟩ := hf a (hvalue a rfl) k'
      exact ⟨htrans _ _ _ hmove hrest, hlast⟩

theorem keeps_lift (hrefl : ∀ k, R k k) (x : Except ε α) :
    Keeps R (lift x) fun a => x = .ok a :=
  fun k => ⟨hrefl k, fun _ ha => ha⟩

/-- A question moves the peer as it does. -/
theorem keeps_ask {op : κ → Except ε α × κ} (h : ∀ k, R k (op k).2)
    (hvalue : ∀ k a, (op k).1 = .ok a → Q a) : Keeps R (ask op) Q :=
  fun k => ⟨h k, fun a ha => hvalue k a ha⟩

theorem keeps_tell {op : κ → Except ε α × κ} (h : ∀ k, R k (op k).2) :
    Keeps R (tell op) fun _ => True :=
  fun k => ⟨h k, fun _ _ => trivial⟩

end Session
end Tuniq
