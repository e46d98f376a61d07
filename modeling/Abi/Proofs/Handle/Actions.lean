/-
  What can be done with a handle.

  A handle is used up by one action: the child is replaced, changed by a function, or changed
  through a view of it. Each of them first makes a value out of the child and then writes it, so
  that an action is known by the value that it makes (`Action.result`), and all that can be said
  about writing applies to every action.

  * `modify_map_snd`: a change through a view is a change by a function.
  * `Action.perform_eq`: an action writes its result.
-/
import Abi.Handle
import Abi.Proofs.Outcome

namespace Abi.Handle

variable {C K : Type} [Container C K]

/-! ## Views -/

/-- A change of a view as a change of the value behind it. -/
def through {T α : Type} [View T] (f : T → Except Error (α × T)) (v : Value) :
    Except Error Value := do
  let t ← View.ofValue v
  let (_, t) ← f t
  return View.toValue t

theorem modify_map_snd {T α : Type} [View T] (h : Handle C K) (f : T → Except Error (α × T)) :
    (h.modify f).map (·.2) = h.update (through f) := by
  unfold modify update through
  rcases View.ofValue (T := T) h.value with e | t
  · rfl
  · simp only [Outcome.ok_bind]
    rcases f t with e | ⟨r, t'⟩
    · rfl
    · show (h.set (View.toValue t') >>= fun b => pure (r, b)).map (·.2) = h.set (View.toValue t')
      cases h.set (View.toValue t') with
      | error e => rfl
      | ok b => rfl

/-! ## Actions -/

/-- What is done with a handle. -/
inductive Action : Type 1 where
  | set (v : Value)
  | update (f : Value → Except Error Value)
  | modify {T α : Type} [View T] (f : T → Except Error (α × T))

namespace Action

/-- The owner after the action; what a change of a view answers is left out. -/
def perform (h : Handle C K) : Action → Except Error C
  | set v => h.set v
  | update f => h.update f
  | modify f => (h.modify f).map (·.2)

/-- The value that the action makes of a child. -/
def result (u : Value) : Action → Except Error Value
  | set v => .ok v
  | update f => f u
  | modify f => through f u

/-- An action writes its result in the place of the child. -/
theorem perform_eq (h : Handle C K) (x : Action) : x.perform h = x.result h.value >>= h.set := by
  cases x with
  | set v => rfl
  | update f => rfl
  | modify f => exact h.modify_map_snd f

end Action

end Abi.Handle
