import SwiftLens.Fault

/-!
# Actions

An action changes a state and either returns a value or fails. What it changed before it failed stays
changed. Actions are plain functions on the state, so that what a run leaves behind can be computed
and reasoned about.
-/

namespace SwiftLens

/-- A step on a state of type `σ` that returns an `α` or fails, and leaves a state in either case. -/
def Action (σ α : Type) : Type := σ → Except Fault α × σ

namespace Action

variable {σ δ κ α β : Type}

/-- Return a value and leave the state as it is. -/
protected def pure (x : α) : Action σ α := fun s => (.ok x, s)

/-- One action after the other; the second is not run when the first fails. -/
protected def bind (a : Action σ α) (f : α → Action σ β) : Action σ β := fun s =>
  match a s with
  | (.ok x, s) => f x s
  | (.error e, s) => (.error e, s)

instance : Monad (Action σ) where
  pure := Action.pure
  bind := Action.bind

/-- Fail. -/
def fail (e : Fault) : Action σ α := fun s => (.error e, s)

/-- A result that needs no state. -/
def ofExcept (r : Except Fault α) : Action σ α := fun s => (r, s)

/-- Look at the state. -/
def read (f : σ → α) : Action σ α := fun s => (.ok (f s), s)

/-- Change the state. -/
def modify (f : σ → σ) : Action σ Unit := fun s => (.ok (), f s)

/-- An action on the second part of a state. -/
def second (a : Action σ α) : Action (δ × σ) α := fun s =>
  match a s.2 with
  | (r, t) => (r, (s.1, t))

/-- An action on the first part of a state. -/
def first (a : Action δ α) : Action (δ × σ) α := fun s =>
  match a s.1 with
  | (r, t) => (r, (t, s.2))

/-- An action that has a part of the state to itself, which starts as `d` and is dropped at the end. -/
def withLocal (d : δ) (a : Action (κ × (δ × σ)) α) : Action (κ × σ) α := fun s =>
  match a (s.1, (d, s.2)) with
  | (r, (k, (_, t))) => (r, (k, t))

/-- Run an action for each element of a list in turn and collect the results. -/
def each (f : β → Action σ α) : List β → Action σ (List α)
  | [] => pure []
  | x :: rest => do
    let y ← f x
    let ys ← each f rest
    pure (y :: ys)

/-! ## Running -/

/-- Returning a value leaves the state as it is. -/
@[simp] theorem pure_apply (x : α) (s : σ) : (pure x : Action σ α) s = (.ok x, s) := rfl

/-- What the second action does, if the first returns; else the failure of the first. -/
theorem bind_apply (a : Action σ α) (f : α → Action σ β) (s : σ) :
    (a >>= f) s = match a s with
      | (.ok x, s) => f x s
      | (.error e, s) => (.error e, s) := rfl

/-- After an action that returns, the next one goes on with its value and its state. -/
theorem bind_of_ok {a : Action σ α} {s t : σ} {x : α} (h : a s = (.ok x, t)) (f : α → Action σ β) :
    (a >>= f) s = f x t := by
  rw [bind_apply, h]

/-- After an action that fails nothing more is done. -/
theorem bind_of_error {a : Action σ α} {s t : σ} {e : Fault} (h : a s = (.error e, t))
    (f : α → Action σ β) : (a >>= f) s = (.error e, t) := by
  rw [bind_apply, h]

/-- Failing leaves the state as it is. -/
@[simp] theorem fail_apply (e : Fault) (s : σ) : (fail e : Action σ α) s = (.error e, s) := rfl

/-- A change of the state always succeeds. -/
@[simp] theorem modify_apply (f : σ → σ) (s : σ) : modify f s = (.ok (), f s) := rfl

/-- A look at the state changes nothing. -/
@[simp] theorem read_apply (f : σ → α) (s : σ) : read f s = (.ok (f s), s) := rfl

/-- A result that needs no state leaves it as it is. -/
@[simp] theorem ofExcept_apply (r : Except Fault α) (s : σ) : ofExcept r s = (r, s) := rfl

end Action

end SwiftLens
