import Mathlib.Data.List.Basic
import Mathlib.Tactic.DeriveFintype

/-!
# Task states and the continuation list

The state cell of `task_base` and the list of continuations each task keeps.
A task is finished once its state is `completed` or `canceled`; the list is
sealed by `flush_and_lock` when the task finishes, after which `try_add`
refuses every continuation and the registrant runs it itself.
-/

namespace AsyncPlusPlus

/-- Task states, as the one-byte atomic of `task_base` holds them. -/
inductive TaskState where
  /-- Task has not completed yet. -/
  | pending
  /-- Task is locked (used by `event_task` to prevent double set). -/
  | locked
  /-- Task is waiting for an unwrapped task to finish. -/
  | unwrapped
  /-- Task has finished execution and a result is available. -/
  | completed
  /-- Task has been canceled and an exception is available. -/
  | canceled
  deriving DecidableEq, Repr, Fintype

/-- Determine whether a task is in a final state. -/
def isFinished (s : TaskState) : Bool :=
  s == .completed || s == .canceled

@[simp] theorem isFinished_pending : isFinished .pending = false := rfl
@[simp] theorem isFinished_locked : isFinished .locked = false := rfl
@[simp] theorem isFinished_unwrapped : isFinished .unwrapped = false := rfl
@[simp] theorem isFinished_completed : isFinished .completed = true := rfl
@[simp] theorem isFinished_canceled : isFinished .canceled = true := rfl

theorem isFinished_iff (s : TaskState) :
    isFinished s = true ↔ s = .completed ∨ s = .canceled := by
  cases s <;> simp

/-- What a finished task holds: its result, or the exception it was canceled with. -/
inductive Outcome (R E : Type) where
  | completed (result : R)
  | canceled (exception : E)
  deriving DecidableEq, Repr

/-- The state a task with this outcome has stored. -/
def Outcome.state {R E : Type} : Outcome R E → TaskState
  | .completed _ => .completed
  | .canceled _ => .canceled

@[simp] theorem Outcome.isFinished_state {R E : Type} (outcome : Outcome R E) :
    isFinished outcome.state = true := by
  cases outcome <;> rfl

/-- Modelled from the specification, as `continuation_vector` is defined outside the
modelled headers.  Its contract (section 4.2): `try_add` appends unless the list has
been sealed, and `flush_and_lock` seals it and hands every stored entry to its
callback once. -/
structure ContinuationVector (T : Type) where
  entries : List T
  locked : Bool
  deriving DecidableEq, Repr

namespace ContinuationVector

variable {T : Type}

/-- An empty list that accepts continuations. -/
def empty : ContinuationVector T := ⟨[], false⟩

/-- Try to add an element; this fails if the vector has been locked. -/
def tryAdd (t : T) (v : ContinuationVector T) : Bool × ContinuationVector T :=
  if v.locked then (false, v) else (true, ⟨v.entries ++ [t], false⟩)

/-- Lock the vector and take out every element, for the callback to receive. -/
def flushAndLock (v : ContinuationVector T) : List T × ContinuationVector T :=
  (v.entries, ⟨[], true⟩)

@[simp] theorem empty_entries : (empty : ContinuationVector T).entries = [] := rfl
@[simp] theorem empty_locked : (empty : ContinuationVector T).locked = false := rfl

@[simp] theorem tryAdd_of_locked {t : T} {v : ContinuationVector T} (sealed : v.locked = true) :
    v.tryAdd t = (false, v) := by
  simp [tryAdd, sealed]

@[simp] theorem tryAdd_of_unlocked {t : T} {v : ContinuationVector T}
    (open_ : v.locked = false) : v.tryAdd t = (true, ⟨v.entries ++ [t], false⟩) := by
  simp [tryAdd, open_]

@[simp] theorem flushAndLock_fst (v : ContinuationVector T) : v.flushAndLock.1 = v.entries := rfl

@[simp] theorem flushAndLock_snd (v : ContinuationVector T) :
    v.flushAndLock.2 = ⟨[], true⟩ := rfl

end ContinuationVector

end AsyncPlusPlus
