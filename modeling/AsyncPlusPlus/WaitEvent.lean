import Mathlib.Data.List.Basic

/-!
# `task_wait_event`

An event mask guarded by a mutex: `signal` sets bits, `wait` blocks until some
bit is set and then takes them all, `try_wait` takes the bits of one mask.  Each
call holds the mutex while it reads or writes the mask, so any interleaving of the
calling threads is a sequence of whole calls.  A blocked `wait` releases the mutex
inside `cond().wait(lock)` without touching the mask, so it counts as a call only
when it returns.  The mask is the C++ `int`, a 32-bit two's complement word.
-/

namespace AsyncPlusPlus

/-- The part of `task_wait_event` its operations read and write; the mutex and the
condition variable exist once `initialized` is set. -/
structure TaskWaitEvent where
  eventMask : BitVec 32
  initialized : Bool
  deriving DecidableEq, Repr

namespace TaskWaitEvent

/-- `task_wait_event()`: `event_mask(0), initialized(false)`. -/
def construct : TaskWaitEvent := ⟨0, false⟩

/-- `init()`: constructs the mutex and the condition variable once. -/
def init (ev : TaskWaitEvent) : TaskWaitEvent :=
  if !ev.initialized then { ev with initialized := true } else ev

/-- `wait()`: blocked (`none`) while the mask is zero; otherwise return the mask and
clear it. -/
def wait (ev : TaskWaitEvent) : Option (BitVec 32 × TaskWaitEvent) :=
  if ev.eventMask = 0 then none else some (ev.eventMask, { ev with eventMask := 0 })

/-- `try_wait(event)`: whether any bit of `event` was set, clearing those bits. -/
def tryWait (event : BitVec 32) (ev : TaskWaitEvent) : Bool × TaskWaitEvent :=
  ((ev.eventMask &&& event) != 0, { ev with eventMask := ev.eventMask &&& ~~~event })

/-- `signal(event)`. -/
def signal (event : BitVec 32) (ev : TaskWaitEvent) : TaskWaitEvent :=
  { ev with eventMask := ev.eventMask ||| event }

@[simp] theorem init_eventMask (ev : TaskWaitEvent) : ev.init.eventMask = ev.eventMask := by
  unfold init; split <;> rfl

@[simp] theorem init_initialized (ev : TaskWaitEvent) : ev.init.initialized = true := by
  unfold init; split <;> simp_all

theorem wait_eq_some {ev ev' : TaskWaitEvent} {result : BitVec 32} :
    ev.wait = some (result, ev') ↔
      ev.eventMask ≠ 0 ∧ result = ev.eventMask ∧ ev' = { ev with eventMask := 0 } := by
  unfold wait
  split <;> simp_all [eq_comm]

@[simp] theorem tryWait_fst (event : BitVec 32) (ev : TaskWaitEvent) :
    (ev.tryWait event).1 = ((ev.eventMask &&& event) != 0) := rfl

@[simp] theorem tryWait_snd (event : BitVec 32) (ev : TaskWaitEvent) :
    (ev.tryWait event).2 = { ev with eventMask := ev.eventMask &&& ~~~event } := rfl

@[simp] theorem signal_eventMask (event : BitVec 32) (ev : TaskWaitEvent) :
    (ev.signal event).eventMask = ev.eventMask ||| event := rfl

/-- `try_wait(event)` returns true exactly when some bit of `event` is set in the mask. -/
theorem tryWait_fst_eq_true (event : BitVec 32) (ev : TaskWaitEvent) :
    (ev.tryWait event).1 = true ↔
      ∃ b, ev.eventMask.getLsbD b = true ∧ event.getLsbD b = true := by
  rw [tryWait_fst, bne_iff_ne, ne_eq]
  constructor
  · intro nonzero
    by_contra none
    simp only [not_exists, not_and] at none
    exact nonzero (BitVec.eq_of_getLsbD_eq fun i => by simpa using none i)
  · rintro ⟨b, inMask, inEvent⟩ zero
    simpa [inMask, inEvent] using congrArg (BitVec.getLsbD · b) zero

/-- A call that has returned, with what it returned. -/
inductive Call where
  | wait (result : BitVec 32)
  | tryWait (event : BitVec 32) (result : Bool)
  | signal (event : BitVec 32)
  deriving DecidableEq, Repr

/-- Whether the call clears bit `b` of the mask. -/
def Call.clears (b : Nat) : Call → Bool
  | .wait _ => true
  | .tryWait event _ => event.getLsbD b
  | .signal _ => false

/-- Whether the call sets bit `b` of the mask. -/
def Call.signals (b : Nat) : Call → Bool
  | .signal event => event.getLsbD b
  | _ => false

/-- One whole call under the mutex, which exists once the event is initialized. -/
inductive Step : TaskWaitEvent → Call → TaskWaitEvent → Prop where
  | wait {ev ev' : TaskWaitEvent} {result : BitVec 32} :
      ev.initialized = true → ev.wait = some (result, ev') → Step ev (.wait result) ev'
  | tryWait {ev : TaskWaitEvent} (event : BitVec 32) : ev.initialized = true →
      Step ev (.tryWait event (ev.tryWait event).1) (ev.tryWait event).2
  | signal {ev : TaskWaitEvent} (event : BitVec 32) : ev.initialized = true →
      Step ev (.signal event) (ev.signal event)

/-- A sequence of whole calls, first call first. -/
inductive Run : TaskWaitEvent → List Call → TaskWaitEvent → Prop where
  | nil {ev : TaskWaitEvent} : Run ev [] ev
  | cons {ev ev' ev'' : TaskWaitEvent} {c : Call} {calls : List Call} :
      Step ev c ev' → Run ev' calls ev'' → Run ev (c :: calls) ev''

/-- Bit `b` was signaled by a call after which no call cleared it. -/
def Backed (b : Nat) (calls : List Call) : Prop :=
  ∃ pre event post, calls = pre ++ .signal event :: post ∧ event.getLsbD b = true ∧
    ∀ c ∈ post, c.clears b = false

/-- Every call sets bit `b`, clears it, or leaves it as it was. -/
theorem Step.getLsbD {ev ev' : TaskWaitEvent} {c : Call} (step : Step ev c ev') (b : Nat) :
    ev'.eventMask.getLsbD b = (c.signals b || ev.eventMask.getLsbD b && !c.clears b) := by
  cases step with
  | wait _ waited =>
      obtain ⟨-, -, rfl⟩ := wait_eq_some.mp waited
      simp [Call.signals, Call.clears]
  | tryWait event =>
      by_cases low : b < 32
      · simp [Call.signals, Call.clears, low]
      · simp [Call.signals, Call.clears, BitVec.getLsbD_ge _ _ (Nat.le_of_not_lt low)]
  | signal event => simp [Call.signals, Call.clears, Bool.or_comm]

theorem Step.initialized {ev ev' : TaskWaitEvent} {c : Call} (step : Step ev c ev') :
    ev'.initialized = true := by
  cases step with
  | wait ready waited => rw [(wait_eq_some.mp waited).2.2]; exact ready
  | tryWait _ ready => exact ready
  | signal _ ready => exact ready

theorem backed_cons (b : Nat) (c : Call) (calls : List Call) :
    Backed b (c :: calls) ↔ Backed b calls ∨
      (c.signals b = true ∧ ∀ c' ∈ calls, c'.clears b = false) := by
  constructor
  · rintro ⟨pre, event, post, split, set, after⟩
    cases pre with
    | nil =>
        cases split
        exact .inr ⟨set, after⟩
    | cons first pre =>
        cases split
        exact .inl ⟨pre, event, post, rfl, set, after⟩
  · rintro (⟨pre, event, post, rfl, set, after⟩ | ⟨set, after⟩)
    · exact ⟨c :: pre, event, post, rfl, set, after⟩
    · cases c with
      | signal event => exact ⟨[], event, calls, rfl, set, after⟩
      | _ => simp [Call.signals] at set

/-- Along any run, bit `b` of the mask is set exactly when it was set at the start and
never cleared, or it was signaled after the last call that cleared it. -/
theorem Run.getLsbD {ev ev' : TaskWaitEvent} {calls : List Call} (run : Run ev calls ev')
    (b : Nat) : ev'.eventMask.getLsbD b = true ↔
      Backed b calls ∨
        (ev.eventMask.getLsbD b = true ∧ ∀ c ∈ calls, c.clears b = false) := by
  induction run with
  | nil => simp [Backed]
  | @cons ev ev₁ ev' c calls step _ inductionHypothesis =>
      rw [inductionHypothesis, step.getLsbD b, backed_cons, List.forall_mem_cons]
      cases c.signals b <;> cases c.clears b <;> cases ev.eventMask.getLsbD b <;> simp

/-- From the constructed and initialized event, whatever calls came before: the mask
holds exactly the bits backed by a signal; a set bit is cleared only by a `wait` that
returns it or a `try_wait` on it that returns true; `try_wait(e)` leaves the bits
outside `e` alone; `wait` returns a nonzero mask of backed bits; and a true
`try_wait(e)` is backed by a signal of some bit of `e`. -/
theorem task_wait_event_law {pre : List Call} {ev ev' : TaskWaitEvent} {c : Call}
    (run : Run construct.init pre ev) (step : Step ev c ev') (b : Nat) :
    (ev.eventMask.getLsbD b = true ↔ Backed b pre) ∧
    (ev.eventMask.getLsbD b = true → ev'.eventMask.getLsbD b = false →
      (∃ r, c = .wait r ∧ r.getLsbD b = true) ∨
        ∃ e, c = .tryWait e true ∧ e.getLsbD b = true) ∧
    (∀ e r, c = .tryWait e r → e.getLsbD b = false →
      ev'.eventMask.getLsbD b = ev.eventMask.getLsbD b) ∧
    (∀ r, c = .wait r → r ≠ 0 ∧ (r.getLsbD b = true → Backed b pre)) ∧
    (∀ e, c = .tryWait e true → ∃ b', e.getLsbD b' = true ∧ Backed b' pre) := by
  have backed : ∀ b, ev.eventMask.getLsbD b = true ↔ Backed b pre := fun b => by
    simpa [construct] using run.getLsbD b
  have moved := step.getLsbD b
  cases step with
  | wait _ waited =>
      obtain ⟨nonzero, rfl, rfl⟩ := wait_eq_some.mp waited
      refine ⟨backed b, fun set _ => .inl ⟨_, rfl, set⟩, by simp, ?_, by simp⟩
      rintro r ⟨⟩
      exact ⟨nonzero, (backed b).mp⟩
  | tryWait e _ =>
      refine ⟨backed b, fun set cleared => ?_, ?_, by simp, ?_⟩
      · have inEvent : e.getLsbD b = true := by
          rw [moved] at cleared
          simpa [Call.signals, Call.clears, set] using cleared
        rw [(tryWait_fst_eq_true e ev).mpr ⟨b, set, inEvent⟩]
        exact .inr ⟨e, rfl, inEvent⟩
      · rintro e r ⟨⟩ outside
        rw [moved]
        simp [Call.signals, Call.clears, outside]
      · intro e' same
        obtain ⟨rfl, returned⟩ := Call.tryWait.inj same
        obtain ⟨b', inMask, inEvent⟩ := (tryWait_fst_eq_true e ev).mp returned
        exact ⟨b', inEvent, (backed b').mp inMask⟩
  | signal e _ =>
      refine ⟨backed b, fun set cleared => ?_, by simp, by simp, by simp⟩
      simp [set] at cleared

/-- `signal(1)` then a `wait()` that returns `1`: bit 0 is backed by the signal. -/
theorem signal_then_wait_backed :
    ∃ ev ev', Run construct.init [.signal 1] ev ∧ Step ev (.wait 1) ev' ∧
      Backed 0 [.signal 1] := by
  have run : Run construct.init [.signal 1] ⟨1, true⟩ := .cons (.signal 1 rfl) .nil
  have step : Step ⟨1, true⟩ (.wait 1) ⟨0, true⟩ := .wait rfl (by decide)
  exact ⟨_, _, run, step, ((task_wait_event_law run step 0).2.2.2.1 1 rfl).2 rfl⟩

end TaskWaitEvent

end AsyncPlusPlus
