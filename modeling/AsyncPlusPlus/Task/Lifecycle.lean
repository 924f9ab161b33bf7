import AsyncPlusPlus.Task.Func

/-!
# The life cycle of a task with a function

From its construction to its destruction, a `task_func` is touched by its
scheduler (which runs it, or drops its handle and cancels it), by the
continuation that forwards the outcome of an unwrapped child, and by
registrants adding continuations.  `Wellformed` says what its code leaves in
memory between these operations: the log of effects so far is one of the few
that its code can produce, and the state decides what the union and the
function storage hold.  It holds after construction and after every operation,
so for the whole life of the task.
-/

namespace AsyncPlusPlus

open TaskFunc

variable {V R E C S T : Type}

/-- The effect logs the code of a `task_func` can have produced by the time its state
is `s`: each success and exception path of `run`, `cancel`, `unwrapped_finish` and
`unwrapped_func`. -/
def admissibleEffects : TaskState → List (List Effect)
  | .pending => [[.store .pending, .initFunc]]
  | .unwrapped => [[.store .pending, .initFunc, .store .unwrapped, .destroyFunc]]
  | .completed =>
      [[.store .pending, .initFunc, .setResult, .destroyFunc, .store .completed,
          .runContinuations],
        [.store .pending, .initFunc, .store .unwrapped, .destroyFunc, .setResult,
          .store .completed, .runContinuations]]
  | .canceled =>
      [[.store .pending, .initFunc, .destroyFunc, .setException, .store .canceled,
          .runContinuations],
        [.store .pending, .initFunc, .store .unwrapped, .destroyFunc, .setException,
          .store .canceled, .runContinuations]]
  | .locked => []

/-- What the union holds in each state: the scheduler pointer written at
construction until the terminal store, then the result or the exception. -/
def SlotMatches (sched : Option S) : TaskState → Slot R E S → Prop
  | .pending, slot | .unwrapped, slot => slot = .ofSched sched
  | .completed, slot => ∃ r, slot = .result r
  | .canceled, slot => ∃ e, slot = .except e
  | .locked, _ => False

/-- A `task_func` as its code leaves it between whole operations. -/
structure Wellformed (sched : Option S) (t : TaskFunc V R E C S T) : Prop where
  effects : t.effects ∈ admissibleEffects t.state
  func : t.func.isSome ↔ t.state = .pending
  slot : SlotMatches sched t.state t.slot
  locked : t.continuations.locked = isFinished t.state

namespace Wellformed

variable {sched : Option S} {t : TaskFunc V R E C S T}

theorem construct (f : ExecFunc V R E C) (sched : Option S) :
    Wellformed sched (TaskFunc.construct f sched : TaskFunc V R E C S T) where
  effects := by simp [admissibleEffects]
  func := by simp
  slot := rfl
  locked := rfl

theorem shape_of_pending (w : Wellformed sched t) (pending : t.state = .pending) :
    t.effects = [.store .pending, .initFunc] ∧ t.slot = .ofSched sched ∧
      t.continuations.locked = false := by
  have effects := w.effects
  have slot := w.slot
  have locked := w.locked
  rw [pending] at effects slot locked
  simp only [admissibleEffects, List.mem_singleton] at effects
  exact ⟨effects, slot, locked⟩

theorem shape_of_unwrapped (w : Wellformed sched t) (unwrapped : t.state = .unwrapped) :
    t.effects = [.store .pending, .initFunc, .store .unwrapped, .destroyFunc] ∧
      t.slot = .ofSched sched ∧ t.func = none ∧ t.continuations.locked = false := by
  have effects := w.effects
  have slot := w.slot
  have locked := w.locked
  rw [unwrapped] at effects slot locked
  simp only [admissibleEffects, List.mem_singleton] at effects
  exact ⟨effects, slot, by simpa [unwrapped] using w.func, locked⟩

theorem cancel (w : Wellformed sched t) (pending : t.state = .pending) (e : E) :
    Wellformed sched (t.cancel e) := by
  obtain ⟨effects, -, -⟩ := w.shape_of_pending pending
  constructor <;> simp [TaskFunc.cancel, cancelBase, effects, admissibleEffects, SlotMatches]

theorem complete (w : Wellformed sched t) (pending : t.state = .pending) {move : Option E}
    {r : R} {t' : TaskFunc V R E C S T} (completed : t.complete move r = .ok t') :
    Wellformed sched t' := by
  obtain ⟨-, rfl⟩ := complete_eq_ok completed
  obtain ⟨effects, -, -⟩ := w.shape_of_pending pending
  constructor <;> simp [finish, effects, admissibleEffects, SlotMatches]

theorem cancelBase_of_unwrapped (w : Wellformed sched t) (unwrapped : t.state = .unwrapped)
    (e : E) : Wellformed sched (t.cancelBase e) := by
  obtain ⟨effects, -, func, -⟩ := w.shape_of_unwrapped unwrapped
  constructor <;> simp [cancelBase, effects, func, admissibleEffects, SlotMatches]

theorem unwrappedFunc (w : Wellformed sched t) (unwrapped : t.state = .unwrapped)
    (child : Outcome R E) (copy : Option E) :
    Wellformed sched (TaskFunc.unwrappedFunc child copy t) := by
  obtain ⟨effects, -, func, -⟩ := w.shape_of_unwrapped unwrapped
  cases child with
  | completed r =>
      cases copy with
      | none =>
          constructor <;>
            simp [TaskFunc.unwrappedFunc, setResult, finish, effects, func, admissibleEffects,
              SlotMatches]
      | some x => exact w.cancelBase_of_unwrapped unwrapped x
  | canceled e => exact w.cancelBase_of_unwrapped unwrapped e

theorem unwrappedFinish (w : Wellformed sched t) (pending : t.state = .pending)
    (env : RunEnv R E C) (child : C) : Wellformed sched (t.unwrappedFinish env child) := by
  obtain ⟨effects, slot, locked⟩ := w.shape_of_pending pending
  have waiting : Wellformed sched (t.store .unwrapped).destroyFunc := by
    constructor <;> simp [effects, slot, locked, admissibleEffects, SlotMatches]
  unfold TaskFunc.unwrappedFinish
  split
  · exact waiting.cancelBase_of_unwrapped rfl _
  · exact waiting
  · exact waiting.unwrappedFunc rfl _ _

theorem run (w : Wellformed sched t) (pending : t.state = .pending) {env : RunEnv R E C}
    {t' : TaskFunc V R E C S T} (ran : t.run env = some t') : Wellformed sched t' := by
  rcases run_eq_some ran with ⟨e, rfl⟩ | ⟨r, completed⟩ | ⟨child, rfl⟩
  · exact w.cancel pending e
  · exact w.complete pending completed
  · exact w.unwrappedFinish pending env child

theorem addContinuation (w : Wellformed sched t) (c : T) :
    Wellformed sched (t.addContinuation c) := by
  unfold TaskFunc.addContinuation
  split
  · exact w
  · next unfinished =>
      refine ⟨w.effects, w.func, w.slot, ?_⟩
      simp only [ContinuationVector.tryAdd]
      split <;> simp_all [w.locked]

end Wellformed

/-- Who holds the task's run handle. -/
inductive Handle where
  /-- Not yet handed to a scheduler. -/
  | unscheduled
  /-- A scheduler holds it and will run the task, or drop it and cancel the task. -/
  | scheduled
  /-- Run or dropped: the scheduler is done with the task. -/
  | released
  deriving DecidableEq, Repr

/-- A task together with its run handle. -/
structure Life (V R E C S T : Type) where
  task : TaskFunc V R E C S T
  handle : Handle

namespace Life

/-- One operation on the task from outside its own code. -/
inductive Step : Life V R E C S T → Life V R E C S T → Prop where
  /-- Handed to a scheduler: `task_func::schedule` reads its `sched` member when its
  parent flushes, or `add_continuation` or `spawn` schedule it directly. -/
  | schedule {l : Life V R E C S T} : l.handle = .unscheduled → Step l ⟨l.task, .scheduled⟩
  /-- The scheduler runs it: `vtable->run`. -/
  | run {l : Life V R E C S T} {env : RunEnv R E C} {t' : TaskFunc V R E C S T} :
      l.handle = .scheduled → l.task.run env = some t' → Step l ⟨t', .released⟩
  /-- The scheduler drops the run handle without running the task: the handle's
  destructor, outside the modelled headers, cancels the unrun task through
  `vtable->cancel` with the exception `x`.  The catch block of `run_continuation` does
  not get here: it dereferences the moved-from pointer (`runContinuation`). -/
  | cancel {l : Life V R E C S T} (x : E) : l.handle = .scheduled →
      Step l ⟨l.task.cancel x, .released⟩
  /-- The forwarding continuation on the unwrapped child runs, once the child finished. -/
  | forward {l : Life V R E C S T} (child : Outcome R E) (copy : Option E) :
      l.task.state = .unwrapped → Step l ⟨unwrappedFunc child copy l.task, l.handle⟩
  /-- Someone registers a continuation on it. -/
  | addContinuation {l : Life V R E C S T} (c : T) :
      Step l ⟨l.task.addContinuation c, l.handle⟩

/-- Every state of the task between whole operations, from its construction. -/
inductive Reachable (f : ExecFunc V R E C) (sched : Option S) : Life V R E C S T → Prop where
  | construct : Reachable f sched ⟨.construct f sched, .unscheduled⟩
  | step {l l' : Life V R E C S T} : Reachable f sched l → Step l l' → Reachable f sched l'

/-- The life-cycle invariant: the task is well formed, and pending exactly while a
scheduler may still run or cancel it. -/
structure Invariant (sched : Option S) (l : Life V R E C S T) : Prop where
  wellformed : Wellformed sched l.task
  pending : l.task.state = .pending ↔ l.handle ≠ .released

theorem invariant_step {sched : Option S} {l l' : Life V R E C S T}
    (inv : Invariant sched l) (step : Step l l') : Invariant sched l' := by
  cases step with
  | schedule unscheduled => exact ⟨inv.wellformed, by simpa [unscheduled] using inv.pending⟩
  | run scheduled ran =>
      exact ⟨inv.wellformed.run (inv.pending.2 (by simp [scheduled])) ran,
        by simpa using (run_spec ran).1⟩
  | cancel x scheduled =>
      exact ⟨inv.wellformed.cancel (inv.pending.2 (by simp [scheduled])) x,
        by simp [TaskFunc.cancel, cancelBase]⟩
  | forward child copy unwrapped =>
      have released : l.handle = .released := by simpa [unwrapped] using inv.pending
      exact ⟨inv.wellformed.unwrappedFunc unwrapped child copy, iff_of_false
        (fun (pending : (unwrappedFunc child copy l.task).state = .pending) =>
          absurd (unwrappedFunc_spec child copy l.task).1 (by simp [pending]))
        (by simp [released])⟩
  | addContinuation c => exact ⟨inv.wellformed.addContinuation c, by simpa using inv.pending⟩

theorem Reachable.invariant {f : ExecFunc V R E C} {sched : Option S} {l : Life V R E C S T}
    (reach : Reachable f sched l) : Invariant sched l := by
  induction reach with
  | construct => exact ⟨.construct f sched, by simp⟩
  | step _ step inductionHypothesis => exact invariant_step inductionHypothesis step

/-- Every operation only appends to the task's effects. -/
theorem Step.effects_prefix {l l' : Life V R E C S T} (step : Step l l') :
    l.task.effects <+: l'.task.effects := by
  cases step with
  | schedule _ => exact List.prefix_refl _
  | run _ ran => exact (run_spec ran).2
  | cancel x _ => simp [TaskFunc.cancel, cancelBase]
  | forward child copy _ => exact (unwrappedFunc_spec child copy l.task).2
  | addContinuation c => simp

end Life

/-- The values stored into the state, in order, the constructor's initialisation first. -/
def TaskFunc.stores (t : TaskFunc V R E C S T) : List TaskState :=
  t.effects.filterMap Effect.stored?

/-- The sequences of stores that (I5) allows a task with a function, in full. -/
def terminalStores : List (List TaskState) :=
  [[.pending, .completed], [.pending, .canceled], [.pending, .unwrapped, .completed],
    [.pending, .unwrapped, .canceled]]

/-- Every store of a terminal state comes after a `destroy_func`. -/
def FuncDestroyedFirst (effects : List Effect) : Prop :=
  ∀ i < effects.length, ∀ s, effects[i]? = some (.store s) → isFinished s = true →
    .destroyFunc ∈ effects.take i

instance (effects : List Effect) : Decidable (FuncDestroyedFirst effects) :=
  inferInstanceAs (Decidable (∀ i < effects.length, ∀ s, effects[i]? = some (.store s) →
    isFinished s = true → Effect.destroyFunc ∈ effects.take i))

/-- The function object is built and destroyed once; the result and the exception
are each destroyed once if they were built, and never otherwise. -/
def Balanced (effects : List Effect) : Prop :=
  effects.count .initFunc = 1 ∧ effects.count .destroyFunc = 1 ∧
    effects.count .setResult ≤ 1 ∧ effects.count .destroyResult = effects.count .setResult ∧
    effects.count .setException ≤ 1 ∧
    effects.count .destroyException = effects.count .setException

instance (effects : List Effect) : Decidable (Balanced effects) :=
  inferInstanceAs (Decidable (_ ∧ _))

/-- Every admissible log stores states along one of the allowed sequences. -/
theorem admissibleEffects_stores : ∀ s, ∀ effects ∈ admissibleEffects s,
    (∃ full ∈ terminalStores, effects.filterMap Effect.stored? <+: full) ∧
      (isFinished s = true → effects.filterMap Effect.stored? ∈ terminalStores) := by
  decide

/-- Every admissible log destroys the function before a terminal store, and the
destructors, choosing by the state, leave every object destroyed exactly once. -/
theorem admissibleEffects_lifetimes : ∀ s, ∀ effects ∈ admissibleEffects s,
    FuncDestroyedFirst effects ∧
      Balanced (effects ++ (if s = .pending then [.destroyFunc] else []) ++
        (if s = .canceled then [.destroyException] else []) ++
        (if s = .completed then [.destroyResult] else [])) := by
  decide

theorem SlotMatches.result_iff {sched : Option S} {s : TaskState} {slot : Slot R E S}
    (matching : SlotMatches sched s slot) : (∃ r, slot = .result r) ↔ s = .completed := by
  cases s with
  | pending | unwrapped => subst matching; cases sched <;> simp [Slot.ofSched]
  | completed => simpa using matching
  | canceled => obtain ⟨e, rfl⟩ := matching; simp
  | locked => exact matching.elim

theorem SlotMatches.except_iff {sched : Option S} {s : TaskState} {slot : Slot R E S}
    (matching : SlotMatches sched s slot) : (∃ e, slot = .except e) ↔ s = .canceled := by
  cases s with
  | pending | unwrapped => subst matching; cases sched <;> simp [Slot.ofSched]
  | completed => obtain ⟨r, rfl⟩ := matching; simp
  | canceled => simpa using matching
  | locked => exact matching.elim

/-- Along every life of a task, its stores follow one of the (I5) sequences: so far a
prefix of one, all of one once it has finished, and only ever extended.  The scheduler's
run or cancel stores a state, and from `unwrapped` the forwarding continuation stores the
terminal state, so every life that the scheduler and the child bring to an end stores one
of them in full, its terminal state once. -/
theorem task_func_stores_sequence {f : ExecFunc V R E C} {sched : Option S}
    {l : Life V R E C S T} (reach : Life.Reachable f sched l) :
    (∃ full ∈ terminalStores, l.task.stores <+: full) ∧
      (isFinished l.task.state = true → l.task.stores ∈ terminalStores) ∧
      (l.handle = .released → l.task.state ≠ .pending) ∧
      (l.task.state = .unwrapped →
        ∀ child copy, (unwrappedFunc child copy l.task).stores ∈ terminalStores) ∧
      ∀ l', Life.Step l l' → l.task.stores <+: l'.task.stores := by
  have inv := reach.invariant
  obtain ⟨prefixed, terminal⟩ := admissibleEffects_stores _ _ inv.wellformed.effects
  refine ⟨prefixed, terminal, fun released => by simpa [released] using inv.pending,
    fun unwrapped child copy => ?_, fun _ step => step.effects_prefix.filterMap _⟩
  exact (admissibleEffects_stores _ _ (inv.wellformed.unwrappedFunc unwrapped child copy).effects).2
    (unwrappedFunc_spec child copy l.task).1

/-- A root task that returns `1`, scheduled and run: it stored `pending`, then
`completed`. -/
theorem root_task_run_stores :
    ∃ l : Life Nat Nat Nat Nat Nat Nat, Life.Reachable (.root (.ok 1)) none l ∧
      l.task.stores = [.pending, .completed] ∧ l.task.stores ∈ terminalStores := by
  have reach : Life.Reachable (.root (.ok 1) : ExecFunc Nat Nat Nat Nat) (none : Option Nat)
      (_ : Life Nat Nat Nat Nat Nat Nat) :=
    .step (.step .construct (.schedule rfl))
      (.run rfl (show TaskFunc.run ⟨none, fun _ => .deferred⟩ _ = some _ from rfl))
  exact ⟨_, reach, rfl, (task_func_stores_sequence reach).2.1 rfl⟩

theorem task_func_storage_lifetime {f : ExecFunc V R E C} {sched : Option S}
    {l : Life V R E C S T} (reach : Life.Reachable f sched l) :
    (l.task.func.isSome ↔ l.task.state = .pending) ∧
      ((∃ r, l.task.slot = .result r) ↔ l.task.state = .completed) ∧
      ((∃ e, l.task.slot = .except e) ↔ l.task.state = .canceled) ∧
      FuncDestroyedFirst l.task.effects ∧
      (l.handle = .unscheduled → l.task.state = .pending ∧ l.task.schedule = sched) ∧
      Balanced l.task.destroy := by
  obtain ⟨w, pending⟩ := reach.invariant
  obtain ⟨destroyedFirst, balanced⟩ := admissibleEffects_lifetimes _ _ w.effects
  refine ⟨w.func, w.slot.result_iff, w.slot.except_iff, destroyedFirst, fun unscheduled => ?_,
    balanced⟩
  have pending := pending.2 (by simp [unscheduled])
  obtain ⟨-, slot, -⟩ := w.shape_of_pending pending
  refine ⟨pending, ?_⟩
  cases sched <;> simp [TaskFunc.schedule, slot, Slot.ofSched]

/-- A root task whose scheduler cancels it with exception `7` holds that exception,
and its destructor leaves every object destroyed once. -/
theorem canceled_root_task_storage :
    ∃ l : Life Nat Nat Nat Nat Nat Nat, Life.Reachable (.root (.ok 1)) none l ∧
      l.task.slot = .except 7 ∧ l.task.state = .canceled ∧ Balanced l.task.destroy := by
  have reach : Life.Reachable (.root (.ok 1) : ExecFunc Nat Nat Nat Nat) (none : Option Nat)
      (_ : Life Nat Nat Nat Nat Nat Nat) :=
    .step (.step .construct (.schedule rfl)) (.cancel 7 rfl)
  have lifetime := task_func_storage_lifetime reach
  exact ⟨_, reach, rfl, lifetime.2.2.1.mp ⟨7, rfl⟩, lifetime.2.2.2.2.2⟩

end AsyncPlusPlus
