import AsyncPlusPlus.Task.Func

/-!
# What a task ends with

The outcome of a task as its users observe it through `wait_and_throw` and
`get_result`, for each execution function.  `rootOutcome` and
`continuationOutcome` follow the spec's words (sections 4.5 and 4.6); the
theorems compare them with what `task_func::run` leaves in memory.  For an
unwrapping task, `forwardedOutcome` is what section 4.3 promises the outer task:
the outcome of the inner one.
-/

namespace AsyncPlusPlus

open TaskFunc

variable {V R E C S T : Type}

/-- What `wait_and_throw` does on a task that ended with this outcome. -/
def Outcome.rethrow : Outcome R E → Except E Unit
  | .completed _ => .ok ()
  | .canceled e => .error e

/-- The result `get_result` reads from a task that ended with this outcome. -/
def Outcome.result? : Outcome R E → Option R
  | .completed r => some r
  | .canceled _ => none

/-- A task that ended with `o`, as its users see it. -/
structure EndsWith (t : TaskFunc V R E C S T) (o : Outcome R E) : Prop where
  outcome : t.outcome = some o
  waitAndThrow : t.waitAndThrow = some o.rethrow
  getResult : t.getResult = o.result?

/-- `wait_and_throw` rethrows the stored exception exactly when the state is
`canceled`, and `get_result` reads a result exactly when it is `completed`. -/
theorem EndsWith.of_outcome {t : TaskFunc V R E C S T} {o : Outcome R E}
    (h : t.outcome = some o) : EndsWith t o := by
  unfold TaskFunc.outcome at h
  split at h <;> cases h <;>
    exact ⟨by simp [TaskFunc.outcome, *],
      by simp [TaskFunc.waitAndThrow, TaskFunc.getException, *, Outcome.rethrow],
      by simp [TaskFunc.getResult, *, Outcome.result?]⟩

@[simp] theorem outcome_cancelBase (t : TaskFunc V R E C S T) (e : E) :
    (t.cancelBase e).outcome = some (.canceled e) := by
  simp [cancelBase, TaskFunc.outcome]

@[simp] theorem outcome_cancel (t : TaskFunc V R E C S T) (e : E) :
    (t.cancel e).outcome = some (.canceled e) := by
  simp [TaskFunc.cancel]

@[simp] theorem outcome_finish (t : TaskFunc V R E C S T) (r : R) :
    ((t.putResult r).destroyFunc.finish).outcome = some (.completed r) := by
  simp [finish, TaskFunc.outcome]

/-- Section 4.5: a root task ends completed with what its callable returns, or
canceled with what the callable, or moving its value into the slot, throws. -/
def rootOutcome (move : Option E) : Except E R → Outcome R E
  | .ok r => match move with
    | none => .completed r
    | some x => .canceled x
  | .error x => .canceled x

/-- Section 4.6: value and void continuations of a canceled parent propagate its
exception without calling their callable; otherwise the callable is called, a task
continuation's whatever the parent's outcome, and it ends as a root task does. -/
def continuationOutcome (move : Option E) : ContFunc V E R → Outcome V E → Outcome R E
  | .value _, .canceled e => .canceled e
  | .void _, .canceled e => .canceled e
  | .value f, .completed v => rootOutcome move (f v)
  | .void f, .completed _ => rootOutcome move f
  | .task f, parent => rootOutcome move (f parent)

theorem complete_outcome (t : TaskFunc V R E C S T) (move : Option E) (func : Except E R) :
    (match func.bind (t.complete move) with
      | .ok t' => t'
      | .error x => t.cancel x).outcome = some (rootOutcome move func) := by
  cases func <;> cases move <;> simp [complete, setResult, rootOutcome, Except.bind, Except.map]

theorem continuationExecFunc_outcome (env : RunEnv R E C) (func : ContFunc V E R)
    (parent : Outcome V E) (t : TaskFunc V R E C S T) :
    (match t.continuationExecFunc env func parent with
      | .ok t' => t'
      | .error x => t.cancel x).outcome = some (continuationOutcome env.move func parent) := by
  cases func <;> cases parent <;>
    simp only [continuationExecFunc, continuationExec, continuationOutcome] <;>
    first | exact complete_outcome _ _ _ | simp

theorem run_construct (env : RunEnv R E C) (f : ExecFunc V R E C) (sched : Option S) :
    (construct f sched : TaskFunc V R E C S T).run env =
      some (match (construct f sched).call env f with
        | .ok t' => t'
        | .error x => (construct f sched).cancel x) := rfl

/-- The table of sections 4.5 and 4.6 for the execution functions that do not unwrap,
and for the unwrapping value and void continuations of a canceled parent. -/
theorem execution_outcome_table (env : RunEnv R E C) (sched : Option S) :
    (∀ func : Except E R, ∃ t, (construct (.root func) sched : TaskFunc V R E C S T).run env =
      some t ∧ EndsWith t (rootOutcome env.move func)) ∧
    (∀ (func : ContFunc V E R) (parent : Outcome V E), ∃ t,
      (construct (.continuation func parent) sched : TaskFunc V R E C S T).run env = some t ∧
        EndsWith t (continuationOutcome env.move func parent)) ∧
    (∀ (func : V → Except E C) (e : E), ∃ t,
      (construct (.continuationUnwrap (.value func) (.canceled e)) sched :
        TaskFunc V R E C S T).run env = some t ∧ EndsWith t (.canceled e)) ∧
    (∀ (func : Except E C) (e : E), ∃ t,
      (construct (.continuationUnwrap (.void func) (.canceled e)) sched :
        TaskFunc V R E C S T).run env = some t ∧ EndsWith t (.canceled e)) :=
  ⟨fun _ => ⟨_, run_construct .., .of_outcome (complete_outcome ..)⟩,
    fun _ _ => ⟨_, run_construct .., .of_outcome (continuationExecFunc_outcome ..)⟩,
    fun _ e => ⟨_, run_construct .., .of_outcome (outcome_cancel _ e)⟩,
    fun _ e => ⟨_, run_construct .., .of_outcome (outcome_cancel _ e)⟩⟩

/-- Section 4.3: the outer task takes the outcome of its child, unless copying or
moving the child's result throws. -/
def forwardedOutcome : Outcome R E → Option E → Outcome R E
  | .completed r, none => .completed r
  | .completed _, some x => .canceled x
  | .canceled e, _ => .canceled e

/-- What the callable of an unwrapping execution function returns when it is called:
the root one always calls it, a continuation unless it propagates a canceled
parent's exception. -/
def ExecFunc.unwrapCall : ExecFunc V R E C → Option (Except E C)
  | .rootUnwrap func => some func
  | .continuationUnwrap (.task func) parent => some (func parent)
  | .continuationUnwrap (.value func) (.completed v) => some (func v)
  | .continuationUnwrap (.void func) (.completed _) => some func
  | _ => none

/-- `add_continuation` of each of `cs` in turn. -/
def TaskFunc.registerAll (cs : List T) (t : TaskFunc V R E C S T) : TaskFunc V R E C S T :=
  cs.foldl (fun t c => t.addContinuation c) t

theorem registerAll_unfinished (cs : List T) {t : TaskFunc V R E C S T}
    (unfinished : isFinished t.state = false) (open_ : t.continuations.locked = false) :
    t.registerAll cs = { t with continuations := ⟨t.continuations.entries ++ cs, false⟩ } := by
  induction cs generalizing t with
  | nil =>
      obtain ⟨state, ⟨entries, locked⟩, slot, func, effects⟩ := t
      simp_all [TaskFunc.registerAll]
  | cons c cs inductionHypothesis =>
      have added : t.addContinuation c =
          { t with continuations := ⟨t.continuations.entries ++ [c], false⟩ } := by
        simp [addContinuation, unfinished, open_]
      simp only [TaskFunc.registerAll, List.foldl_cons] at inductionHypothesis ⊢
      rw [added, inductionHypothesis
        (t := { t with continuations := ⟨t.continuations.entries ++ [c], false⟩ })
        unfinished rfl]
      simp

theorem call_of_unwrapCall (env : RunEnv R E C) (t : TaskFunc V R E C S T)
    {f : ExecFunc V R E C} {child : C} (called : f.unwrapCall = some (.ok child)) :
    t.call env f = .ok (t.unwrappedFinish env child) := by
  cases f with
  | rootUnwrap func =>
      simp only [ExecFunc.unwrapCall, Option.some.injEq] at called
      simp [call, rootExecFuncUnwrap, called, Except.map]
  | continuationUnwrap func parent =>
      cases func <;> cases parent <;>
        simp only [ExecFunc.unwrapCall, Option.some.injEq, reduceCtorEq] at called <;>
        simp [call, continuationExecFuncUnwrap, continuationExec, called, Except.bind]
  | root func => simp [ExecFunc.unwrapCall] at called
  | continuation func parent => simp [ExecFunc.unwrapCall] at called

/-- The end of an unwrapped task: it shows `o`, it destroyed its function object
once, and it flushed its continuations right after its terminal store and only there. -/
structure ForwardedTo (t : TaskFunc V R E C S T) (o : Outcome R E) : Prop where
  endsWith : EndsWith t o
  funcDestroyedOnce : t.effects.count .destroyFunc = 1
  flushedAtStore : ∃ pre, t.effects = pre ++ [.store o.state, .runContinuations] ∧
    .runContinuations ∉ pre
  sealed : t.continuations = ⟨[], true⟩

/-- An unwrapped task: stored `unwrapped` after its construction, function destroyed. -/
def UnwrappedShape (t : TaskFunc V R E C S T) : Prop :=
  t.state = .unwrapped ∧ t.effects = [.store .pending, .initFunc, .store .unwrapped, .destroyFunc]

theorem forwardedTo_cancelBase {t : TaskFunc V R E C S T} (shape : UnwrappedShape t) (x : E) :
    ForwardedTo (t.cancelBase x) (.canceled x) :=
  ⟨.of_outcome (outcome_cancelBase t x), by simp [cancelBase, shape.2],
    ⟨[.store .pending, .initFunc, .store .unwrapped, .destroyFunc, .setException],
      by simp [cancelBase, shape.2, Outcome.state], by simp⟩, rfl⟩

theorem forwardedTo_unwrappedFunc {t : TaskFunc V R E C S T} (shape : UnwrappedShape t)
    (child : Outcome R E) (copy : Option E) :
    ForwardedTo (unwrappedFunc child copy t) (forwardedOutcome child copy) := by
  cases child with
  | completed r =>
      cases copy with
      | none =>
          exact ⟨.of_outcome (by
              simp [unwrappedFunc, setResult, finish, TaskFunc.outcome, forwardedOutcome]),
            by simp [unwrappedFunc, setResult, finish, shape.2],
            ⟨[.store .pending, .initFunc, .store .unwrapped, .destroyFunc, .setResult],
              by simp [unwrappedFunc, setResult, finish, shape.2, Outcome.state, forwardedOutcome],
              by simp⟩, rfl⟩
      | some x => exact forwardedTo_cancelBase shape x
  | canceled e => exact forwardedTo_cancelBase shape e

/-- Section 4.3 for every unwrapping task whose callable returns a child: the task is
stored `unwrapped` with its function destroyed, then takes the child's outcome, at
once when the child had already finished, or when the forwarding continuation runs;
continuations registered meanwhile stay in its list until that terminal store. -/
theorem unwrapped_task_forwards_child (env : RunEnv R E C) (sched : Option S)
    {f : ExecFunc V R E C} {child : C} (called : f.unwrapCall = some (.ok child))
    (before after : List T) (o : Outcome R E) (copy : Option E) :
    ∃ t, ((construct f sched : TaskFunc V R E C S T).registerAll before).run env = some t ∧
      t.effects.take 4 = [.store .pending, .initFunc, .store .unwrapped, .destroyFunc] ∧
      match env.attach child with
      | .throws x => ForwardedTo t (.canceled x)
      | .inline inner innerCopy => ForwardedTo t (forwardedOutcome inner innerCopy)
      | .deferred =>
          t.state = .unwrapped ∧
            (t.registerAll after).continuations = ⟨before ++ after, false⟩ ∧
            ForwardedTo (unwrappedFunc o copy (t.registerAll after)) (forwardedOutcome o copy) := by
  set t₀ := (construct f sched : TaskFunc V R E C S T).registerAll before
  have registered : t₀ =
      { (construct f sched : TaskFunc V R E C S T) with continuations := ⟨before, false⟩ } := by
    simpa using registerAll_unfinished before (t := construct f sched) rfl rfl
  set waiting := (t₀.store .unwrapped).destroyFunc
  have shape : UnwrappedShape waiting := by simp [UnwrappedShape, waiting, registered]
  have ran : t₀.run env = some (t₀.unwrappedFinish env child) := by
    simp [TaskFunc.run, registered, call_of_unwrapCall env _ called]
  refine ⟨_, ran, ?_⟩
  simp only [TaskFunc.unwrappedFinish]
  cases attached : env.attach child with
  | throws x =>
      exact ⟨by simp [cancelBase, waiting, registered], forwardedTo_cancelBase shape x⟩
  | deferred =>
      have later : waiting.registerAll after =
          { waiting with continuations := ⟨before ++ after, false⟩ } := by
        simpa [waiting, registered] using
          registerAll_unfinished after (t := waiting) (by simp [shape.1])
            (by simp [waiting, registered])
      refine ⟨by simp [waiting, registered], shape.1, by simp [later], ?_⟩
      exact forwardedTo_unwrappedFunc (by simpa [UnwrappedShape, later] using shape) o copy
  | inline inner innerCopy =>
      refine ⟨?_, forwardedTo_unwrappedFunc shape inner innerCopy⟩
      cases inner <;> cases innerCopy <;>
        simp [unwrappedFunc, setResult, finish, cancelBase, waiting, registered]

/-- A root task whose callable returns a child that has already completed with `3`,
with one continuation registered before it runs: it completes with `3`. -/
theorem unwrapping_root_takes_finished_child :
    ∃ t, ((construct (.rootUnwrap (.ok 5)) none : TaskFunc Nat Nat Nat Nat Nat Nat).registerAll
        [1]).run ⟨none, fun _ => .inline (.completed 3) none⟩ = some t ∧
      ForwardedTo t (.completed 3) := by
  obtain ⟨t, ran, -, forwarded⟩ := unwrapped_task_forwards_child (V := Nat)
    ⟨none, fun _ => .inline (.completed 3) none⟩ (none : Option Nat)
    (f := .rootUnwrap (.ok 5)) rfl
    [1] [] (.completed 0) none
  exact ⟨t, ran, forwarded⟩

end AsyncPlusPlus
