import AsyncPlusPlus.Task.Base

/-!
# The task object with a function: `task_func` and its execution functions

A `task_func` holds its state cell, its continuation list, the union of
`task_result_holder` (a result, an exception, or the scheduler pointer) and the
storage of its function object.  Each piece of its code that touches this
memory appends an `Effect` to a log, so that the order of constructions,
destructions and stores along a run can be stated and checked.

C++ exceptions appear as `Except E`: every point that can throw here (the user
callable, the construction of the result, `then` in `unwrapped_finish`) throws
before the task's own memory has been touched, so a `catch` block resumes from
the task as it was when its `try` block began.
-/

namespace AsyncPlusPlus

/-- A memory effect of a task's code. -/
inductive Effect where
  /-- `state.store(s)`, or the constructor's initialisation of the state. -/
  | store (s : TaskState)
  /-- `init_func`: placement new of the function object. -/
  | initFunc
  /-- `destroy_func`: the function object's destructor. -/
  | destroyFunc
  /-- `set_result`: placement new of the result. -/
  | setResult
  /-- `~Result()` in `~task_result_holder`. -/
  | destroyResult
  /-- `set_exception`: placement new of the `exception_ptr`. -/
  | setException
  /-- `~exception_ptr()` in `~task_result`. -/
  | destroyException
  /-- `run_continuations`. -/
  | runContinuations
  deriving DecidableEq, Repr

/-- The state stored by an effect, if it is a store. -/
def Effect.stored? : Effect → Option TaskState
  | .store s => some s
  | _ => none

/-- The union of `task_result_holder`.  A root task never writes `sched`. -/
inductive Slot (R E S : Type) where
  | empty
  | sched (s : S)
  | result (r : R)
  | except (e : E)
  deriving DecidableEq, Repr

/-- What the union holds right after construction. -/
def Slot.ofSched {R E S : Type} : Option S → Slot R E S
  | some s => .sched s
  | none => .empty

/-- The user callable of a continuation, by the `is_value_cont` that
`continuation_traits` picks for it. -/
inductive ContFunc (V E α : Type) where
  /-- `std::false_type`: the callable takes the parent task. -/
  | task (f : Outcome V E → Except E α)
  /-- `std::true_type`: the callable takes the parent's result.  A nullary callable on a
  `task<void>` or `shared_task<void>` parent is picked here too, the more specialised
  overload winning; its parameter is then the parent's `fake_void` result, which
  `invoke_fake_void` drops. -/
  | value (f : V → Except E α)
  /-- `fake_void`: a nullary callable on a parent of any other result type, whose result
  it ignores. -/
  | void (f : Except E α)

/-- The function object a `task_func` holds.  `C` is the type of the child task an
unwrapping callable returns.  A continuation's `parent` is the parent task as the
continuation finds it when it runs: finished, since it is handed out only after its
parent's terminal store. -/
inductive ExecFunc (V R E C : Type) where
  /-- `root_exec_func<Sched, Result, Func, false>` -/
  | root (func : Except E R)
  /-- `root_exec_func<Sched, Result, Func, true>` -/
  | rootUnwrap (func : Except E C)
  /-- `continuation_exec_func<Sched, Parent, Result, Func, ValueCont, false>` -/
  | continuation (func : ContFunc V E R) (parent : Outcome V E)
  /-- `continuation_exec_func<Sched, Parent, Result, Func, ValueCont, true>` -/
  | continuationUnwrap (func : ContFunc V E C) (parent : Outcome V E)

/-- How `child_task.then(inline_scheduler(), unwrapped_func<Result, Child>(...))` goes. -/
inductive Attach (R E : Type) where
  /-- `then` threw before it registered anything. -/
  | throws (x : E)
  /-- Registered on a child that has not finished: the forwarding comes later. -/
  | deferred
  /-- The child had finished, so `add_continuation` ran the forwarding continuation at
  once on the inline scheduler; `copy` is what copying or moving its result throws. -/
  | inline (child : Outcome R E) (copy : Option E)

/-- What the rest of the program does while a task runs. -/
structure RunEnv (R E C : Type) where
  /-- What constructing the callable's return value in the result slot throws. -/
  move : Option E
  /-- What registering the forwarding continuation on a child does. -/
  attach : C → Attach R E

/-- A `task_func` in memory, with the effects its code has had so far. -/
structure TaskFunc (V R E C S T : Type) where
  state : TaskState
  continuations : ContinuationVector T
  slot : Slot R E S
  /-- The function object in `func_holder`, while it is alive. -/
  func : Option (ExecFunc V R E C)
  effects : List Effect

namespace TaskFunc

variable {V R E C S T : Type}

/-- `task_func`'s constructor: `task_base()` initialises the state to `pending`, then
`init_func` constructs the function object.  For a continuation, `then` next writes
its scheduler into the union. -/
def construct (f : ExecFunc V R E C) (sched : Option S) : TaskFunc V R E C S T :=
  ⟨.pending, .empty, .ofSched sched, some f, [.store .pending, .initFunc]⟩

/-- `state.store(s)`. -/
def store (s : TaskState) (t : TaskFunc V R E C S T) : TaskFunc V R E C S T :=
  { t with state := s, effects := t.effects ++ [.store s] }

/-- `set_result`, once the construction of the result has succeeded. -/
def putResult (r : R) (t : TaskFunc V R E C S T) : TaskFunc V R E C S T :=
  { t with slot := .result r, effects := t.effects ++ [.setResult] }

/-- `set_result`: `new(&result) Result(std::forward<T>(t))`, where the constructor
throws `move` when that is given. -/
def setResult (move : Option E) (r : R) (t : TaskFunc V R E C S T) :
    Except E (TaskFunc V R E C S T) :=
  match move with
  | some x => .error x
  | none => .ok (t.putResult r)

/-- `set_exception`. -/
def setException (e : E) (t : TaskFunc V R E C S T) : TaskFunc V R E C S T :=
  { t with slot := .except e, effects := t.effects ++ [.setException] }

/-- `destroy_func`. -/
def destroyFunc (t : TaskFunc V R E C S T) : TaskFunc V R E C S T :=
  { t with func := none, effects := t.effects ++ [.destroyFunc] }

/-- `run_continuations`: seal the list; the entries go to `schedule` one by one. -/
def runContinuations (t : TaskFunc V R E C S T) : TaskFunc V R E C S T :=
  { t with continuations := t.continuations.flushAndLock.2,
           effects := t.effects ++ [.runContinuations] }

/-- `task_base::finish`. -/
def finish (t : TaskFunc V R E C S T) : TaskFunc V R E C S T :=
  (t.store .completed).runContinuations

/-- `task_result::cancel_base`. -/
def cancelBase (e : E) (t : TaskFunc V R E C S T) : TaskFunc V R E C S T :=
  ((t.setException e).store .canceled).runContinuations

/-- `task_func::cancel`: the function object will not be used anymore. -/
def cancel (e : E) (t : TaskFunc V R E C S T) : TaskFunc V R E C S T :=
  t.destroyFunc.cancelBase e

/-- `task_base::add_continuation` as the parent sees it: a finished parent is left
alone (the registrant runs the continuation itself), otherwise `try_add`. -/
def addContinuation (c : T) (t : TaskFunc V R E C S T) : TaskFunc V R E C S T :=
  if isFinished t.state then t else { t with continuations := (t.continuations.tryAdd c).2 }

@[simp] theorem addContinuation_state (c : T) (t : TaskFunc V R E C S T) :
    (t.addContinuation c).state = t.state := by
  unfold addContinuation; split <;> rfl
@[simp] theorem addContinuation_effects (c : T) (t : TaskFunc V R E C S T) :
    (t.addContinuation c).effects = t.effects := by
  unfold addContinuation; split <;> rfl

/-- The `sched` member as `task_func::schedule` reads it. -/
def schedule (t : TaskFunc V R E C S T) : Option S :=
  match t.slot with
  | .sched s => some s
  | _ => none

/-- `get_exception`, when the union holds an exception. -/
def getException (t : TaskFunc V R E C S T) : Option E :=
  match t.slot with
  | .except e => some e
  | _ => none

/-- `get_result`, when the union holds a result. -/
def getResult (t : TaskFunc V R E C S T) : Option R :=
  match t.slot with
  | .result r => some r
  | _ => none

/-- `wait_and_throw` on a finished task: `none` stands for rethrowing an exception the
union does not hold. -/
def waitAndThrow (t : TaskFunc V R E C S T) : Option (Except E Unit) :=
  if t.state = .canceled then t.getException.map .error else some (.ok ())

/-- The outcome a task shows once finished: its state with what the union holds. -/
def outcome (t : TaskFunc V R E C S T) : Option (Outcome R E) :=
  match t.state, t.slot with
  | .completed, .result r => some (.completed r)
  | .canceled, .except e => some (.canceled e)
  | _, _ => none

/-- The effects of `~task_func`, `~task_result` and `~task_result_holder`, in that
order, each choosing from the state what to destroy. -/
def destroy (t : TaskFunc V R E C S T) : List Effect :=
  t.effects ++ (if t.state = .pending then [.destroyFunc] else []) ++
    (if t.state = .canceled then [.destroyException] else []) ++
    (if t.state = .completed then [.destroyResult] else [])

@[simp] theorem construct_state (f : ExecFunc V R E C) (sched : Option S) :
    (construct f sched : TaskFunc V R E C S T).state = .pending := rfl
@[simp] theorem construct_effects (f : ExecFunc V R E C) (sched : Option S) :
    (construct f sched : TaskFunc V R E C S T).effects = [.store .pending, .initFunc] := rfl
@[simp] theorem construct_func (f : ExecFunc V R E C) (sched : Option S) :
    (construct f sched : TaskFunc V R E C S T).func = some f := rfl
@[simp] theorem construct_slot (f : ExecFunc V R E C) (sched : Option S) :
    (construct f sched : TaskFunc V R E C S T).slot = .ofSched sched := rfl
@[simp] theorem construct_continuations (f : ExecFunc V R E C) (sched : Option S) :
    (construct f sched : TaskFunc V R E C S T).continuations = .empty := rfl

section Fields

variable (t : TaskFunc V R E C S T)

@[simp] theorem store_state (s : TaskState) : (t.store s).state = s := rfl
@[simp] theorem store_effects (s : TaskState) : (t.store s).effects = t.effects ++ [.store s] := rfl
@[simp] theorem store_func (s : TaskState) : (t.store s).func = t.func := rfl
@[simp] theorem store_slot (s : TaskState) : (t.store s).slot = t.slot := rfl
@[simp] theorem store_continuations (s : TaskState) :
    (t.store s).continuations = t.continuations := rfl

@[simp] theorem putResult_state (r : R) : (t.putResult r).state = t.state := rfl
@[simp] theorem putResult_effects (r : R) :
    (t.putResult r).effects = t.effects ++ [.setResult] := rfl
@[simp] theorem putResult_func (r : R) : (t.putResult r).func = t.func := rfl
@[simp] theorem putResult_slot (r : R) : (t.putResult r).slot = .result r := rfl
@[simp] theorem putResult_continuations (r : R) :
    (t.putResult r).continuations = t.continuations := rfl

@[simp] theorem setException_state (e : E) : (t.setException e).state = t.state := rfl
@[simp] theorem setException_effects (e : E) :
    (t.setException e).effects = t.effects ++ [.setException] := rfl
@[simp] theorem setException_func (e : E) : (t.setException e).func = t.func := rfl
@[simp] theorem setException_slot (e : E) : (t.setException e).slot = .except e := rfl
@[simp] theorem setException_continuations (e : E) :
    (t.setException e).continuations = t.continuations := rfl

@[simp] theorem destroyFunc_state : t.destroyFunc.state = t.state := rfl
@[simp] theorem destroyFunc_effects : t.destroyFunc.effects = t.effects ++ [.destroyFunc] := rfl
@[simp] theorem destroyFunc_func : t.destroyFunc.func = none := rfl
@[simp] theorem destroyFunc_slot : t.destroyFunc.slot = t.slot := rfl
@[simp] theorem destroyFunc_continuations : t.destroyFunc.continuations = t.continuations := rfl

@[simp] theorem runContinuations_state : t.runContinuations.state = t.state := rfl
@[simp] theorem runContinuations_effects :
    t.runContinuations.effects = t.effects ++ [.runContinuations] := rfl
@[simp] theorem runContinuations_func : t.runContinuations.func = t.func := rfl
@[simp] theorem runContinuations_slot : t.runContinuations.slot = t.slot := rfl
@[simp] theorem runContinuations_continuations :
    t.runContinuations.continuations = ⟨[], true⟩ := rfl

end Fields

/-- The tail of the non-unwrapping execution functions: `set_result` of the callable's
return value, `destroy_func`, `finish`. -/
def complete (move : Option E) (r : R) (t : TaskFunc V R E C S T) :
    Except E (TaskFunc V R E C S T) :=
  (t.setResult move r).map fun t => t.destroyFunc.finish

/-- `unwrapped_func::operator()`: forward the child's completion state and result to
the parent task.  `copy` is what copying or moving the child's result throws. -/
def unwrappedFunc (child : Outcome R E) (copy : Option E) (parent : TaskFunc V R E C S T) :
    TaskFunc V R E C S T :=
  match child with
  | .completed r =>
      match parent.setResult copy r with
      | .ok parent => parent.finish
      | .error x => parent.cancelBase x
  | .canceled e => parent.cancelBase e

/-- `unwrapped_finish`: store `unwrapped`, destroy the function, and set up a
continuation on the child to set the result of the parent. -/
def unwrappedFinish (env : RunEnv R E C) (child : C) (t : TaskFunc V R E C S T) :
    TaskFunc V R E C S T :=
  let t := (t.store .unwrapped).destroyFunc
  match env.attach child with
  | .throws x => t.cancelBase x
  | .deferred => t
  | .inline outcome copy => unwrappedFunc outcome copy t

/-- The body the six `continuation_exec_func` specialisations share.  The value and
void strategies propagate a canceled parent's exception through `task_func::cancel`
without calling the callable; otherwise the callable gets the parent task (task
strategy), the parent's result (value) or nothing (void), and its return value goes
to `tail`. -/
def continuationExec {α : Type}
    (tail : α → TaskFunc V R E C S T → Except E (TaskFunc V R E C S T))
    (func : ContFunc V E α) (parent : Outcome V E) (t : TaskFunc V R E C S T) :
    Except E (TaskFunc V R E C S T) :=
  match func, parent with
  | .task f, parent => (f parent).bind (tail · t)
  | .value _, .canceled e => .ok (t.cancel e)
  | .value f, .completed v => (f v).bind (tail · t)
  | .void _, .canceled e => .ok (t.cancel e)
  | .void f, .completed _ => f.bind (tail · t)

/-- `root_exec_func<Sched, Result, Func, false>::operator()`. -/
def rootExecFunc (env : RunEnv R E C) (func : Except E R) (t : TaskFunc V R E C S T) :
    Except E (TaskFunc V R E C S T) :=
  func.bind (complete env.move · t)

/-- `root_exec_func<Sched, Result, Func, true>::operator()`. -/
def rootExecFuncUnwrap (env : RunEnv R E C) (func : Except E C) (t : TaskFunc V R E C S T) :
    Except E (TaskFunc V R E C S T) :=
  func.map (unwrappedFinish env · t)

/-- `continuation_exec_func<..., ValueCont, false>::operator()`. -/
def continuationExecFunc (env : RunEnv R E C) (func : ContFunc V E R) (parent : Outcome V E)
    (t : TaskFunc V R E C S T) : Except E (TaskFunc V R E C S T) :=
  continuationExec (complete env.move) func parent t

/-- `continuation_exec_func<..., ValueCont, true>::operator()`. -/
def continuationExecFuncUnwrap (env : RunEnv R E C) (func : ContFunc V E C)
    (parent : Outcome V E) (t : TaskFunc V R E C S T) : Except E (TaskFunc V R E C S T) :=
  continuationExec (fun child t => .ok (unwrappedFinish env child t)) func parent t

/-- The function object's `operator()(task_base* t)`. -/
def call (env : RunEnv R E C) (t : TaskFunc V R E C S T) :
    ExecFunc V R E C → Except E (TaskFunc V R E C S T)
  | .root func => rootExecFunc env func t
  | .rootUnwrap func => rootExecFuncUnwrap env func t
  | .continuation func parent => continuationExecFunc env func parent t
  | .continuationUnwrap func parent => continuationExecFuncUnwrap env func parent t

/-- `task_func::run`: dispatch to the execution function; an exception it lets out
cancels the task.  `none` when there is no function object to call. -/
def run (env : RunEnv R E C) (t : TaskFunc V R E C S T) : Option (TaskFunc V R E C S T) :=
  t.func.map fun f =>
    match t.call env f with
    | .ok t' => t'
    | .error x => t.cancel x

theorem except_bind_eq_ok {α β : Type} {x : Except E α} {f : α → Except E β} {y : β}
    (h : x.bind f = .ok y) : ∃ a, x = .ok a ∧ f a = .ok y := by
  cases x with
  | error e => cases h
  | ok a => exact ⟨a, rfl, h⟩

theorem except_map_eq_ok {α β : Type} {x : Except E α} {f : α → β} {y : β}
    (h : x.map f = .ok y) : ∃ a, x = .ok a ∧ f a = y := by
  cases x with
  | error e => cases h
  | ok a => exact ⟨a, rfl, Except.ok.inj h⟩

/-- `unwrapped_func` stores a terminal state on every path (the child's result, its
exception, or the exception of copying its result), and only appends to the effects. -/
theorem unwrappedFunc_spec (child : Outcome R E) (copy : Option E) (t : TaskFunc V R E C S T) :
    isFinished (unwrappedFunc child copy t).state = true ∧
      t.effects <+: (unwrappedFunc child copy t).effects := by
  cases child with
  | completed r => cases copy <;> simp [unwrappedFunc, setResult, finish, cancelBase]
  | canceled e => simp [unwrappedFunc, cancelBase]

/-- `unwrapped_finish` leaves the task `unwrapped`, or finished when `then` threw or
the forwarding ran at once, and only appends to the effects. -/
theorem unwrappedFinish_spec (env : RunEnv R E C) (child : C) (t : TaskFunc V R E C S T) :
    ((t.unwrappedFinish env child).state = .unwrapped ∨
      isFinished (t.unwrappedFinish env child).state = true) ∧
      t.effects <+: (t.unwrappedFinish env child).effects := by
  unfold unwrappedFinish
  dsimp only
  split
  · simp [cancelBase]
  · simp
  · exact ⟨.inr (unwrappedFunc_spec _ _ _).1,
      List.IsPrefix.trans (by simp) (unwrappedFunc_spec _ _ _).2⟩

theorem complete_eq_ok {move : Option E} {r : R} {t t' : TaskFunc V R E C S T}
    (h : t.complete move r = .ok t') : move = none ∧ t' = (t.putResult r).destroyFunc.finish := by
  cases move with
  | some x => cases h
  | none => exact ⟨rfl, (Except.ok.inj h).symm⟩

/-- What a continuation's execution function can end in without throwing: the
propagation of its parent's exception, or its tail after the callable returned. -/
theorem continuationExec_eq_ok {α : Type}
    {tail : α → TaskFunc V R E C S T → Except E (TaskFunc V R E C S T)}
    {func : ContFunc V E α} {parent : Outcome V E} {t t' : TaskFunc V R E C S T}
    (h : continuationExec tail func parent t = .ok t') :
    (∃ e, t' = t.cancel e) ∨ ∃ a, tail a t = .ok t' := by
  cases func <;> cases parent <;> simp only [continuationExec, Except.ok.injEq] at h
  all_goals first
    | exact .inl ⟨_, h.symm⟩
    | exact .inr (let ⟨a, _, tail⟩ := except_bind_eq_ok h; ⟨a, tail⟩)

/-- What an execution function can end in without throwing: its task canceled with
its parent's exception, completed with a result, or handed to `unwrapped_finish`. -/
theorem call_eq_ok {env : RunEnv R E C} {f : ExecFunc V R E C} {t t' : TaskFunc V R E C S T}
    (h : t.call env f = .ok t') :
    (∃ e, t' = t.cancel e) ∨ (∃ r, t.complete env.move r = .ok t') ∨
      ∃ child, t' = t.unwrappedFinish env child := by
  cases f with
  | root func =>
      obtain ⟨r, _, completed⟩ := except_bind_eq_ok h
      exact .inr (.inl ⟨r, completed⟩)
  | rootUnwrap func =>
      obtain ⟨child, _, finished⟩ := except_map_eq_ok h
      exact .inr (.inr ⟨child, finished.symm⟩)
  | continuation func parent =>
      exact (continuationExec_eq_ok h).imp_right fun ⟨r, completed⟩ => .inl ⟨r, completed⟩
  | continuationUnwrap func parent =>
      simp only [call, continuationExecFuncUnwrap] at h
      exact (continuationExec_eq_ok h).imp_right fun ⟨child, finished⟩ =>
        .inr ⟨child, (Except.ok.inj finished).symm⟩

/-- What `task_func::run` can end in: its task canceled, completed with a result, or
handed to `unwrapped_finish`. -/
theorem run_eq_some {env : RunEnv R E C} {t t' : TaskFunc V R E C S T}
    (ran : t.run env = some t') :
    (∃ e, t' = t.cancel e) ∨ (∃ r, t.complete env.move r = .ok t') ∨
      ∃ child, t' = t.unwrappedFinish env child := by
  obtain ⟨f, -, rfl⟩ := Option.map_eq_some'.mp ran
  split
  · next called => exact call_eq_ok called
  · exact .inl ⟨_, rfl⟩

/-- `task_func::run` stores a state other than `pending` whichever way it ends, and
only appends to the effects. -/
theorem run_spec {env : RunEnv R E C} {t t' : TaskFunc V R E C S T}
    (ran : t.run env = some t') : t'.state ≠ .pending ∧ t.effects <+: t'.effects := by
  rcases run_eq_some ran with ⟨e, rfl⟩ | ⟨r, completed⟩ | ⟨child, rfl⟩
  · simp [cancel, cancelBase]
  · obtain ⟨-, rfl⟩ := complete_eq_ok completed
    simp [finish]
  · obtain ⟨state, effects⟩ := unwrappedFinish_spec env child t
    refine ⟨fun pending => ?_, effects⟩
    rcases state with unwrapped | finished <;> simp [pending] at *

end TaskFunc

end AsyncPlusPlus
