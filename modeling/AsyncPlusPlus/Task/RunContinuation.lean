import AsyncPlusPlus.Task.Func

/-!
# Running a single continuation

`task_base::run_continuation` hands a continuation to a scheduler through
`schedule_task`, and is meant to cancel it with the scheduler's exception when
scheduling throws.  The continuation is passed as `std::move(cont)`, so what the
catch block finds in `cont` depends on how `schedule_task` takes it.
-/

namespace AsyncPlusPlus

/-- How `run_continuation` ends. -/
inductive ContinuationRun (T E : Type) where
  /-- `schedule_task` returned: the scheduler has the continuation. -/
  | scheduled
  /-- The catch block canceled this continuation with this exception. -/
  | canceled (cont : T) (x : E)
  /-- The catch block dereferenced a null `task_ptr`, holding this exception. -/
  | nullDereference (x : E)
  deriving DecidableEq, Repr

variable {T E : Type}

/-- Modelled from the specification, as `schedule_task` is defined outside the modelled
headers.  The scheduler contract of section 6 is `schedule(task_ptr)`: the handle is a
parameter taken by value, so passing `std::move(cont)` move-constructs it from the
caller's pointer, which is left null before the scheduler runs.  The result is what
the scheduler does with the task (return or throw) and what is left in the caller's
pointer. -/
def scheduleTask (schedule : T → Except E Unit) (cont : T) : Except E Unit × Option T :=
  (schedule cont, none)

/-- `task_base::run_continuation(sched, std::move(cont))`. -/
def runContinuation (schedule : T → Except E Unit) (cont : T) : ContinuationRun T E :=
  match scheduleTask schedule cont with
  | (.ok (), _) => .scheduled
  | (.error x, cont) =>
      -- `cont->vtable->cancel(cont.get(), std::current_exception())`
      match cont with
      | some cont => .canceled cont x
      | none => .nullDereference x

/-- When the scheduler throws, the catch block of `run_continuation` works on the
moved-from `task_ptr`: it dereferences null and never cancels the continuation. -/
theorem runContinuation_of_schedule_throws {schedule : T → Except E Unit} {cont : T} {x : E}
    (throws : schedule cont = .error x) : runContinuation schedule cont = .nullDereference x := by
  simp [runContinuation, scheduleTask, throws]

theorem runContinuation_of_schedule_returns {schedule : T → Except E Unit} {cont : T}
    (returns : schedule cont = .ok ()) : runContinuation schedule cont = .scheduled := by
  simp [runContinuation, scheduleTask, returns]

/-- A scheduler whose `schedule` throws for continuation 0: the catch block dereferences
the null `task_ptr` instead of canceling the continuation. -/
theorem runContinuation_throwing_scheduler :
    runContinuation (fun _ => (.error 1 : Except Nat Unit)) (0 : Nat) = .nullDereference 1 :=
  runContinuation_of_schedule_throws rfl

end AsyncPlusPlus
