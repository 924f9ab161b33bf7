import AsyncPlusPlus.Task.Protocol
import AsyncPlusPlus.Task.Outcome

/-!
# Forwarding a child's outcome through the continuation protocol

`unwrapped_finish` stores `unwrapped`, destroys the function object, and registers
`unwrapped_func` on the child with `child_task.then(inline_scheduler(), ...)`: an
`add_continuation` on the child, whose terminal transition hands the continuation to
the inline scheduler, which runs it at once.  `unwrappedFinish` takes the whole
registration as one step, `Attach`: it finds the child finished and forwards at once
(`inline`), or it leaves the outer task waiting (`deferred`).

Here the registration and the child's terminal transition interleave as
`Protocol.Step`, the forwarding continuation being the child's only registrant, and
every hand-off of it runs `unwrapped_func` on the outer task.  Each interleaving passes
only through the outer task that `Attach.deferred` leaves and, once it has forwarded,
the one that `Attach.inline` leaves; and no interleaving stops before it has
forwarded.
-/

namespace AsyncPlusPlus

open TaskFunc

variable {V R E C S T : Type}

section Moves

variable {S : Type} {n : Nat} {sched contSched : Nat → S} {w w' : Protocol.World S}

/-- A step of the protocol hands out at most one continuation, and one that does leaves
the parent's state alone. -/
theorem Protocol.Step.handOffs_eq (step : Protocol.Step n sched contSched w w') :
    w'.handOffs = w.handOffs ∨
      ∃ h, w'.handOffs = w.handOffs ++ [h] ∧ w'.state = w.state := by
  cases step <;> simp

/-- Only the executor's own stores change the parent's state. -/
theorem Protocol.Step.state_cases (step : Protocol.Step n sched contSched w w') :
    w'.state = w.state ∨ w'.state = .unwrapped ∨ w.executor = .running := by
  cases step <;> simp_all

end Moves

/-- `inline_scheduler()`, on which the forwarding continuation is registered and run. -/
def inlineScheduler : Nat → Unit := fun _ => ()

/-- The child's side of the continuation protocol, with the registration in
`unwrapped_finish` as its only registrant, and the outer task. -/
structure Forwarding (V R E C S T : Type) where
  child : Protocol.World Unit
  outer : TaskFunc V R E C S T

namespace Forwarding

variable (o : Outcome R E)

/-- One atomic step of the child or of the registration; the child ends with `o`. -/
inductive Step : Forwarding V R E C S T → Forwarding V R E C S T → Prop where
  /-- A step that hands nothing out; a terminal store of the child stores `o`'s state. -/
  | quiet {f : Forwarding V R E C S T} {w : Protocol.World Unit} :
      Protocol.Step 1 inlineScheduler inlineScheduler f.child w →
      w.handOffs = f.child.handOffs → (isFinished w.state = true → w.state = o.state) →
      Step f ⟨w, f.outer⟩
  /-- `run_continuation` on the inline scheduler runs the forwarding continuation at
  once: `unwrapped_func` reads `o` from the child, and `copy` is what copying its
  result throws. -/
  | forward {f : Forwarding V R E C S T} {w : Protocol.World Unit} {h : Protocol.HandOff Unit}
      (copy : Option E) :
      Protocol.Step 1 inlineScheduler inlineScheduler f.child w →
      w.handOffs = f.child.handOffs ++ [h] → Step f ⟨w, unwrappedFunc o copy f.outer⟩

/-- From a pending child with the registration about to start, and the outer task as
`unwrapped_finish` leaves it before `then`. -/
inductive Reachable (waiting : TaskFunc V R E C S T) : Forwarding V R E C S T → Prop where
  | initial : Reachable waiting ⟨.initial, waiting⟩
  | step {f f' : Forwarding V R E C S T} : Reachable waiting f → Step o f f' →
      Reachable waiting f'

/-- The outer task has forwarded exactly as often as the child handed out the
forwarding continuation, which is at most once. -/
structure Invariant (waiting : TaskFunc V R E C S T) (f : Forwarding V R E C S T) : Prop where
  child : Protocol.Reachable 1 inlineScheduler inlineScheduler f.child
  terminal : isFinished f.child.state = true → f.child.state = o.state
  outer : Protocol.handedCount f.child.handOffs 0 = 0 ∧ f.outer = waiting ∨
    Protocol.handedCount f.child.handOffs 0 = 1 ∧ ∃ copy, f.outer = unwrappedFunc o copy waiting

variable {o} {waiting : TaskFunc V R E C S T} {f f' : Forwarding V R E C S T}

theorem handedCount_le_one {w : Protocol.World Unit}
    (reach : Protocol.Reachable 1 inlineScheduler inlineScheduler w) :
    Protocol.handedCount w.handOffs 0 ≤ 1 := by
  have copies := reach.invariant.copies 0
  split at copies <;> omega

theorem handedCount_of_stuck {w : Protocol.World Unit}
    (reach : Protocol.Reachable 1 inlineScheduler inlineScheduler w)
    (stuck : ∀ w', ¬ Protocol.Step 1 inlineScheduler inlineScheduler w w') :
    Protocol.handedCount w.handOffs 0 = 1 := by
  have inv := reach.invariant
  obtain ⟨executorDone, registrantDone⟩ := Protocol.done_of_stuck stuck
  have copies := inv.copies 0
  have emptied := inv.emptied (by simp [inv.sealed, executorDone, Protocol.ExecPc.sealed])
  simpa [registrantDone 0 Nat.one_pos, executorDone, emptied, Protocol.ExecPc.rest] using copies

theorem Invariant.step (inv : Invariant o waiting f) (step : Step o f f') :
    Invariant o waiting f' := by
  cases step with
  | quiet moved same finished =>
      exact ⟨inv.child.step moved, finished, by simpa [same] using inv.outer⟩
  | @forward w h copy moved appended =>
      have reach := inv.child.step moved
      have kept : w.state = f.child.state := by
        rcases moved.handOffs_eq with same | ⟨_, _, kept⟩
        · simp [appended] at same
        · exact kept
      have first : h.cont = 0 :=
        Nat.lt_one_iff.mp (reach.invariant.bound_of_handed (by simp [appended]))
      have counted : Protocol.handedCount w.handOffs 0 =
          Protocol.handedCount f.child.handOffs 0 + 1 := by
        simp [appended, first]
      have atMost := handedCount_le_one reach
      refine ⟨reach, kept ▸ inv.terminal,
        .inr ⟨show Protocol.handedCount w.handOffs 0 = 1 by omega, copy, ?_⟩⟩
      rcases inv.outer with ⟨_, rfl⟩ | ⟨once, _⟩
      · rfl
      · omega

theorem Reachable.invariant (reach : Reachable o waiting f) : Invariant o waiting f := by
  induction reach with
  | initial => exact ⟨.initial, by simp [Protocol.World.initial], .inl ⟨rfl, rfl⟩⟩
  | step _ step inductionHypothesis => exact inductionHypothesis.step step

/-- Whatever the protocol can do, the composed system can: the child's terminal store
may store `o`'s state, and a hand-off may forward. -/
theorem Invariant.child_stuck (inv : Invariant o waiting f) (stuck : ∀ f', ¬ Step o f f') :
    ∀ w, ¬ Protocol.Step 1 inlineScheduler inlineScheduler f.child w := by
  intro w moved
  rcases moved.handOffs_eq with same | ⟨_, appended, -⟩
  · rcases moved.state_cases with kept | unwrapped | running
    · exact stuck _ (.quiet moved same fun finished => by
        rw [kept] at finished ⊢
        exact inv.terminal finished)
    · exact stuck _ (.quiet moved same fun finished => by simp [unwrapped] at finished)
    · exact stuck _ (.quiet (.store running o.isFinished_state) rfl fun _ => rfl)
  · exact stuck _ (.forward none moved appended)

/-- Every interleaving of the child's terminal transition with the registration of the
forwarding continuation passes only through the outer task that `unwrapped_finish` with
`Attach.deferred` leaves, and through the one that `Attach.inline` with the child's
outcome leaves, which then shows the forwarded outcome; and an interleaving stops only
once the outer task has forwarded. -/
theorem forwarding_refines_attach {p : TaskFunc V R E C S T} {child : C} {move : Option E}
    (fresh : p.effects = [.store .pending, .initFunc])
    (reach : Reachable o (p.unwrappedFinish ⟨move, fun _ => .deferred⟩ child) f) :
    (f.outer = p.unwrappedFinish ⟨move, fun _ => .deferred⟩ child ∨
      ∃ copy, f.outer = p.unwrappedFinish ⟨move, fun _ => .inline o copy⟩ child ∧
        ForwardedTo f.outer (forwardedOutcome o copy)) ∧
    ((∀ f', ¬ Step o f f') →
      ∃ copy, f.outer = p.unwrappedFinish ⟨move, fun _ => .inline o copy⟩ child) := by
  have inv := reach.invariant
  have shape : UnwrappedShape (p.unwrappedFinish ⟨move, fun _ => .deferred⟩ child) := by
    simp [UnwrappedShape, TaskFunc.unwrappedFinish, fresh]
  refine ⟨?_, fun stuck => ?_⟩
  · rcases inv.outer with ⟨_, deferred⟩ | ⟨_, copy, forwarded⟩
    · exact .inl deferred
    · exact .inr ⟨copy, forwarded, forwarded ▸ forwardedTo_unwrappedFunc shape o copy⟩
  · rcases inv.outer with ⟨never, _⟩ | ⟨_, forwarded⟩
    · have once := handedCount_of_stuck inv.child (inv.child_stuck stuck)
      omega
    · exact forwarded

/-- A root task returns a child that completes with `7` while the registration runs: the
outer task forwards it. -/
theorem child_completes_during_registration :
    ∃ f : Forwarding Nat Nat Nat Nat Nat Nat,
      Reachable (.completed 7)
        ((construct (.rootUnwrap (.ok 0)) none).unwrappedFinish ⟨none, fun _ => .deferred⟩ 0) f ∧
      ∃ copy, f.outer = (construct (.rootUnwrap (.ok 0)) none).unwrappedFinish
        ⟨none, fun _ => .inline (.completed 7) copy⟩ 0 ∧
        ForwardedTo f.outer (forwardedOutcome (.completed 7) copy) := by
  have reach : Reachable (.completed 7)
      ((construct (.rootUnwrap (.ok 0)) none : TaskFunc Nat Nat Nat Nat Nat Nat).unwrappedFinish
        ⟨none, fun _ => .deferred⟩ 0) _ :=
    .step (.step (.step (.step (.step .initial
      (.quiet (.load (i := 0) Nat.one_pos rfl) rfl nofun))
      (.quiet (.store (s := .completed) rfl rfl) rfl fun _ => rfl))
      (.quiet (.tryAdd (i := 0) rfl) rfl fun _ => rfl))
      (.quiet (.lock rfl) rfl fun _ => rfl))
      (.forward none (.schedule (c := 0) rfl (List.mem_singleton_self 0)) rfl)
  obtain ⟨copy, outer, forwarded⟩ :=
    ((forwarding_refines_attach rfl reach).1.resolve_left fun deferred => by
      simp [TaskFunc.unwrappedFinish, unwrappedFunc, setResult, finish, store, destroyFunc,
        runContinuations] at deferred)
  exact ⟨_, reach, copy, outer, forwarded⟩

end Forwarding

end AsyncPlusPlus
