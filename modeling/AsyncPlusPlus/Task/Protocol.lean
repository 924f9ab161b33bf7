import AsyncPlusPlus.Task.Base
import Mathlib.Logic.Function.Basic
import Mathlib.Algebra.BigOperators.Group.Finset

/-!
# Registering continuations against a finishing task

`add_continuation` and the terminal transition of `task_base` (`finish` or
`cancel_base`, each a store of the terminal state followed by
`run_continuations`) run concurrently.  Registrant `i` adds continuation `i`
with the scheduler `sched i`; continuation `i` keeps `contSched i` in its
`sched` member, which `task_func::schedule` reads when the flush hands it out.
Every atomic step of every party is one `Step`, so a run of the system is any
interleaving of them.  Each call of `run_continuation` is recorded as a
`HandOff`, with the parent's state at that moment.
-/

namespace AsyncPlusPlus.Protocol

/-- Where a registrant is inside `add_continuation`. -/
inductive AddPc where
  /-- About to load the parent's state. -/
  | start
  /-- Loaded a state that is not finished; about to call `try_add`. -/
  | tryAdd
  /-- About to run the continuation itself through `run_continuation`. -/
  | direct
  | done
  deriving DecidableEq, Repr

/-- Where the parent's executor is in its terminal transition. -/
inductive ExecPc where
  /-- No terminal state stored yet; the task may still store `unwrapped`. -/
  | running
  /-- Stored `completed` or `canceled`; `run_continuations` is next. -/
  | stored
  /-- Sealed the list; these entries are still to be handed to `schedule`. -/
  | flushing (rest : List Nat)
  | done
  deriving DecidableEq, Repr

/-- The entries a flushing executor still has to hand out. -/
def ExecPc.rest : ExecPc → List Nat
  | .flushing rest => rest
  | _ => []

/-- Whether the executor has already sealed the continuation list. -/
def ExecPc.sealed : ExecPc → Bool
  | .flushing _ | .done => true
  | _ => false

/-- One call of `run_continuation`: the continuation, the scheduler it is handed to,
and the parent's state when it happens. -/
structure HandOff (S : Type) where
  cont : Nat
  sched : S
  parentState : TaskState

structure World (S : Type) where
  /-- The parent's state cell. -/
  state : TaskState
  /-- The parent's continuation list. -/
  continuations : ContinuationVector Nat
  executor : ExecPc
  pc : Nat → AddPc
  handOffs : List (HandOff S)

variable {S : Type} (n : Nat) (sched contSched : Nat → S)

/-- A pending parent with an empty list, before any registrant has started. -/
def World.initial : World S :=
  ⟨.pending, .empty, .running, fun _ => .start, []⟩

/-- How often continuation `i` has been handed to a scheduler. -/
def handedCount (handOffs : List (HandOff S)) (i : Nat) : Nat :=
  (handOffs.map HandOff.cont).count i

@[simp] theorem handedCount_nil (i : Nat) : handedCount ([] : List (HandOff S)) i = 0 := rfl

@[simp] theorem handedCount_append_singleton (handOffs : List (HandOff S)) (h : HandOff S)
    (i : Nat) :
    handedCount (handOffs ++ [h]) i = handedCount handOffs i + if h.cont = i then 1 else 0 := by
  simp [handedCount, List.count_singleton']

/-- Move registrant `i` to `p`. -/
def World.setPc (w : World S) (i : Nat) (p : AddPc) : World S :=
  { w with pc := Function.update w.pc i p }

/-- Record one call of `run_continuation`. -/
def World.handOff (w : World S) (h : HandOff S) : World S :=
  { w with handOffs := w.handOffs ++ [h] }

@[simp] theorem World.setPc_state (w : World S) (i : Nat) (p : AddPc) :
    (w.setPc i p).state = w.state := rfl
@[simp] theorem World.setPc_continuations (w : World S) (i : Nat) (p : AddPc) :
    (w.setPc i p).continuations = w.continuations := rfl
@[simp] theorem World.setPc_executor (w : World S) (i : Nat) (p : AddPc) :
    (w.setPc i p).executor = w.executor := rfl
@[simp] theorem World.setPc_handOffs (w : World S) (i : Nat) (p : AddPc) :
    (w.setPc i p).handOffs = w.handOffs := rfl
@[simp] theorem World.setPc_pc (w : World S) (i j : Nat) (p : AddPc) :
    (w.setPc i p).pc j = if j = i then p else w.pc j := Function.update_apply _ _ _ _

@[simp] theorem World.handOff_state (w : World S) (h : HandOff S) :
    (w.handOff h).state = w.state := rfl
@[simp] theorem World.handOff_continuations (w : World S) (h : HandOff S) :
    (w.handOff h).continuations = w.continuations := rfl
@[simp] theorem World.handOff_executor (w : World S) (h : HandOff S) :
    (w.handOff h).executor = w.executor := rfl
@[simp] theorem World.handOff_pc (w : World S) (h : HandOff S) :
    (w.handOff h).pc = w.pc := rfl
@[simp] theorem World.handOff_handOffs (w : World S) (h : HandOff S) :
    (w.handOff h).handOffs = w.handOffs ++ [h] := rfl

/-- One atomic step of one party. -/
inductive Step : World S → World S → Prop where
  /-- `state.load(std::memory_order_relaxed)` in `add_continuation`. -/
  | load {w : World S} {i : Nat} : i < n → w.pc i = .start →
      Step w (w.setPc i (if isFinished w.state then .direct else .tryAdd))
  /-- `continuations.try_add(std::move(cont))`. -/
  | tryAdd {w : World S} {i : Nat} : w.pc i = .tryAdd →
      Step w ({ w with continuations := (w.continuations.tryAdd i).2 }.setPc i
        (if (w.continuations.tryAdd i).1 then .done else .direct))
  /-- `run_continuation(sched, std::move(cont))` at the end of `add_continuation`. -/
  | direct {w : World S} {i : Nat} : w.pc i = .direct →
      Step w ((w.setPc i .done).handOff ⟨i, sched i, w.state⟩)
  /-- The parent's own `unwrapped_finish` stores `unwrapped`. -/
  | unwrap {w : World S} : w.executor = .running → w.state = .pending →
      Step w { w with state := .unwrapped }
  /-- The store of `completed` in `finish` or of `canceled` in `cancel_base`. -/
  | store {w : World S} {s : TaskState} : w.executor = .running → isFinished s = true →
      Step w { w with state := s, executor := .stored }
  /-- `continuations.flush_and_lock(...)` in `run_continuations`. -/
  | lock {w : World S} : w.executor = .stored →
      Step w { w with continuations := w.continuations.flushAndLock.2,
                      executor := .flushing w.continuations.flushAndLock.1 }
  /-- The flush callback on one entry: `vtable->schedule(this, std::move(t))`, which is
  `task_func::schedule` reading the entry's `sched` and calling `run_continuation`. -/
  | schedule {w : World S} {c : Nat} {rest : List Nat} : w.executor = .flushing rest →
      c ∈ rest →
      Step w ({ w with executor := .flushing (rest.erase c) }.handOff ⟨c, contSched c, w.state⟩)
  /-- `flush_and_lock` returns once every entry has been handed out. -/
  | flushed {w : World S} : w.executor = .flushing [] → Step w { w with executor := .done }

inductive Reachable : World S → Prop where
  | initial : Reachable .initial
  | step {w w' : World S} : Reachable w → Step n sched contSched w w' → Reachable w'

/-- The protocol invariant.  `copies` is the heart of it: a continuation whose
registrant has returned sits in exactly one of the list, the entries the flush
still holds, and the hand-offs; before that it is in none of them. -/
structure Invariant (w : World S) : Prop where
  outside : ∀ i, n ≤ i → w.pc i = .start
  copies : ∀ i,
    w.continuations.entries.count i + w.executor.rest.count i + handedCount w.handOffs i =
      if w.pc i = .done then 1 else 0
  sealed : w.continuations.locked = w.executor.sealed
  emptied : w.continuations.locked = true → w.continuations.entries = []
  running : w.executor = .running ↔ isFinished w.state = false
  direct : ∀ i, w.pc i = .direct → isFinished w.state = true
  handOffs : ∀ h ∈ w.handOffs,
    isFinished h.parentState = true ∧ (h.sched = sched h.cont ∨ h.sched = contSched h.cont)

theorem invariant_initial : Invariant n sched contSched (.initial : World S) where
  outside _ _ := rfl
  copies _ := by simp [World.initial, ExecPc.rest]
  sealed := rfl
  emptied := by simp [World.initial]
  running := by simp [World.initial]
  direct _ h := by simp [World.initial] at h
  handOffs := by simp [World.initial]

variable {n sched contSched}

theorem Invariant.outside_setPc {w : World S} (inv : Invariant n sched contSched w) {i : Nat}
    (bound : i < n) (p : AddPc) : ∀ j, n ≤ j → (w.setPc i p).pc j = .start :=
  fun j far => by simpa [show j ≠ i by omega] using inv.outside j far

theorem Invariant.direct_setPc {w : World S} (inv : Invariant n sched contSched w) {i : Nat}
    {p : AddPc} (finished : p = .direct → isFinished w.state = true) :
    ∀ j, (w.setPc i p).pc j = .direct → isFinished w.state = true := by
  intro j atDirect
  by_cases same : j = i
  · simp only [same, World.setPc_pc, if_true] at atDirect
    exact finished atDirect
  · simpa [same] using inv.direct j (by simpa [same] using atDirect)

/-- Moving a registrant that has not returned to another place before `done`. -/
theorem Invariant.setPc {w : World S} (inv : Invariant n sched contSched w) {i : Nat}
    {p : AddPc} (bound : i < n) (notDone : w.pc i ≠ .done) (stillNotDone : p ≠ .done)
    (finished : p = .direct → isFinished w.state = true) :
    Invariant n sched contSched (w.setPc i p) where
  outside := inv.outside_setPc bound p
  copies j := by
    by_cases same : j = i
    · subst same
      simpa [notDone, stillNotDone] using inv.copies j
    · simpa [same] using inv.copies j
  sealed := inv.sealed
  emptied := inv.emptied
  running := inv.running
  direct := inv.direct_setPc finished
  handOffs := inv.handOffs

theorem Invariant.bound {w : World S} (inv : Invariant n sched contSched w) (i : Nat)
    (moved : w.pc i ≠ .start) : i < n := by
  by_contra far
  exact moved (inv.outside i (by omega))

theorem Invariant.finished_of_ne_running {w : World S} (inv : Invariant n sched contSched w)
    (notRunning : w.executor ≠ .running) : isFinished w.state = true := by
  simpa using mt inv.running.mpr notRunning

theorem invariant_step {w w' : World S} (inv : Invariant n sched contSched w)
    (step : Step n sched contSched w w') : Invariant n sched contSched w' := by
  cases step with
  | @load i bound start =>
      refine inv.setPc bound (by simp [start]) (by split <;> simp) ?_
      split <;> simp_all
  | @tryAdd i atTry =>
      have bound := inv.bound i (by simp [atTry])
      cases sealed : w.continuations.locked
      · simp only [ContinuationVector.tryAdd_of_unlocked sealed, if_true]
        exact {
          outside := inv.outside_setPc bound .done
          copies := fun j => by
            have before := inv.copies j
            by_cases same : j = i
            · subst same
              simp_all [List.count_singleton']
            · simp_all [List.count_singleton', Ne.symm same]
          sealed := by simpa [sealed] using inv.sealed
          emptied := by simp
          running := inv.running
          direct := inv.direct_setPc nofun
          handOffs := inv.handOffs }
      · simp only [ContinuationVector.tryAdd_of_locked sealed, Bool.false_eq_true, if_false]
        refine inv.setPc bound (by simp [atTry]) (by simp) fun _ => ?_
        refine inv.finished_of_ne_running fun running => ?_
        simpa [running, ExecPc.sealed, sealed] using inv.sealed
  | @direct i atDirect =>
      have bound := inv.bound i (by simp [atDirect])
      exact {
        outside := inv.outside_setPc bound .done
        copies := fun j => by
          have before := inv.copies j
          by_cases same : j = i
          · subst same
            simp_all
          · simp_all [Ne.symm same]
        sealed := inv.sealed
        emptied := inv.emptied
        running := inv.running
        direct := inv.direct_setPc nofun
        handOffs := fun h mem => by
          rcases List.mem_append.mp mem with old | new
          · exact inv.handOffs h old
          · simp only [List.mem_singleton] at new
            subst new
            exact ⟨inv.direct i atDirect, .inl rfl⟩ }
  | @unwrap running pending =>
      exact { inv with
        running := by simp [running]
        direct := fun j atDirect => by simpa [pending] using inv.direct j atDirect }
  | @store s running finished =>
      exact { inv with
        copies := fun j => by simpa [running, ExecPc.rest] using inv.copies j
        sealed := by simpa [running, ExecPc.sealed] using inv.sealed
        running := by simp [finished]
        direct := fun _ _ => finished }
  | @lock stored =>
      exact { inv with
        copies := fun j => by
          have before := inv.copies j
          simp only [stored, ExecPc.rest, List.count_nil] at before
          simp [ExecPc.rest, ← before, Nat.add_comm]
        sealed := rfl
        emptied := fun _ => rfl
        running := by
          simpa [stored] using inv.running }
  | @schedule c rest flushing mem =>
      have finished := inv.finished_of_ne_running (by simp [flushing])
      exact {
        outside := inv.outside
        copies := fun j => by
          have before := inv.copies j
          simp only [flushing, ExecPc.rest] at before
          simp only [World.handOff_continuations, World.handOff_executor, World.handOff_pc,
            World.handOff_handOffs, handedCount_append_singleton, ExecPc.rest]
          by_cases same : j = c
          · subst same
            have present := List.count_pos_iff.mpr mem
            simp only [List.count_erase_self, if_true]
            omega
          · simp only [List.count_erase_of_ne same, Ne.symm same, if_false]
            omega
        sealed := by simpa [flushing, ExecPc.sealed] using inv.sealed
        emptied := inv.emptied
        running := by simp [finished]
        direct := fun j atDirect => finished
        handOffs := fun h mem' => by
          rcases List.mem_append.mp mem' with old | new
          · exact inv.handOffs h old
          · simp only [List.mem_singleton] at new
            subst new
            exact ⟨finished, .inr rfl⟩ }
  | @flushed flushing =>
      exact { inv with
        copies := fun j => by simpa [flushing, ExecPc.rest] using inv.copies j
        sealed := by simpa [flushing, ExecPc.sealed] using inv.sealed
        running := by simp [inv.finished_of_ne_running (by simp [flushing])] }

theorem Reachable.invariant {w : World S} (reach : Reachable n sched contSched w) :
    Invariant n sched contSched w := by
  induction reach with
  | initial => exact invariant_initial n sched contSched
  | step _ step inductionHypothesis => exact invariant_step inductionHypothesis step

theorem Invariant.bound_of_handed {w : World S} (inv : Invariant n sched contSched w)
    {h : HandOff S} (mem : h ∈ w.handOffs) : h.cont < n := by
  have counted : 0 < handedCount w.handOffs h.cont :=
    List.count_pos_iff.mpr (List.mem_map_of_mem _ mem)
  have copies := inv.copies h.cont
  refine inv.bound h.cont fun start => ?_
  simp [start] at copies
  omega

/-- Each registrant and the executor can take a step until it is done. -/
theorem done_of_stuck {w : World S} (stuck : ∀ w', ¬ Step n sched contSched w w') :
    w.executor = .done ∧ ∀ i < n, w.pc i = .done := by
  constructor
  · match executing : w.executor with
    | .running => exact absurd (Step.store executing isFinished_completed) (stuck _)
    | .stored => exact absurd (Step.lock executing) (stuck _)
    | .flushing [] => exact absurd (Step.flushed executing) (stuck _)
    | .flushing (c :: rest) =>
        exact absurd (Step.schedule executing (List.mem_cons_self c rest)) (stuck _)
    | .done => rfl
  · intro i bound
    match at_ : w.pc i with
    | .start => exact absurd (Step.load bound at_) (stuck _)
    | .tryAdd => exact absurd (Step.tryAdd at_) (stuck _)
    | .direct => exact absurd (Step.direct at_) (stuck _)
    | .done => rfl

/-- How many steps a registrant may still take. -/
def AddPc.measure : AddPc → Nat
  | .start => 3
  | .tryAdd => 2
  | .direct => 1
  | .done => 0

/-- A bound on the steps the executor may still take: one per entry it will flush. -/
def ExecPc.measure (state : TaskState) (entries : Nat) : ExecPc → Nat
  | .running => entries + if state = .pending then 4 else 3
  | .stored => entries + 2
  | .flushing rest => rest.length + 1
  | .done => 0

/-- The steps the registrants may still take. -/
def pcMeasure (n : Nat) (pc : Nat → AddPc) : Nat :=
  ∑ i in Finset.range n, (pc i).measure

/-- A bound on the steps left in every run from `w`. -/
def World.measure (n : Nat) (w : World S) : Nat :=
  w.executor.measure w.state w.continuations.entries.length + pcMeasure n w.pc

theorem pcMeasure_setPc (w : World S) {i : Nat} (bound : i < n) (p : AddPc) :
    pcMeasure n (w.setPc i p).pc + (w.pc i).measure = pcMeasure n w.pc + p.measure := by
  unfold pcMeasure
  have mem : i ∈ Finset.range n := Finset.mem_range.mpr bound
  have others : ∑ j in (Finset.range n).erase i, ((w.setPc i p).pc j).measure =
      ∑ j in (Finset.range n).erase i, (w.pc j).measure :=
    Finset.sum_congr rfl fun j mem' => by simp [Finset.ne_of_mem_erase mem']
  rw [← Finset.add_sum_erase _ _ mem, ← Finset.add_sum_erase _ _ mem, others]
  simp only [World.setPc_pc, if_true]
  omega

/-- Every step shrinks the measure, so every run of the protocol is finite. -/
theorem Invariant.measure_lt {w w' : World S} (inv : Invariant n sched contSched w)
    (step : Step n sched contSched w w') : w'.measure n < w.measure n := by
  cases step with
  | @load i bound start =>
      have moved := pcMeasure_setPc w bound (if isFinished w.state then .direct else .tryAdd)
      rw [start] at moved
      simp only [World.measure, World.setPc_state, World.setPc_continuations,
        World.setPc_executor]
      cases finished : isFinished w.state <;>
        simp only [finished, Bool.false_eq_true, if_false, if_true, AddPc.measure] at moved ⊢ <;>
        omega
  | @tryAdd i atTry =>
      have moved := pcMeasure_setPc { w with continuations := (w.continuations.tryAdd i).2 }
        (inv.bound i (by simp [atTry])) (if (w.continuations.tryAdd i).1 then .done else .direct)
      simp only [World.measure, World.setPc_state, World.setPc_continuations,
        World.setPc_executor] at moved ⊢
      rw [atTry] at moved
      cases sealed : w.continuations.locked
      · have unsealed : w.executor.sealed = false := inv.sealed ▸ sealed
        simp only [ContinuationVector.tryAdd_of_unlocked sealed, if_true, AddPc.measure,
          List.length_append, List.length_singleton] at moved ⊢
        cases executing : w.executor <;> simp_all [ExecPc.measure, ExecPc.sealed] <;> omega
      · simp only [ContinuationVector.tryAdd_of_locked sealed, Bool.false_eq_true, if_false,
          AddPc.measure] at moved ⊢
        omega
  | @direct i atDirect =>
      have moved := pcMeasure_setPc w (inv.bound i (by simp [atDirect])) .done
      simp only [World.measure, World.handOff_state, World.handOff_continuations,
        World.handOff_executor, World.handOff_pc, World.setPc_state, World.setPc_continuations,
        World.setPc_executor, atDirect, AddPc.measure] at moved ⊢
      omega
  | @unwrap running pending =>
      simp [World.measure, pcMeasure, running, pending, ExecPc.measure]
  | @store s running finished =>
      simp only [World.measure, pcMeasure, running, ExecPc.measure]
      split <;> omega
  | @lock stored => simp [World.measure, pcMeasure, stored, ExecPc.measure]
  | @schedule c rest flushing mem =>
      have shorter := List.length_erase_of_mem mem
      have nonempty := List.length_pos_of_mem mem
      simp only [World.measure, World.handOff_state, World.handOff_continuations,
        World.handOff_executor, World.handOff_pc, pcMeasure, flushing, ExecPc.measure,
        shorter]
      omega
  | @flushed flushing => simp [World.measure, pcMeasure, flushing, ExecPc.measure]

theorem add_continuation_hands_off_once {w : World S} (reach : Reachable n sched contSched w) :
    (∀ i, handedCount w.handOffs i ≤ 1) ∧
    (∀ h ∈ w.handOffs, isFinished h.parentState = true) ∧
    ((∀ i < n, contSched i = sched i) → ∀ h ∈ w.handOffs, h.sched = sched h.cont) ∧
    ((∀ w', ¬ Step n sched contSched w w') → ∀ i < n, handedCount w.handOffs i = 1) ∧
    (∀ w', Step n sched contSched w w' → w'.measure n < w.measure n) := by
  have inv := reach.invariant
  refine ⟨fun i => ?_, fun h mem => (inv.handOffs h mem).1, fun stored h mem => ?_,
    fun stuck i bound => ?_, fun _ step => inv.measure_lt step⟩
  · have copies := inv.copies i
    split at copies <;> omega
  · rcases (inv.handOffs h mem).2 with passed | member
    · exact passed
    · exact member.trans (stored h.cont (inv.bound_of_handed mem))
  · obtain ⟨executorDone, registrantsDone⟩ := done_of_stuck stuck
    have copies := inv.copies i
    have emptied := inv.emptied (by simp [inv.sealed, executorDone, ExecPc.sealed])
    simp [registrantsDone i bound, executorDone, emptied, ExecPc.rest] at copies
    exact copies

/-- One registrant arriving after the parent completed and flushed its empty list: it
hands its continuation to its scheduler itself, and the system then stops. -/
theorem late_registrant_runs_itself :
    ∃ w : World Nat, Reachable 1 (fun _ => 0) (fun _ => 0) w ∧
      (∀ w', ¬ Step 1 (fun _ => 0) (fun _ => 0) w w') ∧ handedCount w.handOffs 0 = 1 := by
  have reach : Reachable 1 (fun _ => 0) (fun _ => (0 : Nat)) _ :=
    .step (.step (.step (.step (.step .initial (.store (s := .completed) rfl rfl)) (.lock rfl))
      (.flushed rfl)) (.load (i := 0) (by decide) rfl)) (.direct (i := 0) rfl)
  refine ⟨_, reach, ?stuck,
    (add_continuation_hands_off_once reach).2.2.2.1 ?stuck 0 (by decide)⟩
  intro w' step
  cases step with
  | load bound start =>
      obtain rfl : _ = 0 := Nat.lt_one_iff.mp bound
      simp [World.setPc] at start
  | tryAdd atTry =>
      simp only [World.setPc, World.handOff, Function.update_apply] at atTry
      split at atTry <;> cases atTry
  | direct atDirect =>
      simp only [World.setPc, World.handOff, Function.update_apply] at atDirect
      split at atDirect <;> cases atDirect
  | unwrap running | store running => simp [World.setPc, World.handOff] at running
  | lock stored => simp [World.setPc, World.handOff] at stored
  | schedule flushing | flushed flushing => simp [World.setPc, World.handOff] at flushing

end AsyncPlusPlus.Protocol
