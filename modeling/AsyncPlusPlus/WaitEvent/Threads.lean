import AsyncPlusPlus.WaitEvent
import Mathlib.Algebra.BigOperators.Group.Finset
import Mathlib.Logic.Relation

/-!
# `task_wait_event` across threads

The calls of `task_wait_event` as threads run them, one statement at a time.  Each call
constructs a lock on `mutex()` and reads or writes `event_mask` only while it holds it;
`wait()` sleeps in `cond().wait(lock)`, which releases the mutex and blocks in one step
and returns only once it has the mutex back, after a `cond().notify_one()` or a spurious
wake-up.  `wait()` and `try_wait()` read the mask into `result` in one statement and
write it in the next, so a thread can be preempted between the two.  A `World` holds the
event, the thread holding the mutex, where every thread is with what it has read, and
the whole calls in the order they took effect on the mask; one `Step` is one statement
of one thread, so a run is any interleaving of the threads.

The whole-call model of the parent module is the abstract level: every interleaving is
a run of whole calls, because at most one thread is ever between a lock and its release,
so that what a thread has read from the mask is still what the mask holds when it writes
it back.
Over it come the two facts the mutex and the condition variable are there for: no thread
sleeps beside a pending event once the calls in progress have run, and a thread that
destroys the event as soon as its `wait()` returns never frees the mutex or the condition
variable under a thread still inside `signal`, the use-after-free the comment in `signal`
guards against by notifying before it unlocks.
-/

namespace AsyncPlusPlus.TaskWaitEvent

theorem Run.snoc {ev ev' ev'' : TaskWaitEvent} {calls : List Call} {c : Call}
    (run : Run ev calls ev') (step : Step ev' c ev'') : Run ev (calls ++ [c]) ev'' := by
  induction run with
  | nil => exact .cons step .nil
  | cons first _ inductionHypothesis => exact .cons first (inductionHypothesis step)

theorem Run.initialized {ev ev' : TaskWaitEvent} {calls : List Call} (run : Run ev calls ev')
    (ready : ev.initialized = true) : ev'.initialized = true := by
  induction run with
  | nil => exact ready
  | cons step _ inductionHypothesis => exact inductionHypothesis step.initialized

/-- `~task_wait_event()`: the mutex and the condition variable are destroyed. -/
def destroy (ev : TaskWaitEvent) : TaskWaitEvent := { ev with initialized := false }

namespace Threads

/-- Where a thread is in the calls of `task_wait_event`. -/
inductive Pc where
  /-- In none of the calls. -/
  | idle
  /-- In `wait()`, blocked on `mutex()`: constructing the `unique_lock`, or taking the
  mutex back inside `cond().wait(lock)`. -/
  | waitLock
  /-- In `wait()`, holding the mutex: `while (event_mask == 0)` is next. -/
  | waitTest
  /-- In `wait()`, asleep in `cond().wait(lock)` with the mutex released. -/
  | waitSleep
  /-- In `wait()`, holding the mutex, out of the loop: `int result = event_mask;` is
  next. -/
  | waitRead
  /-- In `wait()`, holding the mutex, having read `result`: `event_mask = 0;` is next. -/
  | waitClear (result : BitVec 32)
  /-- In `try_wait(event)`, constructing the `lock_guard`. -/
  | tryWaitLock (event : BitVec 32)
  /-- In `try_wait(event)`, holding the mutex: `int result = event_mask & event;` is
  next. -/
  | tryWaitRead (event : BitVec 32)
  /-- In `try_wait(event)`, holding the mutex, having read `result`:
  `event_mask &= ~event;` is next. -/
  | tryWaitClear (event result : BitVec 32)
  /-- In `signal(event)`, constructing the `unique_lock`. -/
  | signalLock (event : BitVec 32)
  /-- In `signal(event)`, holding the mutex: `event_mask |= event` is next. -/
  | signalSet (event : BitVec 32)
  /-- In `signal(event)`, holding the mutex: `cond().notify_one()` is next. -/
  | signalNotify
  /-- In `signal(event)`, holding the mutex: `lock.unlock()` is next. -/
  | signalUnlock
  deriving DecidableEq, Repr

namespace Pc

/-- Where a thread blocked on the mutex goes once it has it. -/
def locked : Pc → Option Pc
  | .waitLock => some .waitTest
  | .tryWaitLock event => some (.tryWaitRead event)
  | .signalLock event => some (.signalSet event)
  | .idle | .waitTest | .waitSleep | .waitRead | .waitClear _ | .tryWaitRead _
  | .tryWaitClear _ _ | .signalSet _ | .signalNotify | .signalUnlock => none

/-- Whether a thread here holds the mutex. -/
def critical : Pc → Bool
  | .waitTest | .waitRead | .waitClear _ | .tryWaitRead _ | .tryWaitClear _ _ | .signalSet _
  | .signalNotify | .signalUnlock => true
  | .idle | .waitLock | .waitSleep | .tryWaitLock _ | .signalLock _ => false

/-- Whether a thread here is inside a call and not asleep. -/
def busy : Pc → Bool
  | .idle | .waitSleep => false
  | .waitLock | .waitTest | .waitRead | .waitClear _ | .tryWaitLock _ | .tryWaitRead _
  | .tryWaitClear _ _ | .signalLock _ | .signalSet _ | .signalNotify | .signalUnlock => true

/-- Whether a thread here is inside `wait()`. -/
def waiting : Pc → Bool
  | .waitLock | .waitTest | .waitSleep | .waitRead | .waitClear _ => true
  | .idle | .tryWaitLock _ | .tryWaitRead _ | .tryWaitClear _ _ | .signalLock _ | .signalSet _
  | .signalNotify | .signalUnlock => false

/-- Whether a thread here will wake a sleeper or read the mask itself: it is about to
call `notify_one`, or awake inside `wait()`. -/
def rouses : Pc → Bool
  | .waitLock | .waitTest | .waitRead | .waitClear _ | .signalNotify => true
  | .idle | .waitSleep | .tryWaitLock _ | .tryWaitRead _ | .tryWaitClear _ _ | .signalLock _
  | .signalSet _ | .signalUnlock => false

/-- What a thread here has read from the mask and not yet written back, as the mask
`mask` has to hold it for the thread's write to be the whole call's: the loop of
`wait()` found the mask nonzero, and `result` is the whole mask in `wait()` and its bits
of `event` in `try_wait(event)`. -/
def Reads : Pc → BitVec 32 → Prop
  | .waitRead, mask => mask ≠ 0
  | .waitClear result, mask => result = mask ∧ mask ≠ 0
  | .tryWaitClear event result, mask => result = mask &&& event
  | .idle, _ | .waitLock, _ | .waitTest, _ | .waitSleep, _ | .tryWaitLock _, _
  | .tryWaitRead _, _ | .signalLock _, _ | .signalSet _, _ | .signalNotify, _
  | .signalUnlock, _ => True

/-- A bound on the statements a thread runs before it leaves its call or sleeps.  A
notification moves a sleeper back to `waitLock`, which costs less than the notifier
gives up on the same statement. -/
def measure : Pc → Nat
  | .idle | .waitSleep => 0
  | .waitClear _ | .tryWaitClear _ _ | .signalUnlock => 1
  | .waitRead | .tryWaitRead _ => 2
  | .waitTest | .tryWaitLock _ => 3
  | .waitLock => 4
  | .signalNotify => 6
  | .signalSet _ => 7
  | .signalLock _ => 8

/-- What taking the mutex does to a thread's position, from `p` to `p'`. -/
structure LockMove (p p' : Pc) : Prop where
  wasFree : p.critical = false
  holds : p'.critical = true
  keepsRousing : p.rouses = true → p'.rouses = true
  busy : p ≠ .idle
  notAsleep : p ≠ .waitSleep
  staysAwake : p' ≠ .waitSleep
  waiting : p'.waiting = p.waiting
  reads : ∀ mask, p'.Reads mask
  smaller : p'.measure < p.measure

theorem locked_spec {p p' : Pc} (locked : p.locked = some p') : LockMove p p' := by
  cases p <;> simp only [Pc.locked, reduceCtorEq, Option.some.injEq] at locked <;> subst locked <;>
    constructor <;> simp [Pc.critical, Pc.rouses, Pc.waiting, Pc.Reads, Pc.measure]

theorem busy_of_critical {p : Pc} (critical : p.critical = true) : p.busy = true := by
  cases p <;> first | rfl | cases critical

theorem busy_of_rouses {p : Pc} (rouses : p.rouses = true) : p.busy = true := by
  cases p <;> first | rfl | cases rouses

theorem locked_of_busy {p : Pc} (busy : p.busy = true) (free : p.critical = false) :
    ∃ p', p.locked = some p' := by
  cases p <;> simp_all [Pc.busy, Pc.critical, Pc.locked]

/-- A thread reads the mask only while it holds the mutex. -/
theorem reads_of_free {p : Pc} (free : p.critical = false) (mask : BitVec 32) : p.Reads mask := by
  cases p <;> trivial

theorem eq_waitSleep {p : Pc} (waiting : p.waiting = true) (idle : p.busy = false) :
    p = .waitSleep := by
  cases p <;> simp_all [Pc.waiting, Pc.busy]

end Pc

/-- The event, the thread holding `mutex()`, where each thread is, and the whole calls
in the order they took effect on the mask: a `wait` or a `try_wait` when it read and
cleared the mask, a `signal` when it set its bits. -/
structure World where
  event : TaskWaitEvent
  holder : Option Nat
  pc : Nat → Pc
  log : List Call

/-- The event just initialized, the mutex free, no thread inside a call. -/
def World.initial : World := ⟨construct.init, none, fun _ => .idle, []⟩

/-- Move thread `t` to `p`. -/
def World.setPc (w : World) (t : Nat) (p : Pc) : World :=
  { w with pc := Function.update w.pc t p }

@[simp] theorem World.setPc_event (w : World) (t : Nat) (p : Pc) :
    (w.setPc t p).event = w.event := rfl
@[simp] theorem World.setPc_holder (w : World) (t : Nat) (p : Pc) :
    (w.setPc t p).holder = w.holder := rfl
@[simp] theorem World.setPc_pc (w : World) (t : Nat) (p : Pc) :
    (w.setPc t p).pc = Function.update w.pc t p := rfl
@[simp] theorem World.setPc_log (w : World) (t : Nat) (p : Pc) :
    (w.setPc t p).log = w.log := rfl

/-! ## Mutual exclusion and wake-ups, over the threads' positions -/

/-- The mutex is held by exactly the thread between a lock and its release. -/
def Exclusive (holder : Option Nat) (pc : Nat → Pc) : Prop :=
  ∀ t, holder = some t ↔ (pc t).critical = true

/-- While a thread sleeps and the mask holds an event, some thread is about to notify or
is awake inside `wait()`. -/
def Awake (pc : Nat → Pc) (mask : BitVec 32) : Prop :=
  (∃ t, pc t = .waitSleep) → mask ≠ 0 → ∃ t, (pc t).rouses = true

/-- What every thread has read from the mask and not yet written back is still what
the mask `mask` holds. -/
def Current (pc : Nat → Pc) (mask : BitVec 32) : Prop :=
  ∀ t, (pc t).Reads mask

/-- A bound on the statements the threads in `threads` run before each has left its
call or sleeps. -/
def pcMeasure (threads : Finset Nat) (pc : Nat → Pc) : Nat :=
  ∑ t in threads, (pc t).measure

section Positions

variable {holder : Option Nat} {pc : Nat → Pc} {mask : BitVec 32} {t : Nat} {p : Pc}

theorem Exclusive.unique (exclusive : Exclusive holder pc) {t t' : Nat}
    (holds : (pc t).critical = true) (holds' : (pc t').critical = true) : t = t' :=
  Option.some.inj (((exclusive t).mpr holds).symm.trans ((exclusive t').mpr holds'))

theorem Exclusive.free_of_ne (exclusive : Exclusive holder pc) (holds : (pc t).critical = true)
    {u : Nat} (other : u ≠ t) : (pc u).critical = false :=
  Bool.eq_false_iff.mpr fun holdsToo => other (exclusive.unique holdsToo holds)

theorem Exclusive.update (exclusive : Exclusive holder pc)
    (same : p.critical = (pc t).critical) : Exclusive holder (Function.update pc t p) := by
  intro u
  by_cases moved : u = t
  · subst moved
    simpa [same] using exclusive u
  · simpa [Function.update_noteq moved] using exclusive u

theorem Exclusive.acquire (exclusive : Exclusive holder pc) (free : holder = none)
    (critical : p.critical = true) : Exclusive (some t) (Function.update pc t p) := by
  intro u
  by_cases moved : u = t
  · subst moved
    simp [critical]
  · simpa [Function.update_noteq moved, Ne.symm moved, free] using exclusive u

theorem Exclusive.release (exclusive : Exclusive holder pc) (holds : (pc t).critical = true)
    (critical : p.critical = false) : Exclusive none (Function.update pc t p) := by
  intro u
  by_cases moved : u = t
  · subst moved
    simp [critical]
  · simp [Function.update_noteq moved, exclusive.free_of_ne holds moved]

theorem Current.of_free (exclusive : Exclusive none pc) : Current pc mask := fun t =>
  Pc.reads_of_free (Bool.eq_false_iff.mpr fun holds => by simpa using (exclusive t).mpr holds) _

/-- A statement that leaves the mask alone keeps every other thread's reads current. -/
theorem Current.update (current : Current pc mask) (fresh : p.Reads mask) :
    Current (Function.update pc t p) mask := by
  intro u
  by_cases moved : u = t
  · subst moved
    simpa using fresh
  · simpa [Function.update_noteq moved] using current u

/-- A statement that writes the mask is the mutex holder's, so no other thread has read
it. -/
theorem Current.write (exclusive : Exclusive holder pc) (holds : (pc t).critical = true)
    {mask' : BitVec 32} (fresh : p.Reads mask') : Current (Function.update pc t p) mask' := by
  intro u
  by_cases moved : u = t
  · subst moved
    simpa using fresh
  · simpa [Function.update_noteq moved] using
      Pc.reads_of_free (exclusive.free_of_ne holds moved) mask'

theorem Awake.update (awake : Awake pc mask) {mask' : BitVec 32}
    (keeps : (pc t).rouses = true → p.rouses = true) (notAsleep : p ≠ .waitSleep)
    (shrinks : mask' ≠ 0 → mask ≠ 0) : Awake (Function.update pc t p) mask' := by
  rintro ⟨s, asleep⟩ pending
  have asleepBefore : pc s = .waitSleep := by
    by_cases moved : s = t
    · subst moved
      simp [notAsleep] at asleep
    · simpa [Function.update_noteq moved] using asleep
  obtain ⟨u, rousing⟩ := awake ⟨s, asleepBefore⟩ (shrinks pending)
  by_cases moved : u = t
  · subst moved
    exact ⟨u, by simpa using keeps rousing⟩
  · exact ⟨u, by simpa [Function.update_noteq moved] using rousing⟩

theorem Awake.of_zero (zero : mask = 0) : Awake pc mask :=
  fun _ pending => absurd zero pending

theorem Awake.of_rouses (rousing : p.rouses = true) : Awake (Function.update pc t p) mask :=
  fun _ _ => ⟨t, by simpa using rousing⟩

theorem Awake.of_none_asleep (none : ∀ s, pc s ≠ .waitSleep) (notAsleep : p ≠ .waitSleep) :
    Awake (Function.update pc t p) mask := by
  rintro ⟨s, asleep⟩
  by_cases moved : s = t
  · subst moved
    simp [notAsleep] at asleep
  · exact absurd (by simpa [Function.update_noteq moved] using asleep) (none s)

/-- With no thread busy, no thread sleeps beside a pending event. -/
theorem Awake.none_asleep (awake : Awake pc mask) (quiet : ∀ t, (pc t).busy = false)
    (pending : mask ≠ 0) (t : Nat) : pc t ≠ .waitSleep := fun asleep => by
  obtain ⟨u, rousing⟩ := awake ⟨t, asleep⟩ pending
  exact absurd (quiet u) (by simp [Pc.busy_of_rouses rousing])

theorem pcMeasure_update (threads : Finset Nat) (pc : Nat → Pc) (mem : t ∈ threads) (p : Pc) :
    pcMeasure threads (Function.update pc t p) + (pc t).measure =
      pcMeasure threads pc + p.measure := by
  unfold pcMeasure
  rw [Finset.sum_eq_add_sum_diff_singleton mem (fun u => (pc u).measure)]
  simp only [Function.apply_update (fun _ => Pc.measure), Finset.sum_update_of_mem mem]
  omega

theorem pcMeasure_update_lt {threads : Finset Nat} (mem : t ∈ threads)
    (smaller : p.measure < (pc t).measure) :
    pcMeasure threads (Function.update pc t p) < pcMeasure threads pc := by
  have moved := pcMeasure_update threads pc mem p
  omega

end Positions

/-! ## Threads -/

variable (n : Nat)

/-- One statement of thread `t`; threads `t < n` may call, the others never do. -/
inductive Step : World → Nat → World → Prop where
  /-- A thread outside the calls calls `wait()`, `try_wait(event)` or `signal(event)`;
  each begins by locking `mutex()`. -/
  | call {w : World} {t : Nat} {p : Pc} : t < n → w.pc t = .idle → p.locked.isSome = true →
      Step w t (w.setPc t p)
  /-- The lock returns: the mutex was free and is now the thread's. -/
  | lock {w : World} {t : Nat} {p : Pc} : w.holder = none → (w.pc t).locked = some p →
      Step w t { w.setPc t p with holder := some t }
  /-- `while (event_mask == 0) cond().wait(lock);` with no event: the thread releases
  the mutex and sleeps, in one step.  The test and the sleep can be one step because the
  thread holds the mutex in between, and the other threads write the mask and notify only
  under it. -/
  | sleep {w : World} {t : Nat} : w.pc t = .waitTest → w.event.eventMask = 0 →
      Step w t { w.setPc t .waitSleep with holder := none }
  /-- `while (event_mask == 0)` with an event: the loop ends. -/
  | found {w : World} {t : Nat} : w.pc t = .waitTest → w.event.eventMask ≠ 0 →
      Step w t (w.setPc t .waitRead)
  /-- `int result = event_mask;` -/
  | read {w : World} {t : Nat} : w.pc t = .waitRead →
      Step w t (w.setPc t (.waitClear w.event.eventMask))
  /-- `event_mask = 0; return result;`, and the `unique_lock` releases the mutex: the
  call takes effect, returning `result`. -/
  | clear {w : World} {t : Nat} {result : BitVec 32} : w.pc t = .waitClear result →
      Step w t { w.setPc t .idle with
        event := { w.event with eventMask := 0 }, holder := none,
        log := w.log ++ [.wait result] }
  /-- `cond().wait(lock)` wakes up without a notification; it must take the mutex back
  before it returns. -/
  | wake {w : World} {t : Nat} : w.pc t = .waitSleep → Step w t (w.setPc t .waitLock)
  /-- `int result = event_mask & event;` -/
  | tryRead {w : World} {t : Nat} {event : BitVec 32} : w.pc t = .tryWaitRead event →
      Step w t (w.setPc t (.tryWaitClear event (w.event.eventMask &&& event)))
  /-- `event_mask &= ~event; return result != 0;`, and the `lock_guard` releases the
  mutex: the call takes effect. -/
  | tryClear {w : World} {t : Nat} {event result : BitVec 32} :
      w.pc t = .tryWaitClear event result →
      Step w t { w.setPc t .idle with
        event := { w.event with eventMask := w.event.eventMask &&& ~~~event }, holder := none,
        log := w.log ++ [.tryWait event (result != 0)] }
  /-- `event_mask |= event;`: the call takes effect. -/
  | signal {w : World} {t : Nat} {event : BitVec 32} : w.pc t = .signalSet event →
      Step w t { w.setPc t .signalNotify with
        event := { w.event with eventMask := w.event.eventMask ||| event },
        log := w.log ++ [.signal event] }
  /-- `cond().notify_one();` with thread `s` asleep: it leaves `cond().wait(lock)` and
  waits for the mutex. -/
  | notify {w : World} {t s : Nat} : w.pc t = .signalNotify → w.pc s = .waitSleep →
      Step w t ((w.setPc t .signalUnlock).setPc s .waitLock)
  /-- `cond().notify_one();` with no thread asleep. -/
  | notifyNone {w : World} {t : Nat} : w.pc t = .signalNotify → (∀ s, w.pc s ≠ .waitSleep) →
      Step w t (w.setPc t .signalUnlock)
  /-- `lock.unlock();` -/
  | unlock {w : World} {t : Nat} : w.pc t = .signalUnlock →
      Step w t { w.setPc t .idle with holder := none }

inductive Reachable : World → Prop where
  | initial : Reachable .initial
  | step {w w' : World} {t : Nat} : Reachable w → Step n w t w' → Reachable w'

structure Invariant (w : World) : Prop where
  outside : ∀ t, n ≤ t → w.pc t = .idle
  exclusive : Exclusive w.holder w.pc
  awake : Awake w.pc w.event.eventMask
  current : Current w.pc w.event.eventMask
  run : Run construct.init w.log w.event

theorem exclusive_initial : Exclusive World.initial.holder World.initial.pc := fun _ => by
  simp [World.initial, Pc.critical]

theorem invariant_initial : Invariant n .initial where
  outside _ _ := rfl
  exclusive := exclusive_initial
  awake := Awake.of_zero rfl
  current := Current.of_free exclusive_initial
  run := .nil

variable {n} {w w' : World} {t : Nat}

theorem bound_of_ne_idle (outside : ∀ u, n ≤ u → w.pc u = .idle) (moving : w.pc t ≠ .idle) :
    t < n :=
  Nat.lt_of_not_le fun outsider => moving (outside t outsider)

theorem outside_update {pc : Nat → Pc} (outside : ∀ u, n ≤ u → pc u = .idle) (bound : t < n)
    (p : Pc) : ∀ u, n ≤ u → Function.update pc t p u = .idle := fun u outsider => by
  rw [Function.update_noteq (by omega)]
  exact outside u outsider

theorem Step.outside (step : Step n w t w') (outside : ∀ u, n ≤ u → w.pc u = .idle) :
    ∀ u, n ≤ u → w'.pc u = .idle := by
  have moving : ∀ {p}, w.pc t ≠ .idle → ∀ u, n ≤ u → Function.update w.pc t p u = .idle :=
    fun busy => outside_update outside (bound_of_ne_idle outside busy) _
  cases step with
  | call bound _ _ => exact outside_update outside bound _
  | lock _ locked => exact moving (Pc.locked_spec locked).busy
  | sleep at_ _ | found at_ _ | read at_ | clear at_ | wake at_ | tryRead at_ | tryClear at_
  | signal at_ | notifyNone at_ _ | unlock at_ => exact moving (by simp [at_])
  | notify at_ asleep =>
      exact outside_update (moving (by simp [at_])) (bound_of_ne_idle outside (by simp [asleep])) _

theorem Step.exclusive (step : Step n w t w') (exclusive : Exclusive w.holder w.pc) :
    Exclusive w'.holder w'.pc := by
  cases step with
  | call _ idle entry =>
      obtain ⟨_, locked⟩ := Option.isSome_iff_exists.mp entry
      exact exclusive.update (by rw [idle, (Pc.locked_spec locked).wasFree]; rfl)
  | lock free locked => exact exclusive.acquire free (Pc.locked_spec locked).holds
  | sleep at_ _ | clear at_ | tryClear at_ | unlock at_ =>
      exact exclusive.release (by rw [at_]; rfl) rfl
  | found at_ _ | read at_ | wake at_ | tryRead at_ | signal at_ | notifyNone at_ _ =>
      exact exclusive.update (by rw [at_]; rfl)
  | @notify s at_ asleep =>
      have other : s ≠ t := fun same => by rw [same, at_] at asleep; cases asleep
      exact (exclusive.update (by rw [at_]; rfl)).update
        (by rw [Function.update_noteq other, asleep]; rfl)

theorem Step.awake (step : Step n w t w') (awake : Awake w.pc w.event.eventMask) :
    Awake w'.pc w'.event.eventMask := by
  cases step with
  | call _ idle entry =>
      obtain ⟨_, locked⟩ := Option.isSome_iff_exists.mp entry
      exact awake.update (by simp [idle, Pc.rouses]) (Pc.locked_spec locked).notAsleep id
  | lock _ locked =>
      exact awake.update (Pc.locked_spec locked).keepsRousing (Pc.locked_spec locked).staysAwake id
  | sleep _ zero => exact Awake.of_zero zero
  | clear _ => exact Awake.of_zero rfl
  | found at_ _ | read at_ | wake at_ | tryRead at_ | unlock at_ =>
      exact awake.update (by simp [at_, Pc.rouses]) nofun id
  | tryClear at_ =>
      exact awake.update (by simp [at_, Pc.rouses]) nofun
        fun pending zero => pending (by simp [zero])
  | signal _ | notify _ _ => exact Awake.of_rouses rfl
  | notifyNone _ none => exact Awake.of_none_asleep none (by decide)

/-- A thread reads the mask only under the mutex and writes it back before it lets the
mutex go, so no other thread's write comes between its read and its write. -/
theorem Step.current (step : Step n w t w') (exclusive : Exclusive w.holder w.pc)
    (current : Current w.pc w.event.eventMask) : Current w'.pc w'.event.eventMask := by
  cases step with
  | call _ idle entry =>
      obtain ⟨_, locked⟩ := Option.isSome_iff_exists.mp entry
      exact current.update (Pc.reads_of_free (Pc.locked_spec locked).wasFree _)
  | lock _ locked => exact current.update ((Pc.locked_spec locked).reads _)
  | sleep _ _ | wake _ | notifyNone _ _ | unlock _ => exact current.update trivial
  | found _ nonzero => exact current.update nonzero
  | read at_ => exact current.update ⟨rfl, by simpa [at_, Pc.Reads] using current t⟩
  | tryRead _ => exact current.update rfl
  | clear at_ | tryClear at_ | signal at_ =>
      exact Current.write exclusive (by rw [at_]; rfl) trivial
  | notify _ _ => exact (current.update (p := .signalUnlock) trivial).update trivial

/-- Each statement either leaves the mask and the log alone or is the one point at which a
whole call takes effect, with the result it read from the mask still current. -/
theorem Step.run (step : Step n w t w') (current : Current w.pc w.event.eventMask)
    (run : Run construct.init w.log w.event) : Run construct.init w'.log w'.event := by
  have ready := run.initialized rfl
  cases step with
  | @clear result at_ =>
      obtain ⟨read, pending⟩ : result = w.event.eventMask ∧ w.event.eventMask ≠ 0 := by
        simpa [at_, Pc.Reads] using current t
      exact run.snoc (.wait ready (wait_eq_some.mpr ⟨pending, read, rfl⟩))
  | @tryClear event result at_ =>
      have read : result = w.event.eventMask &&& event := by simpa [at_, Pc.Reads] using current t
      have whole := Step.tryWait event ready
      rw [tryWait_fst, tryWait_snd, ← read] at whole
      exact run.snoc whole
  | signal _ => exact run.snoc (.signal _ ready)
  | call _ _ _ | lock _ _ | sleep _ _ | found _ _ | read _ | wake _ | tryRead _ | notify _ _
  | notifyNone _ _ | unlock _ => exact run

theorem Step.initialized_eq (step : Step n w t w') :
    w'.event.initialized = w.event.initialized := by
  cases step <;> rfl

/-- A statement of a busy thread shrinks the measure of any set of threads that holds
every thread inside a call. -/
theorem Step.measure_lt {threads : Finset Nat} (step : Step n w t w')
    (busy : (w.pc t).busy = true) (covers : ∀ u, w.pc u ≠ .idle → u ∈ threads) :
    pcMeasure threads w'.pc < pcMeasure threads w.pc := by
  cases step with
  | call _ at_ _ | wake at_ => simp [at_, Pc.busy] at busy
  | lock _ locked =>
      exact pcMeasure_update_lt (covers t (Pc.locked_spec locked).busy) (Pc.locked_spec locked).smaller
  | sleep at_ _ | found at_ _ | read at_ | clear at_ | tryRead at_ | tryClear at_ | signal at_
  | notifyNone at_ _ | unlock at_ =>
      exact pcMeasure_update_lt (covers t (by simp [at_])) (by simp [at_, Pc.measure])
  | @notify s at_ asleep =>
      have other : s ≠ t := fun same => by rw [same, at_] at asleep; cases asleep
      have notifier := pcMeasure_update threads w.pc (covers t (by simp [at_])) .signalUnlock
      have sleeper := pcMeasure_update threads (Function.update w.pc t .signalUnlock)
        (covers s (by simp [asleep])) .waitLock
      rw [Function.update_noteq other, asleep] at sleeper
      simp only [at_, Pc.measure] at notifier sleeper
      show pcMeasure threads (Function.update (Function.update w.pc t .signalUnlock) s .waitLock) < _
      omega

/-- Some busy thread can always run its next statement: the holder of the mutex, or, with
the mutex free, any busy thread, which is then blocked on it. -/
theorem Exclusive.progress (exclusive : Exclusive w.holder w.pc) (busy : (w.pc t).busy = true) :
    ∃ t w', (w.pc t).busy = true ∧ Step n w t w' := by
  cases holding : w.holder with
  | none =>
      have free : (w.pc t).critical = false := by simpa [holding] using exclusive t
      obtain ⟨_, locked⟩ := Pc.locked_of_busy busy free
      exact ⟨t, _, busy, .lock holding locked⟩
  | some h =>
      have critical := (exclusive h).mp holding
      obtain ⟨w', step⟩ : ∃ w', Step n w h w' := by
        cases at_ : w.pc h with
        | waitTest =>
            by_cases zero : w.event.eventMask = 0
            · exact ⟨_, .sleep at_ zero⟩
            · exact ⟨_, .found at_ zero⟩
        | waitRead => exact ⟨_, .read at_⟩
        | waitClear _ => exact ⟨_, .clear at_⟩
        | tryWaitRead _ => exact ⟨_, .tryRead at_⟩
        | tryWaitClear _ _ => exact ⟨_, .tryClear at_⟩
        | signalSet _ => exact ⟨_, .signal at_⟩
        | signalNotify =>
            by_cases asleep : ∃ s, w.pc s = .waitSleep
            · obtain ⟨s, asleep⟩ := asleep
              exact ⟨_, .notify at_ asleep⟩
            · exact ⟨_, .notifyNone at_ (not_exists.mp asleep)⟩
        | signalUnlock => exact ⟨_, .unlock at_⟩
        | idle | waitLock | waitSleep | tryWaitLock _ | signalLock _ =>
            simp [at_, Pc.critical] at critical
      exact ⟨h, w', Pc.busy_of_critical critical, step⟩

theorem Invariant.step (inv : Invariant n w) (step : Step n w t w') : Invariant n w' :=
  ⟨step.outside inv.outside, step.exclusive inv.exclusive, step.awake inv.awake,
    step.current inv.exclusive inv.current, step.run inv.current inv.run⟩

theorem Reachable.invariant (reach : Reachable n w) : Invariant n w := by
  induction reach with
  | initial => exact invariant_initial n
  | step _ step inductionHypothesis => exact inductionHypothesis.step step

/-- Every interleaving of the threads' statements is a sequence of whole calls: the
calls, with the results their threads read from the mask, in the order they took effect,
are a run of the whole-call model from the initialized event to the event as it is now;
and whatever a thread has read from the mask and not yet written back is still what the
mask holds. -/
theorem interleavings_linearize (reach : Reachable n w) :
    Run construct.init w.log w.event ∧ Current w.pc w.event.eventMask :=
  ⟨reach.invariant.run, reach.invariant.current⟩

/-- Thread 1 calls `signal(1)` while thread 0 is blocked on the mutex in `wait()`; thread 0
then reads the mask and clears it: its `wait()` returns `1`, after the signal. -/
theorem wait_reads_signal :
    ∃ w, Reachable 2 w ∧ w.log = [.signal 1, .wait 1] ∧ Run construct.init w.log w.event := by
  have reach : Reachable 2 _ :=
    .step (.step (.step (.step (.step (.step (.step (.step (.step (.step .initial
      (.call (t := 0) (p := .waitLock) (by decide) rfl rfl))
      (.call (t := 1) (p := .signalLock 1) (by decide) rfl rfl)) (.lock (t := 1) rfl rfl))
      (.signal (t := 1) rfl)) (.notifyNone (t := 1) rfl fun s => by
        simp only [World.setPc, World.initial, Function.update_apply]
        split_ifs <;> nofun))
      (.unlock (t := 1) rfl)) (.lock (t := 0) rfl rfl)) (.found (t := 0) rfl (by decide)))
      (.read (t := 0) rfl)) (.clear (t := 0) rfl)
  exact ⟨_, reach, rfl, (interleavings_linearize reach).1⟩

/-- No lost wake-up: in every reachable world some busy thread can run while any is busy,
each statement of a busy thread shrinks the measure, and once no thread is busy, no thread
sleeps while the mask holds an event. -/
theorem no_lost_wakeup (reach : Reachable n w) :
    ((∃ t, (w.pc t).busy = true) → ∃ t w', (w.pc t).busy = true ∧ Step n w t w') ∧
    (∀ t w', Step n w t w' → (w.pc t).busy = true →
      pcMeasure (Finset.range n) w'.pc < pcMeasure (Finset.range n) w.pc) ∧
    ((∀ t, (w.pc t).busy = false) → w.event.eventMask ≠ 0 → ∀ t, w.pc t ≠ .waitSleep) := by
  have inv := reach.invariant
  exact ⟨fun ⟨_, busy⟩ => inv.exclusive.progress busy,
    fun _ _ step busy => step.measure_lt busy
      fun _ moving => Finset.mem_range.mpr (bound_of_ne_idle inv.outside moving),
    inv.awake.none_asleep⟩

/-- Thread 0 sleeps in `wait()` and thread 1 has just set the mask in `signal(1)`: a busy
thread can go on. -/
theorem sleeper_then_signal :
    ∃ w, Reachable 2 w ∧ w.pc 0 = .waitSleep ∧ ∃ t w', (w.pc t).busy = true ∧ Step 2 w t w' := by
  have reach : Reachable 2 _ :=
    .step (.step (.step (.step (.step (.step .initial
      (.call (t := 0) (p := .waitLock) (by decide) rfl rfl)) (.lock (t := 0) rfl rfl))
      (.sleep (t := 0) rfl rfl)) (.call (t := 1) (p := .signalLock 1) (by decide) rfl rfl))
      (.lock (t := 1) rfl rfl)) (.signal (t := 1) rfl)
  exact ⟨_, reach, rfl, (no_lost_wakeup reach).1 ⟨1, rfl⟩⟩

/-! ## Destroying the event after `wait()` -/

section Handoff

variable (owner signaler : Nat) (event : BitVec 32)

/-- The owner in `wait()` and the signaler in `signal(event)`, both before their lock,
every other thread outside the calls, and the event just initialized. -/
def World.handoff : World :=
  ⟨construct.init, none,
    Function.update (Function.update (fun _ => .idle) owner .waitLock) signaler
      (.signalLock event), []⟩

/-- The race the comment in `signal` guards against: the two threads go on with their
calls and no thread starts another (`Step 0`), and the owner destroys the event once its
`wait()` has returned. -/
inductive HandoffStep : World → World → Prop where
  | thread {w w' : World} {t : Nat} : Step 0 w t w' → HandoffStep w w'
  | destroy {w : World} : w.pc owner = .idle → w.event.initialized = true →
      HandoffStep w { w with event := w.event.destroy }

/-- For the signaler of a handoff, whether it is past `event_mask |= event`. -/
def signaled : Pc → Bool
  | .signalNotify | .signalUnlock | .idle => true
  | .waitLock | .waitTest | .waitSleep | .waitRead | .waitClear _ | .tryWaitLock _
  | .tryWaitRead _ | .tryWaitClear _ _ | .signalLock _ | .signalSet _ => false

/-- Where the two threads of a handoff can be, and the mask and the log that go with
their positions. -/
structure HandoffShape (w : World) : Prop where
  others : ∀ t, t ≠ owner → t ≠ signaler → w.pc t = .idle
  ownerAt : (w.pc owner).waiting = true ∨ w.pc owner = .idle
  signalerAt : w.pc signaler = .signalLock event ∨ w.pc signaler = .signalSet event ∨
    w.pc signaler = .signalNotify ∨ w.pc signaler = .signalUnlock ∨ w.pc signaler = .idle
  returned : w.pc owner = .idle → w.pc signaler = .idle
  mask : w.event.eventMask =
    if signaled (w.pc signaler) = true ∧ w.pc owner ≠ .idle then event else 0
  log : w.log = if signaled (w.pc signaler) = false then []
    else if w.pc owner = .idle then [.signal event, .wait event] else [.signal event]
  destroyed : w.event.initialized = false → w.pc owner = .idle

structure HandoffInvariant (w : World) : Prop where
  shape : HandoffShape owner signaler event w
  exclusive : Exclusive w.holder w.pc
  awake : Awake w.pc w.event.eventMask
  current : Current w.pc w.event.eventMask

/-- The steps left before the event is destroyed, spurious wake-ups aside. -/
def handoffMeasure (w : World) : Nat :=
  pcMeasure {owner, signaler} w.pc + if w.event.initialized then 1 else 0

variable {owner signaler event}

theorem HandoffShape.position (shape : HandoffShape owner signaler event w) (t : Nat) :
    w.pc t = .idle ∨ t = owner ∧ (w.pc t).waiting = true ∨
      t = signaler ∧ (w.pc t = .signalLock event ∨ w.pc t = .signalSet event ∨
        w.pc t = .signalNotify ∨ w.pc t = .signalUnlock) := by
  by_cases isOwner : t = owner
  · subst isOwner
    rcases shape.ownerAt with waiting | idle
    · exact .inr (.inl ⟨rfl, waiting⟩)
    · exact .inl idle
  · by_cases isSignaler : t = signaler
    · subst isSignaler
      rcases shape.signalerAt with at_ | at_ | at_ | at_ | at_ <;> simp [at_]
    · exact .inl (shape.others t isOwner isSignaler)

theorem HandoffShape.eq_owner (shape : HandoffShape owner signaler event w) (t : Nat)
    (waiting : (w.pc t).waiting = true) : t = owner := by
  rcases shape.position t with idle | ⟨rfl, -⟩ | ⟨-, at_⟩
  · simp [idle, Pc.waiting] at waiting
  · rfl
  · rcases at_ with at_ | at_ | at_ | at_ <;> simp [at_, Pc.waiting] at waiting

theorem HandoffShape.eq_signaler (shape : HandoffShape owner signaler event w) (t : Nat)
    (signaling : w.pc t ≠ .idle ∧ (w.pc t).waiting = false) : t = signaler := by
  rcases shape.position t with idle | ⟨-, waiting⟩ | ⟨rfl, -⟩
  · exact absurd idle signaling.1
  · simp [waiting] at signaling
  · rfl

theorem HandoffShape.moveOwner (distinct : owner ≠ signaler)
    (shape : HandoffShape owner signaler event w) {holder : Option Nat} {p : Pc}
    (moving : w.pc owner ≠ .idle) (target : p.waiting = true) :
    HandoffShape owner signaler event
      { w with holder := holder, pc := Function.update w.pc owner p } := by
  have stays : p ≠ .idle := by rintro rfl; cases target
  exact {
    others := fun t other other' => by
      simpa [Function.update_noteq other] using shape.others t other other'
    ownerAt := .inl (by simpa using target)
    signalerAt := by simpa [Function.update_noteq distinct.symm] using shape.signalerAt
    returned := fun idle => absurd (by simpa using idle) stays
    mask := by simpa [Function.update_noteq distinct.symm, stays, moving] using shape.mask
    log := by simpa [Function.update_noteq distinct.symm, stays, moving] using shape.log
    destroyed := fun destroyed => absurd (shape.destroyed destroyed) moving }

theorem HandoffShape.moveSignaler (distinct : owner ≠ signaler)
    (shape : HandoffShape owner signaler event w) {holder : Option Nat} {p : Pc}
    (moving : w.pc signaler ≠ .idle)
    (target : p = .signalSet event ∨ p = .signalUnlock ∨ p = .idle)
    (same : signaled p = signaled (w.pc signaler)) :
    HandoffShape owner signaler event
      { w with holder := holder, pc := Function.update w.pc signaler p } where
  others t other other' := by
    simpa [Function.update_noteq other'] using shape.others t other other'
  ownerAt := by simpa [Function.update_noteq distinct] using shape.ownerAt
  signalerAt := by rcases target with rfl | rfl | rfl <;> simp
  returned idle :=
    absurd (shape.returned (by simpa [Function.update_noteq distinct] using idle)) moving
  mask := by simpa [Function.update_noteq distinct, same] using shape.mask
  log := by simpa [Function.update_noteq distinct, same] using shape.log
  destroyed destroyed := by simpa [Function.update_noteq distinct] using shape.destroyed destroyed

/-- A `wait()` that holds the mutex while the event is set finds the signaler gone from
`signal`: the event is set, so the signaler is past its write, and the owner holds the
mutex, so the signaler no longer does. -/
theorem HandoffShape.signaler_done (distinct : owner ≠ signaler)
    (shape : HandoffShape owner signaler event w) (exclusive : Exclusive w.holder w.pc)
    (ownerHolds : (w.pc owner).critical = true) (pending : w.event.eventMask ≠ 0) :
    w.pc signaler = .idle := by
  have set : signaled (w.pc signaler) = true := by
    by_contra unset
    simp [shape.mask, unset] at pending
  rcases shape.signalerAt with at_ | at_ | at_ | at_ | at_ <;> simp only [at_] at set ⊢
  all_goals first
    | exact absurd (exclusive.unique ownerHolds (by rw [at_]; rfl)) distinct
    | cases set

theorem HandoffShape.step (distinct : owner ≠ signaler)
    (shape : HandoffShape owner signaler event w) (exclusive : Exclusive w.holder w.pc)
    (current : Current w.pc w.event.eventMask) (step : Step 0 w t w') :
    HandoffShape owner signaler event w' := by
  cases step with
  | call bound _ _ => exact absurd bound (Nat.not_lt_zero _)
  | @lock p _ locked =>
      have move := Pc.locked_spec locked
      rcases shape.position t with idle | ⟨rfl, waiting⟩ | ⟨rfl, at_⟩
      · exact absurd idle move.busy
      · exact shape.moveOwner distinct move.busy (move.waiting.trans waiting)
      · rcases at_ with at_ | at_ | at_ | at_ <;> simp only [at_, Pc.locked] at locked <;>
          cases locked
        exact shape.moveSignaler distinct (by simp [at_]) (.inl rfl) (by simp [at_, signaled])
  | sleep at_ _ | found at_ _ | read at_ | wake at_ =>
      obtain rfl := shape.eq_owner t (by simp [at_, Pc.waiting])
      exact shape.moveOwner distinct (by simp [at_]) rfl
  | @clear result at_ =>
      obtain rfl := shape.eq_owner t (by simp [at_, Pc.waiting])
      obtain ⟨read, pending⟩ : result = w.event.eventMask ∧ w.event.eventMask ≠ 0 := by
        simpa [at_, Pc.Reads] using current t
      have done := shape.signaler_done distinct exclusive (by rw [at_]; rfl) pending
      have setMask : w.event.eventMask = event := by simpa [done, signaled, at_] using shape.mask
      have setLog : w.log = [.signal event] := by simpa [done, signaled, at_] using shape.log
      exact {
        others := fun u other other' => by
          simpa [Function.update_noteq other] using shape.others u other other'
        ownerAt := by simp
        signalerAt := by simp [Function.update_noteq distinct.symm, done]
        returned := fun _ => by simp [Function.update_noteq distinct.symm, done]
        mask := by simp
        log := by simp [Function.update_noteq distinct.symm, done, signaled, setLog, read, setMask]
        destroyed := fun _ => by simp }
  | tryRead at_ | tryClear at_ =>
      obtain rfl := shape.eq_signaler t (by simp [at_, Pc.waiting])
      rcases shape.signalerAt with at' | at' | at' | at' | at' <;> simp [at_] at at'
  | signal atSet =>
      obtain rfl := shape.eq_signaler t (by simp [atSet, Pc.waiting])
      obtain rfl : _ = event := by simpa [atSet] using shape.signalerAt
      have waiting : w.pc owner ≠ .idle := fun idle => by simp [shape.returned idle] at atSet
      have unsetMask : w.event.eventMask = 0 := by simpa [atSet, signaled] using shape.mask
      have unsetLog : w.log = [] := by simpa [atSet, signaled] using shape.log
      exact {
        others := fun u other other' => by
          simpa [Function.update_noteq other'] using shape.others u other other'
        ownerAt := by simpa [Function.update_noteq distinct] using shape.ownerAt
        signalerAt := by simp
        returned := fun idle =>
          absurd (by simpa [Function.update_noteq distinct] using idle) waiting
        mask := by simp [Function.update_noteq distinct, signaled, waiting, unsetMask]
        log := by simp [Function.update_noteq distinct, signaled, waiting, unsetLog]
        destroyed := fun destroyed => absurd (shape.destroyed destroyed) waiting }
  | @notify s atNotify asleep =>
      obtain rfl := shape.eq_signaler t (by simp [atNotify, Pc.waiting])
      obtain rfl := shape.eq_owner s (by simp [asleep, Pc.waiting])
      exact (shape.moveSignaler distinct (p := .signalUnlock) (by simp [atNotify])
        (.inr (.inl rfl)) (by simp [atNotify, signaled])).moveOwner distinct
          (by simp [Function.update_noteq distinct, asleep]) rfl
  | notifyNone atNotify _ =>
      obtain rfl := shape.eq_signaler t (by simp [atNotify, Pc.waiting])
      exact shape.moveSignaler distinct (by simp [atNotify]) (.inr (.inl rfl))
        (by simp [atNotify, signaled])
  | unlock atUnlock =>
      obtain rfl := shape.eq_signaler t (by simp [atUnlock, Pc.waiting])
      exact shape.moveSignaler distinct (by simp [atUnlock]) (.inr (.inr rfl))
        (by simp [atUnlock, signaled])

theorem handoff_exclusive :
    Exclusive (World.handoff owner signaler event).holder
      (World.handoff owner signaler event).pc := by
  intro t
  by_cases isSignaler : t = signaler
  · subst isSignaler
    simp [World.handoff, Pc.critical]
  · by_cases isOwner : t = owner
    · subst isOwner
      simp [World.handoff, Function.update_noteq isSignaler, Pc.critical]
    · simp [World.handoff, Function.update_noteq isSignaler, Function.update_noteq isOwner,
        Pc.critical]

theorem handoffInvariant_initial (distinct : owner ≠ signaler) :
    HandoffInvariant owner signaler event (World.handoff owner signaler event) where
  shape := {
    others := fun t other other' => by
      simp [World.handoff, Function.update_noteq other, Function.update_noteq other']
    ownerAt := by simp [World.handoff, Function.update_noteq distinct, Pc.waiting]
    signalerAt := by simp [World.handoff]
    returned := fun idle => by simp [World.handoff, Function.update_noteq distinct] at idle
    mask := by simp [World.handoff, signaled]; rfl
    log := by simp [World.handoff, signaled]
    destroyed := fun destroyed => by cases destroyed }
  exclusive := handoff_exclusive
  awake := Awake.of_zero rfl
  current := Current.of_free handoff_exclusive

theorem HandoffInvariant.step (distinct : owner ≠ signaler)
    (inv : HandoffInvariant owner signaler event w) (step : HandoffStep owner w w') :
    HandoffInvariant owner signaler event w' := by
  cases step with
  | thread step =>
      exact ⟨inv.shape.step distinct inv.exclusive inv.current step, step.exclusive inv.exclusive,
        step.awake inv.awake, step.current inv.exclusive inv.current⟩
  | destroy returned _ =>
      exact ⟨{ inv.shape with destroyed := fun _ => returned }, inv.exclusive, inv.awake,
        inv.current⟩

theorem handoff_invariant (distinct : owner ≠ signaler)
    (reach : Relation.ReflTransGen (HandoffStep owner) (World.handoff owner signaler event) w) :
    HandoffInvariant owner signaler event w := by
  induction reach with
  | refl => exact handoffInvariant_initial distinct
  | tail _ step inductionHypothesis => exact inductionHypothesis.step distinct step

/-- Until the event is destroyed, some step other than a spurious wake-up shrinks the
measure: the owner destroys the event, or a busy thread runs; with neither, the owner
would sleep beside the signaled event with nobody left to wake it. -/
theorem HandoffInvariant.progress (distinct : owner ≠ signaler) (nonzero : event ≠ 0)
    (inv : HandoffInvariant owner signaler event w) (ready : w.event.initialized = true) :
    ∃ w', HandoffStep owner w w' ∧
      handoffMeasure owner signaler w' < handoffMeasure owner signaler w := by
  by_cases returned : w.pc owner = .idle
  · exact ⟨_, .destroy returned ready, by simp [handoffMeasure, ready, destroy]⟩
  by_cases busy : ∃ t, (w.pc t).busy = true
  · obtain ⟨_, busy⟩ := busy
    obtain ⟨t, w', busy, step⟩ := inv.exclusive.progress (n := 0) busy
    have covers : ∀ u, w.pc u ≠ .idle → u ∈ ({owner, signaler} : Finset Nat) := fun u moving => by
      rcases inv.shape.position u with idle | ⟨rfl, -⟩ | ⟨rfl, -⟩
      · exact absurd idle moving
      · simp
      · simp
    have smaller := step.measure_lt busy covers
    refine ⟨w', .thread step, ?_⟩
    simp only [handoffMeasure, step.initialized_eq]
    omega
  · have quiet : ∀ t, (w.pc t).busy = false := by simpa using busy
    have asleep : w.pc owner = .waitSleep := by
      rcases inv.shape.ownerAt with waiting | idle
      · exact Pc.eq_waitSleep waiting (quiet owner)
      · exact absurd idle returned
    have done : w.pc signaler = .idle := by
      have := quiet signaler
      rcases inv.shape.signalerAt with at_ | at_ | at_ | at_ | at_ <;> simp_all [Pc.busy]
    have pending : w.event.eventMask ≠ 0 := by
      simpa [inv.shape.mask, done, signaled, returned] using nonzero
    exact absurd asleep (inv.awake.none_asleep quiet pending owner)

theorem HandoffInvariant.completes (distinct : owner ≠ signaler) (nonzero : event ≠ 0)
    {w : World} (inv : HandoffInvariant owner signaler event w) :
    ∃ w', Relation.ReflTransGen (HandoffStep owner) w w' ∧ w'.event.initialized = false := by
  cases ready : w.event.initialized with
  | false => exact ⟨w, .refl, ready⟩
  | true =>
      obtain ⟨w', step, smaller⟩ := inv.progress distinct nonzero ready
      obtain ⟨w'', run, destroyed⟩ := (inv.step distinct step).completes distinct nonzero
      exact ⟨w'', .head step run, destroyed⟩
termination_by handoffMeasure owner signaler w

/-- The owner waits and then destroys the event, the signaler signals a nonzero event
once, and the threads interleave in any way.  Once the event is destroyed, no thread is
inside a call, so none touches the freed mutex or condition variable; the owner's `wait()`
returns exactly the signaled event; and from every reachable world the event can still be
destroyed: the owner never sleeps through the signal. -/
theorem signal_before_destroy (distinct : owner ≠ signaler) (nonzero : event ≠ 0)
    (reach : Relation.ReflTransGen (HandoffStep owner) (World.handoff owner signaler event) w) :
    (w.event.initialized = false → ∀ t, w.pc t = .idle) ∧
    (w.pc owner = .idle → w.log = [.signal event, .wait event]) ∧
    ∃ w', Relation.ReflTransGen (HandoffStep owner) w w' ∧ w'.event.initialized = false := by
  have inv := handoff_invariant distinct reach
  refine ⟨fun destroyed t => ?_, fun returned => ?_, inv.completes distinct nonzero⟩
  · have returned := inv.shape.destroyed destroyed
    rcases inv.shape.position t with idle | ⟨rfl, -⟩ | ⟨rfl, -⟩
    · exact idle
    · exact returned
    · exact inv.shape.returned returned
  · simpa [inv.shape.returned returned, signaled, returned] using inv.shape.log

/-- From the start, thread 0 waiting and thread 1 signaling `1`, the event can be
destroyed. -/
theorem handoff_runs_to_destroy :
    (0 : Nat) ≠ 1 ∧ (1 : BitVec 32) ≠ 0 ∧
      ∃ w', Relation.ReflTransGen (HandoffStep 0) (World.handoff 0 1 1) w' ∧
        w'.event.initialized = false :=
  ⟨by decide, by decide, (signal_before_destroy (by decide) (by decide) .refl).2.2⟩

end Handoff

end Threads

end AsyncPlusPlus.TaskWaitEvent
