import Mathlib.Data.List.Perm.Basic

/-!
# `parallel_for`: the recursive partitioner driver

`internal_parallel_for` splits its partitioner, spawns one half as a local task,
recurses into the other half on the current thread and joins the spawned task;
a partitioner that no longer splits is iterated in place.  The two halves run
concurrently, so the applications of `func` they make may interleave in any
order: `Runs` relates a partitioner to every sequence of applications, each
with what it threw, and to how the call ends.
-/

namespace AsyncPlusPlus

variable {P α ε : Type}

/-- The contract of `split()` (spec section 4.8): either the sub-partition is empty
and the partitioner keeps its whole range, or it is non-empty and it and what the
partitioner keeps split the range into two strictly smaller parts. -/
def SplitSpec (whole sub rest : List α) : Prop :=
  (sub = [] ∧ rest = whole) ∨
    (sub ≠ [] ∧ (sub ++ rest).Perm whole ∧ sub.length < whole.length ∧
      rest.length < whole.length)

/-- A partitioner whose `split` obeys its contract. -/
structure Partitioner (P α : Type) where
  /-- The elements from `begin()` to `end()`. -/
  elements : P → List α
  /-- `split()`: the sub-partition it returns, and the partitioner after the call. -/
  split : P → P × P
  split_spec : ∀ p, SplitSpec (elements p) (elements (split p).1) (elements (split p).2)

/-- `for (auto&& i : partitioner) func(i)`: the applications in order, each with the
exception it threw, and how the loop ends; it stops at the first exception. -/
inductive LoopRun : List α → List (α × Option ε) → Option ε → Prop where
  | nil : LoopRun [] [] none
  | returned {a : α} {as : List α} {log : List (α × Option ε)} {r : Option ε} :
      LoopRun as log r → LoopRun (a :: as) ((a, none) :: log) r
  | threw {a : α} {as : List α} (x : ε) : LoopRun (a :: as) [(a, some x)] (some x)

/-- The events of two threads, in one of the orders they can happen in. -/
inductive Interleave {β : Type} : List β → List β → List β → Prop where
  | nil : Interleave [] [] []
  | left {a : β} {l₁ l₂ l : List β} :
      Interleave l₁ l₂ l → Interleave (a :: l₁) l₂ (a :: l)
  | right {a : β} {l₁ l₂ l : List β} :
      Interleave l₁ l₂ l → Interleave l₁ (a :: l₂) (a :: l)

/-- The runs of `internal_parallel_for(sched, partitioner, func)`.  In a fork, an
exception of the inline half propagates directly; otherwise `t.get()` rethrows
the spawned half's. -/
inductive Runs (pt : Partitioner P α) : P → List (α × Option ε) → Option ε → Prop where
  | inline {p : P} {log : List (α × Option ε)} {r : Option ε} :
      pt.elements (pt.split p).1 = [] → LoopRun (pt.elements (pt.split p).2) log r →
      Runs pt p log r
  | fork {p : P} {spawned inline log : List (α × Option ε)} {r₁ r₂ : Option ε} :
      pt.elements (pt.split p).1 ≠ [] → Runs pt (pt.split p).1 spawned r₁ →
      Runs pt (pt.split p).2 inline r₂ → Interleave spawned inline log →
      Runs pt p log (r₂.or r₁)

theorem Interleave.perm {β : Type} {l₁ l₂ l : List β} (h : Interleave l₁ l₂ l) :
    l.Perm (l₁ ++ l₂) := by
  induction h with
  | nil => exact .nil
  | left _ inductionHypothesis => exact inductionHypothesis.cons _
  | right _ inductionHypothesis => exact (inductionHypothesis.cons _).trans List.perm_middle.symm

/-- What the loop applies `func` to, and that it returns normally exactly when no
application threw, having then applied it to every element in order. -/
theorem LoopRun.spec {as : List α} {log : List (α × Option ε)} {r : Option ε}
    (run : LoopRun as log r) :
    (log.map Prod.fst).Sublist as ∧ (r = none ↔ ∀ e ∈ log, e.2 = none) ∧
      (r = none → log.map Prod.fst = as) := by
  induction run with
  | nil => simp
  | returned _ inductionHypothesis =>
      obtain ⟨sublist, returns, all⟩ := inductionHypothesis
      exact ⟨sublist.cons₂ _, by simpa using returns, fun h => by simp [all h]⟩
  | threw x => simp

theorem Runs.spec {pt : Partitioner P α} {p : P} {log : List (α × Option ε)} {r : Option ε}
    (run : Runs pt p log r) :
    (log.map Prod.fst).Subperm (pt.elements p) ∧ (r = none ↔ ∀ e ∈ log, e.2 = none) ∧
      (r = none → (log.map Prod.fst).Perm (pt.elements p)) := by
  induction run with
  | @inline p log r empty loop =>
      have kept : pt.elements (pt.split p).2 = pt.elements p := by
        rcases pt.split_spec p with ⟨_, kept⟩ | ⟨nonempty, _⟩
        · exact kept
        · exact absurd empty nonempty
      obtain ⟨sublist, returns, all⟩ := loop.spec
      rw [kept] at sublist all
      exact ⟨sublist.subperm, returns, fun h => by rw [all h]⟩
  | @fork p spawned inline log r₁ r₂ nonempty _ _ interleaved spawnedSpec inlineSpec =>
      have parts : (pt.elements (pt.split p).1 ++ pt.elements (pt.split p).2).Perm
          (pt.elements p) := by
        rcases pt.split_spec p with ⟨empty, _⟩ | ⟨_, parts, _⟩
        · exact absurd empty nonempty
        · exact parts
      have order := interleaved.perm.map Prod.fst
      rw [List.map_append] at order
      obtain ⟨spawnedSub, spawnedReturns, spawnedAll⟩ := spawnedSpec
      obtain ⟨inlineSub, inlineReturns, inlineAll⟩ := inlineSpec
      refine ⟨?_, ?_, fun returned => ?_⟩
      · refine order.subperm.trans (List.Subperm.trans ?_ parts.subperm)
        exact ((List.subperm_append_right _).mpr spawnedSub).trans
          ((List.subperm_append_left _).mpr inlineSub)
      · simp only [Option.or_eq_none, spawnedReturns, inlineReturns, interleaved.perm.mem_iff,
          List.mem_append, or_imp, forall_and, and_comm]
      · obtain ⟨inlineNone, spawnedNone⟩ := Option.or_eq_none.mp returned
        exact order.trans ((spawnedAll spawnedNone).append (inlineAll inlineNone) |>.trans parts)

theorem SplitSpec.shorter {whole sub rest : List α} (spec : SplitSpec whole sub rest)
    (nonempty : sub ≠ []) : sub.length < whole.length ∧ rest.length < whole.length := by
  rcases spec with ⟨empty, _⟩ | ⟨_, _, shorterSub, shorterRest⟩
  · exact absurd empty nonempty
  · exact ⟨shorterSub, shorterRest⟩

/-- The loop over a partitioner that no longer splits, with `func` telling what each
application throws. -/
def loop (func : α → Option ε) : List α → List (α × Option ε) × Option ε
  | [] => ([], none)
  | a :: as =>
      match func a with
      | none => ((a, none) :: (loop func as).1, (loop func as).2)
      | some x => ([(a, some x)], some x)

theorem Interleave.append {β : Type} (l₁ l₂ : List β) :
    Interleave l₁ l₂ (l₁ ++ l₂) := by
  induction l₁ with
  | nil =>
      induction l₂ with
      | nil => exact .nil
      | cons a l₂ inductionHypothesis => exact .right inductionHypothesis
  | cons a l₁ inductionHypothesis => exact .left inductionHypothesis

end AsyncPlusPlus
