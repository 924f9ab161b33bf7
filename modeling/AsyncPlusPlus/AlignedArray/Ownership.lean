import AsyncPlusPlus.AlignedArray
import Mathlib.Algebra.BigOperators.Group.Finset

/-!
# Who owns the block of an `aligned_array`

An `aligned_array` owns its block `ptr` and the `length` elements built in it.  The
move constructor hands the block to a new array; the move assignment first moves
`*this` into a temporary that is destroyed at once, then swaps with the other
array; `= nullptr` is a move assignment from an empty temporary; the destructor
destroys the elements and frees the block.  A `Heap` holds the arrays of a program,
one per variable, and the log of what their operations did to the heap; a run of
`Step` is any sequence of operations.  The constructor runs its success path
(`construct` when no element constructor throws); its failure path is the subject
of `construct_of_first_failure`.
-/

namespace AsyncPlusPlus.AlignedArray

/-- What the operations of `aligned_array` do to the heap. -/
inductive HeapEffect where
  /-- `aligned_alloc(length * sizeof(T), Align)` returned the fresh block `b`; `bytes` is
  the byte count the constructor asked for. -/
  | alloc (b : Nat) (bytes : UInt64)
  /-- `new(ptr + i) T` in block `b`. -/
  | construct (b i : Nat)
  /-- `ptr[i].~T()`, with `ptr` null (`none`) or a block. -/
  | destroy (ptr : Option Nat) (i : Nat)
  /-- `aligned_free(ptr)`. -/
  | free (ptr : Option Nat)
  deriving DecidableEq, Repr

/-- An effect of the constructor's body, on the block `b` it allocated. -/
def ArrayEffect.on (b : Nat) : ArrayEffect → HeapEffect
  | .construct i => .construct b i
  | .destroy i => .destroy (some b) i
  | .free => .free (some b)

/-- The fields of an `aligned_array`: `length`, and `ptr`, null or a block. -/
structure Value where
  length : Nat
  ptr : Option Nat
  deriving DecidableEq, Repr

/-- `aligned_array()` and `aligned_array(nullptr)`: `length(0), ptr(nullptr)`. -/
def Value.empty : Value := ⟨0, none⟩

@[simp] theorem Value.empty_length : Value.empty.length = 0 := rfl
@[simp] theorem Value.empty_ptr : Value.empty.ptr = none := rfl

/-- `~aligned_array()`: `ptr[i].~T()` for every `i < length`, then `aligned_free(ptr)`. -/
def Value.destroy (a : Value) : List HeapEffect :=
  (List.range a.length).map (.destroy a.ptr) ++ [.free a.ptr]

/-- The arrays of a program by variable (`none` while the variable holds no live
array), the sizes of the blocks allocated so far (block `b` is the `b`-th), and what
the operations did to the heap. -/
structure Heap where
  arrays : Nat → Option Value
  blocks : List Nat
  log : List HeapEffect

namespace Heap

/-- No array, no block. -/
def initial : Heap := ⟨fun _ => none, [], []⟩

/-- Variable `v` now holds `x`. -/
def set (h : Heap) (v : Nat) (x : Option Value) : Heap :=
  { h with arrays := Function.update h.arrays v x }

/-- Record effects. -/
def emit (h : Heap) (effects : List HeapEffect) : Heap :=
  { h with log := h.log ++ effects }

/-- `aligned_array(length)` of elements of `size` bytes into variable `v`, when no
element constructor throws: `aligned_alloc` returns the next block. -/
def create (v length : Nat) (size : UInt64) (h : Heap) : Heap :=
  ⟨Function.update h.arrays v (some ⟨length, some h.blocks.length⟩), h.blocks ++ [length],
    h.log ++ .alloc h.blocks.length (allocSize length.toUInt64 size) ::
      (construct (fun _ => false) length).1.map (ArrayEffect.on h.blocks.length)⟩

/-- `aligned_array(aligned_array&& other)` into variable `v`, from variable `w`. -/
def moveConstruct (v w : Nat) (h : Heap) : Heap :=
  (h.set v (h.arrays w)).set w (some .empty)

/-- `aligned_array(std::move(*this));` in the move assignment: a temporary takes the
fields of variable `v`, leaving it empty, and is destroyed at the end of the statement. -/
def moveOutAndDestroy (v : Nat) (h : Heap) : Heap :=
  match h.arrays v with
  | some this => (h.set v (some .empty)).emit this.destroy
  | none => h

/-- `operator=(aligned_array&& other)`: variable `v` assigned from variable `w`. -/
def moveAssign (v w : Nat) (h : Heap) : Heap :=
  let h := h.moveOutAndDestroy v
  -- `std::swap(ptr, other.ptr); std::swap(length, other.length);`
  (h.set v (h.arrays w)).set w (h.arrays v)

/-- `operator=(std::nullptr_t)`: `*this = aligned_array()`, the move assignment from a
temporary empty array, whose destructor then runs. -/
def assignNull (v : Nat) (h : Heap) : Heap :=
  -- the swaps with the temporary leave both empty
  ((h.moveOutAndDestroy v).set v (some .empty)).emit Value.empty.destroy

/-- `~aligned_array()` of the array in variable `v`. -/
def destroy (v : Nat) (h : Heap) : Heap :=
  match h.arrays v with
  | some a => (h.set v none).emit a.destroy
  | none => h

@[simp] theorem set_arrays (h : Heap) (v : Nat) (x : Option Value) :
    (h.set v x).arrays = Function.update h.arrays v x := rfl
@[simp] theorem set_blocks (h : Heap) (v : Nat) (x : Option Value) :
    (h.set v x).blocks = h.blocks := rfl
@[simp] theorem set_log (h : Heap) (v : Nat) (x : Option Value) : (h.set v x).log = h.log := rfl
@[simp] theorem emit_arrays (h : Heap) (effects : List HeapEffect) :
    (h.emit effects).arrays = h.arrays := rfl
@[simp] theorem emit_blocks (h : Heap) (effects : List HeapEffect) :
    (h.emit effects).blocks = h.blocks := rfl
@[simp] theorem emit_log (h : Heap) (effects : List HeapEffect) :
    (h.emit effects).log = h.log ++ effects := rfl

theorem set_same (h : Heap) (v : Nat) (x y : Option Value) : (h.set v x).set v y = h.set v y := by
  simp [set]

theorem set_arrays_self (h : Heap) (v : Nat) : h.set v (h.arrays v) = h := by
  simp [set]

theorem moveOutAndDestroy_of_some {h : Heap} {v : Nat} {a : Value} (live : h.arrays v = some a) :
    h.moveOutAndDestroy v = (h.set v (some .empty)).emit a.destroy := by
  simp [moveOutAndDestroy, live]

theorem destroy_of_some {h : Heap} {v : Nat} {a : Value} (live : h.arrays v = some a) :
    h.destroy v = (h.set v none).emit a.destroy := by
  simp [destroy, live]

end Heap

/-- When no element constructor throws, the constructor builds every element in order. -/
theorem construct_of_no_failure (length : Nat) :
    construct (fun _ => false) length = ((List.range length).map .construct, false) := by
  have loop : ∀ remaining i, constructLoop (fun _ => false) remaining i =
      ((List.range' i remaining).map .construct, none) := by
    intro remaining
    induction remaining with
    | zero => intro i; rfl
    | succ remaining inductionHypothesis =>
        intro i
        simp [constructLoop, inductionHypothesis, List.range'_succ]
  simp [construct, loop, List.range_eq_range']

/-! ## Counting effects -/

theorem count_map_range {f : Nat → HeapEffect} (injective : f.Injective) (k : Nat)
    (e : HeapEffect) : ((List.range k).map f).count e = if ∃ i < k, f i = e then 1 else 0 := by
  rw [List.count_eq_of_nodup ((List.nodup_range k).map injective)]
  simp

theorem destroy_injective (ptr : Option Nat) : (HeapEffect.destroy ptr).Injective :=
  fun _ _ same => (HeapEffect.destroy.inj same).2

@[simp] theorem count_free_destroy (a : Value) (b : Nat) :
    a.destroy.count (.free (some b)) = if a.ptr = some b then 1 else 0 := by
  simp [Value.destroy, count_map_range (destroy_injective a.ptr), List.count_singleton']

@[simp] theorem count_destroy_destroy (a : Value) (ptr : Option Nat) (i : Nat) :
    a.destroy.count (.destroy ptr i) = if i < a.length ∧ a.ptr = ptr then 1 else 0 := by
  simp [Value.destroy, count_map_range (destroy_injective a.ptr), List.count_singleton']

@[simp] theorem count_construct_destroy (a : Value) (b i : Nat) :
    a.destroy.count (.construct b i) = 0 := by
  simp [Value.destroy, count_map_range (destroy_injective a.ptr), List.count_singleton']

@[simp] theorem create_arrays (v length : Nat) (size : UInt64) (h : Heap) :
    (h.create v length size).arrays =
      Function.update h.arrays v (some ⟨length, some h.blocks.length⟩) :=
  rfl

@[simp] theorem create_blocks (v length : Nat) (size : UInt64) (h : Heap) :
    (h.create v length size).blocks = h.blocks ++ [length] := rfl

theorem create_log (v length : Nat) (size : UInt64) (h : Heap) :
    (h.create v length size).log =
      h.log ++ .alloc h.blocks.length (allocSize length.toUInt64 size) ::
        (List.range length).map (.construct h.blocks.length) := by
  simp only [Heap.create, construct_of_no_failure, List.map_map]
  rfl

theorem construct_injective (b : Nat) : (HeapEffect.construct b).Injective :=
  fun _ _ same => (HeapEffect.construct.inj same).2

/-! ## Ownership -/

/-- Whether `x` is a live array whose `ptr` is block `b`. -/
def owns (b : Nat) (x : Option Value) : Nat :=
  if x.bind Value.ptr = some b then 1 else 0

variable (n : Nat)

/-- How many of the arrays in variables `0 .. n-1` point to block `b`. -/
def ownCount (arrays : Nat → Option Value) (b : Nat) : Nat :=
  ∑ v in Finset.range n, owns b (arrays v)

theorem ownCount_update (arrays : Nat → Option Value) {v : Nat} (bound : v < n)
    (x : Option Value) (b : Nat) :
    ownCount n (Function.update arrays v x) b + owns b (arrays v) =
      ownCount n arrays b + owns b x := by
  have mem : v ∈ Finset.range n := Finset.mem_range.mpr bound
  unfold ownCount
  rw [Finset.sum_eq_add_sum_diff_singleton mem (fun u => owns b (arrays u))]
  simp only [Function.apply_update (fun _ => owns b), Finset.sum_update_of_mem mem]
  omega

@[simp] theorem owns_none (b : Nat) : owns b none = 0 := rfl

@[simp] theorem owns_some (b : Nat) (a : Value) :
    owns b (some a) = if a.ptr = some b then 1 else 0 := rfl

@[simp] theorem owns_empty (b : Nat) : owns b (some .empty) = 0 := rfl

theorem owns_le_ownCount (arrays : Nat → Option Value) {v : Nat} (bound : v < n) (b : Nat) :
    owns b (arrays v) ≤ ownCount n arrays b := by
  have moved := ownCount_update n arrays bound none b
  rw [owns_none] at moved
  omega

/-- One operation on the arrays of variables `0 .. n-1`. -/
inductive Step : Heap → Heap → Prop where
  | create {h : Heap} {v : Nat} (length : Nat) (size : UInt64) : v < n → h.arrays v = none →
      Step h (h.create v length size)
  | createEmpty {h : Heap} {v : Nat} : v < n → h.arrays v = none →
      Step h (h.set v (some .empty))
  | moveConstruct {h : Heap} {v w : Nat} : v < n → h.arrays v = none → (h.arrays w).isSome →
      Step h (h.moveConstruct v w)
  | moveAssign {h : Heap} {v w : Nat} : (h.arrays v).isSome → (h.arrays w).isSome →
      Step h (h.moveAssign v w)
  | assignNull {h : Heap} {v : Nat} : (h.arrays v).isSome → Step h (h.assignNull v)
  | destroy {h : Heap} {v : Nat} : (h.arrays v).isSome → Step h (h.destroy v)

inductive Reachable : Heap → Prop where
  | initial : Reachable .initial
  | step {h h' : Heap} : Reachable h → Step n h h' → Reachable h'

/-- The ownership invariant.  `owners` is the heart of it: every block allocated so far
is pointed to by exactly one live array or has been freed exactly once, and no other
block is either.  An element of a block is destroyed exactly when the block is freed,
and no destructor runs through a null pointer. -/
structure Invariant (h : Heap) : Prop where
  outside : ∀ v, n ≤ v → h.arrays v = none
  shape : ∀ v a, h.arrays v = some a →
    a = .empty ∨ ∃ b, a.ptr = some b ∧ h.blocks[b]? = some a.length
  owners : ∀ b, ownCount n h.arrays b + h.log.count (.free (some b)) =
    if b < h.blocks.length then 1 else 0
  destroyed : ∀ b i, h.log.count (.destroy (some b) i) =
    if i < h.blocks[b]?.getD 0 then h.log.count (.free (some b)) else 0
  constructed : ∀ b i, h.log.count (.construct b i) = if i < h.blocks[b]?.getD 0 then 1 else 0
  nullSafe : ∀ i, h.log.count (.destroy none i) = 0

variable {n}

theorem invariant_initial : Invariant n Heap.initial where
  outside _ _ := rfl
  shape _ _ live := by simp [Heap.initial] at live
  owners _ := by simp [Heap.initial, ownCount]
  destroyed _ _ := by simp [Heap.initial]
  constructed _ _ := by simp [Heap.initial]
  nullSafe _ := by simp [Heap.initial]

theorem Invariant.bound {h : Heap} (inv : Invariant n h) {v : Nat} (live : (h.arrays v).isSome) :
    v < n := by
  by_contra outside
  simp [inv.outside v (by omega)] at live

theorem outside_update {arrays : Nat → Option Value}
    (outside : ∀ u, n ≤ u → arrays u = none) {v : Nat} (bound : v < n) (x : Option Value) :
    ∀ u, n ≤ u → Function.update arrays v x u = none := fun u far => by
  rw [Function.update_noteq (by omega)]
  exact outside u far

theorem shape_update {blocks : List Nat} {arrays : Nat → Option Value}
    (shape : ∀ u a, arrays u = some a →
      a = .empty ∨ ∃ b, a.ptr = some b ∧ blocks[b]? = some a.length)
    {v : Nat} {x : Option Value}
    (shaped : ∀ a, x = some a →
      a = .empty ∨ ∃ b, a.ptr = some b ∧ blocks[b]? = some a.length) :
    ∀ u a, Function.update arrays v x u = some a →
      a = .empty ∨ ∃ b, a.ptr = some b ∧ blocks[b]? = some a.length := by
  intro u a live
  by_cases same : u = v
  · subst same
    rw [Function.update_same] at live
    exact shaped a live
  · rw [Function.update_noteq same] at live
    exact shape u a live

/-- Giving up the array of `v`, by destroying it or by moving it into a temporary that
is destroyed: its block is freed and its elements destroyed, once. -/
theorem Invariant.release {h : Heap} (inv : Invariant n h) {v : Nat} {a : Value}
    (live : h.arrays v = some a) {x : Option Value} (emptied : x = none ∨ x = some .empty) :
    Invariant n ((h.set v x).emit a.destroy) := by
  have bound := inv.bound (v := v) (by simp [live])
  have left : ∀ b, owns b x = 0 := by
    rcases emptied with rfl | rfl <;> simp
  constructor
  · exact outside_update inv.outside bound x
  · refine shape_update inv.shape fun a' same => .inl ?_
    rcases emptied with rfl | rfl <;> simp_all
  · intro b
    have moved := ownCount_update n h.arrays bound x b
    have before := inv.owners b
    rw [live, left b, owns_some] at moved
    simp only [Heap.emit_arrays, Heap.set_arrays, Heap.emit_log, Heap.set_log, Heap.emit_blocks,
      Heap.set_blocks, List.count_append, count_free_destroy]
    omega
  · intro b i
    simp only [Heap.emit_log, Heap.set_log, Heap.emit_blocks, Heap.set_blocks, List.count_append,
      count_free_destroy, count_destroy_destroy, inv.destroyed b i]
    by_cases pointed : a.ptr = some b
    · have length : h.blocks[b]?.getD 0 = a.length := by
        rcases inv.shape v a live with rfl | ⟨b', pointed', sized⟩
        · simp [Value.empty] at pointed
        · rw [pointed] at pointed'
          cases pointed'
          simp [sized]
      have owned := owns_le_ownCount n h.arrays bound b
      have before := inv.owners b
      rw [live, owns_some, if_pos pointed] at owned
      have unfreed : h.log.count (.free (some b)) = 0 := by split at before <;> omega
      simp [pointed, length, unfreed]
    · simp [pointed]
  · intro b i
    simp [inv.constructed b i]
  · intro i
    have nonNull : a.destroy.count (.destroy none i) = 0 := by
      rcases inv.shape v a live with rfl | ⟨b, pointed, -⟩
      · simp [Value.empty]
      · simp [pointed]
    simp only [Heap.emit_log, Heap.set_log, List.count_append, inv.nullSafe i, nonNull]

/-- Moving the array of `w` into `v`, which holds no array or an empty one, and leaving
`w` empty: the block changes owner. -/
theorem Invariant.transfer {h : Heap} (inv : Invariant n h) {v w : Nat} {a : Value}
    (bound : v < n) (distinct : v ≠ w) (vacant : h.arrays v = none ∨ h.arrays v = some .empty)
    (live : h.arrays w = some a) : Invariant n ((h.set v (some a)).set w (some .empty)) := by
  have boundOther := inv.bound (v := w) (by simp [live])
  constructor
  · exact outside_update (outside_update inv.outside bound _) boundOther _
  · refine shape_update (shape_update inv.shape fun a' same => ?_) fun a' same => .inl ?_
    · exact (Option.some.inj same) ▸ inv.shape w a live
    · exact (Option.some.inj same).symm
  · intro b
    have first := ownCount_update n h.arrays bound (some a) b
    have second := ownCount_update n (Function.update h.arrays v (some a)) boundOther
      (some .empty) b
    have before := inv.owners b
    have unowned : owns b (h.arrays v) = 0 := by
      rcases vacant with vacant | vacant <;> simp [vacant]
    rw [Function.update_noteq distinct.symm, live, owns_empty] at second
    simp only [Heap.set_arrays, Heap.set_log, Heap.set_blocks]
    omega
  · exact inv.destroyed
  · exact inv.constructed
  · exact inv.nullSafe

/-- Making `v`, which holds no array or an empty one, hold an empty array. -/
theorem Invariant.setEmpty {h : Heap} (inv : Invariant n h) {v : Nat} (bound : v < n)
    (vacant : h.arrays v = none ∨ h.arrays v = some .empty) :
    Invariant n (h.set v (some .empty)) := by
  constructor
  · exact outside_update inv.outside bound _
  · exact shape_update inv.shape fun a' same => .inl (Option.some.inj same).symm
  · intro b
    have moved := ownCount_update n h.arrays bound (some .empty) b
    have unowned : owns b (h.arrays v) = 0 := by
      rcases vacant with vacant | vacant <;> simp [vacant]
    have before := inv.owners b
    rw [owns_empty] at moved
    simp only [Heap.set_arrays, Heap.set_log, Heap.set_blocks]
    omega
  · exact inv.destroyed
  · exact inv.constructed
  · exact inv.nullSafe

/-- The destructor of an empty temporary only calls `aligned_free(nullptr)`. -/
theorem Invariant.emit_empty {h : Heap} (inv : Invariant n h) :
    Invariant n (h.emit Value.empty.destroy) :=
  ⟨inv.outside, inv.shape, fun b => by simpa [Value.empty] using inv.owners b,
    fun b i => by simpa [Value.empty] using inv.destroyed b i,
    fun b i => by simpa using inv.constructed b i, fun i => by simpa using inv.nullSafe i⟩

theorem size_append_fresh (blocks : List Nat) (length b : Nat) :
    (blocks ++ [length])[b]?.getD 0 = if b = blocks.length then length else blocks[b]?.getD 0 := by
  rcases lt_trichotomy b blocks.length with before | rfl | after
  · simp [List.getElem?_append_left before, before.ne]
  · simp
  · rw [List.getElem?_append_right after.le, List.getElem?_eq_none (by simp; omega),
      List.getElem?_eq_none after.le]
    simp [after.ne']

/-- `aligned_array(length)` into a variable holding no array: the new block is owned by
it, and its elements are the ones just constructed. -/
theorem Invariant.create {h : Heap} (inv : Invariant n h) {v length : Nat} {size : UInt64}
    (bound : v < n) (vacant : h.arrays v = none) : Invariant n (h.create v length size) := by
  have freshUnfreed : h.log.count (.free (some h.blocks.length)) = 0 := by
    have unallocated := inv.owners h.blocks.length
    simp only [lt_irrefl, if_false] at unallocated
    omega
  constructor
  · exact outside_update inv.outside bound _
  · refine shape_update (fun u a' live' => ?_) fun a' same => .inr ⟨h.blocks.length, ?_⟩
    · rcases inv.shape u a' live' with empty | ⟨b, pointed, sized⟩
      · exact .inl empty
      · exact .inr ⟨b, pointed, by
          rw [create_blocks, List.getElem?_append_left (List.getElem?_eq_some_iff.mp sized).1,
            sized]⟩
    · simp [← Option.some.inj same]
  · intro b
    have moved := ownCount_update n h.arrays bound (some ⟨length, some h.blocks.length⟩) b
    have before := inv.owners b
    rw [vacant, owns_none, owns_some] at moved
    simp only [create_arrays, create_blocks, create_log, List.count_append, List.count_cons,
      count_map_range (construct_injective _)] at before ⊢
    by_cases fresh : b = h.blocks.length
    · subst fresh
      simp at moved before ⊢
      omega
    · simp [fresh, Ne.symm fresh] at moved before ⊢
      split at before <;> split <;> omega
  · intro b i
    simp only [create_arrays, create_blocks, create_log, List.count_append, List.count_cons,
      count_map_range (construct_injective _), size_append_fresh, inv.destroyed b i]
    by_cases fresh : b = h.blocks.length
    · subst fresh
      simp [freshUnfreed]
    · simp [fresh]
  · intro b i
    simp only [create_arrays, create_blocks, create_log, List.count_append, List.count_cons,
      count_map_range (construct_injective _), size_append_fresh, inv.constructed b i]
    by_cases fresh : b = h.blocks.length
    · subst fresh
      simp
    · simp [fresh, Ne.symm fresh]
  · intro i
    simp [create_log, count_map_range (construct_injective _), inv.nullSafe i]

theorem invariant_step {h h' : Heap} (inv : Invariant n h) (step : Step n h h') :
    Invariant n h' := by
  cases step with
  | create length size bound vacant => exact inv.create bound vacant
  | createEmpty bound vacant => exact inv.setEmpty bound (.inl vacant)
  | @moveConstruct v w bound vacant live =>
      obtain ⟨a, live⟩ := Option.isSome_iff_exists.mp live
      have distinct : v ≠ w := by rintro rfl; simp [vacant] at live
      rw [Heap.moveConstruct, live]
      exact inv.transfer bound distinct (.inl vacant) live
  | @moveAssign v w live liveOther =>
      obtain ⟨a, live⟩ := Option.isSome_iff_exists.mp live
      obtain ⟨c, liveOther⟩ := Option.isSome_iff_exists.mp liveOther
      have moved := inv.release live (.inr rfl)
      rw [← Heap.moveOutAndDestroy_of_some live] at moved
      dsimp only [Heap.moveAssign]
      by_cases same : v = w
      · subst same
        rwa [Heap.set_same, Heap.set_arrays_self]
      · have other : (h.moveOutAndDestroy v).arrays w = some c := by
          simp [Heap.moveOutAndDestroy_of_some live, Function.update_noteq (Ne.symm same),
            liveOther]
        have this : (h.moveOutAndDestroy v).arrays v = some .empty := by
          simp [Heap.moveOutAndDestroy_of_some live]
        rw [other, this]
        exact moved.transfer (inv.bound (by simp [live])) same (.inr this) other
  | @assignNull v live =>
      obtain ⟨a, live⟩ := Option.isSome_iff_exists.mp live
      have moved := inv.release live (.inr rfl)
      rw [← Heap.moveOutAndDestroy_of_some live] at moved
      exact (moved.setEmpty (inv.bound (by simp [live]))
        (.inr (by simp [Heap.moveOutAndDestroy_of_some live]))).emit_empty
  | @destroy v live =>
      obtain ⟨a, live⟩ := Option.isSome_iff_exists.mp live
      rw [Heap.destroy_of_some live]
      exact inv.release live (.inl rfl)

theorem Reachable.invariant {h : Heap} (reach : Reachable n h) : Invariant n h := by
  induction reach with
  | initial => exact invariant_initial
  | step _ step inductionHypothesis => exact invariant_step inductionHypothesis step

/-- Over any sequence of constructions, moves, move assignments, null assignments and
destructions of the arrays in variables `0 .. n-1`: no block is pointed to by two live
arrays, or by a live array once it is freed, or freed twice; an element is destroyed at
most once, and only if it was constructed; no destructor runs through a null pointer; and
once no array is alive, every block has been freed, once, with each of its elements
destroyed once. -/
theorem aligned_array_block_owned_once {h : Heap} (reach : Reachable n h) :
    (∀ b, ownCount n h.arrays b + h.log.count (.free (some b)) ≤ 1) ∧
    (∀ b i, h.log.count (.destroy (some b) i) ≤ h.log.count (.construct b i) ∧
      h.log.count (.construct b i) ≤ 1) ∧
    (∀ i, HeapEffect.destroy none i ∉ h.log) ∧
    ((∀ v, h.arrays v = none) → ∀ b < h.blocks.length,
      h.log.count (.free (some b)) = 1 ∧
        ∀ i, h.log.count (.destroy (some b) i) = h.log.count (.construct b i)) := by
  have inv := reach.invariant
  refine ⟨fun b => ?_, fun b i => ?_, fun i => List.count_eq_zero.mp (inv.nullSafe i),
    fun dead b allocated => ?_⟩
  · have owners := inv.owners b
    split at owners <;> omega
  · have owners := inv.owners b
    rw [inv.destroyed, inv.constructed]
    split <;> split at owners <;> omega
  · have unowned : ownCount n h.arrays b = 0 := by simp [ownCount, dead]
    have owners := inv.owners b
    rw [if_pos allocated, unowned] at owners
    refine ⟨by omega, fun i => ?_⟩
    rw [inv.destroyed, inv.constructed]
    split <;> omega

/-- An array of two elements, moved into a second array, moved back by assignment, and
both destroyed: its block is freed once. -/
theorem moved_array_freed_once :
    ∃ h, Reachable 2 h ∧ (∀ v, h.arrays v = none) ∧ h.log.count (.free (some 0)) = 1 := by
  have reach : Reachable 2 _ :=
    .step (.step (.step (.step (.step .initial (.create (v := 0) 2 8 (by decide) rfl))
      (.moveConstruct (v := 1) (w := 0) (by decide) rfl rfl))
      (.moveAssign (v := 0) (w := 1) rfl rfl))
      (.destroy (v := 0) rfl)) (.destroy (v := 1) rfl)
  refine ⟨_, reach, ?dead, ((aligned_array_block_owned_once reach).2.2.2 ?dead 0 (by decide)).1⟩
  intro v
  simp [Heap.destroy, Heap.moveAssign, Heap.moveOutAndDestroy, Heap.moveConstruct, Heap.create,
    Heap.initial, Function.update_apply]
  intro one zero
  simp [one, zero]

end AsyncPlusPlus.AlignedArray
