import Mathlib.Data.List.Range

/-!
# `aligned_array`

The explicit constructor `aligned_array(std::size_t length)` allocates
`length * sizeof(T)` bytes and default-constructs `length` elements in place.
When the constructor of element `i` throws, the catch block is meant to destroy
the elements built so far, free the block and rethrow.
-/

namespace AsyncPlusPlus

/-- What the constructor does to the block. -/
inductive ArrayEffect where
  /-- `new(ptr + i) T` completed. -/
  | construct (i : Nat)
  /-- `ptr[i].~T()`. -/
  | destroy (i : Nat)
  /-- `aligned_free(ptr)`. -/
  | free
  deriving DecidableEq, Repr

namespace AlignedArray

/-- `for (i = 0; i < length; i++) new(ptr + i) T;` from index `i` with `remaining`
iterations left: the elements built, and the index whose constructor threw. -/
def constructLoop (throws : Nat → Bool) : (remaining i : Nat) → List ArrayEffect × Option Nat
  | 0, _ => ([], none)
  | remaining + 1, i =>
      if throws i then ([], some i)
      else (.construct i :: (constructLoop throws remaining (i + 1)).1,
        (constructLoop throws remaining (i + 1)).2)

/-- The catch block's loop `for (std::size_t j = 0; j < i; j++) ptr[i].~T();`. -/
def destroyLoop (i : Nat) : List ArrayEffect :=
  (List.range i).map fun _ => .destroy i

/-- `aligned_array(length)` when the default constructor of `T` throws exactly at the
indices `throws` picks: the effects on the block, and whether it rethrows. -/
def construct (throws : Nat → Bool) (length : Nat) : List ArrayEffect × Bool :=
  match constructLoop throws length 0 with
  | (built, none) => (built, false)
  | (built, some i) => (built ++ destroyLoop i ++ [.free], true)

/-- `length * sizeof(T)`, computed in `std::size_t`. -/
def allocSize (length size : UInt64) : UInt64 :=
  length * size

theorem constructLoop_of_first_failure (throws : Nat → Bool) {i k remaining : Nat}
    (before : ∀ j, i ≤ j → j < k → throws j = false) (fails : throws k = true)
    (inRange : k < i + remaining) (start : i ≤ k) :
    constructLoop throws remaining i = ((List.range' i (k - i)).map .construct, some k) := by
  induction remaining generalizing i with
  | zero => omega
  | succ remaining inductionHypothesis =>
      by_cases here : i = k
      · subst here
        simp [constructLoop, fails]
      · have next := inductionHypothesis (i := i + 1) (fun j low high => before j (by omega) high)
          (by omega) (by omega)
        rw [constructLoop, if_neg (by simpa using before i le_rfl (by omega)), next,
          show k - i = (k - (i + 1)) + 1 by omega, List.range'_succ]
        simp

/-- What the constructor really does when element `k` is the first whose constructor
throws: it built elements `0 .. k-1`, then runs `k` destructors, all on slot `k`,
frees the block and rethrows. -/
theorem construct_of_first_failure (throws : Nat → Bool) {length k : Nat}
    (before : ∀ j < k, throws j = false) (fails : throws k = true) (inRange : k < length) :
    construct throws length =
      ((List.range k).map .construct ++ List.replicate k (.destroy k) ++ [.free], true) := by
  rw [construct, constructLoop_of_first_failure throws (fun j _ high => before j high) fails
    (by omega) (Nat.zero_le k)]
  simp [destroyLoop, List.range_eq_range', List.map_const']

/-- Three elements whose third constructor throws: slot 2 is destroyed twice. -/
theorem third_constructor_throws :
    construct (fun i => i == 2) 3 =
      ((List.range 2).map .construct ++ List.replicate 2 (.destroy 2) ++ [.free], true) :=
  construct_of_first_failure _ (by decide) rfl (by decide)

/-- Two elements whose second constructor throws: the catch block destroys slot 1,
which was never built, and never destroys the element built in slot 0. -/
theorem construct_second_constructor_throws :
    construct (fun i => i == 1) 2 = ([.construct 0, .destroy 1, .free], true) := by
  decide

theorem allocSize_toNat (length size : UInt64) :
    (allocSize length size).toNat = length.toNat * size.toNat % UInt64.size :=
  rfl

/-- The byte count is the product modulo `2^64` (`UInt64.size`): it is exact, and the
block holds all `length` slots, exactly when the product is below `2^64`; the
constructor does not check this. -/
theorem allocSize_exact_iff (length size : UInt64) :
    (allocSize length size).toNat = length.toNat * size.toNat % UInt64.size ∧
      ((allocSize length size).toNat = length.toNat * size.toNat ↔
        length.toNat * size.toNat < UInt64.size) ∧
      (length.toNat * size.toNat ≤ (allocSize length size).toNat ↔
        length.toNat * size.toNat < UInt64.size) := by
  rw [allocSize_toNat]
  have positive : 0 < UInt64.size := by decide
  refine ⟨rfl, ⟨fun same => same ▸ Nat.mod_lt _ positive, Nat.mod_eq_of_lt⟩,
    ⟨fun fits => lt_of_le_of_lt fits (Nat.mod_lt _ positive),
      fun fits => (Nat.mod_eq_of_lt fits).ge⟩⟩

/-- `2^63` elements of two bytes: the byte count wraps to `0`. -/
theorem allocSize_wraps : (allocSize 9223372036854775808 2).toNat ≠ 9223372036854775808 * 2 := by
  decide

end AlignedArray

end AsyncPlusPlus
