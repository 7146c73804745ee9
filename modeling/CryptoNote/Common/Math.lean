import Mathlib

/-! # The median (`Common/Math.h`)

`medianValue` sorts the vector it is given and returns its middle element, or
for an even count the mean of the two middle ones, computed as
`(v[n - 1] + v[n]) / 2` in `T`.  For `uint64_t` that sum wraps past `2^64`, and
the result is then below both middle elements.

`std::sort` is an insertion sort here: every sort of a vector under a total
order leaves the same sequence. -/

set_option autoImplicit false

namespace Common

section Median

variable {T : Type} [LE T] [DecidableRel (fun a b : T => a ≤ b)] [Add T] [Div T] [OfNat T 2] [Inhabited T]

def medianValue (v : List T) : T :=
  if v.isEmpty then default
  else if v.length = 1 then v.getD 0 default
  else
    let n := v.length / 2
    let v := v.insertionSort (· ≤ ·)
    if v.length % 2 = 1 then v.getD n default
    else (v.getD (n - 1) default + v.getD n default) / 2

end Median

/-! ## `uint64_t` medians -/

/-- The vector after `std::sort`. -/
def sorted (v : List UInt64) : List UInt64 := v.insertionSort (· ≤ ·)

/-- The median over unbounded integers: the middle element, or the floor of the
mean of the two middle ones. -/
def exactMedian (v : List UInt64) : Nat :=
  let n := v.length / 2
  if v.length % 2 = 1 then ((sorted v).getD n 0).toNat
  else (((sorted v).getD (n - 1) 0).toNat + ((sorted v).getD n 0).toNat) / 2

section Sorted

variable (v : List UInt64)

theorem sorted_perm : (sorted v).Perm v := List.perm_insertionSort _ v

@[simp] theorem length_sorted : (sorted v).length = v.length := (sorted_perm v).length_eq

theorem sorted_pairwise : (sorted v).Pairwise (· ≤ ·) := List.pairwise_insertionSort _ v

theorem getD_sorted_mem {i : Nat} (inside : i < v.length) : (sorted v).getD i 0 ∈ v := by
  rw [List.getD_eq_getElem _ _ (by simpa using inside)]
  exact (sorted_perm v).subset (List.getElem_mem _)

theorem getD_sorted_le {i j : Nat} (le : i ≤ j) (inside : j < v.length) :
    (sorted v).getD i 0 ≤ (sorted v).getD j 0 := by
  rw [List.getD_eq_getElem _ _ (by simp; omega), List.getD_eq_getElem _ _ (by simpa using inside)]
  rcases Nat.lt_or_eq_of_le le with lt | rfl
  · exact List.pairwise_iff_getElem.mp (sorted_pairwise v) i j _ _ lt
  · exact UInt64.le_refl _

end Sorted

theorem medianValue_eq_sorted {v : List UInt64} (nonempty : v ≠ []) :
    medianValue v = if v.length % 2 = 1 then (sorted v).getD (v.length / 2) 0
      else ((sorted v).getD (v.length / 2 - 1) 0 + (sorted v).getD (v.length / 2) 0) / 2 := by
  have notEmpty : v.isEmpty = false := List.isEmpty_eq_false_iff.mpr nonempty
  by_cases single : v.length = 1
  · obtain ⟨x, rfl⟩ := List.length_eq_one_iff.mp single
    simp [medianValue, sorted]
  · simp only [medianValue, notEmpty, single, Bool.false_eq_true, if_false]
    show (if (sorted v).length % 2 = 1 then (sorted v).getD (v.length / 2) 0
      else ((sorted v).getD (v.length / 2 - 1) 0 + (sorted v).getD (v.length / 2) 0) / 2) = _
    rw [length_sorted]

theorem toNat_medianValue_even {v : List UInt64} (nonempty : v ≠ []) (even : v.length % 2 = 0) :
    (medianValue v).toNat =
      (((sorted v).getD (v.length / 2 - 1) 0).toNat + ((sorted v).getD (v.length / 2) 0).toNat) % 2 ^ 64 / 2 := by
  rw [medianValue_eq_sorted nonempty, if_neg (by omega), UInt64.toNat_div, UInt64.toNat_add]
  rfl

/-- The condition under which the `uint64_t` sum of the two middle elements of an
even vector does not wrap. -/
def NoWrap (v : List UInt64) : Prop :=
  v.length % 2 = 0 →
    ((sorted v).getD (v.length / 2 - 1) 0).toNat + ((sorted v).getD (v.length / 2) 0).toNat < 2 ^ 64

/-- The median is the exact one, and lies between the least and the greatest element. -/
def MedianExact (v : List UInt64) : Prop :=
  (medianValue v).toNat = exactMedian v ∧ (∃ x ∈ v, x ≤ medianValue v) ∧ ∃ y ∈ v, medianValue v ≤ y

theorem medianExact_of_noWrap {v : List UInt64} (nonempty : v ≠ []) (noWrap : NoWrap v) : MedianExact v := by
  have positive : 0 < v.length := List.length_pos_iff.mpr nonempty
  by_cases odd : v.length % 2 = 1
  · -- the median is an element
    have middle : medianValue v = (sorted v).getD (v.length / 2) 0 := by
      rw [medianValue_eq_sorted nonempty, if_pos odd]
    have mem := getD_sorted_mem v (i := v.length / 2) (by omega)
    refine ⟨by rw [middle, exactMedian, if_pos odd], ⟨_, mem, ?_⟩, ⟨_, mem, ?_⟩⟩ <;>
      rw [middle] <;> exact UInt64.le_refl _
  · have even : v.length % 2 = 0 := by omega
    set lower := (sorted v).getD (v.length / 2 - 1) 0
    set upper := (sorted v).getD (v.length / 2) 0
    have ordered : lower.toNat ≤ upper.toNat :=
      UInt64.le_iff_toNat_le.mp (getD_sorted_le v (by omega) (by omega))
    have value : (medianValue v).toNat = (lower.toNat + upper.toNat) / 2 := by
      rw [toNat_medianValue_even nonempty even, Nat.mod_eq_of_lt (noWrap even)]
    refine ⟨by rw [value, exactMedian, if_neg odd], ⟨lower, getD_sorted_mem v (by omega), ?_⟩,
      ⟨upper, getD_sorted_mem v (by omega), ?_⟩⟩
    · rw [UInt64.le_iff_toNat_le, value]
      omega
    · rw [UInt64.le_iff_toNat_le, value]
      omega

example : MedianExact [3, 1, 2, 5] := medianExact_of_noWrap (by decide) fun _ => by decide

theorem toNat_getD_sorted_lt {v : List UInt64} {bound : Nat} (positive : 0 < bound)
    (small : ∀ x ∈ v, x.toNat < bound) (i : Nat) : ((sorted v).getD i 0).toNat < bound := by
  by_cases inside : i < v.length
  · exact small _ (getD_sorted_mem v inside)
  · rw [List.getD_eq_default _ _ (by simpa using inside)]
    exact positive

theorem noWrap_of_lt {v : List UInt64} (small : ∀ x ∈ v, x.toNat < 2 ^ 63) : NoWrap v := fun _ => by
  have lower := toNat_getD_sorted_lt (by norm_num) small (v.length / 2 - 1)
  have upper := toNat_getD_sorted_lt (by norm_num) small (v.length / 2)
  omega

theorem medianValue_replicate_odd {n : Nat} (odd : n % 2 = 1) (t : UInt64) : medianValue (List.replicate n t) = t := by
  have nonempty : List.replicate n t ≠ [] := by
    rw [Ne, List.replicate_eq_nil_iff]
    omega
  rw [medianValue_eq_sorted nonempty, if_pos (by simpa using odd)]
  exact List.eq_of_mem_replicate (getD_sorted_mem _ (by simp; omega))

end Common
