import Mathlib

/-! # `std::lower_bound` as libstdc++ runs it

`std::__lower_bound(first, last, value, comp)` keeps a range `[first, first +
len)`, compares its middle element, and keeps the upper half past the middle
when `comp(*middle, value)` holds and the lower half before it otherwise.
Positions stand for iterators here, and `less i` for `comp(*(begin + i), value)`.

On a predicate that holds exactly below a threshold `p`, the loop returns `p`
(`lowerBound_eq`), so on a predicate that once false stays false it returns the
first position where it fails (`lowerBound_antitone`).  On any other predicate
that need not be the first: the loop reads only the middles it visits. -/

set_option autoImplicit false

namespace BinarySearch

/-- The loop of `std::__lower_bound`; every round shrinks `len`, so `len` rounds of
fuel are enough. -/
def lowerBoundLoop (less : Nat → Bool) : Nat → Nat → Nat → Nat
  | 0, first, _ => first
  | fuel + 1, first, len =>
      if 0 < len then
        let half := len / 2
        let middle := first + half
        if less middle then lowerBoundLoop less fuel (middle + 1) (len - half - 1)
        else lowerBoundLoop less fuel first half
      else first

/-- `std::lower_bound(begin, begin + len, value, comp) - begin`. -/
def lowerBound (less : Nat → Bool) (len : Nat) : Nat := lowerBoundLoop less len 0 len

theorem lowerBoundLoop_eq (less : Nat → Bool) {p : Nat} (fuel : Nat) :
    ∀ {first len : Nat}, (∀ i, first ≤ i → i < first + len → (less i = true ↔ i < p)) →
      first ≤ p → p ≤ first + len → len ≤ fuel → lowerBoundLoop less fuel first len = p := by
  induction fuel with
  | zero =>
    intro first len _ low high enough
    rw [lowerBoundLoop]
    omega
  | succ fuel ih =>
    intro first len threshold low high enough
    rw [lowerBoundLoop]
    by_cases empty : 0 < len
    · rw [if_pos empty]
      have inside : first ≤ first + len / 2 ∧ first + len / 2 < first + len := by omega
      by_cases below : less (first + len / 2) = true
      · -- the middle is below the threshold: it lies in the upper half
        have past : first + len / 2 < p := (threshold _ inside.1 inside.2).mp below
        simp only [below, if_true]
        exact ih (fun i low' high' => threshold i (by omega) (by omega)) (by omega) (by omega) (by omega)
      · have upTo : p ≤ first + len / 2 := Nat.le_of_not_lt fun lt => below ((threshold _ inside.1 inside.2).mpr lt)
        simp only [below, Bool.false_eq_true, if_false]
        exact ih (fun i low' high' => threshold i low' (by omega)) low upTo (by omega)
    · rw [if_neg empty]
      omega

theorem lowerBound_eq (less : Nat → Bool) {p len : Nat} (threshold : ∀ i < len, less i = true ↔ i < p)
    (le : p ≤ len) : lowerBound less len = p :=
  lowerBoundLoop_eq less len (fun i _ inside => threshold i (by omega)) (Nat.zero_le p) (by omega) le_rfl

theorem lowerBound_antitone (less : Nat → Bool) (len : Nat)
    (antitone : ∀ i j, i ≤ j → j < len → less j = true → less i = true) :
    lowerBound less len ≤ len ∧ (∀ i < lowerBound less len, less i = true) ∧
      ∀ i, lowerBound less len ≤ i → i < len → less i = false := by
  classical
  -- the threshold: the first failing position, or the end
  obtain ⟨p, le, below, above⟩ : ∃ p ≤ len, (∀ i < p, less i = true) ∧ ∀ i, p ≤ i → i < len → less i = false := by
    by_cases fails : ∃ i, i < len ∧ less i = false
    · refine ⟨Nat.find fails, (Nat.find_spec fails).1.le, fun i lt => ?_, fun i after inside => ?_⟩
      · have notFirst := Nat.find_min fails lt
        simp only [not_and, Bool.not_eq_false] at notFirst
        exact notFirst (by have := (Nat.find_spec fails).1; omega)
      · cases holds : less i
        · rfl
        · have := antitone _ _ after inside holds
          rw [(Nat.find_spec fails).2] at this
          cases this
    · refine ⟨len, le_rfl, fun i lt => ?_, fun i after inside => absurd inside (by omega)⟩
      cases holds : less i
      · exact absurd ⟨i, lt, holds⟩ fails
      · rfl
  have found : lowerBound less len = p :=
    lowerBound_eq less (fun i inside => ⟨fun holds => ?_, fun lt => below i lt⟩) le
  · rw [found]
    exact ⟨le, below, above⟩
  · by_contra after
    rw [above i (by omega) inside] at holds
    cases holds

end BinarySearch
