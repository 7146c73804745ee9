import Mathlib

/-!
# Two list algorithms and their laws

`lowerBound key l b` is the position `std::lower_bound` returns on a sequence
sorted by `key` when it looks for the first element whose key is not below `b`:
the number of leading elements below `b`.  On a list sorted by `key` it counts
every element below `b`, and it cuts the list where `filter` does.

`mapUntilError step l` runs `step` over `l` in order and collects the results
until the first failure, which it returns together with the results collected
before it: the shape of a loop that pushes into an output vector and returns
an error code.

A sum over a list regroups as a sum over the keys its elements carry, each
key's elements summed together, and the sum of the elements without a key
(`sum_map_eq_sum_keys`).
-/

set_option autoImplicit false

namespace ListAlgorithms

variable {α β ε : Type}

/-! ## Lower bound -/

section LowerBound

variable (key : α → Nat)

def lowerBound (l : List α) (bound : Nat) : Nat :=
  (l.takeWhile fun x => key x < bound).length

variable {key}

theorem takeWhile_eq_filter {l : List α} (sorted : l.Pairwise fun x y => key x ≤ key y)
    (bound : Nat) :
    l.takeWhile (fun x => key x < bound) = l.filter fun x => key x < bound := by
  induction l with
  | nil => rfl
  | cons x xs ih =>
      obtain ⟨above, sorted⟩ := List.pairwise_cons.mp sorted
      by_cases below : key x < bound
      · simp [below, ih sorted]
      · -- every later key is at least `key x`, so nothing after `x` is below either
        have rest : xs.filter (fun y => key y < bound) = [] := by
          rw [List.filter_eq_nil_iff]
          intro y mem
          have := above y mem
          simp only [decide_eq_true_eq]
          omega
        simp [below, rest]

theorem dropWhile_eq_filter {l : List α} (sorted : l.Pairwise fun x y => key x ≤ key y)
    (bound : Nat) :
    l.dropWhile (fun x => key x < bound) = l.filter fun x => bound ≤ key x := by
  induction l with
  | nil => rfl
  | cons x xs ih =>
      obtain ⟨above, sorted⟩ := List.pairwise_cons.mp sorted
      by_cases below : key x < bound
      · have dropped : ¬ bound ≤ key x := by omega
        simp [below, dropped, ih sorted]
      · have rest : xs.filter (fun y => bound ≤ key y) = xs := by
          rw [List.filter_eq_self]
          intro y mem
          have := above y mem
          simp only [decide_eq_true_eq]
          omega
        have kept : bound ≤ key x := by omega
        simp [below, kept, rest]

theorem lowerBound_eq_length_filter {l : List α} (sorted : l.Pairwise fun x y => key x ≤ key y)
    (bound : Nat) : lowerBound key l bound = (l.filter fun x => key x < bound).length := by
  rw [lowerBound, takeWhile_eq_filter sorted]

theorem take_lowerBound {l : List α} (sorted : l.Pairwise fun x y => key x ≤ key y)
    (bound : Nat) : l.take (lowerBound key l bound) = l.filter fun x => key x < bound := by
  have split := List.takeWhile_append_dropWhile (p := fun x => decide (key x < bound)) (l := l)
  rw [lowerBound]
  conv_lhs => arg 2; rw [← split]
  rw [List.take_left, takeWhile_eq_filter sorted]

theorem drop_lowerBound {l : List α} (sorted : l.Pairwise fun x y => key x ≤ key y)
    (bound : Nat) : l.drop (lowerBound key l bound) = l.filter fun x => bound ≤ key x := by
  have split := List.takeWhile_append_dropWhile (p := fun x => decide (key x < bound)) (l := l)
  rw [lowerBound]
  conv_lhs => arg 2; rw [← split]
  rw [List.drop_left, dropWhile_eq_filter sorted]

theorem filter_lt_append_filter_ge {l : List α} (sorted : l.Pairwise fun x y => key x ≤ key y)
    (bound : Nat) :
    (l.filter fun x => key x < bound) ++ (l.filter fun x => bound ≤ key x) = l := by
  rw [← takeWhile_eq_filter sorted, ← dropWhile_eq_filter sorted, List.takeWhile_append_dropWhile]

end LowerBound

/-! ## Windows of a sorted list -/

section Window

variable (key : α → Nat)

/-- The elements whose key lies in `[start, stop)`. -/
def window (l : List α) (start stop : Nat) : List α :=
  l.filter fun x => start ≤ key x ∧ key x < stop

variable {key}

theorem window_append_of_le {l more : List α} {start stop : Nat} (above : ∀ x ∈ more, stop ≤ key x) :
    window key (l ++ more) start stop = window key l start stop := by
  have outside : window key more start stop = [] := by
    rw [window, List.filter_eq_nil_iff]
    intro x mem
    have := above x mem
    simp only [decide_eq_true_eq]
    omega
  rw [window, List.filter_append, ← window, ← window, outside, List.append_nil]

theorem filter_lt_append_of_le {l more : List α} {bound : Nat} (above : ∀ x ∈ more, bound ≤ key x) :
    ((l ++ more).filter fun x => key x < bound) = l.filter fun x => key x < bound := by
  have outside : (more.filter fun x => key x < bound) = [] := by
    rw [List.filter_eq_nil_iff]
    intro x mem
    have := above x mem
    simp only [decide_eq_true_eq]
    omega
  rw [List.filter_append, outside, List.append_nil]

theorem length_filter_lt_add_length_window (l : List α) {start stop : Nat} (le : start ≤ stop) :
    (l.filter fun x => key x < start).length + (window key l start stop).length =
      (l.filter fun x => key x < stop).length := by
  have split := List.length_eq_length_filter_add (l := l.filter fun x => key x < stop)
    (fun x => decide (key x < start))
  rw [List.filter_filter, List.filter_filter] at split
  have lower : (l.filter fun x => decide (key x < start) && decide (key x < stop)) =
      l.filter fun x => key x < start := by
    apply List.filter_congr
    intro x _
    by_cases below : key x < start
    · have : key x < stop := by omega
      simp [below, this]
    · simp [below]
  have upper : (l.filter fun x => !decide (key x < start) && decide (key x < stop)) = window key l start stop := by
    apply List.filter_congr
    intro x _
    by_cases below : key x < start
    · simp [below]
    · have : start ≤ key x := by omega
      simp [below, this]
  rw [lower, upper] at split
  omega

theorem filter_lt_window (l : List α) {start stop bound : Nat} (le : bound ≤ stop) :
    ((window key l start stop).filter fun x => key x < bound) = window key l start bound := by
  rw [window, List.filter_filter, window]
  apply List.filter_congr
  intro x _
  by_cases below : key x < bound
  · have : key x < stop := by omega
    simp [below, this]
  · simp [below]

theorem filter_ge_window (l : List α) {start stop bound : Nat} (le : start ≤ bound) :
    ((window key l start stop).filter fun x => bound ≤ key x) = window key l bound stop := by
  rw [window, List.filter_filter, window]
  apply List.filter_congr
  intro x _
  by_cases above : bound ≤ key x
  · have : start ≤ key x := by omega
    simp [above, this]
  · simp [above]

theorem filter_lt_eq_append_window {l : List α} (sorted : l.Pairwise fun x y => key x ≤ key y)
    {start stop : Nat} (le : start ≤ stop) :
    (l.filter fun x => key x < stop) = (l.filter fun x => key x < start) ++ window key l start stop := by
  have parts := filter_lt_append_filter_ge (sorted.filter fun x => decide (key x < stop)) start
  rw [List.filter_filter, List.filter_filter] at parts
  have lower : (l.filter fun x => decide (key x < start) && decide (key x < stop)) =
      l.filter fun x => key x < start := by
    apply List.filter_congr
    intro x _
    by_cases below : key x < start
    · have : key x < stop := by omega
      simp [below, this]
    · simp [below]
  have upper : (l.filter fun x => decide (start ≤ key x) && decide (key x < stop)) = window key l start stop := by
    apply List.filter_congr
    intro x _
    simp [Bool.decide_and]
  rw [lower, upper] at parts
  exact parts.symm

theorem window_self (l : List α) (start : Nat) : window key l start start = [] := by
  rw [window, List.filter_eq_nil_iff]
  intro x _
  simp only [decide_eq_true_eq]
  omega

theorem window_of_lt {l : List α} {start stop stop' : Nat} (below : ∀ x ∈ l, key x < stop) (le : stop ≤ stop') :
    window key l start stop' = window key l start stop := by
  apply List.filter_congr
  intro x mem
  have := below x mem
  by_cases low : start ≤ key x
  · simp [low, this, show key x < stop' by omega]
  · simp [low]

theorem window_append_of_top {l more : List α} {start stop : Nat} (le : start ≤ stop)
    (below : ∀ x ∈ l, key x < stop) (top : ∀ x ∈ more, key x = stop) :
    window key (l ++ more) start (stop + 1) = window key l start stop ++ more := by
  rw [window, List.filter_append, ← window, window_of_lt below (Nat.le_succ stop), List.filter_eq_self.mpr]
  intro x mem
  have := top x mem
  simp only [decide_eq_true_eq]
  omega

theorem window_map {γ : Type} {key' : γ → Nat} {f : α → γ} (keep : ∀ x, key' (f x) = key x)
    (l : List α) (start stop : Nat) :
    window key' (l.map f) start stop = (window key l start stop).map f := by
  rw [window, List.filter_map, window]
  congr 1
  apply List.filter_congr
  intro x _
  simp only [Function.comp, keep]

theorem window_filterMap {γ : Type} {key' : γ → Nat} {f : α → Option γ}
    (keep : ∀ x y, f x = some y → key' y = key x) (l : List α) (start stop : Nat) :
    window key' (l.filterMap f) start stop = (window key l start stop).filterMap f := by
  rw [window, List.filter_filterMap, window, List.filterMap_filter]
  apply List.filterMap_congr
  intro x _
  cases mapped : f x with
  | none => simp
  | some y =>
      simp only [keep x y mapped, Option.filter_some, Bool.decide_and]

end Window

theorem find?_key_eq {κ : Type} [BEq κ] [LawfulBEq κ] {key : α → κ} {l : List α}
    (distinct : (l.map key).Nodup) {x : α} (mem : x ∈ l) (test : α → Bool) :
    l.find? (fun y => key y == key x && test y) = if test x then some x else none := by
  induction l with
  | nil => simp at mem
  | cons y ys ih =>
      rw [List.map_cons, List.nodup_cons] at distinct
      rw [List.find?_cons]
      by_cases same : y = x
      · subst same
        -- no later element has the key of `y`
        have none : ys.find? (fun z => key z == key y && test z) = none := by
          rw [List.find?_eq_none]
          intro z later found
          simp only [Bool.and_eq_true, beq_iff_eq] at found
          exact distinct.1 (found.1 ▸ List.mem_map_of_mem later)
        cases test y <;> simp [none]
      · have later : x ∈ ys := (List.mem_cons.mp mem).resolve_left (Ne.symm same)
        have other : (key y == key x) = false := beq_eq_false_iff_ne.mpr fun sameKey =>
          distinct.1 (sameKey ▸ List.mem_map_of_mem later)
        rw [other, Bool.false_and, ih distinct.2 later]

theorem any_key_filter {κ : Type} [BEq κ] [LawfulBEq κ] {key : α → κ} {l : List α}
    (distinct : (l.map key).Nodup) (test : α → Bool) {x : α} (mem : x ∈ l) :
    ((l.filter test).any fun y => key y == key x) = test x := by
  cases passes : test x with
  | true => exact List.any_eq_true.mpr ⟨x, List.mem_filter.mpr ⟨mem, passes⟩, beq_self_eq_true _⟩
  | false =>
      rw [List.any_eq_false]
      intro y kept sameKey
      obtain ⟨inList, passesY⟩ := List.mem_filter.mp kept
      have same := List.inj_on_of_nodup_map distinct inList mem (beq_iff_eq.mp (by simpa using sameKey))
      rw [same, passes] at passesY
      contradiction

theorem map_idxOf_of_nodup [DecidableEq α] {l : List α} (nodup : l.Nodup) :
    l.map (l.idxOf ·) = List.range l.length := by
  apply List.ext_getElem (by simp)
  intro i inside _
  rw [List.getElem_map, List.getElem_range]
  exact nodup.idxOf_getElem i (by simpa using inside)

/-! ## Collecting until the first error -/

section MapUntilError

variable (step : β → Except ε α)

def mapUntilError : List β → Option ε × List α
  | [] => (none, [])
  | x :: xs =>
      match step x with
      | .error e => (some e, [])
      | .ok a => ((mapUntilError xs).1, a :: (mapUntilError xs).2)

variable {step}

@[simp] theorem mapUntilError_nil : mapUntilError step [] = (none, []) := rfl

theorem mapUntilError_cons_ok {x : β} {a : α} (xs : List β) (ok : step x = .ok a) :
    mapUntilError step (x :: xs) = ((mapUntilError step xs).1, a :: (mapUntilError step xs).2) := by
  simp [mapUntilError, ok]

theorem mapUntilError_cons_error {x : β} {e : ε} (xs : List β) (failed : step x = .error e) :
    mapUntilError step (x :: xs) = (some e, []) := by
  simp [mapUntilError, failed]

theorem mapUntilError_append (xs ys : List β) :
    mapUntilError step (xs ++ ys) =
      match mapUntilError step xs with
      | (none, as) => ((mapUntilError step ys).1, as ++ (mapUntilError step ys).2)
      | (some e, as) => (some e, as) := by
  induction xs with
  | nil => rfl
  | cons x xs ih =>
      cases ran : step x with
      | error e => simp [mapUntilError, ran]
      | ok a =>
          rw [List.cons_append, mapUntilError_cons_ok _ ran, mapUntilError_cons_ok _ ran, ih]
          cases mapUntilError step xs with
          | mk result as => cases result <;> rfl

theorem mapUntilError_congr {step' : β → Except ε α} {xs : List β}
    (same : ∀ x ∈ xs, step x = step' x) : mapUntilError step xs = mapUntilError step' xs := by
  induction xs with
  | nil => rfl
  | cons x xs ih =>
      have rest := ih fun y mem => same y (List.mem_cons_of_mem x mem)
      simp only [mapUntilError, same x List.mem_cons_self, rest]

theorem mapUntilError_of_ok {f : β → α} {xs : List β} (ok : ∀ x ∈ xs, step x = .ok (f x)) :
    mapUntilError step xs = (none, xs.map f) := by
  induction xs with
  | nil => rfl
  | cons x xs ih =>
      rw [mapUntilError_cons_ok _ (ok x List.mem_cons_self),
        ih fun y mem => ok y (List.mem_cons_of_mem x mem)]
      rfl

theorem mapUntilError_of_ok_eq {expected : β → Option α} {xs : List β}
    (ok : ∀ x ∈ xs, ∃ a, step x = .ok a ∧ expected x = some a) :
    (mapUntilError step xs).1 = none ∧ (mapUntilError step xs).2.map some = xs.map expected := by
  induction xs with
  | nil => exact ⟨rfl, rfl⟩
  | cons x xs ih =>
      obtain ⟨a, ran, same⟩ := ok x List.mem_cons_self
      obtain ⟨rest, values⟩ := ih fun y mem => ok y (List.mem_cons_of_mem x mem)
      rw [mapUntilError_cons_ok _ ran, List.map_cons, List.map_cons, values, same]
      exact ⟨rest, rfl⟩

theorem mapUntilError_of_error {xs ys : List β} {y : β} {e : ε}
    (ok : ∀ x ∈ xs, ∃ a, step x = .ok a) (failed : step y = .error e) :
    (mapUntilError step (xs ++ y :: ys)).1 = some e := by
  induction xs with
  | nil => simp [mapUntilError, failed]
  | cons x xs ih =>
      obtain ⟨a, ran⟩ := ok x List.mem_cons_self
      rw [List.cons_append, mapUntilError_cons_ok _ ran]
      exact ih fun z mem => ok z (List.mem_cons_of_mem x mem)

theorem mapUntilError_error_mem {xs : List β} {e : ε} (stopped : (mapUntilError step xs).1 = some e) :
    ∃ x ∈ xs, step x = .error e := by
  induction xs with
  | nil => simp at stopped
  | cons x xs ih =>
      cases ran : step x with
      | error e' =>
          rw [mapUntilError_cons_error _ ran] at stopped
          cases stopped
          exact ⟨x, List.mem_cons_self, ran⟩
      | ok a =>
          rw [mapUntilError_cons_ok _ ran] at stopped
          obtain ⟨y, mem, failed⟩ := ih stopped
          exact ⟨y, List.mem_cons_of_mem x mem, failed⟩

end MapUntilError

/-! ## Sums by key -/

open Finset in
theorem sum_map_eq_sum_keys {κ M : Type} [DecidableEq κ] [AddCommMonoid M] (key : α → Option κ) (g : α → M) :
    ∀ l : List α, (l.map g).sum =
      ∑ k ∈ (l.filterMap key).toFinset, ((l.filter (key · = some k)).map g).sum +
        ((l.filter (key · = none)).map g).sum
  | [] => by simp
  | x :: l => by
    have rest := sum_map_eq_sum_keys key g l
    cases keyed : key x with
    | none =>
      simp only [List.map_cons, List.sum_cons, List.filterMap_cons_none keyed, List.filter_cons, keyed, reduceCtorEq,
        decide_false, Bool.false_eq_true, if_false, decide_true, if_true, rest]
      abel
    | some k₀ =>
      -- the fiber of `k₀` gains `x`, and `k₀` is a key even when no other element has it
      have fibers : ∀ k, ((List.filter (key · = some k) (x :: l)).map g).sum =
          ((l.filter (key · = some k)).map g).sum + if k = k₀ then g x else 0 := by
        intro k
        by_cases same : k = k₀
        · subst same
          simp [keyed, add_comm]
        · simp [keyed, Ne.symm same, same]
      have absent : k₀ ∉ (l.filterMap key).toFinset → ((l.filter (key · = some k₀)).map g).sum = 0 := by
        intro missing
        rw [List.filter_eq_nil_iff.mpr, List.map_nil, List.sum_nil]
        intro a mem found
        exact missing (List.mem_toFinset.mpr (List.mem_filterMap.mpr ⟨a, mem, by simpa using found⟩))
      have noneFiber : List.filter (key · = none) (x :: l) = l.filter (key · = none) := by
        simp [keyed]
      rw [List.map_cons, List.sum_cons, List.filterMap_cons_some keyed, List.toFinset_cons,
        Finset.sum_congr rfl fun k _ => fibers k, Finset.sum_add_distrib, Finset.sum_ite_eq',
        if_pos (Finset.mem_insert_self _ _), Finset.sum_insert_of_eq_zero_if_notMem absent, noneFiber, rest]
      abel

end ListAlgorithms
