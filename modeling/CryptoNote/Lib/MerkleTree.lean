import Mathlib

/-! # Levels of a binary hash tree

A level of a hash tree is read as a function from positions to nodes; the
level above hashes each pair of siblings, `2 j` and `2 j + 1`, into node `j`.
After `m` levels, node `j` depends only on the positions `[j 2^m, (j + 1) 2^m)`
below (`levelAbove_congr`), so a level stored in a buffer that holds garbage past
its end is as good as any level that agrees with it on its length.

Node 0 of level `m` is reached from position 0 by hashing with the node at
position 1 of each level on the way up (`levelAbove_zero_eq_foldl`): these nodes
are the branch of the leftmost leaf. -/

set_option autoImplicit false

namespace MerkleTree

variable {α : Type} (H : α → α → α)

def parentLevel (level : Nat → α) : Nat → α := fun j => H (level (2 * j)) (level (2 * j + 1))

def levelAbove (m : Nat) (level : Nat → α) : Nat → α := (parentLevel H)^[m] level

@[simp] theorem levelAbove_zero (level : Nat → α) : levelAbove H 0 level = level := rfl

theorem levelAbove_succ (m : Nat) (level : Nat → α) :
    levelAbove H (m + 1) level = levelAbove H m (parentLevel H level) :=
  Function.iterate_succ_apply _ _ _

theorem levelAbove_succ' (m : Nat) (level : Nat → α) :
    levelAbove H (m + 1) level = parentLevel H (levelAbove H m level) :=
  Function.iterate_succ_apply' _ _ _

theorem levelAbove_succ_apply (m : Nat) (level : Nat → α) (j : Nat) :
    levelAbove H (m + 1) level j = H (levelAbove H m level (2 * j)) (levelAbove H m level (2 * j + 1)) := by
  rw [levelAbove_succ']
  rfl

theorem levelAbove_congr (m : Nat) : ∀ {N : Nat} {level level' : Nat → α},
    (∀ i < N * 2 ^ m, level i = level' i) → ∀ j < N, levelAbove H m level j = levelAbove H m level' j := by
  induction m with
  | zero =>
    intro N level level' agree j inside
    exact agree j (by simpa using inside)
  | succ m ih =>
    intro N level level' agree j inside
    rw [levelAbove_succ', levelAbove_succ']
    -- both children of node `j` lie in the first `2 N` nodes one level below
    have below := ih (N := 2 * N) (fun i lt => agree i (by rw [pow_succ]; linarith))
    simp only [parentLevel]
    rw [below (2 * j) (by omega), below (2 * j + 1) (by omega)]

theorem levelAbove_zero_eq_foldl (m : Nat) (level : Nat → α) :
    levelAbove H m level 0 = (List.range m).foldl (fun node k => H node (levelAbove H k level 1)) (level 0) := by
  induction m with
  | zero => rfl
  | succ m ih =>
    rw [levelAbove_succ', List.range_succ, List.foldl_append, ← ih]
    rfl

end MerkleTree
