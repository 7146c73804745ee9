import Mathlib
import CryptoNote.Lib.MerkleTree

/-! # Merkle trees of transaction hashes

`crypto/tree-hash.c`: `tree_hash` (the root over `count` hashes), `tree_depth`,
`tree_branch` (the branch of the first hash) and `tree_hash_from_branch` (the root
rebuilt from a leaf and a branch).  `cn_fast_hash` of two concatenated hashes is an
arbitrary `H : α → α → α`.  The scratch buffers are lists, overwritten with
`List.set` where the C code writes into them, and `size_t` values are naturals:
for `count < 2^64` no shift or sum below leaves 64 bits.

The tree over `count` leaves, `2^d ≤ count < 2^(d+1)`, hashes the last
`2 (count - 2^d)` leaves in pairs and passes the others through, which gives a full
level of `2^d` nodes (`fullLevel`); the root is `d` levels above it.  `tree_hash`
starts from a buffer of `2^⌊log₂ (count - 1)⌋` nodes, one level higher when `count`
is a power of two, and `tree_branch` from the same level without its node 0.  Both
are read as `MerkleTree.levelAbove`, and the root rebuilt from the branch of leaf 0
is the root (`treeHashFromBranch_treeBranch`). -/

set_option autoImplicit false

namespace Crypto

open MerkleTree

def treeDepth (count : Nat) : Nat :=
  let step (state : Nat × Nat) (i : Nat) : Nat × Nat :=
    if state.1 >>> i > 0 then (state.1 >>> i, state.2 + i) else state
  ([32, 16, 8, 4, 2, 1].foldl step (count, 0)).2

/-- The counting loop of `tree_hash`: `count - 1` with every bit below its top bit
set, then its top bit alone. -/
def treeHashCount (count : Nat) : Nat :=
  let cnt := [1, 2, 4, 8, 16, 32].foldl (fun cnt i => cnt ||| cnt >>> i) (count - 1)
  cnt &&& (cnt >>> 1 ^^^ (2 ^ 64 - 1))

/-- The counting loop of `tree_branch`: `(cnt, depth)` with `cnt = 2^depth ≤ count`. -/
def treeBranchCount (count : Nat) : Nat × Nat :=
  [32, 16, 8, 4, 2, 1].foldl
    (fun (state : Nat × Nat) i => if state.1 <<< i ≤ count then (state.1 <<< i, state.2 + i) else state)
    (1, 0)

section Trees

variable {α : Type} [Inhabited α] (H : α → α → α)

/-- The loop `for (i = skip, j = 0; j < cnt; i += 2, ++j) cn_fast_hash(ints[i], 2 * HASH_SIZE, ints[j])`,
in place. -/
def hashPairsInPlace (skip : Nat) (ints : List α) (cnt : Nat) : List α :=
  (List.range cnt).foldl
    (fun ints j => ints.set j (H (ints.getD (2 * j + skip) default) (ints.getD (2 * j + skip + 1) default)))
    ints

/-- The `while (cnt > 2)` loop of `tree_hash`, with `cnt` rounds of fuel: each round
halves `cnt`. -/
def treeHashHalve : Nat → Nat → List α → List α
  | 0, _, ints => ints
  | fuel + 1, cnt, ints =>
    if cnt > 2 then treeHashHalve fuel (cnt >>> 1) (hashPairsInPlace H 0 ints (cnt >>> 1)) else ints

/-- `tree_hash(hashes, count, root_hash)`, for `count > 0`. -/
def treeHash (hashes : List α) (count : Nat) : α :=
  if count = 1 then hashes.getD 0 default
  else if count = 2 then H (hashes.getD 0 default) (hashes.getD 1 default)
  else
    let cnt := treeHashCount count
    let k := 2 * cnt - count
    -- the `memcpy` of the first `2 cnt - count` hashes, then the pairs of the others
    let ints := hashes.take k ++ (List.range' k (cnt - k)).map fun j =>
      H (hashes.getD (2 * j - k) default) (hashes.getD (2 * j - k + 1) default)
    let ints := treeHashHalve H cnt cnt ints
    H (ints.getD 0 default) (ints.getD 1 default)

/-- The `while (depth > 0)` loop of `tree_branch`: `branch[depth - 1]` gets `ints[0]`,
then `ints` moves up a level in place.  Each entry goes in front of `branch`, so the
list reads `branch[depth], branch[depth + 1], …`. -/
def treeBranchLoop : Nat → Nat → List α → List α → List α
  | 0, _, _, branch => branch
  | depth + 1, cnt, ints, branch =>
    let cnt := cnt >>> 1
    treeBranchLoop depth cnt (hashPairsInPlace H 1 ints (cnt - 1)) (ints.getD 0 default :: branch)

/-- `tree_branch(hashes, count, branch)`: the entries it writes, `branch[0]` first. -/
def treeBranch (hashes : List α) (count : Nat) : List α :=
  let (cnt, depth) := treeBranchCount count
  let k := 2 * cnt - count
  -- the `memcpy` of `hashes[1 .. 2 cnt - count)`, then the pairs of the others
  let ints := (hashes.drop 1).take (k - 1) ++ (List.range' (k - 1) (cnt - k)).map fun j =>
    H (hashes.getD (2 * j + 2 - k) default) (hashes.getD (2 * j + 3 - k) default)
  treeBranchLoop H depth cnt ints []

/-- Bit `depth` of the path, `path[depth >> 3] & (1 << (depth & 7))`; a null path
reads as zeros. -/
def pathBit (path : Option (List UInt8)) (depth : Nat) : Bool :=
  match path with
  | none => false
  | some bytes => (bytes.getD (depth >>> 3) 0).toNat &&& 1 <<< (depth &&& 7) != 0

/-- The `while (depth > 0)` loop of `tree_hash_from_branch` on its two-slot buffer. -/
def treeHashFromBranchLoop (branch : List α) (leaf : α) (path : Option (List UInt8)) :
    Nat → Bool → α × α → α × α
  | 0, _, buffer => buffer
  | depth + 1, fromLeaf, buffer =>
    let node := if fromLeaf then leaf else H buffer.1 buffer.2
    let entry := branch.getD depth default
    -- a set path bit puts the node from below into `buffer[1]`
    let buffer := if pathBit path depth then (entry, node) else (node, entry)
    treeHashFromBranchLoop branch leaf path depth false buffer

def treeHashFromBranch (branch : List α) (depth : Nat) (leaf : α) (path : Option (List UInt8)) : α :=
  if depth = 0 then leaf
  else
    let buffer := treeHashFromBranchLoop H branch leaf path depth true (default, default)
    H buffer.1 buffer.2

/-- The full level of the tree over `hashes` whose first `k` nodes are leaves: the
level under the root that every node of the tree is hashed up to. -/
def fullLevel (hashes : List α) (k : Nat) (j : Nat) : α :=
  if j < k then hashes.getD j default
  else H (hashes.getD (2 * j - k) default) (hashes.getD (2 * j - k + 1) default)

end Trees

/-! ### The counting loops

Each loop tries the shifts `32, 16, …, 1` (or `1, 2, …, 32`), one step per shift;
the bound each step keeps is stated once and carried over the list of shifts by
induction. -/

/-- What the `tree_depth` loop keeps: the count shifted by `depth`, positive and
below `2^w` before the shift by `w / 2`. -/
def DepthBound (count w : Nat) (state : Nat × Nat) : Prop :=
  state.1 = count >>> state.2 ∧ 0 < state.1 ∧ state.1 < 2 ^ w

theorem depthBound_step {count w : Nat} {state : Nat × Nat} (bound : DepthBound count (2 * w) state) :
    DepthBound count w (if state.1 >>> w > 0 then (state.1 >>> w, state.2 + w) else state) := by
  obtain ⟨shifted, pos, lt⟩ := bound
  split
  · next high =>
    refine ⟨by rw [Nat.shiftRight_add, ← shifted], high, ?_⟩
    rw [Nat.shiftRight_eq_div_pow, Nat.div_lt_iff_lt_mul (by positivity), ← pow_add]
    rwa [← two_mul]
  · next low =>
    rw [Nat.shiftRight_eq_div_pow, gt_iff_lt, Nat.div_pos_iff, not_and_or] at low
    rcases low with zero | below
    · exact absurd (by positivity) zero
    · exact ⟨shifted, pos, by omega⟩

theorem depthBound_foldl (count : Nat) : ∀ (s : Nat) (state : Nat × Nat), DepthBound count (2 ^ s) state →
    DepthBound count 1 (((List.range s).reverse.map (2 ^ ·)).foldl
      (fun (state : Nat × Nat) i => if state.1 >>> i > 0 then (state.1 >>> i, state.2 + i) else state) state) := by
  intro s
  induction s with
  | zero => exact fun state bound => bound
  | succ s ih =>
    intro state bound
    rw [List.range_succ, List.reverse_append, List.reverse_singleton, List.singleton_append,
      List.map_cons, List.foldl_cons]
    exact ih _ (depthBound_step (by rwa [← pow_succ']))

theorem treeDepth_eq {count : Nat} (pos : 0 < count) (small : count < 2 ^ 64) :
    treeDepth count = count.log2 := by
  have widths : [32, 16, 8, 4, 2, 1] = (List.range 6).reverse.map (2 ^ ·) := rfl
  obtain ⟨shifted, top, one⟩ := depthBound_foldl count 6 (count, 0) ⟨rfl, pos, small⟩
  rw [treeDepth, widths]
  -- the loop ends on `count >>> depth = 1`
  set depth := (((List.range 6).reverse.map (2 ^ ·)).foldl
      (fun (state : Nat × Nat) i => if state.1 >>> i > 0 then (state.1 >>> i, state.2 + i) else state) (count, 0)).2
  rw [Nat.shiftRight_eq_div_pow] at shifted
  have low : 2 ^ depth ≤ count := (Nat.div_pos_iff.mp (shifted ▸ top)).2
  have high : count < 2 ^ (depth + 1) := by
    rw [pow_succ', ← Nat.div_lt_iff_lt_mul (by positivity)]
    rw [pow_one] at one
    omega
  exact ((Nat.log2_eq_iff (by omega)).mpr ⟨low, high⟩).symm

/-- What the `tree_branch` counting loop keeps: `cnt = 2^depth ≤ count < 2^(depth + w)`
before the shift by `w / 2`. -/
def BranchBound (count w : Nat) (state : Nat × Nat) : Prop :=
  state.1 = 2 ^ state.2 ∧ 2 ^ state.2 ≤ count ∧ count < 2 ^ (state.2 + w)

theorem branchBound_step {count w : Nat} {state : Nat × Nat} (bound : BranchBound count (2 * w) state) :
    BranchBound count w (if state.1 <<< w ≤ count then (state.1 <<< w, state.2 + w) else state) := by
  obtain ⟨power, low, high⟩ := bound
  have shifted : state.1 <<< w = 2 ^ (state.2 + w) := by rw [Nat.shiftLeft_eq, power, pow_add]
  split
  · next fits =>
    rw [shifted] at fits ⊢
    exact ⟨rfl, fits, by rwa [add_assoc, ← two_mul]⟩
  · next exceeds =>
    rw [shifted] at exceeds
    exact ⟨power, low, by omega⟩

theorem branchBound_foldl (count : Nat) : ∀ (s : Nat) (state : Nat × Nat), BranchBound count (2 ^ s) state →
    BranchBound count 1 (((List.range s).reverse.map (2 ^ ·)).foldl
      (fun (state : Nat × Nat) i => if state.1 <<< i ≤ count then (state.1 <<< i, state.2 + i) else state)
      state) := by
  intro s
  induction s with
  | zero => exact fun state bound => bound
  | succ s ih =>
    intro state bound
    rw [List.range_succ, List.reverse_append, List.reverse_singleton, List.singleton_append,
      List.map_cons, List.foldl_cons]
    exact ih _ (branchBound_step (by rwa [← pow_succ']))

theorem treeBranchCount_eq {count : Nat} (pos : 0 < count) (small : count < 2 ^ 64) :
    treeBranchCount count = (2 ^ count.log2, count.log2) := by
  have widths : [32, 16, 8, 4, 2, 1] = (List.range 6).reverse.map (2 ^ ·) := rfl
  obtain ⟨power, low, high⟩ := branchBound_foldl count 6 (1, 0) ⟨rfl, pos, small⟩
  rw [treeBranchCount, widths]
  have depth := (Nat.log2_eq_iff (by omega)).mpr ⟨low, high⟩
  rw [← depth] at power
  exact Prod.ext power depth.symm

/-! The smearing loop of `tree_hash` ors `x` with its shifts by `1, 2, …, 2^(s-1)`:
bit `i` ends up set when one of the bits `i, …, i + 2^s - 1` of `x` is. -/

theorem testBit_smear (x : Nat) : ∀ (s i : Nat),
    (((List.range s).map (2 ^ ·)).foldl (fun cnt i => cnt ||| cnt >>> i) x).testBit i = true ↔
      ∃ t < 2 ^ s, x.testBit (i + t) = true := by
  intro s
  induction s with
  | zero => simp
  | succ s ih =>
    intro i
    rw [List.range_succ, List.map_append, List.foldl_append, List.map_singleton, List.foldl_cons,
      List.foldl_nil, Nat.testBit_or, Nat.testBit_shiftRight, Bool.or_eq_true, ih, ih, pow_succ]
    constructor
    · rintro (⟨t, lt, bit⟩ | ⟨t, lt, bit⟩)
      · exact ⟨t, by omega, bit⟩
      · exact ⟨2 ^ s + t, by omega, by rwa [← add_assoc, add_comm i]⟩
    · rintro ⟨t, lt, bit⟩
      by_cases low : t < 2 ^ s
      · exact Or.inl ⟨t, low, bit⟩
      · refine Or.inr ⟨t - 2 ^ s, by omega, ?_⟩
        rwa [show 2 ^ s + i + (t - 2 ^ s) = i + t by omega]

theorem smear_eq {x : Nat} (pos : 0 < x) (small : x < 2 ^ 64) :
    ((List.range 6).map (2 ^ ·)).foldl (fun cnt i => cnt ||| cnt >>> i) x = 2 ^ (x.log2 + 1) - 1 := by
  have top : x.log2 < 64 := (Nat.log2_lt (by omega)).mpr small
  apply Nat.eq_of_testBit_eq
  intro i
  rw [Nat.testBit_two_pow_sub_one, Bool.eq_iff_iff, testBit_smear, decide_eq_true_iff]
  constructor
  · rintro ⟨t, -, bit⟩
    -- a set bit of `x` is at most its top bit
    by_contra above
    have below : x < 2 ^ (i + t) :=
      lt_of_lt_of_le Nat.lt_log2_self (Nat.pow_le_pow_right (by norm_num) (by omega))
    rw [Nat.testBit_lt_two_pow below] at bit
    cases bit
  · intro below
    refine ⟨x.log2 - i, by norm_num; omega, ?_⟩
    rw [show i + (x.log2 - i) = x.log2 by omega]
    exact Nat.testBit_log2 (by omega)

theorem treeHashCount_eq {count : Nat} (two : 2 ≤ count) (small : count < 2 ^ 64) :
    treeHashCount count = 2 ^ (count - 1).log2 := by
  have widths : [1, 2, 4, 8, 16, 32] = (List.range 6).map (2 ^ ·) := rfl
  have top : (count - 1).log2 < 64 := (Nat.log2_lt (by omega)).mpr (by omega)
  rw [treeHashCount, widths, smear_eq (by omega) (by omega)]
  apply Nat.eq_of_testBit_eq
  intro i
  simp only [Nat.testBit_and, Nat.testBit_xor, Nat.testBit_shiftRight, Nat.testBit_two_pow_sub_one,
    Nat.testBit_two_pow]
  rcases lt_trichotomy i (count - 1).log2 with below | top' | above
  · simp [below.ne', show i < 64 by omega, show 1 + i < (count - 1).log2 + 1 by omega]
  · simp [top', top]
  · simp [show ¬ i < (count - 1).log2 + 1 by omega, above.ne]

/-! ### The buffers

The in-place loop reads the pair for node `j` at `2 j + skip ≥ j`, where nothing has
been written yet, so it computes one level above the buffer; the buffers start as
a level of the tree, read by `getD`. -/

section Levels

variable {α : Type} [Inhabited α] (H : α → α → α)

theorem hashPairsInPlace_succ (skip : Nat) (ints : List α) (cnt : Nat) :
    hashPairsInPlace H skip ints (cnt + 1) =
      (hashPairsInPlace H skip ints cnt).set cnt
        (H ((hashPairsInPlace H skip ints cnt).getD (2 * cnt + skip) default)
          ((hashPairsInPlace H skip ints cnt).getD (2 * cnt + skip + 1) default)) := by
  rw [hashPairsInPlace, List.range_succ, List.foldl_append, List.foldl_cons, List.foldl_nil]
  rfl

@[simp] theorem length_hashPairsInPlace (skip : Nat) (ints : List α) (cnt : Nat) :
    (hashPairsInPlace H skip ints cnt).length = ints.length := by
  induction cnt with
  | zero => rfl
  | succ cnt ih => rw [hashPairsInPlace_succ, List.length_set, ih]

theorem getD_hashPairsInPlace (skip : Nat) (ints : List α) {cnt : Nat} (fits : cnt ≤ ints.length) (j : Nat) :
    (hashPairsInPlace H skip ints cnt).getD j default =
      if j < cnt then H (ints.getD (2 * j + skip) default) (ints.getD (2 * j + skip + 1) default)
      else ints.getD j default := by
  induction cnt generalizing j with
  | zero => rfl
  | succ cnt ih =>
    have unwritten : ∀ i, cnt ≤ i → (hashPairsInPlace H skip ints cnt).getD i default = ints.getD i default :=
      fun i le => by rw [ih (by omega), if_neg (by omega)]
    rw [hashPairsInPlace_succ, unwritten _ (by omega), unwritten _ (by omega), List.getD_eq_getElem?_getD,
      List.getElem?_set, length_hashPairsInPlace]
    by_cases here : cnt = j
    · subst here
      simp [show cnt < ints.length by omega]
    · rw [if_neg here, ← List.getD_eq_getElem?_getD, ih (by omega)]
      by_cases below : j < cnt
      · rw [if_pos below, if_pos (by omega)]
      · rw [if_neg below, if_neg (by omega)]

theorem getD_take_append_map (l : List α) (g : Nat → α) {k m : Nat} (le : k ≤ l.length) (j : Nat) :
    (l.take k ++ (List.range' k m).map g).getD j default =
      if j < k then l.getD j default else if j < k + m then g j else default := by
  have length : (l.take k).length = k := by simp [le]
  by_cases before : j < k
  · rw [if_pos before, List.getD_append _ _ _ _ (by omega)]
    simp [List.getD_eq_getElem?_getD, before]
  · rw [if_neg before, List.getD_eq_getElem?_getD, List.getElem?_append_right (by omega), length]
    by_cases inside : j < k + m
    · rw [if_pos inside, List.getElem?_map, List.getElem?_range' (by omega)]
      simp only [Nat.one_mul, Option.map_some, Option.getD_some]
      congr 1
      omega
    · rw [if_neg inside, List.getElem?_eq_none (by simp; omega)]
      rfl

/-! ### The levels -/

theorem halve_two_pow (e : Nat) : 2 ^ (e + 1) >>> 1 = 2 ^ e := by
  rw [Nat.shiftRight_one, pow_succ, Nat.mul_div_cancel _ two_pos]

theorem fullLevel_zero (hashes : List α) {k j : Nat} (inside : 2 * j + 1 < k) :
    fullLevel H hashes 0 j = parentLevel H (fullLevel H hashes k) j := by
  simp only [fullLevel, parentLevel, Nat.not_lt_zero, if_false, Nat.sub_zero, if_pos inside,
    if_pos (show 2 * j < k by omega)]

theorem getD_treeHashInts (hashes : List α) {k cnt j : Nat} (le : k ≤ hashes.length) (fits : k ≤ cnt)
    (inside : j < cnt) :
    (hashes.take k ++ (List.range' k (cnt - k)).map fun j =>
      H (hashes.getD (2 * j - k) default) (hashes.getD (2 * j - k + 1) default)).getD j default =
      fullLevel H hashes k j := by
  rw [getD_take_append_map _ _ le, fullLevel]
  split
  · rfl
  · rw [if_pos (by omega)]

theorem getD_treeBranchInts (hashes : List α) {k cnt j : Nat} (le : k ≤ hashes.length) (pos : 0 < k)
    (fits : k ≤ cnt) (inside : j < cnt - 1) :
    ((hashes.drop 1).take (k - 1) ++ (List.range' (k - 1) (cnt - k)).map fun j =>
      H (hashes.getD (2 * j + 2 - k) default) (hashes.getD (2 * j + 3 - k) default)).getD j default =
      fullLevel H hashes k (j + 1) := by
  rw [getD_take_append_map _ _ (by simp; omega), fullLevel]
  by_cases leaf : j < k - 1
  · rw [if_pos leaf, if_pos (by omega), List.getD_eq_getElem?_getD, List.getElem?_drop,
      ← List.getD_eq_getElem?_getD, add_comm]
  · rw [if_neg leaf, if_pos (by omega), if_neg (by omega)]
    congr 2
    omega

theorem getD_treeHashHalve (e : Nat) : ∀ {fuel : Nat} {ints : List α} {level : Nat → α}, e ≤ fuel →
    2 ^ (e + 1) ≤ ints.length → (∀ j < 2 ^ (e + 1), ints.getD j default = level j) →
    ∀ j < 2, (treeHashHalve H fuel (2 ^ (e + 1)) ints).getD j default = levelAbove H e level j := by
  induction e with
  | zero =>
    intro fuel ints level _ _ agree j inside
    -- two nodes left: the loop stops at once
    have stop : treeHashHalve H fuel (2 ^ (0 + 1)) ints = ints := by
      cases fuel <;> rfl
    rw [stop, agree j (by simpa using inside)]
    rfl
  | succ e ih =>
    intro fuel ints level enough long agree j inside
    obtain ⟨fuel, rfl⟩ : ∃ f, fuel = f + 1 := ⟨fuel - 1, by omega⟩
    have more : 2 ^ (e + 1 + 1) > 2 := by
      rw [pow_succ]
      have := Nat.one_le_two_pow (n := e + 1)
      omega
    rw [treeHashHalve, if_pos more, halve_two_pow, levelAbove_succ]
    have fits : 2 ^ (e + 1) ≤ ints.length := le_trans (Nat.pow_le_pow_right two_pos (by omega)) long
    refine ih (by omega) (by rwa [length_hashPairsInPlace]) (fun i below => ?_) j inside
    rw [getD_hashPairsInPlace _ _ _ fits, if_pos below, parentLevel, Nat.add_zero,
      agree _ (by rw [pow_succ]; omega), agree _ (by rw [pow_succ]; omega)]

theorem treeBranchLoop_eq (e : Nat) : ∀ {ints : List α} {level : Nat → α} (branch : List α),
    2 ^ e - 1 ≤ ints.length → (∀ j < 2 ^ e - 1, ints.getD j default = level (j + 1)) →
    treeBranchLoop H e (2 ^ e) ints branch =
      ((List.range e).map fun t => levelAbove H t level 1).reverse ++ branch := by
  induction e with
  | zero => intro ints level branch _ _; rfl
  | succ e ih =>
    intro ints level branch long agree
    have grows : 2 ^ e - 1 < 2 ^ (e + 1) - 1 := by
      rw [pow_succ]
      have := Nat.one_le_two_pow (n := e)
      omega
    rw [treeBranchLoop, halve_two_pow, agree 0 (by omega)]
    -- one level up, the buffer holds nodes `1 .. 2^e` of the parent level
    rw [@ih _ (parentLevel H level) _ (by rw [length_hashPairsInPlace]; omega) (fun j below => ?_)]
    · simp [List.range_succ_eq_map, levelAbove_succ]
    · rw [getD_hashPairsInPlace _ _ _ (by omega), if_pos below, agree _ (by rw [pow_succ] at grows ⊢; omega),
        agree _ (by rw [pow_succ] at grows ⊢; omega), parentLevel]
      congr 2

/-! ### The root rebuilt from the branch -/

theorem foldl_reverse_take_succ (branch : List α) (node : α) {e : Nat} (inside : e < branch.length) :
    (branch.take (e + 1)).reverse.foldl H node = (branch.take e).reverse.foldl H (H node (branch.getD e default)) := by
  rw [List.take_add_one, List.getElem?_eq_getElem inside, Option.toList_some, List.reverse_append,
    List.reverse_singleton, List.singleton_append, List.foldl_cons, List.getD_eq_getElem _ _ inside]

theorem treeHashFromBranchLoop_none (branch : List α) (leaf : α) : ∀ (e : Nat) (buffer : α × α),
    e ≤ branch.length →
    H (treeHashFromBranchLoop H branch leaf none e false buffer).1
        (treeHashFromBranchLoop H branch leaf none e false buffer).2 =
      (branch.take e).reverse.foldl H (H buffer.1 buffer.2) := by
  intro e
  induction e with
  | zero => intro buffer _; rfl
  | succ e ih =>
    intro buffer le
    rw [treeHashFromBranchLoop, foldl_reverse_take_succ H _ _ (by omega)]
    exact ih _ (by omega)

theorem treeHashFromBranch_none (branch : List α) (leaf : α) {depth : Nat} (le : depth ≤ branch.length) :
    treeHashFromBranch H branch depth leaf none = (branch.take depth).reverse.foldl H leaf := by
  cases depth with
  | zero => rfl
  | succ e =>
    rw [treeHashFromBranch, if_neg (by omega), foldl_reverse_take_succ H _ _ (by omega)]
    exact treeHashFromBranchLoop_none H branch leaf e _ (by omega)

theorem treeHash_eq {hashes : List α} {count : Nat} (pos : 0 < count) (small : count < 2 ^ 64)
    (len : hashes.length = count) :
    treeHash H hashes count = levelAbove H count.log2 (fullLevel H hashes (2 * 2 ^ count.log2 - count)) 0 := by
  rcases (show count = 1 ∨ count = 2 ∨ 3 ≤ count by omega) with one | two | three
  · subst one
    rfl
  · subst two
    rfl
  -- three leaves or more: the buffer of `2^(b+1)` nodes, `b + 1 = ⌊log₂ (count - 1)⌋`
  obtain ⟨b, top⟩ : ∃ b, (count - 1).log2 = b + 1 :=
    ⟨(count - 1).log2 - 1, by have := (Nat.le_log2 (n := count - 1) (by omega)).mpr (show 2 ^ 1 ≤ count - 1 by omega); omega⟩
  have low : 2 ^ (b + 1) ≤ count - 1 := top ▸ Nat.log2_self_le (by omega)
  have high : count - 1 < 2 ^ (b + 1 + 1) := top ▸ Nat.lt_log2_self
  have twice : 2 ^ (b + 1 + 1) = 2 * 2 ^ (b + 1) := pow_succ' 2 (b + 1)
  have fits : 2 * 2 ^ (b + 1) - count ≤ 2 ^ (b + 1) := by omega
  have agree := fun j (inside : j < 2 ^ (b + 1)) =>
    getD_treeHashInts H hashes (by omega) fits inside
  have halve := @getD_treeHashHalve _ _ H b (2 ^ (b + 1)) _ _
    (by have := Nat.lt_two_pow_self (n := b + 1); omega) (by simp; omega) agree
  have root := (levelAbove_succ_apply H b (fullLevel H hashes (2 * 2 ^ (b + 1) - count)) 0).symm
  rw [Nat.mul_zero, Nat.zero_add] at root
  rw [treeHash, if_neg (by omega), if_neg (by omega), treeHashCount_eq (by omega) small, top]
  dsimp only
  rw [halve 0 (by norm_num), halve 1 (by norm_num), root]
  by_cases power : count = 2 ^ (b + 1 + 1)
  · -- a power of two: the buffer of `tree_hash` is one level above the full level
    have depth : count.log2 = b + 1 + 1 :=
      (Nat.log2_eq_iff (by omega)).mpr ⟨power.ge, by rw [power]; exact Nat.pow_lt_pow_right (by norm_num) (by omega)⟩
    rw [depth, levelAbove_succ, show 2 * 2 ^ (b + 1) - count = 0 by omega]
    refine levelAbove_congr H (b + 1) (N := 1) (fun i inside => ?_) 0 one_pos
    exact fullLevel_zero H hashes (by omega)
  · have depth : count.log2 = b + 1 := (Nat.log2_eq_iff (by omega)).mpr ⟨by omega, by omega⟩
    rw [depth]

-- three hashes: `h[0]` passes through, `h[1]` and `h[2]` are paired
example : treeHash (fun a b : Nat => 10 * a + b) [1, 2, 3] 3 = 33 := by decide

theorem treeBranch_eq {hashes : List α} {count : Nat} (pos : 0 < count) (small : count < 2 ^ 64)
    (len : hashes.length = count) :
    treeBranch H hashes count = ((List.range count.log2).map fun t =>
      levelAbove H t (fullLevel H hashes (2 * 2 ^ count.log2 - count)) 1).reverse := by
  have low : 2 ^ count.log2 ≤ count := Nat.log2_self_le (by omega)
  have high : count < 2 * 2 ^ count.log2 := by rw [← pow_succ']; exact Nat.lt_log2_self
  have agree := fun j (inside : j < 2 ^ count.log2 - 1) =>
    getD_treeBranchInts H hashes (k := 2 * 2 ^ count.log2 - count) (by omega) (by omega) (by omega) inside
  rw [treeBranch, treeBranchCount_eq pos small]
  dsimp only
  rw [treeBranchLoop_eq H _ [] (by simp; omega) agree, List.append_nil]

theorem treeHashFromBranch_treeBranch (hashes : List α) (count : Nat) (pos : 0 < count)
    (small : count < 2 ^ 64) (len : hashes.length = count) :
    treeDepth count = count.log2 ∧ (treeBranch H hashes count).length = treeDepth count ∧
      treeHashFromBranch H (treeBranch H hashes count) (treeDepth count) (hashes.getD 0 default) none =
        treeHash H hashes count := by
  have depth := treeDepth_eq pos small
  have branch := treeBranch_eq H pos small len
  have written : (treeBranch H hashes count).length = count.log2 := by simp [branch]
  refine ⟨depth, written.trans depth.symm, ?_⟩
  -- leaf 0 is node 0 of the full level, and the branch is folded back from it
  have leaf : fullLevel H hashes (2 * 2 ^ count.log2 - count) 0 = hashes.getD 0 default := by
    have high : count < 2 * 2 ^ count.log2 := by rw [← pow_succ']; exact Nat.lt_log2_self
    rw [fullLevel, if_pos (by omega)]
  rw [depth, treeHashFromBranch_none H _ _ written.ge, List.take_of_length_le written.le, branch,
    List.reverse_reverse, List.foldl_map, treeHash_eq H pos small len, levelAbove_zero_eq_foldl, leaf]

theorem treeHashFromBranch_treeBranch_six :
    treeDepth 6 = Nat.log2 6 ∧ (treeBranch (fun a b : Nat => 3 * a + b) [1, 2, 3, 4, 5, 6] 6).length = treeDepth 6 ∧
      treeHashFromBranch (fun a b : Nat => 3 * a + b) (treeBranch (fun a b : Nat => 3 * a + b) [1, 2, 3, 4, 5, 6] 6)
          (treeDepth 6) ([1, 2, 3, 4, 5, 6].getD 0 default) none =
        treeHash (fun a b : Nat => 3 * a + b) [1, 2, 3, 4, 5, 6] 6 :=
  treeHashFromBranch_treeBranch (fun a b : Nat => 3 * a + b) [1, 2, 3, 4, 5, 6] 6 (by decide) (by decide) rfl

end Levels

end Crypto
