import CryptoNote.Lib.Loops
import CryptoNote.Lib.WordArith
import CryptoNote.Core.TransactionValidator

/-! # Decomposing an amount into digits

`decompose_amount_into_digits(amount, dust_threshold, chunk_handler, dust_handler)`
(`CryptoNoteFormatUtils.h`) peels the decimal digits of `amount`, lowest first.
Low digits are gathered as dust while the dust stays within the threshold; the
dust is handed to `dust_handler` once, just before the first digit that does not
fit, and every nonzero digit from there on goes to `chunk_handler` as
`digit * 10^k`.  The handlers only ever append, so the model returns the calls
in order.  Each iteration divides `amount` by ten, so twenty iterations exhaust a
`uint64_t`.

`Currency::constructMinerTx` decomposes the block reward with threshold 0 and
merges the last two amounts until at most `maxOuts` remain, then checks that the
outputs add up to the reward. -/
set_option autoImplicit false

namespace CryptoNote

open Loops WordArith

/-- One call of a handler of `decompose_amount_into_digits`. -/
inductive DecomposedPart where
  | chunk (amount : UInt64)
  | dust (amount : UInt64)
  deriving DecidableEq, Repr

def DecomposedPart.amount : DecomposedPart → UInt64
  | .chunk amount => amount
  | .dust amount => amount

def DecomposedPart.chunkAmount : DecomposedPart → Option UInt64
  | .chunk amount => some amount
  | .dust _ => none

def DecomposedPart.dustAmount : DecomposedPart → Option UInt64
  | .chunk _ => none
  | .dust amount => some amount

/-- The locals of the loop, with the handler calls made so far. -/
structure DecomposeState where
  amount : UInt64
  order : UInt64
  dust : UInt64
  isDustHandled : Bool
  calls : List DecomposedPart

def decomposeStep (dustThreshold : UInt64) (s : DecomposeState) : DecomposeState :=
  let chunk := (s.amount % 10) * s.order
  let amount := s.amount / 10
  let order := s.order * 10
  if s.dust + chunk ≤ dustThreshold then
    { s with amount, order, dust := s.dust + chunk }
  else
    let (isDustHandled, calls) :=
      if !s.isDustHandled && s.dust != 0 then (true, s.calls ++ [.dust s.dust]) else (s.isDustHandled, s.calls)
    let calls := if chunk != 0 then calls ++ [.chunk chunk] else calls
    { s with amount, order, isDustHandled, calls }

def decomposeAmountIntoDigits (amount dustThreshold : UInt64) : List DecomposedPart :=
  if amount = 0 then []
  else
    let s := whileLoop (fun s => s.amount != 0) (decomposeStep dustThreshold) 20 ⟨amount, 1, 0, false, []⟩
    if !s.isDustHandled && s.dust != 0 then s.calls ++ [.dust s.dust] else s.calls

/-- `decomposeAmount(amount, dustThreshold, decomposedAmounts)`: both handlers append. -/
def decomposeAmount (amount dustThreshold : UInt64) : List UInt64 :=
  (decomposeAmountIntoDigits amount dustThreshold).map DecomposedPart.amount

/-- One iteration of the merge in `constructMinerTx`: the last amount is added to
the one before it and removed. -/
def mergeLastOutAmount (outAmounts : List UInt64) : List UInt64 :=
  (outAmounts.set (outAmounts.length - 2)
    (outAmounts.getD (outAmounts.length - 2) 0 + outAmounts.getLastD 0)).take (outAmounts.length - 1)

/-- The output amounts of `Currency::constructMinerTx`, from the decomposition of
the block reward to the `summaryAmounts` check.  The key derivations of the
outputs are left out. -/
def minerOutAmounts (blockReward : UInt64) (maxOuts : Nat) : Except String (List UInt64) :=
  let outAmounts := (decomposeAmountIntoDigits blockReward 0).map DecomposedPart.amount
  if ¬1 ≤ maxOuts then .error "max_out must be non-zero"
  else
    let outAmounts :=
      whileLoop (fun outAmounts => decide (maxOuts < outAmounts.length)) mergeLastOutAmount outAmounts.length outAmounts
    let summaryAmounts := outAmounts.foldl (· + ·) 0
    if summaryAmounts ≠ blockReward then
      .error ("Failed to construct miner tx, summaryAmounts = " ++ toString summaryAmounts ++
        " not equal blockReward = " ++ toString blockReward)
    else .ok outAmounts

example : decomposeAmount 62387455827 455827 = [455827, 7000000, 80000000, 300000000, 2000000000, 60000000000] := by
  decide

/-! ## The loop invariant -/

def chunkValue (chunk : Nat × Nat) : Nat := chunk.1 * 10 ^ chunk.2

def chunkPart (chunk : Nat × Nat) : DecomposedPart := .chunk (UInt64.ofNat (chunkValue chunk))

/-- What `k` iterations on `amount` leave, `chunks` being the digits handed over
so far as chunks, each with its position. -/
structure DecomposeProgress (amount dustThreshold : UInt64) (k : Nat) (s : DecomposeState)
    (chunks : List (Nat × Nat)) : Prop where
  amount_eq : s.amount.toNat = amount.toNat / 10 ^ k
  order_eq : s.order = UInt64.ofNat (10 ^ k)
  calls_eq : s.calls = (if s.isDustHandled then [.dust s.dust] else []) ++ chunks.map chunkPart
  digits : ∀ chunk ∈ chunks, 1 ≤ chunk.1 ∧ chunk.1 ≤ 9 ∧ chunk.2 < k
  increasing : chunks.Pairwise fun chunk chunk' => chunk.2 < chunk'.2
  sum_eq : amount.toNat % 10 ^ k = s.dust.toNat + (chunks.map chunkValue).sum
  dust_le : s.dust.toNat ≤ dustThreshold.toNat
  handled : s.isDustHandled = true → 0 < s.dust.toNat ∧ chunks ≠ []
  -- once a digit has been handed over, no later nonzero digit fits in the dust
  settled : chunks ≠ [] → dustThreshold.toNat < s.dust.toNat + 10 ^ k ∧ (s.isDustHandled = true ∨ s.dust = 0)

section Step

variable {amount dustThreshold : UInt64} {k : Nat} {s : DecomposeState} {chunks : List (Nat × Nat)}

theorem DecomposeProgress.chunk_eq (progress : DecomposeProgress amount dustThreshold k s chunks)
    (going : s.amount ≠ 0) :
    ((s.amount % 10) * s.order).toNat = amount.toNat / 10 ^ k % 10 * 10 ^ k ∧
      amount.toNat % 10 ^ (k + 1) = amount.toNat % 10 ^ k + amount.toNat / 10 ^ k % 10 * 10 ^ k := by
  have fits : amount.toNat < 2 ^ 64 := amount.toNat_lt_size
  have split : amount.toNat % 10 ^ (k + 1) = amount.toNat % 10 ^ k + amount.toNat / 10 ^ k % 10 * 10 ^ k := by
    rw [Nat.mod_pow_succ]
    ring
  have reached : 10 ^ k ≤ amount.toNat := by
    have : 0 < s.amount.toNat := by
      rw [Nat.pos_iff_ne_zero, Ne, ← UInt64.toNat_zero, UInt64.toNat_inj]
      exact going
    rw [progress.amount_eq] at this
    exact (Nat.div_pos_iff.mp this).2
  have order : s.order.toNat = 10 ^ k := by
    rw [progress.order_eq, UInt64.toNat_ofNat', Nat.mod_eq_of_lt (by omega)]
  have below := Nat.mod_le amount.toNat (10 ^ (k + 1))
  refine ⟨?_, split⟩
  rw [UInt64.toNat_mul, UInt64.toNat_mod, order, progress.amount_eq, show (10 : UInt64).toNat = 10 from rfl,
    Nat.mod_eq_of_lt (by omega)]

theorem DecomposeProgress.next_amount (progress : DecomposeProgress amount dustThreshold k s chunks) :
    (s.amount / 10).toNat = amount.toNat / 10 ^ (k + 1) := by
  rw [UInt64.toNat_div, progress.amount_eq, show (10 : UInt64).toNat = 10 from rfl, Nat.div_div_eq_div_mul, pow_succ]

theorem DecomposeProgress.next_order (progress : DecomposeProgress amount dustThreshold k s chunks) :
    s.order * 10 = UInt64.ofNat (10 ^ (k + 1)) := by
  rw [progress.order_eq, pow_succ, UInt64.ofNat_mul]
  rfl

theorem DecomposeProgress.dust_add_chunk (progress : DecomposeProgress amount dustThreshold k s chunks)
    (going : s.amount ≠ 0) :
    (s.dust + (s.amount % 10) * s.order).toNat = s.dust.toNat + amount.toNat / 10 ^ k % 10 * 10 ^ k := by
  obtain ⟨chunk, split⟩ := progress.chunk_eq going
  have sum := progress.sum_eq
  have below := Nat.mod_le amount.toNat (10 ^ (k + 1))
  have fits : amount.toNat < 2 ^ 64 := amount.toNat_lt_size
  rw [UInt64.toNat_add, chunk, Nat.mod_eq_of_lt (by omega)]

theorem DecomposeProgress.step_of_fits (progress : DecomposeProgress amount dustThreshold k s chunks)
    (going : s.amount ≠ 0) (fits : s.dust + (s.amount % 10) * s.order ≤ dustThreshold) :
    DecomposeProgress amount dustThreshold (k + 1) (decomposeStep dustThreshold s) chunks := by
  obtain ⟨chunk, split⟩ := progress.chunk_eq going
  have dust := progress.dust_add_chunk going
  have fitsNat := UInt64.le_iff_toNat_le.mp fits
  rw [dust] at fitsNat
  -- once a digit has been handed over, a digit that fits is zero
  have zero : chunks ≠ [] → (s.amount % 10) * s.order = 0 := fun nonempty => by
    have settled := (progress.settled nonempty).1
    rw [← UInt64.toNat_inj, chunk, UInt64.toNat_zero]
    by_contra nonzero
    have : 10 ^ k ≤ amount.toNat / 10 ^ k % 10 * 10 ^ k := Nat.le_mul_of_pos_left _ (Nat.pos_of_ne_zero
      fun digit => nonzero (by rw [digit, Nat.zero_mul]))
    omega
  have sum := progress.sum_eq
  simp only [decomposeStep, if_pos fits]
  refine ⟨progress.next_amount, progress.next_order, ?_, ?_, progress.increasing, ?_, ?_, ?_, ?_⟩ <;> try dsimp only
  · cases handled : s.isDustHandled
    · simpa [handled] using progress.calls_eq
    · rw [zero (progress.handled handled).2, UInt64.add_zero]
      simpa [handled] using progress.calls_eq
  · intro chunk member
    obtain ⟨low, high, before⟩ := progress.digits chunk member
    exact ⟨low, high, by omega⟩
  · omega
  · omega
  · intro handled
    obtain ⟨positive, nonempty⟩ := progress.handled handled
    exact ⟨by omega, nonempty⟩
  · intro nonempty
    obtain ⟨below, settled⟩ := progress.settled nonempty
    rw [zero nonempty, UInt64.add_zero]
    exact ⟨by have := Nat.pow_le_pow_right (show 0 < 10 by norm_num) (Nat.le_succ k); omega, settled⟩

theorem DecomposeProgress.step_of_overflows (progress : DecomposeProgress amount dustThreshold k s chunks)
    (going : s.amount ≠ 0) (overflows : ¬s.dust + (s.amount % 10) * s.order ≤ dustThreshold) :
    ∃ chunks', DecomposeProgress amount dustThreshold (k + 1) (decomposeStep dustThreshold s) chunks' := by
  obtain ⟨chunk, split⟩ := progress.chunk_eq going
  have dust := progress.dust_add_chunk going
  obtain ⟨digit, digit_eq⟩ : ∃ digit, digit = amount.toNat / 10 ^ k % 10 := ⟨_, rfl⟩
  rw [← digit_eq] at chunk split dust
  have overflowsNat : dustThreshold.toNat < s.dust.toNat + digit * 10 ^ k := by
    have := mt UInt64.le_iff_toNat_le.mpr overflows
    omega
  have dustLe := progress.dust_le
  have sum := progress.sum_eq
  have digitPos : 0 < digit := Nat.pos_of_ne_zero fun zero => by
    rw [zero, Nat.zero_mul] at overflowsNat
    omega
  have digitLe : digit ≤ 9 := by omega
  have nonzero : ((s.amount % 10) * s.order != 0) = true := by
    rw [bne_iff_ne, ne_eq, ← UInt64.toNat_inj, chunk, UInt64.toNat_zero]
    exact Nat.pos_iff_ne_zero.mp (Nat.mul_pos digitPos (Nat.pow_pos (by norm_num)))
  have chunkFits : digit * 10 ^ k < 2 ^ 64 := by
    have := Nat.mod_le amount.toNat (10 ^ (k + 1))
    have : amount.toNat < 2 ^ 64 := amount.toNat_lt_size
    omega
  have chunkPartEq : DecomposedPart.chunk ((s.amount % 10) * s.order) = chunkPart (digit, k) := by
    rw [chunkPart, chunkValue, DecomposedPart.chunk.injEq, ← UInt64.toNat_inj, chunk, UInt64.toNat_ofNat']
    exact (Nat.mod_eq_of_lt chunkFits).symm
  have reach : dustThreshold.toNat < s.dust.toNat + 10 ^ (k + 1) := by
    have : digit * 10 ^ k < 10 ^ (k + 1) := by
      rw [pow_succ, Nat.mul_comm (10 ^ k)]
      exact Nat.mul_lt_mul_of_pos_right (by omega) (Nat.pow_pos (by norm_num))
    omega
  simp only [decomposeStep, if_neg overflows, nonzero, if_true]
  by_cases fresh : (!s.isDustHandled && s.dust != 0) = true
  · -- the dust is handed over now, so nothing was handed over before
    have ⟨notHandled, dustNonzero⟩ : s.isDustHandled = false ∧ s.dust ≠ 0 := by simpa using fresh
    have empty : chunks = [] := by
      by_contra nonempty
      rcases (progress.settled nonempty).2 with handled | zeroDust
      · rw [handled] at notHandled
        exact Bool.noConfusion notHandled
      · exact dustNonzero zeroDust
    subst empty
    have calls : s.calls = [] := by simpa [notHandled] using progress.calls_eq
    refine ⟨[(digit, k)], ?_⟩
    simp only [fresh, if_true]
    refine ⟨progress.next_amount, progress.next_order, ?_, ?_, ?_, ?_, dustLe, ?_, ?_⟩ <;> try dsimp only
    · rw [calls, chunkPartEq]
      simp
    · simp only [List.mem_singleton, forall_eq]
      omega
    · simp
    · simp only [List.map_cons, List.map_nil, List.sum_cons, List.sum_nil, chunkValue]
      simp only [List.map_nil, List.sum_nil] at sum
      omega
    · intro _
      exact ⟨Nat.pos_of_ne_zero fun zero => dustNonzero (UInt64.toNat_inj.mp zero), List.cons_ne_nil _ _⟩
    · intro _
      exact ⟨reach, .inl rfl⟩
  · have settledNow : s.isDustHandled = true ∨ s.dust = 0 := by
      cases handled : s.isDustHandled
      · simp only [handled, Bool.not_false, Bool.true_and, bne_iff_ne, ne_eq, not_not] at fresh
        exact .inr fresh
      · exact .inl rfl
    refine ⟨chunks ++ [(digit, k)], ?_⟩
    simp only [Bool.not_eq_true] at fresh
    simp only [fresh, Bool.false_eq_true, if_false]
    refine ⟨progress.next_amount, progress.next_order, ?_, ?_, ?_, ?_, dustLe, ?_, ?_⟩ <;> try dsimp only
    · rw [progress.calls_eq, chunkPartEq]
      simp
    · intro chunk' member
      rcases List.mem_append.mp member with old | new
      · obtain ⟨low, high, before⟩ := progress.digits chunk' old
        exact ⟨low, high, by omega⟩
      · rw [List.mem_singleton.mp new]
        exact ⟨digitPos, digitLe, by omega⟩
    · refine List.pairwise_append.mpr ⟨progress.increasing, List.pairwise_singleton _ _, ?_⟩
      intro chunk' member last lastMember
      rw [List.mem_singleton.mp lastMember]
      exact (progress.digits chunk' member).2.2
    · simp only [List.map_append, List.sum_append, List.map_cons, List.map_nil, List.sum_cons, List.sum_nil,
        chunkValue]
      omega
    · intro handled
      exact ⟨(progress.handled handled).1, by simp⟩
    · intro _
      exact ⟨reach, settledNow⟩

theorem DecomposeProgress.step (progress : DecomposeProgress amount dustThreshold k s chunks)
    (going : s.amount ≠ 0) :
    ∃ chunks', DecomposeProgress amount dustThreshold (k + 1) (decomposeStep dustThreshold s) chunks' := by
  by_cases fits : s.dust + (s.amount % 10) * s.order ≤ dustThreshold
  · exact ⟨chunks, progress.step_of_fits going fits⟩
  · exact progress.step_of_overflows going fits

end Step

theorem decomposeProgress_start (amount dustThreshold : UInt64) :
    DecomposeProgress amount dustThreshold 0 ⟨amount, 1, 0, false, []⟩ [] where
  amount_eq := by simp
  order_eq := rfl
  calls_eq := rfl
  digits := by simp
  increasing := List.Pairwise.nil
  sum_eq := by simp [Nat.mod_one]
  dust_le := Nat.zero_le _
  handled := fun handled => Bool.noConfusion handled
  settled := fun nonempty => absurd rfl nonempty

theorem decomposeLoop_progress (amount dustThreshold : UInt64) :
    ∃ k chunks, DecomposeProgress amount dustThreshold k
        (whileLoop (fun s => s.amount != 0) (decomposeStep dustThreshold) 20 ⟨amount, 1, 0, false, []⟩) chunks ∧
      (whileLoop (fun s => s.amount != 0) (decomposeStep dustThreshold) 20 ⟨amount, 1, 0, false, []⟩).amount = 0 := by
  obtain ⟨j, -, ⟨chunks, progress⟩, stopped⟩ := whileLoop_induction (fun s => s.amount != 0)
    (decomposeStep dustThreshold) (fun k s => ∃ chunks, DecomposeProgress amount dustThreshold k s chunks)
    (fun _ _ ⟨_, progress⟩ going => progress.step (by simpa using going)) 20 0 _
    ⟨[], decomposeProgress_start amount dustThreshold⟩
  refine ⟨0 + j, chunks, progress, ?_⟩
  rcases stopped with stopped | spent
  · simpa using stopped
  · rw [← UInt64.toNat_inj, progress.amount_eq, UInt64.toNat_zero, spent]
    exact Nat.div_eq_of_lt (lt_trans amount.toNat_lt_size (by norm_num))

theorem decomposeAmountIntoDigits_spec (amount dustThreshold : UInt64) :
    ((decomposeAmountIntoDigits amount dustThreshold).map fun part => part.amount.toNat).sum = amount.toNat ∧
      (∃ chunks : List (Nat × Nat),
        (decomposeAmountIntoDigits amount dustThreshold).filterMap DecomposedPart.chunkAmount =
            chunks.map (fun chunk => UInt64.ofNat (chunkValue chunk)) ∧
          (∀ chunk ∈ chunks, 1 ≤ chunk.1 ∧ chunk.1 ≤ 9 ∧ chunkValue chunk < 2 ^ 64) ∧
          chunks.Pairwise fun chunk chunk' => chunk.2 < chunk'.2) ∧
      ((decomposeAmountIntoDigits amount dustThreshold).filterMap DecomposedPart.dustAmount).length ≤ 1 ∧
      ∀ dust ∈ (decomposeAmountIntoDigits amount dustThreshold).filterMap DecomposedPart.dustAmount,
        0 < dust.toNat ∧ dust ≤ dustThreshold := by
  by_cases zero : amount = 0
  · subst zero
    refine ⟨rfl, ⟨[], rfl, by simp, List.Pairwise.nil⟩, Nat.zero_le _, by simp [decomposeAmountIntoDigits]⟩
  obtain ⟨k, chunks, progress, done⟩ := decomposeLoop_progress amount dustThreshold
  simp only [decomposeAmountIntoDigits, zero, if_false]
  generalize whileLoop (fun s => s.amount != 0) (decomposeStep dustThreshold) 20 ⟨amount, 1, 0, false, []⟩ = s
    at progress done ⊢
  -- the loop has consumed every digit
  have whole : amount.toNat % 10 ^ k = amount.toNat := by
    have quotient := progress.amount_eq
    rw [done, UInt64.toNat_zero] at quotient
    exact Nat.mod_eq_of_lt ((Nat.div_eq_zero_iff_lt (Nat.pow_pos (by norm_num))).mp quotient.symm)
  have sum := progress.sum_eq
  rw [whole] at sum
  have fits : ∀ chunk ∈ chunks, chunkValue chunk < 2 ^ 64 := fun chunk member => by
    have := List.le_sum_of_mem (List.mem_map_of_mem member : chunkValue chunk ∈ chunks.map chunkValue)
    have : amount.toNat < 2 ^ 64 := amount.toNat_lt_size
    omega
  have chunkAmounts : ((chunks.map chunkPart).map fun part => part.amount.toNat) = chunks.map chunkValue := by
    rw [List.map_map]
    refine List.map_congr_left fun chunk member => ?_
    simp only [Function.comp, chunkPart, DecomposedPart.amount, UInt64.toNat_ofNat']
    exact Nat.mod_eq_of_lt (fits chunk member)
  have chunkCalls : (chunks.map chunkPart).filterMap DecomposedPart.chunkAmount =
      chunks.map fun chunk => UInt64.ofNat (chunkValue chunk) := by
    simp [List.filterMap_map, chunkPart, DecomposedPart.chunkAmount, Function.comp_def]
  have dustCalls : (chunks.map chunkPart).filterMap DecomposedPart.dustAmount = [] := by
    simp [List.filterMap_map, chunkPart, DecomposedPart.dustAmount, Function.comp_def]
  have chunkSpec : ∀ chunk ∈ chunks, 1 ≤ chunk.1 ∧ chunk.1 ≤ 9 ∧ chunkValue chunk < 2 ^ 64 := fun chunk member =>
    ⟨(progress.digits chunk member).1, (progress.digits chunk member).2.1, fits chunk member⟩
  have dustBelow := progress.dust_le
  -- the dust was handed over in the loop, is handed over now, or is empty
  cases handled : s.isDustHandled
  · by_cases empty : s.dust = 0
    · rw [if_neg (by simp [empty]), progress.calls_eq]
      simp only [handled, Bool.false_eq_true, if_false, List.nil_append, chunkAmounts, chunkCalls, dustCalls]
      rw [empty, UInt64.toNat_zero, Nat.zero_add] at sum
      exact ⟨sum.symm, ⟨chunks, rfl, chunkSpec, progress.increasing⟩, Nat.zero_le _, by simp⟩
    · have emptyNat : s.dust.toNat ≠ 0 := fun zero => empty (UInt64.toNat_inj.mp zero)
      rw [if_pos (by simp [empty]), progress.calls_eq]
      simp only [handled, Bool.false_eq_true, if_false, List.nil_append, List.map_append, chunkAmounts,
        List.sum_append, List.filterMap_append, chunkCalls, dustCalls]
      refine ⟨by simp [DecomposedPart.amount]; omega, ⟨chunks, by simp [DecomposedPart.chunkAmount], chunkSpec,
        progress.increasing⟩, by simp [DecomposedPart.dustAmount], ?_⟩
      intro dust member
      simp only [List.filterMap_cons, DecomposedPart.dustAmount, List.filterMap_nil, List.mem_singleton] at member
      subst member
      exact ⟨Nat.pos_of_ne_zero emptyNat, UInt64.le_iff_toNat_le.mpr dustBelow⟩
  · obtain ⟨positive, -⟩ := progress.handled handled
    rw [if_neg (by simp), progress.calls_eq]
    simp only [handled, if_true, List.singleton_append, List.map_cons, List.sum_cons, chunkAmounts,
      List.filterMap_cons, DecomposedPart.chunkAmount, DecomposedPart.dustAmount, chunkCalls, dustCalls]
    refine ⟨by simp only [DecomposedPart.amount]; omega, ⟨chunks, rfl, chunkSpec, progress.increasing⟩, by simp, ?_⟩
    simp only [List.mem_singleton, forall_eq]
    exact ⟨positive, UInt64.le_iff_toNat_le.mpr dustBelow⟩

theorem isValidDecomposedAmount_chunk {chunk : Nat × Nat} (low : 1 ≤ chunk.1) (high : chunk.1 ≤ 9)
    (fits : chunkValue chunk < 2 ^ 64) : isValidDecomposedAmount (UInt64.ofNat (chunkValue chunk)) = true := by
  obtain ⟨digit, k⟩ := chunk
  simp only [chunkValue] at fits ⊢
  rw [isValidDecomposedAmount, List.contains_iff_mem, PRETTY_AMOUNTS, List.mem_append]
  by_cases small : k ≤ 18
  · refine .inl (List.mem_flatMap.mpr ⟨k, List.mem_range.mpr (by omega), List.mem_map.mpr ⟨digit - 1,
      List.mem_range.mpr (by omega), ?_⟩⟩)
    rw [Nat.sub_add_cancel low]
  · -- above 10^18 only 10^19 fits in 64 bits
    have : 10 ^ 19 ≤ 10 ^ k := Nat.pow_le_pow_right (by norm_num) (by omega)
    have : k = 19 := by
      by_contra other
      have : 10 ^ 20 ≤ 10 ^ k := Nat.pow_le_pow_right (by norm_num) (by omega)
      have : 10 ^ k ≤ digit * 10 ^ k := Nat.le_mul_of_pos_left _ (by omega)
      omega
    subst this
    have : digit = 1 := by omega
    subst this
    exact .inr (List.mem_singleton.mpr rfl)

/-! ## The miner transaction's outputs -/

theorem mergeLastOutAmount_append (init : List UInt64) (last₁ last₂ : UInt64) :
    mergeLastOutAmount (init ++ [last₁, last₂]) = init ++ [last₁ + last₂] := by
  simp [mergeLastOutAmount, List.set_append_right, List.getLastD_eq_getLast?, List.take_append]

theorem mergeLastOutAmount_sum {outAmounts : List UInt64} (several : 2 ≤ outAmounts.length)
    (fits : (outAmounts.map UInt64.toNat).sum < 2 ^ 64) :
    ((mergeLastOutAmount outAmounts).map UInt64.toNat).sum = (outAmounts.map UInt64.toNat).sum ∧
      (mergeLastOutAmount outAmounts).length + 1 = outAmounts.length := by
  obtain ⟨init, last₁, last₂, rfl⟩ : ∃ init last₁ last₂, outAmounts = init ++ [last₁, last₂] := by
    obtain ⟨rest, last₂, rfl⟩ := List.eq_nil_or_concat outAmounts |>.resolve_left (by rintro rfl; simp at several)
    obtain ⟨init, last₁, rfl⟩ := List.eq_nil_or_concat rest |>.resolve_left (by rintro rfl; simp at several)
    exact ⟨init, last₁, last₂, by simp⟩
  rw [mergeLastOutAmount_append]
  simp only [List.map_append, List.map_cons, List.map_nil, List.sum_append, List.sum_cons, List.sum_nil,
    List.length_append, List.length_cons, List.length_nil] at fits several ⊢
  rw [UInt64.toNat_add, Nat.mod_eq_of_lt (by omega)]
  exact ⟨by omega, trivial⟩

theorem minerOutAmounts_ok (blockReward : UInt64) {maxOuts : Nat} (allowed : 1 ≤ maxOuts) :
    ∃ outAmounts, minerOutAmounts blockReward maxOuts = .ok outAmounts ∧ outAmounts.length ≤ maxOuts ∧
      (outAmounts.map UInt64.toNat).sum = blockReward.toNat := by
  have decomposed : (((decomposeAmountIntoDigits blockReward 0).map DecomposedPart.amount).map UInt64.toNat).sum =
      blockReward.toNat := by
    rw [List.map_map]
    exact (decomposeAmountIntoDigits_spec blockReward 0).1
  have fits : blockReward.toNat < 2 ^ 64 := blockReward.toNat_lt_size
  -- the merge loop keeps the total and removes one amount per iteration
  obtain ⟨j, -, ⟨length, total⟩, stopped⟩ := whileLoop_induction
    (fun outAmounts : List UInt64 => decide (maxOuts < outAmounts.length)) mergeLastOutAmount
    (fun k outAmounts => outAmounts.length + k = ((decomposeAmountIntoDigits blockReward 0).map
      DecomposedPart.amount).length ∧ (outAmounts.map UInt64.toNat).sum = blockReward.toNat)
    (fun k outAmounts ⟨length, total⟩ going => by
      have several : 2 ≤ outAmounts.length := by simp at going; omega
      obtain ⟨sum, shorter⟩ := mergeLastOutAmount_sum several (by omega)
      exact ⟨by omega, sum.trans total⟩)
    _ 0 _ ⟨rfl, decomposed⟩
  simp only [minerOutAmounts, if_neg (not_not.mpr allowed)]
  generalize whileLoop _ mergeLastOutAmount _ _ = outAmounts at length total stopped ⊢
  have summary : outAmounts.foldl (· + ·) 0 = blockReward := by
    rw [← UInt64.toNat_inj, toNat_foldl_add, UInt64.toNat_zero, Nat.zero_add, total, Nat.mod_eq_of_lt fits]
  refine ⟨outAmounts, by simp [summary], ?_, total⟩
  rcases stopped with stopped | spent
  · simpa using stopped
  · omega

/-- `decompose_amount_into_digits` hands over parts adding up to the amount:
chunks `digit * 10^k` that are valid decomposed amounts, at increasing positions,
and at most one dust, within the threshold.  So `constructMinerTx`, which merges
the parts down to `maxOuts`, always passes its `summaryAmounts` check. -/
theorem decomposition_exact :
    (∀ amount dustThreshold : UInt64,
      ((decomposeAmountIntoDigits amount dustThreshold).map fun part => part.amount.toNat).sum = amount.toNat ∧
        (∃ chunks : List (Nat × Nat),
          (decomposeAmountIntoDigits amount dustThreshold).filterMap DecomposedPart.chunkAmount =
              chunks.map (fun chunk => UInt64.ofNat (chunkValue chunk)) ∧
            (∀ chunk ∈ chunks, 1 ≤ chunk.1 ∧ chunk.1 ≤ 9 ∧ chunkValue chunk < 2 ^ 64) ∧
            chunks.Pairwise fun chunk chunk' => chunk.2 < chunk'.2) ∧
        (∀ chunk ∈ (decomposeAmountIntoDigits amount dustThreshold).filterMap DecomposedPart.chunkAmount,
          isValidDecomposedAmount chunk = true) ∧
        ((decomposeAmountIntoDigits amount dustThreshold).filterMap DecomposedPart.dustAmount).length ≤ 1 ∧
        ∀ dust ∈ (decomposeAmountIntoDigits amount dustThreshold).filterMap DecomposedPart.dustAmount,
          0 < dust.toNat ∧ dust ≤ dustThreshold) ∧
    ∀ (blockReward : UInt64) (maxOuts : Nat), 1 ≤ maxOuts →
      ∃ outAmounts, minerOutAmounts blockReward maxOuts = .ok outAmounts ∧ outAmounts.length ≤ maxOuts ∧
        (outAmounts.map UInt64.toNat).sum = blockReward.toNat := by
  refine ⟨fun amount dustThreshold => ?_, fun blockReward _ allowed => minerOutAmounts_ok blockReward allowed⟩
  obtain ⟨sum, ⟨chunks, chunkCalls, digits, increasing⟩, dusts⟩ := decomposeAmountIntoDigits_spec amount dustThreshold
  refine ⟨sum, ⟨chunks, chunkCalls, digits, increasing⟩, fun chunk member => ?_, dusts⟩
  rw [chunkCalls] at member
  obtain ⟨digit, placed, rfl⟩ := List.mem_map.mp member
  obtain ⟨low, high, fits⟩ := digits digit placed
  exact isValidDecomposedAmount_chunk low high fits

theorem minerOutAmounts_threeOutputs :
    ∃ outAmounts, minerOutAmounts 62387455827 3 = .ok outAmounts ∧ outAmounts.length ≤ 3 ∧
      (outAmounts.map UInt64.toNat).sum = (62387455827 : UInt64).toNat :=
  decomposition_exact.2 62387455827 3 (by decide)

-- the two lowest digits stay apart, the nine above them are merged into one output
example : minerOutAmounts 62387455827 3 = .ok [7, 20, 62387455800] := by decide

end CryptoNote
