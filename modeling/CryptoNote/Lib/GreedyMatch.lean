import Mathlib

/-! # Greedy in-order matching

Matching a list of items, in order, against a subsequence of candidates, each
pair related by a decidable test, is decided by the two-pointer walk that takes
every candidate that fits the current item.  Taking the first fit never loses
a matching: whatever matched the remaining items after a later candidate also
matches them after an earlier one.  The relation matched is Mathlib's
`List.SublistForall₂`. -/
set_option autoImplicit false

namespace GreedyMatch

variable {α β : Type}

/-- The two-pointer walk: the current item against the current candidate. -/
def greedyMatch (fits : α → β → Bool) : List α → List β → Bool
  | [], _ => true
  | _ :: _, [] => false
  | a :: as, b :: bs => if fits a b then greedyMatch fits as bs else greedyMatch fits (a :: as) bs

theorem sublistForall₂_of_cons {R : α → β → Prop} (a : α) (as : List α) :
    ∀ bs : List β, List.SublistForall₂ R (a :: as) bs → List.SublistForall₂ R as bs := by
  intro bs
  induction bs with
  | nil => intro matching; cases matching
  | cons b bs ih =>
      intro matching
      cases matching with
      | cons _ rest => exact List.SublistForall₂.cons_right rest
      | cons_right rest => exact List.SublistForall₂.cons_right (ih rest)

theorem sublistForall₂_of_greedyMatch (fits : α → β → Bool) :
    ∀ (as : List α) (bs : List β), greedyMatch fits as bs = true →
      List.SublistForall₂ (fun a b => fits a b = true) as bs := by
  intro as bs
  induction bs generalizing as with
  | nil =>
      intro success
      cases as with
      | nil => exact List.SublistForall₂.nil
      | cons a as => simp [greedyMatch] at success
  | cons b bs ih =>
      intro success
      cases as with
      | nil => exact List.SublistForall₂.nil
      | cons a as =>
          by_cases fit : fits a b = true
          · rw [greedyMatch, if_pos fit] at success
            exact List.SublistForall₂.cons fit (ih as success)
          · rw [greedyMatch, if_neg fit] at success
            exact List.SublistForall₂.cons_right (ih (a :: as) success)

theorem greedyMatch_of_sublistForall₂ (fits : α → β → Bool) :
    ∀ (as : List α) (bs : List β), List.SublistForall₂ (fun a b => fits a b = true) as bs →
      greedyMatch fits as bs = true := by
  intro as bs
  induction bs generalizing as with
  | nil =>
      intro matching
      cases matching
      rfl
  | cons b bs ih =>
      intro matching
      cases as with
      | nil => rfl
      | cons a as =>
          by_cases fit : fits a b = true
          · rw [greedyMatch, if_pos fit]
            -- the first fit is taken: the rest matches after `b` either way
            cases matching with
            | cons _ rest => exact ih as rest
            | cons_right rest => exact ih as (sublistForall₂_of_cons a as bs rest)
          · rw [greedyMatch, if_neg fit]
            cases matching with
            | cons headFits _ => exact absurd headFits fit
            | cons_right rest => exact ih (a :: as) rest

theorem greedyMatch_iff (fits : α → β → Bool) (as : List α) (bs : List β) :
    greedyMatch fits as bs = true ↔ List.SublistForall₂ (fun a b => fits a b = true) as bs :=
  ⟨sublistForall₂_of_greedyMatch fits as bs, greedyMatch_of_sublistForall₂ fits as bs⟩

end GreedyMatch
