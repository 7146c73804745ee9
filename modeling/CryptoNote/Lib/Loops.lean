import Mathlib

/-! # While loops with fuel

`whileLoop cond body fuel s` runs `while (cond s) s = body s` for at most `fuel`
iterations.  A loop is reasoned about by an invariant indexed by the number of
iterations done: if the body takes the invariant at `k` to the invariant at
`k + 1` whenever the condition holds, then after the loop the invariant holds at
some count `j ≤ fuel`, and either the condition has failed or all the fuel was
spent.  A loop proved to stop within its fuel is then the source's loop. -/
set_option autoImplicit false

namespace Loops

variable {σ : Type} (cond : σ → Bool) (body : σ → σ)

/-- `while (cond s) s = body s`, for at most `fuel` iterations. -/
def whileLoop : Nat → σ → σ
  | 0, s => s
  | fuel + 1, s => if cond s then whileLoop fuel (body s) else s

@[simp] theorem whileLoop_zero (s : σ) : whileLoop cond body 0 s = s := rfl

theorem whileLoop_succ_of_true {s : σ} (holds : cond s = true) (fuel : Nat) :
    whileLoop cond body (fuel + 1) s = whileLoop cond body fuel (body s) := by
  simp [whileLoop, holds]

theorem whileLoop_succ_of_false {s : σ} (fails : cond s = false) (fuel : Nat) :
    whileLoop cond body (fuel + 1) s = s := by
  simp [whileLoop, fails]

theorem whileLoop_induction (I : Nat → σ → Prop)
    (step : ∀ k s, I k s → cond s = true → I (k + 1) (body s)) :
    ∀ fuel k s, I k s → ∃ j ≤ fuel, I (k + j) (whileLoop cond body fuel s) ∧
      (cond (whileLoop cond body fuel s) = false ∨ j = fuel)
  | 0, k, s, holds => ⟨0, le_rfl, holds, .inr rfl⟩
  | fuel + 1, k, s, holds => by
    cases going : cond s with
    | false =>
      rw [whileLoop_succ_of_false cond body going]
      exact ⟨0, Nat.zero_le _, holds, .inl going⟩
    | true =>
      rw [whileLoop_succ_of_true cond body going]
      obtain ⟨j, bound, after, stopped⟩ := whileLoop_induction I step fuel (k + 1) (body s) (step k s holds going)
      refine ⟨j + 1, by omega, by rwa [← Nat.add_assoc, Nat.add_right_comm], ?_⟩
      rcases stopped with failed | spent
      · exact .inl failed
      · exact .inr (by omega)

theorem whileLoop_preserves (P : σ → Prop) (step : ∀ s, P s → cond s = true → P (body s)) :
    ∀ fuel s, P s → P (whileLoop cond body fuel s)
  | 0, _, holds => holds
  | fuel + 1, s, holds => by
    cases going : cond s with
    | false => rwa [whileLoop_succ_of_false cond body going]
    | true =>
      rw [whileLoop_succ_of_true cond body going]
      exact whileLoop_preserves P step fuel (body s) (step s holds going)

end Loops
