import Mathlib

/-!
# Readers over a list of symbols

A reader is a state monad over the symbols not yet read that may fail:
`StateT (List σ) (Except ε)`.  This file gives the rules that the round-trip
and canonicity proofs of a concrete format are assembled from: how a bound
reader runs once its first part is known, and how a reader repeated a given
number of times reads back a concatenation of encodings, and only those.
-/

set_option autoImplicit false

namespace Codec

variable {σ ε α β : Type}

def readItems (read : StateT (List σ) (Except ε) α) : Nat → StateT (List σ) (Except ε) (List α)
  | 0 => pure []
  | count + 1 => do
      let item ← read
      let items ← readItems read count
      pure (item :: items)

section Run

variable {x : StateT (List σ) (Except ε) α} {f : α → StateT (List σ) (Except ε) β}

theorem bind_of_ok {input rest : List σ} {a : α} (ran : x input = .ok (a, rest)) :
    (x >>= f) input = f a rest := by
  simp only [bind, StateT.bind, ran, Except.bind]

theorem bind_of_error {input : List σ} {e : ε} (failed : x input = .error e) :
    (x >>= f) input = .error e := by
  simp only [bind, StateT.bind, failed, Except.bind]

theorem bind_eq_ok {input rest : List σ} {b : β} (ran : (x >>= f) input = .ok (b, rest)) :
    ∃ a middle, x input = .ok (a, middle) ∧ f a middle = .ok (b, rest) := by
  simp only [bind, StateT.bind, Except.bind] at ran
  split at ran
  · contradiction
  · rename_i result returned
    exact ⟨result.1, result.2, returned, ran⟩

@[simp] theorem pure_run (a : α) (input : List σ) :
    (pure a : StateT (List σ) (Except ε) α) input = .ok (a, input) := rfl

theorem pure_eq_ok {a b : α} {input rest : List σ}
    (returned : (pure a : StateT (List σ) (Except ε) α) input = .ok (b, rest)) :
    a = b ∧ input = rest := by
  simpa using returned

end Run

theorem except_bind_eq_ok {x : Except ε α} {f : α → Except ε β} {b : β} (ran : (x >>= f) = .ok b) :
    ∃ a, x = .ok a ∧ f a = .ok b := by
  cases x with
  | error e => contradiction
  | ok a => exact ⟨a, rfl, ran⟩

/-! ## Repetition -/

theorem readItems_flatMap (read : StateT (List σ) (Except ε) α) (write : α → List σ) :
    ∀ (items : List α) (rest : List σ),
      (∀ item ∈ items, ∀ rest, read (write item ++ rest) = .ok (item, rest)) →
        readItems read items.length (items.flatMap write ++ rest) = .ok (items, rest) := by
  intro items
  induction items with
  | nil => intro rest _; rfl
  | cons item items ih =>
      intro rest readsBack
      have first := readsBack item List.mem_cons_self (items.flatMap write ++ rest)
      have others := ih rest fun other mem => readsBack other (List.mem_cons_of_mem _ mem)
      simp only [List.length_cons, readItems, List.flatMap_cons, List.append_assoc]
      rw [bind_of_ok first, bind_of_ok others]
      rfl

theorem readItems_canonical (read : StateT (List σ) (Except ε) α) (write : α → List σ)
    (canonical : ∀ input item rest, read input = .ok (item, rest) → input = write item ++ rest) :
    ∀ (count : Nat) (input : List σ) (items : List α) (rest : List σ),
      readItems read count input = .ok (items, rest) →
        items.length = count ∧ input = items.flatMap write ++ rest := by
  intro count
  induction count with
  | zero =>
      intro input items rest returned
      simp only [readItems, pure_run, Except.ok.injEq, Prod.mk.injEq] at returned
      obtain ⟨rfl, rfl⟩ := returned
      exact ⟨rfl, rfl⟩
  | succ count ih =>
      intro input items rest returned
      obtain ⟨item, middle, first, returned⟩ := bind_eq_ok returned
      obtain ⟨others, final, second, returned⟩ := bind_eq_ok returned
      simp only [pure_run, Except.ok.injEq, Prod.mk.injEq] at returned
      obtain ⟨rfl, rfl⟩ := returned
      obtain ⟨counted, rfl⟩ := ih middle others final second
      refine ⟨by simp [counted], ?_⟩
      rw [canonical input item _ first, List.flatMap_cons, List.append_assoc]

end Codec
