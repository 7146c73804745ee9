import Mathlib

/-! # State invariants of `EStateM` programs

A program of `EStateM ε σ α` ends with a value or with an exception, and with a
state either way: an exception does not roll the state back.  `Keeps P m` says
that `m`, run from any state satisfying `P`, ends in a state satisfying `P`,
whichever way it ends; `KeepsAt P s m` says it for the one start state `s`.  The
rules below take a `do` block apart statement by statement: `get` hands the
current state to the rest of the block, `set` and `modify` change the state the
rest of the block runs from, `throw` ends the block where it is, and a `match` or
an `if` is split by the `split` tactic.  Invariants of a loop written as
recursion follow by induction with `keeps_bind`. -/

set_option autoImplicit false

namespace StateInvariant

variable {ε σ α β : Type} (P : σ → Prop)

def stateOf : EStateM.Result ε σ α → σ
  | .ok _ s => s
  | .error _ s => s

def KeepsAt (s : σ) (m : EStateM ε σ α) : Prop := P (stateOf (m.run s))

def Keeps (m : EStateM ε σ α) : Prop := ∀ s, P s → KeepsAt P s m

variable {P}

theorem Keeps.at {m : EStateM ε σ α} (keeps : Keeps P m) {s : σ} (holds : P s) : KeepsAt P s m :=
  keeps s holds

theorem keepsAt_pure {s : σ} (holds : P s) (a : α) : KeepsAt P s (pure a : EStateM ε σ α) := holds

theorem keepsAt_throw {s : σ} (holds : P s) (e : ε) : KeepsAt P s (throw e : EStateM ε σ α) := holds

theorem keepsAt_set {s : σ} (t : σ) (holds : P t) : KeepsAt P s (set t : EStateM ε σ PUnit) := holds

theorem keepsAt_modify {s : σ} (f : σ → σ) (holds : P (f s)) : KeepsAt P s (modify f : EStateM ε σ PUnit) :=
  holds

theorem keepsAt_get_bind {s : σ} {f : σ → EStateM ε σ α} (rest : KeepsAt P s (f s)) :
    KeepsAt P s (get >>= f) := rest

theorem keepsAt_pure_bind {s : σ} (a : β) {f : β → EStateM ε σ α} (rest : KeepsAt P s (f a)) :
    KeepsAt P s ((pure a : EStateM ε σ β) >>= f) := rest

theorem keepsAt_throw_bind {s : σ} (e : ε) {f : β → EStateM ε σ α} (holds : P s) :
    KeepsAt P s ((throw e : EStateM ε σ β) >>= f) := holds

theorem keepsAt_set_bind {s : σ} (t : σ) {f : PUnit → EStateM ε σ α} (rest : KeepsAt P t (f ⟨⟩)) :
    KeepsAt P s ((set t : EStateM ε σ PUnit) >>= f) := rest

theorem keepsAt_modify_bind {s : σ} (g : σ → σ) {f : PUnit → EStateM ε σ α} (rest : KeepsAt P (g s) (f ⟨⟩)) :
    KeepsAt P s ((modify g : EStateM ε σ PUnit) >>= f) := rest

theorem keepsAt_bind {s : σ} {m : EStateM ε σ β} {f : β → EStateM ε σ α} (first : KeepsAt P s m)
    (rest : ∀ a, Keeps P (f a)) : KeepsAt P s (m >>= f) := by
  unfold KeepsAt at first ⊢
  show P (stateOf (match m.run s with
    | .ok a t => (f a).run t
    | .error e t => .error e t))
  cases ran : m.run s with
  | ok a t =>
    rw [ran] at first
    exact rest a t first
  | error e t =>
    rw [ran] at first
    exact first

theorem keeps_bind {m : EStateM ε σ β} {f : β → EStateM ε σ α} (first : Keeps P m)
    (rest : ∀ a, Keeps P (f a)) : Keeps P (m >>= f) :=
  fun _ holds => keepsAt_bind (first.at holds) rest

theorem keeps_pure (a : α) : Keeps P (pure a : EStateM ε σ α) := fun _ holds => holds

theorem tryCatch_run_ok {s t : σ} {m : EStateM ε σ α} (handle : ε → EStateM ε σ α) {a : α}
    (ran : m.run s = .ok a t) : (tryCatch m handle).run s = .ok a t := by
  simp only [EStateM.run] at ran ⊢
  simp only [tryCatch, tryCatchThe, MonadExceptOf.tryCatch, EStateM.tryCatch, ran]

theorem tryCatch_run_error {s t : σ} {m : EStateM ε σ α} (handle : ε → EStateM ε σ α) {e : ε}
    (ran : m.run s = .error e t) : (tryCatch m handle).run s = (handle e).run t := by
  simp only [EStateM.run] at ran ⊢
  simp only [tryCatch, tryCatchThe, MonadExceptOf.tryCatch, EStateM.tryCatch, ran]
  rfl

theorem keepsAt_tryCatch {s : σ} {m : EStateM ε σ α} {handle : ε → EStateM ε σ α} (first : KeepsAt P s m)
    (handler : ∀ e, Keeps P (handle e)) : KeepsAt P s (tryCatch m handle) := by
  unfold KeepsAt at first ⊢
  cases ran : m.run s with
  | ok a t =>
    rw [tryCatch_run_ok handle ran]
    rwa [ran] at first
  | error e t =>
    rw [tryCatch_run_error handle ran]
    rw [ran] at first
    exact handler e t first

end StateInvariant
