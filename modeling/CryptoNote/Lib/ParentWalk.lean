import Mathlib

/-! # Walks up parent pointers with fuel

`walk parent fuel a` lists `a` and its ancestors, nearest first, following
`parent` for at most `fuel` elements, and `Ancestor parent a b` says that `b` is
reached from `a` by following parents.  Every element of a walk is an ancestor.
Conversely, when every parent has a smaller rank than its child, a walk never
meets an element twice, so a walk whose fuel is the size of a finite set holding
the ancestors of `a` reaches the root and meets every one of them. -/
set_option autoImplicit false

namespace ParentWalk

variable {α : Type} (parent : α → Option α)

def walk : Nat → α → List α
  | 0, _ => []
  | fuel + 1, a => a :: match parent a with
    | some p => walk fuel p
    | none => []

def Ancestor : α → α → Prop := Relation.ReflTransGen fun a b => parent a = some b

@[simp] theorem walk_zero (a : α) : walk parent 0 a = [] := rfl

theorem walk_succ_of_parent {a p : α} (linked : parent a = some p) (fuel : Nat) :
    walk parent (fuel + 1) a = a :: walk parent fuel p := by
  simp [walk, linked]

theorem walk_succ_of_root {a : α} (root : parent a = none) (fuel : Nat) :
    walk parent (fuel + 1) a = [a] := by
  simp [walk, root]

variable {parent}

theorem Ancestor.refl (a : α) : Ancestor parent a a := Relation.ReflTransGen.refl

theorem Ancestor.head {a p b : α} (linked : parent a = some p) (rest : Ancestor parent p b) :
    Ancestor parent a b :=
  Relation.ReflTransGen.head linked rest

theorem Ancestor.tail {a c b : α} (rest : Ancestor parent a c) (linked : parent c = some b) :
    Ancestor parent a b :=
  Relation.ReflTransGen.tail rest linked

theorem Ancestor.closed (P : α → Prop) (closed : ∀ a p, P a → parent a = some p → P p) {a b : α}
    (anc : Ancestor parent a b) (start : P a) : P b := by
  induction anc with
  | refl => exact start
  | tail _ linked holds => exact closed _ _ holds linked

theorem ancestor_of_mem_walk : ∀ {fuel : Nat} {a b : α}, b ∈ walk parent fuel a → Ancestor parent a b
  | 0, _, _, mem => by simp at mem
  | fuel + 1, a, b, mem => by
    cases linked : parent a with
    | none =>
      rw [walk_succ_of_root parent linked, List.mem_singleton] at mem
      subst mem
      exact .refl b
    | some p =>
      rw [walk_succ_of_parent parent linked, List.mem_cons] at mem
      rcases mem with rfl | rest
      · exact .refl b
      · exact .head linked (ancestor_of_mem_walk rest)

section Ranked

variable (rank : α → Nat)

theorem Ancestor.rank_le (lowers : ∀ a p, parent a = some p → rank p < rank a) {a b : α}
    (anc : Ancestor parent a b) : rank b ≤ rank a :=
  anc.closed (rank · ≤ rank a) (fun _ _ below linked => (lowers _ _ linked).le.trans below) le_rfl

theorem mem_walk_of_ancestor [DecidableEq α] (lowers : ∀ a p, parent a = some p → rank p < rank a) :
    ∀ (fuel : Nat) (a : α) (s : Finset α), (∀ b, Ancestor parent a b → b ∈ s) → s.card ≤ fuel →
      ∀ b, Ancestor parent a b → b ∈ walk parent fuel a
  | 0, a, s, inside, card, _, _ => by
    have := Finset.card_pos.mpr ⟨a, inside a (.refl a)⟩
    omega
  | fuel + 1, a, s, inside, card, b, anc => by
    rcases Relation.ReflTransGen.cases_head anc with rfl | ⟨p, linked, rest⟩
    · exact List.mem_cons_self
    · rw [walk_succ_of_parent parent linked]
      apply List.mem_cons_of_mem
      -- the ancestors of `p` are those of `a` but `a` itself, whose rank is larger
      refine mem_walk_of_ancestor lowers fuel p (s.erase a) (fun c fromParent => ?_) ?_ b rest
      · refine Finset.mem_erase.mpr ⟨fun same => ?_, inside c (.head linked fromParent)⟩
        have below := fromParent.rank_le rank lowers
        have lower := lowers a p linked
        subst same
        omega
      · rw [Finset.card_erase_of_mem (inside a (.refl a))]
        omega

theorem walk_add_of_complete (lowers : ∀ a p, parent a = some p → rank p < rank a) :
    ∀ (fuel : Nat) (a : α), (∀ b, Ancestor parent a b → b ∈ walk parent fuel a) →
      ∀ more, walk parent (fuel + more) a = walk parent fuel a
  | 0, a, complete, _ => absurd (complete a (.refl a)) (by simp)
  | fuel + 1, a, complete, more => by
    rw [Nat.add_right_comm]
    cases linked : parent a with
    | none => rw [walk_succ_of_root parent linked, walk_succ_of_root parent linked]
    | some p =>
      rw [walk_succ_of_parent parent linked, walk_succ_of_parent parent linked]
      refine congrArg (a :: ·) (walk_add_of_complete lowers fuel p (fun b anc => ?_) more)
      -- an ancestor of the parent is an ancestor of `a` other than `a`, whose rank is larger
      have mem := complete b (.head linked anc)
      rw [walk_succ_of_parent parent linked, List.mem_cons] at mem
      refine mem.resolve_left fun same => ?_
      have below := anc.rank_le rank lowers
      have lower := lowers a p linked
      subst same
      omega

theorem walk_add_of_card [DecidableEq α] (lowers : ∀ a p, parent a = some p → rank p < rank a) (fuel : Nat) (a : α)
    (s : Finset α) (inside : ∀ b, Ancestor parent a b → b ∈ s) (card : s.card ≤ fuel) (more : Nat) :
    walk parent (fuel + more) a = walk parent fuel a :=
  walk_add_of_complete rank lowers fuel a (mem_walk_of_ancestor rank lowers fuel a s inside card) more

end Ranked

end ParentWalk
