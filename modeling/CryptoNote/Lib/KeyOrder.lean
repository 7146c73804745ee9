import Mathlib

/-! # Orders by a key

A comparator that orders elements by a key in a linear order is a strict weak
order: it is irreflexive and transitive, and two elements are incomparable
exactly when their keys are equal, so incomparability is transitive too.  This
is what an ordered container such as `boost::multi_index`'s `ordered_non_unique`
asks of its comparator. -/

set_option autoImplicit false

namespace KeyOrder

variable {α β : Type} [LinearOrder β] (key : α → β)

theorem incomparable_iff (x y : α) : ¬key x < key y ∧ ¬key y < key x ↔ key x = key y := by
  rw [not_lt, not_lt]
  exact ⟨fun ⟨yx, xy⟩ => le_antisymm xy yx, fun same => ⟨same.ge, same.le⟩⟩

theorem isStrictWeakOrder : IsStrictWeakOrder α fun x y => key x < key y where
  irrefl x := lt_irrefl (key x)
  trans _ _ _ := lt_trans
  incomp_trans x y z xy yz := by
    rw [incomparable_iff] at xy yz ⊢
    exact xy.trans yz

theorem isStrictWeakOrder_of_iff {r : α → α → Prop} (agrees : ∀ x y, r x y ↔ key x < key y) :
    IsStrictWeakOrder α r := by
  have same : r = fun x y => key x < key y := funext fun x => funext fun y => propext (agrees x y)
  rw [same]
  exact isStrictWeakOrder key

end KeyOrder
