import Mathlib

/-! # Block locators

A node that asks a peer for the blocks it lacks names blocks of its own chain in
a locator: its top block, the blocks `1, 2, 4, …` below the top, and the first
block.  The peer answers from the first of them that it holds.

Two lists that each name their predecessor's key, start on the same key and
repeat no key agree up to any key they share, as long as no key names two
different predecessors (`Linked.take_eq_of_getElem?`).  The heights whose key the
peer holds are then closed downwards, and the first locator height among them is
at most as far below any shared height as that height is below the top
(`find?_locatorHeights`): the peer starts at most twice as far back as it has to. -/
set_option autoImplicit false

namespace BlockLocator

/-! ## Lists linked by keys -/

section Linked

variable {α K : Type} (key prev : α → K)

/-- Each element names the key of the element before it. -/
def Linked (l : List α) : Prop := l.IsChain fun below above => prev above = key below

variable {key prev}

theorem Linked.prev_eq {l : List α} (linked : Linked key prev l) {i : Nat} {below above : α}
    (atBelow : l[i]? = some below) (atAbove : l[i + 1]? = some above) : prev above = key below := by
  obtain ⟨inside, rfl⟩ := List.getElem?_eq_some_iff.mp atAbove
  rw [List.getElem?_eq_getElem (by omega), Option.some.injEq] at atBelow
  subst atBelow
  exact linked.getElem i inside

theorem key_getElem? {l : List α} {i : Nat} {x : K} (at_i : (l.map key)[i]? = some x) :
    ∃ a, l[i]? = some a ∧ key a = x := by
  simpa [List.getElem?_map] using at_i

theorem Linked.take_eq_of_getElem? {l r : List α} (linkedL : Linked key prev l) (linkedR : Linked key prev r)
    (sameHead : l.head?.map key = r.head?.map key) (nodupL : (l.map key).Nodup) (nodupR : (r.map key).Nodup)
    (noCollision : ∀ a ∈ l, ∀ b ∈ r, key a = key b → prev a = prev b) :
    ∀ i j (x : K), (l.map key)[i]? = some x → (r.map key)[j]? = some x →
      i = j ∧ (l.map key).take (i + 1) = (r.map key).take (i + 1) := by
  have heads : (l.map key)[0]? = (r.map key)[0]? := by simpa [List.head?_eq_getElem?] using sameHead
  intro i
  -- along the first list, each shared key's predecessor is shared too
  induction i with
  | zero =>
    intro j x atL atR
    have first : j = 0 := (List.getElem?_inj (List.getElem?_eq_some_iff.mp atR).1 nodupR).mp
      (by rw [atR, ← heads, atL])
    subst first
    exact ⟨rfl, by rw [List.take_add_one, List.take_add_one, heads, List.take_zero, List.take_zero]⟩
  | succ i ih =>
    intro j x atL atR
    cases j with
    | zero =>
      have same : i + 1 = 0 := (List.getElem?_inj (List.getElem?_eq_some_iff.mp atL).1 nodupL).mp
        (by rw [atL, heads, atR])
      omega
    | succ j =>
      obtain ⟨above, aboveAt, aboveKey⟩ := key_getElem? atL
      obtain ⟨above', aboveAt', aboveKey'⟩ := key_getElem? atR
      obtain ⟨below, belowAt⟩ : ∃ below, l[i]? = some below :=
        ⟨_, List.getElem?_eq_getElem (Nat.lt_of_succ_lt (List.getElem?_eq_some_iff.mp aboveAt).1)⟩
      obtain ⟨below', belowAt'⟩ : ∃ below', r[j]? = some below' :=
        ⟨_, List.getElem?_eq_getElem (Nat.lt_of_succ_lt (List.getElem?_eq_some_iff.mp aboveAt').1)⟩
      have linkedKeys : key below = key below' := by
        rw [← linkedL.prev_eq belowAt aboveAt, ← linkedR.prev_eq belowAt' aboveAt']
        exact noCollision above (List.mem_of_getElem? aboveAt) above' (List.mem_of_getElem? aboveAt')
          (aboveKey.trans aboveKey'.symm)
      obtain ⟨rfl, prefixes⟩ := ih j (key below) (by simp [List.getElem?_map, belowAt])
        (by simp [List.getElem?_map, belowAt', linkedKeys])
      have extend : ∀ keys : List K, keys.take (i + 1 + 1) = keys.take (i + 1) ++ keys[i + 1]?.toList :=
        fun _ => List.take_add_one
      exact ⟨rfl, by rw [extend, extend, prefixes, atL, atR]⟩

end Linked

/-! ## Searching what was read -/

theorem findSome?_of_mapM {α β : Type} (P : α → Bool) {f : α → Option β} {g : β → Option α} :
    ∀ {l : List α} {read : List β}, l.mapM f = some read → (∀ a ∈ l, (f a).bind g = Option.guard P a) →
      read.findSome? g = l.find? P
  | [], read, readAll, _ => by
    rw [List.mapM_nil, Option.pure_def, Option.some.injEq] at readAll
    rw [← readAll, List.findSome?_nil, List.find?_nil]
  | a :: l, read, readAll, guarded => by
    simp only [List.mapM_cons, Option.pure_def, Option.bind_eq_bind, Option.bind_eq_some_iff,
      Option.some.injEq] at readAll
    obtain ⟨b, readA, rest, readRest, rfl⟩ := readAll
    have atA := guarded a List.mem_cons_self
    rw [readA, Option.bind_some] at atA
    have tail := findSome?_of_mapM P readRest fun a' mem => guarded a' (List.mem_cons_of_mem a mem)
    cases accepted : P a
    · simp [atA, Option.guard, accepted, tail]
    · simp [atA, Option.guard, accepted]

theorem mapM_eq_some_map {α β : Type} {f : α → Option β} {g : α → β} :
    ∀ {l : List α}, (∀ a ∈ l, f a = some (g a)) → l.mapM f = some (l.map g)
  | [], _ => rfl
  | a :: l, reads => by
    rw [List.mapM_cons, reads a List.mem_cons_self, mapM_eq_some_map fun b mem => reads b (List.mem_cons_of_mem a mem)]
    rfl

/-! ## Locator heights -/

/-- `start, 2 start, 4 start, …` while below `limit`, at most `fuel` of them. -/
def doublingsBelow (limit : Nat) : Nat → Nat → List Nat
  | 0, _ => []
  | fuel + 1, i => if i < limit then i :: doublingsBelow limit fuel (i * 2) else []

/-- The heights a locator names from the height `top`: the top, then the heights
`top - 1, top - 2, top - 4, …` above `0`, then `0` under a top above it. -/
def locatorHeights (top fuel : Nat) : List Nat :=
  top :: (doublingsBelow top fuel 1).map (top - ·) ++ if top = 0 then [] else [0]

theorem le_of_mem_locatorHeights {top fuel x : Nat} (mem : x ∈ locatorHeights top fuel) : x ≤ top := by
  simp only [locatorHeights, List.cons_append, List.mem_cons, List.mem_append, List.mem_map] at mem
  split at mem <;> simp at mem <;> omega

theorem getLast?_locatorHeights (top fuel : Nat) : (locatorHeights top fuel).getLast? = some 0 := by
  by_cases zero : top = 0
  · subst zero
    cases fuel <;> simp [locatorHeights, doublingsBelow]
  · simp only [locatorHeights, zero, if_false]
    rw [List.getLast?_concat]

theorem mapM_getElem?_locatorHeights {α : Type} (values : List α) (fallback : α) {top : Nat}
    (atTop : values.length = top + 1) (fuel : Nat) :
    (locatorHeights top fuel).mapM (values[·]?) = some ((locatorHeights top fuel).map (values.getD · fallback)) :=
  mapM_eq_some_map fun h mem => by
    have below := le_of_mem_locatorHeights mem
    rw [List.getD_eq_getElem?_getD, List.getElem?_eq_getElem (by omega), Option.getD_some]

theorem length_doublingsBelow (limit : Nat) :
    ∀ fuel j, limit ≤ 2 ^ (j + fuel) → (doublingsBelow limit fuel (2 ^ j)).length = Nat.clog 2 limit - j
  | 0, j, enough => by
    have done : Nat.clog 2 limit ≤ j := (Nat.clog_le_iff_le_pow (by decide)).mpr enough
    simp [doublingsBelow]
    omega
  | fuel + 1, j, enough => by
    unfold doublingsBelow
    split
    · next inside =>
      have more : j < Nat.clog 2 limit := (Nat.lt_clog_iff_pow_lt (by decide)).mpr inside
      rw [List.length_cons, ← Nat.pow_succ, length_doublingsBelow limit fuel (j + 1) (by rwa [Nat.add_right_comm])]
      omega
    · next above =>
      have done : Nat.clog 2 limit ≤ j := (Nat.clog_le_iff_le_pow (by decide)).mpr (Nat.le_of_not_lt above)
      simp only [List.length_nil]
      omega

theorem length_locatorHeights {top fuel : Nat} (enough : top ≤ 2 ^ fuel) :
    (locatorHeights top fuel).length = Nat.clog 2 top + if top = 0 then 1 else 2 := by
  have doublings := length_doublingsBelow top fuel 0 (by rwa [Nat.zero_add])
  rw [Nat.pow_zero, Nat.sub_zero] at doublings
  simp only [locatorHeights, List.cons_append, List.length_cons, List.length_append, List.length_map, doublings]
  split <;> simp

section Find

variable (P : Nat → Bool) (closed : ∀ a b, b ≤ a → P a = true → P b = true)
include closed

theorem lt_of_missed {top p h : Nat} (missed : P (top - p) = false) (found : P h = true) : h < top - p := by
  by_contra above
  have reached := closed h (top - p) (by omega) found
  rw [missed] at reached
  contradiction

variable (zero : P 0 = true)
include zero

theorem find?_doublingsBelow {top : Nat} :
    ∀ fuel i p, i ≤ 2 * p + 1 → P (top - p) = false → top ≤ i * 2 ^ fuel →
      ∃ x, ((doublingsBelow top fuel i).map (top - ·) ++ [0]).find? P = some x ∧
        ∀ h, P h = true → h - x ≤ top - h := by
  intro fuel
  induction fuel with
  | zero =>
    intro i p room missed enough
    refine ⟨0, by simp [doublingsBelow, zero], fun h found => ?_⟩
    have below := lt_of_missed P closed missed found
    rw [Nat.pow_zero, Nat.mul_one] at enough
    omega
  | succ fuel ih =>
    intro i p room missed enough
    by_cases inside : i < top
    · cases hit : P (top - i)
      · -- the search goes on from the next offset
        obtain ⟨x, found, bound⟩ :=
          ih (i * 2) i (by omega) hit (by rwa [Nat.pow_succ, Nat.mul_comm (2 ^ fuel), ← Nat.mul_assoc] at enough)
        refine ⟨x, ?_, bound⟩
        simpa [doublingsBelow, inside, List.find?_cons, hit] using found
      · refine ⟨top - i, by simp [doublingsBelow, inside, hit], fun h found => ?_⟩
        have below := lt_of_missed P closed missed found
        omega
    · -- the offsets have passed the top, and the search ends on `0`
      refine ⟨0, by simp [doublingsBelow, inside, zero], fun h found => ?_⟩
      have below := lt_of_missed P closed missed found
      omega

theorem find?_locatorHeights {top fuel : Nat} (enough : top ≤ 2 ^ fuel) :
    ∃ x, (locatorHeights top fuel).find? P = some x ∧ x ≤ top ∧ ∀ h ≤ top, P h = true → h - x ≤ top - h := by
  cases atTop : P top
  · have positive : top ≠ 0 := fun isZero => by rw [isZero, zero] at atTop; contradiction
    obtain ⟨x, found, bound⟩ :=
      find?_doublingsBelow P closed zero fuel 1 0 (by omega) (by rwa [Nat.sub_zero]) (by rwa [Nat.one_mul])
    have searched : (locatorHeights top fuel).find? P = some x := by
      simpa [locatorHeights, List.find?_cons, atTop, positive] using found
    exact ⟨x, searched, le_of_mem_locatorHeights (List.mem_of_find?_eq_some searched), fun h _ => bound h⟩
  · refine ⟨top, by simp [locatorHeights, atTop], le_rfl, fun h below _ => ?_⟩
    omega

end Find

end BlockLocator
