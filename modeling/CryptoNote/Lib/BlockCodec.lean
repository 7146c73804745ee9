import Mathlib

/-!
# Fixed-width digits, fixed-size blocks and inverse tables

Three pieces block codecs are built from.  `digitsLE base width n` are the
`width` lowest digits of `n`, least significant first; for `n < base ^ width`
they are the one digit list of that length whose value is `n`.  `block size l i`
is block `i` of `l` cut into blocks of `size`, and cutting a concatenation of
blocks of that size gives the blocks back.  `inverseTable size count key` is the
lookup table that inverts `key`: entry `key i` holds `i`, every other entry `-1`.
-/

set_option autoImplicit false

namespace BlockCodec

variable {α β : Type}

/-! ## Fixed-width digits -/

section Digits

variable {base : Nat}

def digitsLE (base width n : Nat) : List Nat := (List.range width).map fun k => n / base ^ k % base

@[simp] theorem length_digitsLE (width n : Nat) : (digitsLE base width n).length = width := by
  simp [digitsLE]

theorem digitsLE_succ (width n : Nat) :
    digitsLE base (width + 1) n = n % base :: digitsLE base width (n / base) := by
  simp only [digitsLE, List.range_succ_eq_map, List.map_cons, List.map_map, pow_zero, Nat.div_one]
  congr 1
  apply List.map_congr_left
  intro k _
  simp [pow_succ, Nat.div_div_eq_div_mul, mul_comm]

theorem digitsLE_lt (positive : 0 < base) (width n : Nat) : ∀ d ∈ digitsLE base width n, d < base := by
  intro d mem
  simp only [digitsLE, List.mem_map] at mem
  obtain ⟨k, -, rfl⟩ := mem
  exact Nat.mod_lt _ positive

theorem digitsLE_zero (width : Nat) : digitsLE base width 0 = List.replicate width 0 := by
  simp [digitsLE]

theorem ofDigits_digitsLE : ∀ (width n : Nat), n < base ^ width →
    Nat.ofDigits base (digitsLE base width n) = n
  | 0, n, small => by
    simp only [pow_zero, Nat.lt_one_iff] at small
    simp [digitsLE, small]
  | width + 1, n, small => by
    have positive : 0 < base := Nat.pos_of_ne_zero fun zero => by simp [zero] at small
    have rest : n / base < base ^ width := by
      rw [Nat.div_lt_iff_lt_mul positive, ← pow_succ]
      exact small
    rw [digitsLE_succ, Nat.ofDigits_cons, ofDigits_digitsLE width (n / base) rest, Nat.mod_add_div]

theorem digitsLE_ofDigits : ∀ ds : List Nat, (∀ d ∈ ds, d < base) →
    digitsLE base ds.length (Nat.ofDigits base ds) = ds
  | [], _ => rfl
  | d :: ds, small => by
    have digit := small d List.mem_cons_self
    have others := digitsLE_ofDigits ds fun x mem => small x (List.mem_cons_of_mem _ mem)
    have low : (d + base * Nat.ofDigits base ds) % base = d := by
      rw [Nat.add_mul_mod_self_left, Nat.mod_eq_of_lt digit]
    have high : (d + base * Nat.ofDigits base ds) / base = Nat.ofDigits base ds := by
      rw [Nat.add_mul_div_left _ _ (by omega), Nat.div_eq_of_lt digit, zero_add]
    rw [List.length_cons, digitsLE_succ, Nat.ofDigits_cons, low, high, others]

end Digits

/-! ## Fixed-size blocks -/

section Blocks

def block (size : Nat) (l : List α) (i : Nat) : List α := (l.drop (i * size)).take size

theorem length_block {size : Nat} {l : List α} {i : Nat} (inside : (i + 1) * size ≤ l.length) :
    (block size l i).length = size := by
  rw [Nat.succ_mul] at inside
  simp only [block, List.length_take, List.length_drop]
  omega

theorem flatten_map_block (size : Nat) (l : List α) :
    ∀ count, count * size ≤ l.length → ((List.range count).map (block size l)).flatten = l.take (count * size)
  | 0, _ => by simp
  | count + 1, enough => by
    rw [Nat.succ_mul] at enough
    rw [List.range_succ, List.map_append, List.flatten_append,
      flatten_map_block size l count (by omega), Nat.succ_mul, List.take_add]
    simp [block]

theorem block_flatten_append {size : Nat} (rest : List α) :
    ∀ blocks : List (List α), (∀ b ∈ blocks, b.length = size) →
      ∀ i (inside : i < blocks.length), block size (blocks.flatten ++ rest) i = blocks[i]
  | [], _, i, inside => absurd inside (by simp)
  | b :: blocks, sized, i, inside => by
    have first := sized b List.mem_cons_self
    cases i with
    | zero =>
      simp only [block, zero_mul, List.drop_zero, List.flatten_cons, List.append_assoc,
        List.getElem_cons_zero]
      rw [List.take_append_of_le_length (by omega), List.take_of_length_le (by omega)]
    | succ i =>
      have later := block_flatten_append rest blocks (fun b mem => sized b (List.mem_cons_of_mem _ mem))
        i (by simpa using inside)
      simp only [block, List.flatten_cons, List.append_assoc, List.getElem_cons_succ] at later ⊢
      rw [Nat.succ_mul, Nat.add_comm, ← List.drop_drop, List.drop_left' first]
      exact later

theorem length_flatten_of_sized {size : Nat} (blocks : List (List α)) (sized : ∀ b ∈ blocks, b.length = size) :
    blocks.flatten.length = blocks.length * size := by
  induction blocks with
  | nil => simp
  | cons b blocks ih =>
    rw [List.flatten_cons, List.length_append, sized b List.mem_cons_self,
      ih fun b' mem => sized b' (List.mem_cons_of_mem _ mem), List.length_cons]
    ring

theorem map_block_flatten {size : Nat} (blocks : List (List α)) (rest : List α)
    (sized : ∀ b ∈ blocks, b.length = size) :
    (List.range blocks.length).map (block size (blocks.flatten ++ rest)) = blocks := by
  apply List.ext_getElem (by simp)
  intro i inRange inside
  simp [block_flatten_append rest blocks sized i inside]

end Blocks

/-! ## Option-valued loops over a list -/

section MapM

theorem mapM_eq_some_map {f : α → Option β} {g : α → β} :
    ∀ l : List α, (∀ x ∈ l, f x = some (g x)) → l.mapM f = some (l.map g)
  | [], _ => rfl
  | x :: l, all => by
    have rest := mapM_eq_some_map l fun y mem => all y (List.mem_cons_of_mem _ mem)
    simp [all x List.mem_cons_self, rest]

theorem forall₂_of_mapM_eq_some {f : α → Option β} :
    ∀ (l : List α) (bs : List β), l.mapM f = some bs → List.Forall₂ (fun x b => f x = some b) l bs
  | [], bs, returned => by
    simp only [List.mapM_nil, Option.pure_def, Option.some.injEq] at returned
    subst returned
    exact .nil
  | x :: l, bs, returned => by
    simp only [List.mapM_cons, Option.bind_eq_bind, Option.pure_def, Option.bind_eq_some_iff,
      Option.some.injEq] at returned
    obtain ⟨b, first, others, rest, rfl⟩ := returned
    exact .cons first (forall₂_of_mapM_eq_some l others rest)

theorem map_eq_of_forall₂ {γ : Type} {R : α → β → Prop} {g : β → γ} {h : α → γ}
    (agree : ∀ x b, R x b → g b = h x) :
    ∀ {l : List α} {bs : List β}, List.Forall₂ R l bs → bs.map g = l.map h
  | _, _, .nil => rfl
  | _, _, .cons related rest => by
    simp [agree _ _ related, map_eq_of_forall₂ agree rest]

end MapM

/-! ## Inverse tables -/

section InverseTable

variable {size : Nat} {key : Nat → Nat}

/-- A table of `size` entries, all `-1`, in which entry `key i` is set to `i` for each `i < count` in turn. -/
def inverseTable (size count : Nat) (key : Nat → Nat) : List Int :=
  (List.range count).foldl (fun data i => data.set (key i) i) (List.replicate size (-1))

theorem inverseTable_succ (count : Nat) :
    inverseTable size (count + 1) key = (inverseTable size count key).set (key count) count := by
  simp [inverseTable, List.range_succ]

@[simp] theorem length_inverseTable (count : Nat) : (inverseTable size count key).length = size := by
  induction count with
  | zero => simp [inverseTable]
  | succ count ih => rw [inverseTable_succ, List.length_set, ih]

theorem inverseTable_of_nonneg : ∀ (count k : Nat) (j : Int),
    (inverseTable size count key).getD k (-1) = j → 0 ≤ j → j.toNat < count ∧ key j.toNat = k := by
  intro count
  induction count with
  | zero =>
    intro k j found nonneg
    simp only [inverseTable, List.range_zero, List.foldl_nil, List.getD_eq_getElem?_getD,
      List.getElem?_replicate] at found
    split at found <;> simp at found <;> omega
  | succ count ih =>
    intro k j found nonneg
    rw [inverseTable_succ, List.getD_eq_getElem?_getD, List.getElem?_set] at found
    split at found
    · rename_i atKey
      obtain ⟨rfl, -⟩ := atKey
      split at found
      · simp only [Option.getD_some] at found
        subst found
        simp
      · simp only [Option.getD_none] at found
        omega
    · obtain ⟨below, moved⟩ := ih k j (by rw [List.getD_eq_getElem?_getD]; exact found) nonneg
      exact ⟨by omega, moved⟩

end InverseTable

end BlockCodec
