import Mathlib

/-! # Containers with a unique key index and an ordered index

A `boost::multi_index_container` with an `ordered_unique` index on a key and an
`ordered_non_unique` index on a rank, read in the order of the second index: the
ranks ascend, no key is held twice, and elements of equal rank stand in the order
they were linked.  `insert` is refused when the key is taken and otherwise links
the element after every element of no greater rank (`link_point`); `replace` keeps
the element where it stands when the new value still fits between its neighbours
(`in_place`) and otherwise relinks it the same way; erasing and trimming from the
front keep the order.

The lemmas say where each operation leaves an element: `insertUpper` is a
permutation of the element consed on, `replaceAt` one of the new value consed on
the list without the old one, and trimming keeps the newest elements
(`trimFront_eq_drop`).  An element ranked above all others goes last
(`insertUpper_of_le`, `replaceAt_of_lt`). -/
set_option autoImplicit false

namespace MultiIndex

variable {α κ τ : Type} [LinearOrder τ]

/-! ## Lists in the order of rank -/

section Lists

variable (rank : α → τ)

def Ascending (l : List α) : Prop := l.Pairwise fun a b => rank a ≤ rank b

/-- `link_point` of an `ordered_non_unique` index: after every element of no greater rank. -/
def insertUpper (x : α) (l : List α) : List α := l.orderedInsert (fun a b => rank a < rank b) x

/-- `in_place` of an `ordered_non_unique` index: `x` may stand at `i` between its
neighbours `l[i - 1]` and `l[i + 1]`. -/
def inPlace (l : List α) (i : Nat) (x : α) : Bool :=
  (match i with
    | 0 => true
    | j + 1 => l[j]?.all fun before => decide (rank before ≤ rank x)) &&
    l[i + 1]?.all fun after => decide (rank x ≤ rank after)

/-- `replace` of the element at `i` by `x`, as the ordered index does it. -/
def replaceAt (l : List α) (i : Nat) (x : α) : List α :=
  if inPlace rank l i x then l.set i x else insertUpper rank x (l.eraseIdx i)

/-- `trim`'s loop: erase the first element while more than `maxSize` are left. -/
def trimFront (maxSize : Nat) : List α → List α
  | [] => []
  | first :: rest => if rest.length + 1 > maxSize then trimFront maxSize rest else first :: rest

variable {rank}

theorem perm_insertUpper (x : α) (l : List α) : (insertUpper rank x l).Perm (x :: l) :=
  List.perm_orderedInsert _ x l

theorem mem_insertUpper {a x : α} {l : List α} : a ∈ insertUpper rank x l ↔ a = x ∨ a ∈ l := by
  rw [(perm_insertUpper x l).mem_iff, List.mem_cons]

theorem Ascending.sublist {l l' : List α} (asc : Ascending rank l) (sub : l'.Sublist l) : Ascending rank l' :=
  List.Pairwise.sublist sub asc

theorem Ascending.le {l : List α} (asc : Ascending rank l) {a b : Nat} (ab : a ≤ b) (ha : a < l.length)
    (hb : b < l.length) : rank l[a] ≤ rank l[b] := by
  rcases Nat.lt_or_eq_of_le ab with lt | rfl
  · exact List.pairwise_iff_getElem.mp asc a b ha hb lt
  · exact le_rfl

theorem rank_before_le_of_inPlace {l : List α} {j : Nat} {x : α} (fits : inPlace rank l (j + 1) x = true)
    (inside : j < l.length) : rank l[j] ≤ rank x := by
  simp only [inPlace, Bool.and_eq_true, List.getElem?_eq_getElem inside, Option.all_some,
    decide_eq_true_eq] at fits
  exact fits.1

theorem rank_le_after_of_inPlace {l : List α} {i : Nat} {x : α} (fits : inPlace rank l i x = true)
    (inside : i + 1 < l.length) : rank x ≤ rank l[i + 1] := by
  simp only [inPlace, Bool.and_eq_true, List.getElem?_eq_getElem inside, Option.all_some,
    decide_eq_true_eq] at fits
  exact fits.2

theorem Ascending.insertUpper {l : List α} (asc : Ascending rank l) (x : α) :
    Ascending rank (insertUpper rank x l) := by
  induction l with
  | nil => simp [MultiIndex.insertUpper, Ascending]
  | cons y rest ih =>
    obtain ⟨below, restAsc⟩ := List.pairwise_cons.mp asc
    simp only [MultiIndex.insertUpper, List.orderedInsert_cons]
    split
    · -- `x` is linked before `y`, below every element of the list
      rename_i before
      refine List.pairwise_cons.mpr ⟨?_, asc⟩
      intro b hb
      rcases List.mem_cons.mp hb with rfl | hb
      · exact before.le
      · exact before.le.trans (below b hb)
    · rename_i after
      refine List.pairwise_cons.mpr ⟨?_, ih restAsc⟩
      intro b hb
      rcases mem_insertUpper.mp hb with rfl | hb
      · exact not_lt.mp after
      · exact below b hb

theorem insertUpper_of_le {x : α} {l : List α} (newest : ∀ y ∈ l, rank y ≤ rank x) :
    insertUpper rank x l = l ++ [x] := by
  induction l with
  | nil => rfl
  | cons y rest ih =>
    have notBefore : ¬rank x < rank y := not_lt.mpr (newest y List.mem_cons_self)
    have restNewest : ∀ z ∈ rest, rank z ≤ rank x := fun z hz => newest z (List.mem_cons_of_mem y hz)
    simp only [MultiIndex.insertUpper, List.orderedInsert_cons, if_neg notBefore] at ih ⊢
    rw [ih restNewest, List.cons_append]

theorem set_perm {l : List α} {i : Nat} (hi : i < l.length) (x : α) :
    (l.set i x).Perm (x :: l.eraseIdx i) := by
  rw [List.set_eq_take_append_cons_drop, if_pos hi, List.eraseIdx_eq_take_drop_succ]
  exact List.perm_middle

theorem Ascending.set {l : List α} (asc : Ascending rank l) {i : Nat} {x : α} (hi : i < l.length)
    (fits : inPlace rank l i x = true) : Ascending rank (l.set i x) := by
  -- the neighbours bound `x`, and the order bounds the rest by the neighbours
  have fromBefore : ∀ a (lt : a < i), rank l[a] ≤ rank x := by
    intro a lt
    obtain ⟨j, rfl⟩ : ∃ j, i = j + 1 := ⟨i - 1, by omega⟩
    have inside : j < l.length := by omega
    exact (asc.le (by omega : a ≤ j) _ inside).trans (rank_before_le_of_inPlace fits inside)
  have toAfter : ∀ b (lt : i < b) (hb : b < l.length), rank x ≤ rank l[b] := by
    intro b lt hb
    have inside : i + 1 < l.length := by omega
    exact (rank_le_after_of_inPlace fits inside).trans (asc.le (by omega : i + 1 ≤ b) inside hb)
  refine List.pairwise_iff_getElem.mpr fun a b ha hb lt => ?_
  simp only [List.length_set] at ha hb
  simp only [List.getElem_set]
  by_cases atA : i = a
  · subst atA
    rw [if_pos rfl, if_neg (by omega)]
    exact toAfter b lt hb
  · by_cases atB : i = b
    · subst atB
      rw [if_neg atA, if_pos rfl]
      exact fromBefore a lt
    · rw [if_neg atA, if_neg atB]
      exact List.pairwise_iff_getElem.mp asc a b ha hb lt

theorem perm_replaceAt {l : List α} {i : Nat} (hi : i < l.length) (x : α) :
    (replaceAt rank l i x).Perm (x :: l.eraseIdx i) := by
  unfold replaceAt
  split
  · exact set_perm hi x
  · exact perm_insertUpper x _

theorem Ascending.replaceAt {l : List α} (asc : Ascending rank l) {i : Nat} (hi : i < l.length) (x : α) :
    Ascending rank (replaceAt rank l i x) := by
  unfold MultiIndex.replaceAt
  split
  · exact asc.set hi ‹_›
  · exact (asc.sublist (List.eraseIdx_sublist l i)).insertUpper x

theorem replaceAt_of_lt {l : List α} {i : Nat} (hi : i < l.length) {x : α}
    (newest : ∀ y ∈ l, rank y < rank x) : replaceAt rank l i x = l.eraseIdx i ++ [x] := by
  unfold replaceAt
  split
  · -- in place only as the last element: a later neighbour is ranked below `x`
    rename_i fits
    have last : i + 1 = l.length := by
      by_contra notLast
      have inside : i + 1 < l.length := by omega
      exact absurd (newest _ (List.getElem_mem inside)) (not_lt.mpr (rank_le_after_of_inPlace fits inside))
    rw [List.set_eq_take_append_cons_drop, if_pos hi, List.eraseIdx_eq_take_drop_succ,
      List.drop_eq_nil_of_le (by omega), List.append_nil]
  · exact insertUpper_of_le fun y hy => (newest y ((List.eraseIdx_sublist l i).subset hy)).le

theorem trimFront_eq_drop (maxSize : Nat) (l : List α) :
    trimFront maxSize l = l.drop (l.length - maxSize) := by
  induction l with
  | nil => simp [trimFront]
  | cons first rest ih =>
    simp only [trimFront, List.length_cons]
    split
    · rw [ih, show rest.length + 1 - maxSize = (rest.length - maxSize) + 1 by omega, List.drop_succ_cons]
    · rw [show rest.length + 1 - maxSize = 0 by omega, List.drop_zero]

theorem length_trimFront (maxSize : Nat) (l : List α) :
    (trimFront maxSize l).length = min l.length maxSize := by
  rw [trimFront_eq_drop, List.length_drop]
  omega

theorem trimFront_sublist (maxSize : Nat) (l : List α) : (trimFront maxSize l).Sublist l := by
  rw [trimFront_eq_drop]
  exact List.drop_sublist _ l

theorem trimFront_of_length_le {maxSize : Nat} {l : List α} (fits : l.length ≤ maxSize) :
    trimFront maxSize l = l := by
  rw [trimFront_eq_drop, Nat.sub_eq_zero_of_le fits, List.drop_zero]

theorem trimFront_append_singleton {maxSize : Nat} (pos : 0 < maxSize) (l : List α) (x : α) :
    trimFront maxSize (l ++ [x]) = l.drop (l.length + 1 - maxSize) ++ [x] := by
  rw [trimFront_eq_drop, List.length_append, List.length_singleton, List.drop_append_of_le_length (by omega)]

theorem eraseIdx_eq_filter [DecidableEq κ] (key : α → κ) {l : List α} (unique : (l.map key).Nodup) {i : Nat}
    (hi : i < l.length) : l.eraseIdx i = l.filter fun a => key a ≠ key l[i] := by
  induction l generalizing i with
  | nil => simp at hi
  | cons y rest ih =>
    rw [List.map_cons, List.nodup_cons] at unique
    obtain ⟨fresh, restUnique⟩ := unique
    cases i with
    | zero =>
      have others : ∀ a ∈ rest, key a ≠ key y := fun a ha same => fresh (List.mem_map.mpr ⟨a, ha, same⟩)
      simp only [List.eraseIdx_cons_zero, List.getElem_cons_zero, List.filter_cons, ne_eq,
        not_true_eq_false, decide_false, Bool.false_eq_true, if_false]
      exact (List.filter_eq_self.mpr fun a ha => by simpa using others a ha).symm
    | succ j =>
      have inside : j < rest.length := by simpa using hi
      have keep : key y ≠ key rest[j] := fun same =>
        fresh (List.mem_map.mpr ⟨_, List.getElem_mem inside, same.symm⟩)
      simp only [List.eraseIdx_cons_succ, List.getElem_cons_succ, List.filter_cons, ne_eq, keep,
        not_false_eq_true, decide_true, if_true]
      rw [ih restUnique]

end Lists

/-! ## The container -/

/-- The container's elements in the order of the rank index, no key twice. -/
structure Container (key : α → κ) (rank : α → τ) where
  elements : List α
  ascending : Ascending rank elements
  unique : (elements.map key).Nodup

namespace Container

variable {key : α → κ} {rank : α → τ} (c : Container key rank)

def empty : Container key rank := ⟨[], List.Pairwise.nil, List.nodup_nil⟩

def size : Nat := c.elements.length

def erase (i : Fin c.elements.length) : Container key rank :=
  ⟨c.elements.eraseIdx i, c.ascending.sublist (List.eraseIdx_sublist _ _),
    c.unique.sublist ((List.eraseIdx_sublist _ _).map key)⟩

def trim (maxSize : Nat) : Container key rank :=
  ⟨trimFront maxSize c.elements, c.ascending.sublist (trimFront_sublist _ _),
    c.unique.sublist ((trimFront_sublist _ _).map key)⟩

variable {c}

@[simp] theorem elements_empty : (empty : Container key rank).elements = [] := rfl

@[simp] theorem elements_erase (i : Fin c.elements.length) : (c.erase i).elements = c.elements.eraseIdx i := rfl

@[simp] theorem elements_trim (maxSize : Nat) : (c.trim maxSize).elements = trimFront maxSize c.elements := rfl

theorem mem_of_mem_trim {maxSize : Nat} {a : α} (mem : a ∈ (c.trim maxSize).elements) : a ∈ c.elements :=
  (trimFront_sublist _ _).subset mem

theorem size_trim (maxSize : Nat) : (c.trim maxSize).size = min c.size maxSize :=
  length_trimFront maxSize c.elements

theorem size_erase_le (i : Fin c.elements.length) : (c.erase i).size ≤ c.size :=
  (List.eraseIdx_sublist _ _).length_le

theorem trim_of_size_le {maxSize : Nat} (fits : c.size ≤ maxSize) : c.trim maxSize = c := by
  cases c
  simp only [trim, Container.mk.injEq]
  exact trimFront_of_length_le fits

variable [DecidableEq κ] (c)

/-- `find` on the key index: the position of the element with key `k`. -/
def find (k : κ) : Option (Fin c.elements.length) := c.elements.findFinIdx? fun a => decide (key a = k)

/-- `insert`: refused when the key is taken, otherwise linked after every element of
no greater rank. -/
def insert (x : α) : Container key rank :=
  if taken : key x ∈ c.elements.map key then c
  else
    ⟨insertUpper rank x c.elements, c.ascending.insertUpper x,
      ((perm_insertUpper x c.elements).map key).nodup_iff.mpr (List.nodup_cons.mpr ⟨taken, c.unique⟩)⟩

/-- `replace` of the element at `i` by `x`: refused when another element holds `x`'s key. -/
def replace (i : Fin c.elements.length) (x : α) : Container key rank :=
  if collides : key x ∈ (c.elements.eraseIdx i).map key then c
  else
    ⟨replaceAt rank c.elements i x, c.ascending.replaceAt i.isLt x,
      ((perm_replaceAt i.isLt x).map key).nodup_iff.mpr
        (List.nodup_cons.mpr ⟨collides, c.unique.sublist ((List.eraseIdx_sublist _ _).map key)⟩)⟩

def eraseKey (k : κ) : Container key rank :=
  match c.find k with
  | some it => c.erase it
  | none => c

/-- `find` the value's key: insert the value and trim to `maxSize` when the key is
new, replace the element found otherwise. -/
def insertOrReplace (maxSize : Nat) (x : α) : Container key rank :=
  match c.find (key x) with
  | none => (c.insert x).trim maxSize
  | some it => c.replace it x

variable {c}

theorem find_eq_none {k : κ} : c.find k = none ↔ k ∉ c.elements.map key := by
  simp [find, List.findFinIdx?_eq_none_iff]

theorem key_find {k : κ} {i : Fin c.elements.length} (found : c.find k = some i) :
    key c.elements[(i : Nat)] = k := by
  simpa using (List.findFinIdx?_eq_some_iff.mp found).1

theorem insert_of_mem {x : α} (taken : key x ∈ c.elements.map key) : c.insert x = c := dif_pos taken

theorem elements_insert_of_not_mem {x : α} (free : key x ∉ c.elements.map key) :
    (c.insert x).elements = insertUpper rank x c.elements := by
  simp only [insert, dif_neg free]

theorem elements_replace_of_key {i : Fin c.elements.length} {x : α} (same : key x = key c.elements[(i : Nat)]) :
    (c.replace i x).elements = replaceAt rank c.elements i x := by
  have free : key x ∉ (c.elements.eraseIdx i).map key := by
    rw [eraseIdx_eq_filter key c.unique i.isLt, same]
    simp
  simp only [replace, dif_neg free]

theorem mem_of_mem_insert {a x : α} (mem : a ∈ (c.insert x).elements) : a ∈ c.elements ∨ a = x := by
  by_cases taken : key x ∈ c.elements.map key
  · rw [insert_of_mem taken] at mem
    exact .inl mem
  · rw [elements_insert_of_not_mem taken] at mem
    exact (mem_insertUpper.mp mem).symm

theorem mem_of_mem_replace {i : Fin c.elements.length} {a x : α} (mem : a ∈ (c.replace i x).elements) :
    a ∈ c.elements ∨ a = x := by
  unfold replace at mem
  split at mem
  · exact .inl mem
  · rcases List.mem_cons.mp ((perm_replaceAt i.isLt x).mem_iff.mp mem) with rfl | rest
    · exact .inr rfl
    · exact .inl ((List.eraseIdx_sublist _ _).subset rest)

theorem mem_erase {i : Fin c.elements.length} {a : α} :
    a ∈ (c.erase i).elements ↔ a ∈ c.elements ∧ key a ≠ key c.elements[(i : Nat)] := by
  rw [elements_erase, eraseIdx_eq_filter key c.unique i.isLt]
  simp

theorem size_insert_le (x : α) : (c.insert x).size ≤ c.size + 1 := by
  by_cases taken : key x ∈ c.elements.map key
  · rw [insert_of_mem taken]
    omega
  · simp only [size, elements_insert_of_not_mem taken, (perm_insertUpper x c.elements).length_eq,
      List.length_cons, le_refl]

theorem size_replace (i : Fin c.elements.length) (x : α) : (c.replace i x).size = c.size := by
  unfold replace
  split
  · rfl
  · have inside := i.isLt
    simp only [size, (perm_replaceAt inside x).length_eq, List.length_cons, List.length_eraseIdx_of_lt inside]
    omega

theorem elements_eraseKey (k : κ) : (c.eraseKey k).elements = c.elements.filter fun a => key a ≠ k := by
  unfold eraseKey
  split
  · rename_i it found
    rw [elements_erase, eraseIdx_eq_filter key c.unique it.isLt, key_find found]
  · rename_i missing
    have absent := find_eq_none.mp missing
    refine (List.filter_eq_self.mpr fun a ha => ?_).symm
    have differs : key a ≠ k := fun same => absent (same ▸ List.mem_map_of_mem ha)
    simpa using differs

theorem mem_eraseKey {k : κ} {a : α} : a ∈ (c.eraseKey k).elements ↔ a ∈ c.elements ∧ key a ≠ k := by
  rw [elements_eraseKey]
  simp

theorem size_eraseKey_le (k : κ) : (c.eraseKey k).size ≤ c.size := by
  simp only [size, elements_eraseKey]
  exact List.length_filter_le _ _

theorem mem_of_mem_insertOrReplace {maxSize : Nat} {a x : α} (mem : a ∈ (c.insertOrReplace maxSize x).elements) :
    a ∈ c.elements ∨ a = x := by
  unfold insertOrReplace at mem
  split at mem
  · exact mem_of_mem_insert (mem_of_mem_trim mem)
  · exact mem_of_mem_replace mem

theorem size_insertOrReplace_le {maxSize : Nat} (bounded : c.size ≤ maxSize) (x : α) :
    (c.insertOrReplace maxSize x).size ≤ maxSize := by
  unfold insertOrReplace
  split
  · rw [size_trim]
    exact min_le_right _ _
  · rw [size_replace]
    exact bounded

theorem insertOrReplace_keeps {maxSize : Nat} (bounded : c.size ≤ maxSize) (x : α) :
    c.size ≤ (c.insertOrReplace maxSize x).size ∧ ((c.insertOrReplace maxSize x).size = maxSize ∨
      ∀ k ∈ (x :: c.elements).map key, k ∈ (c.insertOrReplace maxSize x).elements.map key) := by
  unfold insertOrReplace
  split
  · rename_i missing
    have free := find_eq_none.mp missing
    have grown : (c.insert x).size = c.size + 1 := by
      simp only [size, elements_insert_of_not_mem free, (perm_insertUpper x c.elements).length_eq,
        List.length_cons]
    rw [size_trim, grown]
    by_cases room : c.size + 1 ≤ maxSize
    · -- the trim drops nothing
      refine ⟨by omega, .inr fun k hk => ?_⟩
      rw [trim_of_size_le (grown ▸ room), elements_insert_of_not_mem free]
      exact ((perm_insertUpper x c.elements).map key).mem_iff.mpr hk
    · exact ⟨by omega, .inl (by omega)⟩
  · rename_i it found
    have same : key x = key c.elements[(it : Nat)] := (key_find found).symm
    refine ⟨(size_replace it x).ge, .inr fun k hk => ?_⟩
    rw [elements_replace_of_key same, ((perm_replaceAt it.isLt x).map key).mem_iff,
      eraseIdx_eq_filter key c.unique it.isLt]
    simp only [List.map_cons, List.mem_cons, List.mem_map, List.mem_filter] at hk ⊢
    rcases hk with rfl | ⟨a, ha, rfl⟩
    · exact .inl rfl
    · by_cases replaced : key a = key c.elements[(it : Nat)]
      · exact .inl (replaced.trans same.symm)
      · exact .inr ⟨a, ⟨ha, by simpa using replaced⟩, rfl⟩

theorem elements_insertOrReplace_of_lt {maxSize : Nat} (bounded : c.size ≤ maxSize) {x : α}
    (newest : ∀ y ∈ c.elements, rank y < rank x) :
    (c.insertOrReplace maxSize x).elements =
      trimFront maxSize (c.elements.filter (fun a => key a ≠ key x) ++ [x]) := by
  unfold insertOrReplace
  split
  · rename_i missing
    have free := find_eq_none.mp missing
    have kept : c.elements.filter (fun a => key a ≠ key x) = c.elements := by
      refine List.filter_eq_self.mpr fun a ha => ?_
      have differs : key a ≠ key x := fun same => free (same ▸ List.mem_map_of_mem ha)
      simpa using differs
    rw [elements_trim, elements_insert_of_not_mem free, insertUpper_of_le fun y hy => (newest y hy).le, kept]
  · rename_i it found
    have same : key x = key c.elements[(it : Nat)] := (key_find found).symm
    have fits : (c.elements.eraseIdx it ++ [x]).length ≤ maxSize := by
      have inside := it.isLt
      simp only [List.length_append, List.length_eraseIdx_of_lt inside, List.length_singleton]
      unfold size at bounded
      omega
    rw [elements_replace_of_key same, replaceAt_of_lt it.isLt newest, ← trimFront_of_length_le fits,
      eraseIdx_eq_filter key c.unique it.isLt, ← same]

end Container

end MultiIndex
