import CryptoNote.Transfers.TransfersContainer
import CryptoNote.Lib.StateInvariant
import CryptoNote.Lib.ListAlgorithms

/-! # Visibility of transfers that share a key image

Two transfers of the container may carry one key image: the same output seen
twice, or an output of a transaction that was replaced.  The wallet counts at most
one of them, the one `updateTransfersVisibility` marks visible.  What it marks
depends only on the transfers of that key image (`keyView`), and it leaves them as
`VisibleAsSpecified` describes, provided at most one is spent; every change the
container makes to the transfers of a key image is followed by that call.  So
the description holds of every key image after any run of the container's
operations, failed ones included (`transfersVisibility_invariant`):
`getOutputs` never returns two transfers of one key image, and `balance` with
every flag set adds, for each key image, the amount of its one visible transfer,
and the amounts of the visible multisignature transfers.

Each operation is taken apart with the rules of `StateInvariant`; the pure
updates it makes are proved to touch the transfers of one key image at most
(`Untouched`). -/

set_option autoImplicit false

namespace CryptoNote

open Crypto StateInvariant

/-! ## The visibility of one key image -/

/-- The key image whose visibility a transfer takes part in: none for a
multisignature output. -/
def TransactionOutputInformationIn.keyImage? (t : TransactionOutputInformationIn) : Option KeyImage :=
  match t.type with
  | .Key => some t.keyImage
  | .Multisignature => none

theorem TransactionOutputInformationIn.getSpentOutputDescriptor_eq_key (t : TransactionOutputInformationIn)
    (keyImage : KeyImage) : t.getSpentOutputDescriptor = .key keyImage ↔ t.keyImage? = some keyImage := by
  cases type : t.type <;> simp [getSpentOutputDescriptor, keyImage?, type]

theorem TransactionOutputInformationIn.keyImage?_of_multisignature {t : TransactionOutputInformationIn}
    {amount : UInt64} {globalOutputIndex : UInt32}
    (kind : t.getSpentOutputDescriptor = .multisignature amount globalOutputIndex) : t.keyImage? = none := by
  cases type : t.type <;> simp_all [getSpentOutputDescriptor, keyImage?]

namespace TransfersContainer

/-- What `updateTransfersVisibility keyImage` reads: the visibility of the spent
transfers of the key image, and its available and unconfirmed transfers. -/
def keyView (s : TransfersContainer) (keyImage : KeyImage) :
    List Bool × List TransactionOutputInformationEx × List TransactionOutputInformationEx :=
  ((s.spentTransfers.filter (·.getSpentOutputDescriptor = .key keyImage)).map (·.visible),
    s.availableTransfers.filter (·.getSpentOutputDescriptor = .key keyImage),
    s.unconfirmedTransfers.filter (·.getSpentOutputDescriptor = .key keyImage))

end TransfersContainer

/-- The visibility wanted of the transfers of one key image: at most one is
spent, and then it is visible and the others hidden; otherwise, if some are
available, exactly one of them is visible, one that no other available one
precedes, and the unconfirmed ones are hidden; otherwise the unconfirmed ones are
visible when there is exactly one. -/
def VisibleAsSpecified :
    List Bool × List TransactionOutputInformationEx × List TransactionOutputInformationEx → Prop
  | (spent, available, unconfirmed) =>
    spent.length ≤ 1 ∧
      if spent ≠ [] then
        (∀ v ∈ spent, v = true) ∧ (∀ t ∈ available, t.visible = false) ∧ ∀ t ∈ unconfirmed, t.visible = false
      else if available ≠ [] then
        available.countP (·.visible) = 1 ∧
          (∀ t ∈ available, t.visible = true → ∀ t' ∈ available, lessTIterator t' t = false) ∧
          ∀ t ∈ unconfirmed, t.visible = false
      else ∀ t ∈ unconfirmed, t.visible = (unconfirmed.length == 1)

namespace TransfersContainer

def KeyImagesVisible (s : TransfersContainer) : Prop := ∀ keyImage, VisibleAsSpecified (s.keyView keyImage)

end TransfersContainer

/-! ## Lists updated in place -/

section Lists

variable {α : Type} {p : α → Bool}

theorem filter_map_of_fixed {f : α → α} (keeps : ∀ a, p (f a) = p a) (fixed : ∀ a, p a = true → f a = a) :
    ∀ l : List α, (l.map f).filter p = l.filter p
  | [] => rfl
  | a :: l => by
    cases kept : p a with
    | false => simp [keeps, kept, filter_map_of_fixed keeps fixed l]
    | true => simp [kept, fixed a kept, filter_map_of_fixed keeps fixed l]

theorem filter_map_of_keeps {f : α → α} (keeps : ∀ a, p (f a) = p a) (l : List α) :
    (l.map f).filter p = (l.filter p).map f := by
  rw [List.filter_map]
  congr 1
  exact List.filter_congr fun a _ => keeps a

theorem filter_modify_of_not {g : α → α} (keeps : ∀ a, p (g a) = p a) :
    ∀ (l : List α) (i : Nat) {a : α}, l[i]? = some a → p a = false → (l.modify i g).filter p = l.filter p
  | [], _, _, found, _ => by simp at found
  | b :: l, 0, a, found, dropped => by
    simp only [List.getElem?_cons_zero, Option.some.injEq] at found
    subst found
    simp [List.modify, keeps, dropped]
  | b :: l, i + 1, a, found, dropped => by
    simp only [List.getElem?_cons_succ] at found
    simp only [List.modify_succ_cons, List.filter_cons, filter_modify_of_not keeps l i found dropped]

theorem countP_modify_eq_one {q : α → Bool} {g : α → α} :
    ∀ (l : List α) (i : Nat), (∀ a ∈ l, q a = false) → (inside : i < l.length) → q (g l[i]) = true →
      (l.modify i g).countP q = 1
  | [], _, _, inside, _ => absurd inside (by simp)
  | b :: l, 0, unmarked, _, marked => by
    have first : q (g b) = true := marked
    simp only [List.modify_zero_cons, List.countP_cons, first, if_true]
    rw [List.countP_eq_zero.mpr fun a mem => by simp [unmarked a (List.mem_cons_of_mem b mem)]]
  | b :: l, i + 1, unmarked, inside, marked => by
    simp only [List.modify_succ_cons, List.countP_cons, unmarked b List.mem_cons_self]
    rw [countP_modify_eq_one l i (fun a mem => unmarked a (List.mem_cons_of_mem b mem))
      (by simpa using inside) marked]
    rfl

theorem mem_modify {g : α → α} {t : α} :
    ∀ (l : List α) (i : Nat), t ∈ l.modify i g → t ∈ l ∨ ∃ a, l[i]? = some a ∧ t = g a
  | [], _, mem => by simp at mem
  | b :: l, 0, mem => by
    rcases List.mem_cons.mp mem with rfl | rest
    · exact .inr ⟨b, rfl, rfl⟩
    · exact .inl (List.mem_cons_of_mem b rest)
  | b :: l, i + 1, mem => by
    rcases List.mem_cons.mp mem with rfl | rest
    · exact .inl List.mem_cons_self
    · rcases mem_modify l i rest with old | ⟨a, found, rfl⟩
      · exact .inl (List.mem_cons_of_mem b old)
      · exact .inr ⟨a, by simpa using found, rfl⟩

theorem filter_eraseIdx_of_not {l : List α} {i : Nat} {a : α} (found : l[i]? = some a) (dropped : p a = false) :
    (l.eraseIdx i).filter p = l.filter p := by
  obtain ⟨inside, rfl⟩ := List.getElem?_eq_some_iff.mp found
  conv => rhs; rw [← List.take_append_drop i l, List.drop_eq_getElem_cons inside]
  rw [List.eraseIdx_eq_take_drop_succ, List.filter_append, List.filter_append, List.filter_cons, dropped]
  rfl

theorem filter_erase_of_not [DecidableEq α] {a : α} (dropped : p a = false) :
    ∀ l : List α, (l.erase a).filter p = l.filter p
  | [] => rfl
  | b :: l => by
    by_cases same : b = a
    · subst same
      simp [dropped]
    · rw [List.erase_cons_tail (by simpa using same), List.filter_cons, List.filter_cons,
        filter_erase_of_not dropped l]

end Lists

/-! ## `lessTIterator` and `minElement` -/

theorem lessTIterator_iff (a b : TransactionOutputInformationEx) :
    lessTIterator a b = true ↔ a.blockHeight.toNat < b.blockHeight.toNat ∨
      (a.blockHeight.toNat = b.blockHeight.toNat ∧ a.transactionIndex.toNat < b.transactionIndex.toNat) := by
  simp [lessTIterator, UInt32.lt_iff_toNat_lt, UInt32.toNat_inj]

theorem lessTIterator_irrefl (a : TransactionOutputInformationEx) : lessTIterator a a = false := by
  cases less : lessTIterator a a
  · rfl
  · rw [lessTIterator_iff] at less
    omega

theorem lessTIterator_split {a b c : TransactionOutputInformationEx} (less : lessTIterator a c = true) :
    lessTIterator a b = true ∨ lessTIterator b c = true := by
  simp only [lessTIterator_iff] at *
  omega

theorem lessTIterator_asymm {a b : TransactionOutputInformationEx} (less : lessTIterator a b = true) :
    lessTIterator b a = false := by
  cases back : lessTIterator b a
  · rfl
  · rw [lessTIterator_iff] at less back
    omega

theorem lessTIterator_false_trans {a b c : TransactionOutputInformationEx} (first : lessTIterator a b = false)
    (second : lessTIterator b c = false) : lessTIterator a c = false := by
  cases less : lessTIterator a c
  · rfl
  · rcases lessTIterator_split (b := b) less with back | forth
    · rw [first] at back
      cases back
    · rw [second] at forth
      cases forth

/-- The step of the fold in `minElement`: the least transfer of descriptor `d` so
far, the first of equals. -/
def minStep (d : SpentOutputDescriptor) (best : Option (TransactionOutputInformationEx × Nat))
    (e : TransactionOutputInformationEx × Nat) : Option (TransactionOutputInformationEx × Nat) :=
  if e.1.getSpentOutputDescriptor = d then
    match best with
    | some m => if lessTIterator e.1 m.1 then some e else some m
    | none => some e
  else best

theorem minElement_eq (d : SpentOutputDescriptor) (l : List TransactionOutputInformationEx) :
    minElement d l = (l.zipIdx.foldl (minStep d) none).map Prod.snd := rfl

theorem minStep_isSome {d : SpentOutputDescriptor} {best : Option (TransactionOutputInformationEx × Nat)}
    {e : TransactionOutputInformationEx × Nat} (found : best.isSome ∨ e.1.getSpentOutputDescriptor = d) :
    (minStep d best e).isSome := by
  unfold minStep
  split
  · split
    · split <;> rfl
    · rfl
  · next other => simpa [other] using found

theorem minStep_some {d : SpentOutputDescriptor} {best : Option (TransactionOutputInformationEx × Nat)}
    (typed : ∀ m, best = some m → m.1.getSpentOutputDescriptor = d) {e b : TransactionOutputInformationEx × Nat}
    (stepped : minStep d best e = some b) :
    b.1.getSpentOutputDescriptor = d ∧ (best = some b ∨ b = e) ∧
      (∀ m, best = some m → lessTIterator m.1 b.1 = false) ∧
      (e.1.getSpentOutputDescriptor = d → lessTIterator e.1 b.1 = false) := by
  unfold minStep at stepped
  by_cases here : e.1.getSpentOutputDescriptor = d
  · rw [if_pos here] at stepped
    cases best with
    | none =>
      cases stepped
      exact ⟨here, .inr rfl, (fun _ absent => nomatch absent), fun _ => lessTIterator_irrefl _⟩
    | some m =>
      by_cases less : lessTIterator e.1 m.1
      · -- `e` goes before the best so far and replaces it
        simp only [less, if_true, Option.some.injEq] at stepped
        subst stepped
        refine ⟨here, .inr rfl, fun m' same => ?_, fun _ => lessTIterator_irrefl _⟩
        cases same
        exact lessTIterator_asymm less
      · -- the best so far stays
        simp only [less, Bool.false_eq_true, if_false, Option.some.injEq] at stepped
        subst stepped
        refine ⟨typed m rfl, .inl rfl, fun m' same => ?_, fun _ => by simpa using less⟩
        cases same
        exact lessTIterator_irrefl _
  · -- a transfer of another descriptor changes nothing
    rw [if_neg here] at stepped
    refine ⟨typed b stepped, .inl stepped, fun m same => ?_, fun hit => absurd hit here⟩
    rw [stepped, Option.some.injEq] at same
    rw [← same]
    exact lessTIterator_irrefl _

theorem foldl_minStep_isSome (d : SpentOutputDescriptor) :
    ∀ (es : List (TransactionOutputInformationEx × Nat)) (best : Option (TransactionOutputInformationEx × Nat)),
      (best.isSome ∨ ∃ e ∈ es, e.1.getSpentOutputDescriptor = d) → (es.foldl (minStep d) best).isSome
  | [], best, found => by simpa using found
  | e :: es, best, found => by
    rw [List.foldl_cons]
    apply foldl_minStep_isSome d es
    by_cases here : e.1.getSpentOutputDescriptor = d
    · exact .inl (minStep_isSome (.inr here))
    · rcases found with kept | ⟨e', mem, hit⟩
      · exact .inl (minStep_isSome (.inl kept))
      · rcases List.mem_cons.mp mem with rfl | later
        · exact absurd hit here
        · exact .inr ⟨e', later, hit⟩

theorem foldl_minStep_some (d : SpentOutputDescriptor) :
    ∀ (es : List (TransactionOutputInformationEx × Nat)) (best : Option (TransactionOutputInformationEx × Nat)),
      (∀ m, best = some m → m.1.getSpentOutputDescriptor = d) → ∀ r, es.foldl (minStep d) best = some r →
      r.1.getSpentOutputDescriptor = d ∧ (best = some r ∨ r ∈ es) ∧
        (∀ m, best = some m → lessTIterator m.1 r.1 = false) ∧
        ∀ e ∈ es, e.1.getSpentOutputDescriptor = d → lessTIterator e.1 r.1 = false
  | [], best, typed, r, found => by
    rw [List.foldl_nil] at found
    refine ⟨typed r found, .inl found, fun m same => ?_, by simp⟩
    rw [found, Option.some.injEq] at same
    rw [← same]
    exact lessTIterator_irrefl _
  | e :: es, best, typed, r, found => by
    rw [List.foldl_cons] at found
    have typed' : ∀ m, minStep d best e = some m → m.1.getSpentOutputDescriptor = d :=
      fun _ stepped => (minStep_some typed stepped).1
    obtain ⟨kind, source, afterStep, afterList⟩ := foldl_minStep_some d es _ typed' r found
    -- what precedes neither the step's best nor anything after it precedes `r`
    have throughStep : ∀ x, (minStep d best e).isSome →
        (∀ b, minStep d best e = some b → lessTIterator x b.1 = false) → lessTIterator x r.1 = false := by
      intro x stepped before
      obtain ⟨b, stepped⟩ := Option.isSome_iff_exists.mp stepped
      exact lessTIterator_false_trans (before b stepped) (afterStep b stepped)
    refine ⟨kind, ?_, fun m same => ?_, fun e' mem hit => ?_⟩
    · rcases source with stepped | later
      · rcases (minStep_some typed stepped).2.1 with kept | rfl
        · exact .inl kept
        · exact .inr List.mem_cons_self
      · exact .inr (List.mem_cons_of_mem e later)
    · exact throughStep m.1 (minStep_isSome (.inl (by simp [same])))
        fun _ stepped => (minStep_some typed stepped).2.2.1 m same
    · rcases List.mem_cons.mp mem with rfl | later
      · exact throughStep e'.1 (minStep_isSome (.inr hit)) fun _ stepped => (minStep_some typed stepped).2.2.2 hit
      · exact afterList e' later hit

theorem minElement_isSome (d : SpentOutputDescriptor) (l : List TransactionOutputInformationEx)
    (present : ∃ t ∈ l, t.getSpentOutputDescriptor = d) : (minElement d l).isSome := by
  obtain ⟨t, mem, hit⟩ := present
  obtain ⟨j, at_j⟩ := List.mem_iff_getElem?.mp mem
  rw [minElement_eq, Option.isSome_map]
  exact foldl_minStep_isSome d l.zipIdx none (.inr ⟨(t, j), List.mem_zipIdx_iff_getElem?.mpr at_j, hit⟩)

theorem minElement_eq_some {d : SpentOutputDescriptor} {l : List TransactionOutputInformationEx} {i : Nat}
    (found : minElement d l = some i) :
    ∃ t, l[i]? = some t ∧ t.getSpentOutputDescriptor = d ∧
      ∀ t' ∈ l, t'.getSpentOutputDescriptor = d → lessTIterator t' t = false := by
  rw [minElement_eq, Option.map_eq_some_iff] at found
  obtain ⟨r, folded, rfl⟩ := found
  obtain ⟨kind, source, -, least⟩ := foldl_minStep_some d l.zipIdx none (fun _ absent => nomatch absent) r folded
  have inList : r ∈ l.zipIdx := source.resolve_left (by simp)
  refine ⟨r.1, List.mem_zipIdx_iff_getElem?.mp inList, kind, fun t' mem' hit' => ?_⟩
  obtain ⟨j', at_j'⟩ := List.mem_iff_getElem?.mp mem'
  exact least (t', j') (List.mem_zipIdx_iff_getElem?.mpr at_j') hit'

/-! ## `updateTransfersVisibility` -/

section Update

variable (keyImage : KeyImage) (visible : Bool)

theorem filter_updateVisibility_self (l : List TransactionOutputInformationEx) :
    (updateVisibility (.key keyImage) visible l).filter (·.getSpentOutputDescriptor = .key keyImage) =
      (l.filter (·.getSpentOutputDescriptor = .key keyImage)).map fun t => { t with visible := visible } := by
  unfold updateVisibility
  rw [filter_map_of_keeps (fun t => by split <;> rfl)]
  apply List.map_congr_left
  intro t mem
  rw [if_pos (by simpa using (List.mem_filter.mp mem).2)]

theorem filter_updateVisibility_ne {keyImage' : KeyImage} (ne : keyImage' ≠ keyImage)
    (l : List TransactionOutputInformationEx) :
    (updateVisibility (.key keyImage) visible l).filter (·.getSpentOutputDescriptor = .key keyImage') =
      l.filter (·.getSpentOutputDescriptor = .key keyImage') := by
  unfold updateVisibility
  apply filter_map_of_fixed (fun t => by split <;> rfl)
  intro t hit
  rw [if_neg]
  simp only [decide_eq_true_eq] at hit
  rw [hit]
  simpa using ne

end Update

theorem filter_showSpent_ne {keyImage keyImage' : KeyImage} (ne : keyImage' ≠ keyImage)
    (l : List SpentTransactionOutput) :
    (l.map fun t => if t.getSpentOutputDescriptor = .key keyImage then { t with visible := true } else t).filter
        (·.getSpentOutputDescriptor = .key keyImage') = l.filter (·.getSpentOutputDescriptor = .key keyImage') := by
  apply filter_map_of_fixed (fun t => by split <;> rfl)
  intro t hit
  rw [if_neg]
  simp only [decide_eq_true_eq] at hit
  rw [hit]
  simpa using ne

theorem keyView_updateTransfersVisibility_ne (s : TransfersContainer) {keyImage keyImage' : KeyImage}
    (ne : keyImage' ≠ keyImage) : (s.updateTransfersVisibility keyImage).keyView keyImage' = s.keyView keyImage' := by
  simp only [TransfersContainer.updateTransfersVisibility]
  split_ifs
  · simp only [TransfersContainer.keyView, filter_updateVisibility_ne keyImage false ne, filter_showSpent_ne ne]
  · simp only [TransfersContainer.keyView, filter_updateVisibility_ne keyImage false ne]
    split
    · next i found =>
      -- the transfer made visible is one of this key image
      obtain ⟨t, at_i, kind, -⟩ := minElement_eq_some found
      have hidden : (updateVisibility (.key keyImage) false s.availableTransfers)[i]? =
          some { t with visible := false } := by
        rw [updateVisibility, List.getElem?_map, at_i, Option.map_some, if_pos kind]
      rw [filter_modify_of_not (g := fun t => { t with visible := true }) (fun _ => rfl) _ i hidden
        (by simpa [kind] using ne.symm), filter_updateVisibility_ne keyImage false ne]
    · rw [filter_updateVisibility_ne keyImage false ne]
  · simp only [TransfersContainer.keyView, filter_updateVisibility_ne keyImage _ ne]

theorem filter_showSpent_self (keyImage : KeyImage) (l : List SpentTransactionOutput) :
    ((l.map fun t => if t.getSpentOutputDescriptor = .key keyImage then { t with visible := true } else t).filter
        (·.getSpentOutputDescriptor = .key keyImage)).map (·.visible) =
      (l.filter (·.getSpentOutputDescriptor = .key keyImage)).map fun _ => true := by
  rw [filter_map_of_keeps (fun t => by split <;> rfl), List.map_map]
  apply List.map_congr_left
  intro t mem
  simp only [Function.comp, if_pos (by simpa using (List.mem_filter.mp mem).2 : t.getSpentOutputDescriptor = _)]

theorem available_showMin {keyImage : KeyImage} {l : List TransactionOutputInformationEx} {i : Nat}
    (found : minElement (.key keyImage) l = some i) :
    let available := ((updateVisibility (.key keyImage) false l).modify i fun t => { t with visible := true }).filter
      (·.getSpentOutputDescriptor = .key keyImage)
    available.countP (·.visible) = 1 ∧
      ∀ t ∈ available, t.visible = true → ∀ t' ∈ available, lessTIterator t' t = false := by
  intro available
  obtain ⟨least, at_i, kind, minimal⟩ := minElement_eq_some found
  have hidden : (updateVisibility (.key keyImage) false l)[i]? = some { least with visible := false } := by
    rw [updateVisibility, List.getElem?_map, at_i, Option.map_some, if_pos kind]
  -- every transfer of the list is hidden or of another key image
  have unmarked : ∀ a ∈ updateVisibility (.key keyImage) false l,
      (a.visible && decide (a.getSpentOutputDescriptor = .key keyImage)) = false := by
    intro a mem
    obtain ⟨b, -, rfl⟩ := List.mem_map.mp mem
    split <;> simp_all
  -- the transfers of the result: the shown one, or a hidden copy of a transfer of `l`
  have origin : ∀ t ∈ available, (t.visible = true → t = { least with visible := true }) ∧
      ∃ b ∈ l, b.getSpentOutputDescriptor = .key keyImage ∧ lessTIterator t = lessTIterator b ∧
        ∀ c, lessTIterator c t = lessTIterator c b := by
    intro t mem
    obtain ⟨mem, hit⟩ := List.mem_filter.mp mem
    rcases mem_modify _ i mem with old | ⟨a, found, rfl⟩
    · obtain ⟨b, mem_b, rfl⟩ := List.mem_map.mp old
      have kind_b : b.getSpentOutputDescriptor = .key keyImage := by split at hit <;> simpa using hit
      refine ⟨fun shown => ?_, b, mem_b, kind_b, ?_, fun c => ?_⟩
      · have := unmarked _ old
        simp_all
      all_goals (rw [if_pos kind_b]; rfl)
    · rw [hidden, Option.some.injEq] at found
      subst found
      exact ⟨fun _ => rfl, least, List.mem_of_getElem? at_i, kind, rfl, fun c => rfl⟩
  refine ⟨?_, fun t mem shown t' mem' => ?_⟩
  · rw [List.countP_filter]
    obtain ⟨inside, at_hidden⟩ := List.getElem?_eq_some_iff.mp hidden
    refine countP_modify_eq_one _ i unmarked inside ?_
    rw [at_hidden]
    show (true && decide (least.getSpentOutputDescriptor = .key keyImage)) = true
    simp [kind]
  · obtain ⟨b', mem_b', kind_b', less', -⟩ := (origin t' mem').2
    rw [(origin t mem).1 shown, less']
    exact minimal b' mem_b' kind_b'

theorem visible_of_mem_map {visible : Bool} {l : List TransactionOutputInformationEx} {t : TransactionOutputInformationEx}
    (mem : t ∈ l.map fun t => { t with visible := visible }) : t.visible = visible := by
  obtain ⟨b, -, rfl⟩ := List.mem_map.mp mem
  rfl

theorem updateTransfersVisibility_visible (s : TransfersContainer) (keyImage : KeyImage)
    (unique : (s.keyView keyImage).1.length ≤ 1) :
    VisibleAsSpecified ((s.updateTransfersVisibility keyImage).keyView keyImage) := by
  simp only [TransfersContainer.keyView, List.length_map] at unique
  simp only [TransfersContainer.updateTransfersVisibility]
  split_ifs with spent available
  · -- a spent transfer: it is shown, and every other transfer of the key image hidden
    have present : s.spentTransfers.filter (·.getSpentOutputDescriptor = .key keyImage) ≠ [] := by
      rw [ne_eq, List.filter_eq_nil_iff, ← List.countP_eq_zero]
      omega
    simp only [TransfersContainer.keyView, filter_updateVisibility_self, filter_showSpent_self, VisibleAsSpecified]
    refine ⟨by simpa using unique, ?_⟩
    rw [if_pos (by simpa using present)]
    exact ⟨by simp, fun t mem => visible_of_mem_map mem, fun t mem => visible_of_mem_map mem⟩
  · -- none spent, some available: the least available one is shown
    have absent : s.spentTransfers.filter (·.getSpentOutputDescriptor = .key keyImage) = [] := by
      rw [List.filter_eq_nil_iff, ← List.countP_eq_zero]
      omega
    obtain ⟨t, mem, hit⟩ := List.countP_pos_iff.mp available
    obtain ⟨i, found⟩ := Option.isSome_iff_exists.mp (minElement_isSome _ _ ⟨t, mem, by simpa using hit⟩)
    obtain ⟨one, least⟩ := available_showMin found
    simp only [TransfersContainer.keyView, absent, found, filter_updateVisibility_self, VisibleAsSpecified]
    refine ⟨by simp, ?_⟩
    have shown : 0 < (((updateVisibility (.key keyImage) false s.availableTransfers).modify i fun t =>
        { t with visible := true }).filter (·.getSpentOutputDescriptor = .key keyImage)).length :=
      lt_of_lt_of_le (by omega) (List.countP_le_length (p := (·.visible)))
    rw [if_neg (by simp), if_pos (List.ne_nil_of_length_pos shown)]
    exact ⟨one, least, fun t mem => visible_of_mem_map mem⟩
  · -- only unconfirmed ones: they are shown when there is exactly one
    have absent : s.spentTransfers.filter (·.getSpentOutputDescriptor = .key keyImage) = [] := by
      rw [List.filter_eq_nil_iff, ← List.countP_eq_zero]
      omega
    have none : s.availableTransfers.filter (·.getSpentOutputDescriptor = .key keyImage) = [] := by
      rw [List.filter_eq_nil_iff, ← List.countP_eq_zero]
      omega
    simp only [TransfersContainer.keyView, absent, none, filter_updateVisibility_self, VisibleAsSpecified]
    refine ⟨by simp, ?_⟩
    rw [if_neg (by simp), if_neg (by simp)]
    intro t mem
    rw [visible_of_mem_map mem, List.length_map, List.countP_eq_length_filter]

/-! ## Changes confined to one key image -/

namespace TransfersContainer

/-- `t` differs from `s` at most in the transfers of the key image `k`; with
`k = none`, in the transfers of no key image. -/
def Untouched (k : Option KeyImage) (s t : TransfersContainer) : Prop :=
  ∀ keyImage, k ≠ some keyImage → t.keyView keyImage = s.keyView keyImage

theorem Untouched.refl (k : Option KeyImage) (s : TransfersContainer) : Untouched k s s := fun _ _ => rfl

theorem Untouched.trans {k : Option KeyImage} {s t u : TransfersContainer} (first : Untouched k s t)
    (second : Untouched k t u) : Untouched k s u :=
  fun keyImage ne => (second keyImage ne).trans (first keyImage ne)

theorem spentCount_le_of_sublist {s t : TransfersContainer} (sub : t.spentTransfers.Sublist s.spentTransfers)
    (keyImage : KeyImage) : (t.keyView keyImage).1.length ≤ (s.keyView keyImage).1.length := by
  simp only [keyView, List.length_map]
  exact (sub.filter _).length_le

theorem KeyImagesVisible.spentCount_le {s : TransfersContainer} (holds : s.KeyImagesVisible)
    (keyImage : KeyImage) : (s.keyView keyImage).1.length ≤ 1 :=
  (holds keyImage).1

theorem KeyImagesVisible.of_untouched {s t : TransfersContainer} (holds : s.KeyImagesVisible)
    (untouched : Untouched none s t) : t.KeyImagesVisible := by
  intro keyImage
  rw [untouched keyImage (by simp)]
  exact holds keyImage

theorem KeyImagesVisible.update {s t : TransfersContainer} {keyImage : KeyImage} (holds : s.KeyImagesVisible)
    (untouched : Untouched (some keyImage) s t) (unique : (t.keyView keyImage).1.length ≤ 1) :
    (t.updateTransfersVisibility keyImage).KeyImagesVisible := by
  intro keyImage'
  by_cases same : keyImage' = keyImage
  · subst same
    exact updateTransfersVisibility_visible t keyImage' unique
  · rw [keyView_updateTransfersVisibility_ne t same, untouched keyImage' (by simpa using Ne.symm same)]
    exact holds keyImage'

theorem KeyImagesVisible.updateAfter {s t : TransfersContainer} {x : TransactionOutputInformationIn}
    (holds : s.KeyImagesVisible) (untouched : Untouched x.keyImage? s t)
    (unique : ∀ keyImage, x.keyImage? = some keyImage → (t.keyView keyImage).1.length ≤ 1) :
    (t.updateAfter x).KeyImagesVisible := by
  unfold TransfersContainer.updateAfter TransactionOutputInformationIn.keyImage? at *
  split
  · next key =>
    simp only [key] at untouched unique
    exact holds.update untouched (unique x.keyImage rfl)
  · next multisignature =>
    have none : x.type = .Multisignature := by cases kind : x.type <;> simp_all
    simp only [none] at untouched
    exact holds.of_untouched untouched

end TransfersContainer

theorem TransactionOutputInformationIn.descriptor_ne {x : TransactionOutputInformationIn} {keyImage : KeyImage}
    (ne : x.keyImage? ≠ some keyImage) : decide (x.getSpentOutputDescriptor = .key keyImage) = false := by
  simpa [getSpentOutputDescriptor_eq_key] using ne

namespace TransfersContainer

theorem untouched_of_lists {k : Option KeyImage} {s t : TransfersContainer}
    (spent : ∀ keyImage, k ≠ some keyImage → t.spentTransfers.filter (·.getSpentOutputDescriptor = .key keyImage) =
      s.spentTransfers.filter (·.getSpentOutputDescriptor = .key keyImage))
    (available : ∀ keyImage, k ≠ some keyImage →
      t.availableTransfers.filter (·.getSpentOutputDescriptor = .key keyImage) =
        s.availableTransfers.filter (·.getSpentOutputDescriptor = .key keyImage))
    (unconfirmed : ∀ keyImage, k ≠ some keyImage →
      t.unconfirmedTransfers.filter (·.getSpentOutputDescriptor = .key keyImage) =
        s.unconfirmedTransfers.filter (·.getSpentOutputDescriptor = .key keyImage)) :
    Untouched k s t := by
  intro keyImage ne
  simp only [keyView, spent keyImage ne, available keyImage ne, unconfirmed keyImage ne]

theorem filter_append_of_ne {x : TransactionOutputInformationEx} {keyImage : KeyImage}
    (ne : x.keyImage? ≠ some keyImage) (l : List TransactionOutputInformationEx) :
    (l ++ [x]).filter (·.getSpentOutputDescriptor = .key keyImage) =
      l.filter (·.getSpentOutputDescriptor = .key keyImage) := by
  rw [List.filter_append, List.filter_singleton, TransactionOutputInformationIn.descriptor_ne ne, cond_false,
    List.append_nil]

end TransfersContainer

open TransfersContainer

/-! ## The loops of `deleteTransactionTransfers` -/

theorem restoreSpent_visible {s : TransfersContainer} (holds : s.KeyImagesVisible) (transactionHash : Hash) :
    (restoreSpent s transactionHash).KeyImagesVisible := by
  unfold restoreSpent
  split
  · next t found =>
    -- the transfer goes back from the spent ones to the available ones
    refine holds.updateAfter (untouched_of_lists ?_ ?_ fun _ _ => rfl) fun keyImage _ => ?_
    · intro keyImage ne
      exact filter_erase_of_not (p := fun x : SpentTransactionOutput => decide (x.getSpentOutputDescriptor = .key keyImage))
        (TransactionOutputInformationIn.descriptor_ne ne) _
    · intro keyImage ne
      exact filter_append_of_ne ne _
    · exact (spentCount_le_of_sublist (List.erase_sublist ..) keyImage).trans (holds.spentCount_le keyImage)
  · exact holds

theorem eraseUnconfirmed_visible {s : TransfersContainer} (holds : s.KeyImagesVisible) (transactionHash : Hash) :
    (eraseUnconfirmed s transactionHash).KeyImagesVisible := by
  unfold eraseUnconfirmed
  split
  · split
    · next i _ t found =>
      refine holds.updateAfter (untouched_of_lists (fun _ _ => rfl) (fun _ _ => rfl) ?_)
        fun keyImage _ => holds.spentCount_le keyImage
      intro keyImage ne
      exact filter_eraseIdx_of_not found (TransactionOutputInformationIn.descriptor_ne ne)
    · exact holds
  · exact holds

theorem eraseAvailable_visible {s : TransfersContainer} (holds : s.KeyImagesVisible) (transactionHash : Hash) :
    (eraseAvailable s transactionHash).KeyImagesVisible := by
  unfold eraseAvailable
  split
  · split
    · next i _ t found =>
      refine holds.updateAfter (untouched_of_lists (fun _ _ => rfl) ?_ fun _ _ => rfl)
        fun keyImage _ => holds.spentCount_le keyImage
      intro keyImage ne
      exact filter_eraseIdx_of_not found (TransactionOutputInformationIn.descriptor_ne ne)
    · exact holds
  · exact holds

theorem deleteTransactionTransfers_visible {s : TransfersContainer} (holds : s.KeyImagesVisible)
    (transactionHash : Hash) : (s.deleteTransactionTransfers transactionHash).KeyImagesVisible := by
  simp only [TransfersContainer.deleteTransactionTransfers]
  -- each of the three loops keeps the description, one turn at a time
  refine Loops.whileLoop_preserves _ _ KeyImagesVisible (fun s holds _ => eraseAvailable_visible holds transactionHash)
    _ _ ?_
  refine Loops.whileLoop_preserves _ _ KeyImagesVisible (fun s holds _ => eraseUnconfirmed_visible holds transactionHash)
    _ _ ?_
  exact Loops.whileLoop_preserves _ _ KeyImagesVisible (fun s holds _ => restoreSpent_visible holds transactionHash)
    _ _ holds

theorem unconfirmAvailable_visible {s : TransfersContainer} (holds : s.KeyImagesVisible) (transactionHash : Hash) :
    (unconfirmAvailable s transactionHash).KeyImagesVisible := by
  unfold unconfirmAvailable
  split
  · split
    · next i _ t found =>
      refine holds.updateAfter (untouched_of_lists (fun _ _ => rfl) ?_ ?_) fun keyImage _ => holds.spentCount_le keyImage
      · intro keyImage ne
        exact filter_eraseIdx_of_not found (TransactionOutputInformationIn.descriptor_ne ne)
      · intro keyImage ne
        exact filter_append_of_ne ne _
    · exact holds
  · exact holds

theorem detachLoop_visible (height : UInt32) :
    ∀ (transactions : List TransactionInformation) (s : TransfersContainer) (deletedTransactions : List Hash),
      s.KeyImagesVisible → (detachLoop height transactions (s, deletedTransactions)).1.KeyImagesVisible
  | [], _, _, holds => holds
  | it :: rest, s, deletedTransactions, holds => by
    unfold detachLoop
    extract_lets doDelete
    generalize doDelete = decision
    -- the walk stops, passes the transaction by, or deletes it
    rcases decision with _ | _ | _
    · exact holds
    · exact detachLoop_visible height rest s deletedTransactions holds
    · exact detachLoop_visible height rest _ _ (deleteTransactionTransfers_visible holds it.transactionHash)

theorem appendUnconfirmed_visible {s : TransfersContainer} (holds : s.KeyImagesVisible)
    (info : TransactionOutputInformationEx) :
    ({ s with unconfirmedTransfers := s.unconfirmedTransfers ++ [info] }.updateAfter
      info.toTransactionOutputInformationIn).KeyImagesVisible :=
  holds.updateAfter (untouched_of_lists (fun _ _ => rfl) (fun _ _ => rfl) fun _ ne => filter_append_of_ne ne _)
    fun keyImage _ => holds.spentCount_le keyImage

theorem appendAvailable_visible {s : TransfersContainer} (holds : s.KeyImagesVisible)
    (info : TransactionOutputInformationEx) :
    ({ s with availableTransfers := s.availableTransfers ++ [info] }.updateAfter
      info.toTransactionOutputInformationIn).KeyImagesVisible :=
  holds.updateAfter (untouched_of_lists (fun _ _ => rfl) (fun _ ne => filter_append_of_ne ne _) fun _ _ => rfl)
    fun keyImage _ => holds.spentCount_le keyImage

/-! ## Spending an available transfer -/

theorem getElem?_of_findIdx? {α : Type} {l : List α} {p : α → Bool} {j : Nat} {t : α}
    (found : l.findIdx? p = some j) (at_j : l[j]? = some t) : p t = true := by
  have hit := List.of_findIdx?_eq_some found
  rw [at_j] at hit
  exact hit

theorem findFirstByAmount_some {d : SpentOutputDescriptor} {amount : UInt64} {l : List TransactionOutputInformationEx}
    {j : Nat} (found : findFirstByAmount d amount l = some j) :
    ∃ t, l[j]? = some t ∧ t.getSpentOutputDescriptor = d := by
  simp only [findFirstByAmount, Option.map_eq_some_iff] at found
  obtain ⟨r, first, rfl⟩ := found
  obtain ⟨inZip, kind⟩ := List.mem_filter.mp (List.mem_mergeSort.mp (List.mem_of_find?_eq_some first))
  exact ⟨r.1, List.mem_zipIdx_iff_getElem?.mp inZip, by simpa using kind⟩

namespace TransfersContainer

theorem filter_append_spent_of_ne {x : SpentTransactionOutput} {keyImage : KeyImage}
    (ne : x.keyImage? ≠ some keyImage) (l : List SpentTransactionOutput) :
    (l ++ [x]).filter (·.getSpentOutputDescriptor = .key keyImage) =
      l.filter (·.getSpentOutputDescriptor = .key keyImage) := by
  rw [List.filter_append, List.filter_singleton, TransactionOutputInformationIn.descriptor_ne ne, cond_false,
    List.append_nil]

theorem copyToSpent_untouched (s : TransfersContainer) (block : TransactionBlockInfo) (tx : TransactionReader)
    (inputIndex : Nat) (output : TransactionOutputInformationEx) :
    Untouched output.keyImage? s (s.copyToSpent block tx inputIndex output) := by
  simp only [copyToSpent]
  split
  · exact Untouched.refl _ _
  · exact untouched_of_lists (fun _ ne => filter_append_spent_of_ne ne _) (fun _ _ => rfl) fun _ _ => rfl

theorem copyToSpent_spentCount {s : TransfersContainer}
    (unique : ∀ keyImage, (s.keyView keyImage).1.length ≤ 1) (block : TransactionBlockInfo) (tx : TransactionReader)
    (inputIndex : Nat) (output : TransactionOutputInformationEx) (keyImage : KeyImage) :
    ((s.copyToSpent block tx inputIndex output).keyView keyImage).1.length ≤ 1 := by
  simp only [copyToSpent]
  split
  · exact unique keyImage
  · next fresh =>
    have before := unique keyImage
    have single := List.length_filter_le (fun x : SpentTransactionOutput =>
      decide (x.getSpentOutputDescriptor = .key keyImage))
      [{ toTransactionOutputInformationEx := output, spendingBlock := block,
         spendingTransactionHash := tx.transactionHash, inputInTransaction := inputIndex.toUInt32 }]
    simp only [keyView, List.length_map, List.filter_append, List.length_append] at before single ⊢
    by_cases same : output.getSpentOutputDescriptor = .key keyImage
    · -- no spent transfer had the descriptor, so the new one is the first of its key image
      have none : (s.spentTransfers.filter (·.getSpentOutputDescriptor = .key keyImage)).length = 0 := by
        rw [List.length_eq_zero_iff, List.filter_eq_nil_iff]
        intro a mem kind
        apply fresh
        exact List.any_eq_true.mpr ⟨a, mem, by simpa [same] using kind⟩
      simp only [List.length_singleton] at single
      omega
    · -- a transfer of another key image leaves this one as it was
      rw [List.filter_singleton]
      simpa [same] using before

theorem copyToSpent_availableTransfers (s : TransfersContainer) (block : TransactionBlockInfo)
    (tx : TransactionReader) (inputIndex : Nat) (output : TransactionOutputInformationEx) :
    (s.copyToSpent block tx inputIndex output).availableTransfers = s.availableTransfers := by
  simp only [copyToSpent]
  split <;> rfl

theorem spend_untouched (s : TransfersContainer) (block : TransactionBlockInfo) (tx : TransactionReader)
    (inputIndex : Nat) {j : Nat} {output : TransactionOutputInformationEx} (at_j : s.availableTransfers[j]? = some output) :
    Untouched output.keyImage? s { s.copyToSpent block tx inputIndex output with
      availableTransfers := (s.copyToSpent block tx inputIndex output).availableTransfers.eraseIdx j } := by
  refine (copyToSpent_untouched s block tx inputIndex output).trans
    (untouched_of_lists (fun _ _ => rfl) (fun keyImage ne => ?_) fun _ _ => rfl)
  rw [← copyToSpent_availableTransfers s block tx inputIndex output] at at_j
  exact filter_eraseIdx_of_not at_j (TransactionOutputInformationIn.descriptor_ne ne)

end TransfersContainer

/-! ## The operations -/

theorem addTransactionOutput_keeps (block : TransactionBlockInfo) (tx : TransactionReader)
    (transfer : TransactionOutputInformationIn) : Keeps KeyImagesVisible (addTransactionOutput block tx transfer) := by
  intro s holds
  unfold addTransactionOutput
  extract_lets transactionIsUnconfimed transferIsUnconfirmed info finish descriptor sameOutput body
  split
  · exact keepsAt_throw_bind _ holds
  · simp only [body]
    apply keepsAt_get_bind
    split
    · apply keepsAt_set_bind
      apply keepsAt_modify
      exact appendUnconfirmed_visible holds info
    · -- for either output type a duplicate throws before any change; otherwise the output is made available
      split <;> split
      all_goals first
        | exact keepsAt_throw_bind _ holds
        | exact keepsAt_set_bind _ (keepsAt_modify _ (appendAvailable_visible holds info))

theorem addTransactionInput_keeps (block : TransactionBlockInfo) (tx : TransactionReader) (i : Nat) :
    ∀ input, Keeps KeyImagesVisible (addTransactionInput block tx i input)
  | .key input => by
    intro s holds
    unfold addTransactionInput
    apply keepsAt_get_bind
    extract_lets descriptor availableCount unconfirmedCount spend afterSpentCheck
    split
    · exact keepsAt_throw_bind _ holds
    · simp only [afterSpentCheck]
      split
      · split
        · exact keepsAt_throw_bind _ holds
        · exact keepsAt_pure holds _
      · simp only [spend]
        split
        · exact keepsAt_throw holds _
        · next j found =>
          split
          · exact keepsAt_throw holds _
          · next output at_j =>
            -- the transfer spent is one of the input's key image
            obtain ⟨t, at_j', kind⟩ := findFirstByAmount_some found
            rw [at_j, Option.some.injEq] at at_j'
            subst at_j'
            have keyImage : output.keyImage? = some input.keyImage :=
              (TransactionOutputInformationIn.getSpentOutputDescriptor_eq_key _ _).mp kind
            apply keepsAt_set_bind
            refine keepsAt_pure (holds.update ?_ ?_) _
            · exact keyImage ▸ spend_untouched s block tx i at_j
            · exact copyToSpent_spentCount holds.spentCount_le block tx i output input.keyImage
  | .multisignature input => by
    intro s holds
    unfold addTransactionInput
    apply keepsAt_get_bind
    extract_lets descriptor
    split
    · exact keepsAt_pure holds _
    · next j found =>
      split
      · exact keepsAt_pure holds _
      · next output at_j =>
        -- a multisignature output: no key image changes
        have kind : output.getSpentOutputDescriptor = descriptor := by
          simpa using getElem?_of_findIdx? found at_j
        have keyImage : output.keyImage? = none :=
          TransactionOutputInformationIn.keyImage?_of_multisignature kind
        apply keepsAt_set_bind
        exact keepsAt_pure (holds.of_untouched (keyImage ▸ spend_untouched s block tx i at_j)) _
  | .base _ => keeps_pure _

theorem addTransactionOutputs_keeps (block : TransactionBlockInfo) (tx : TransactionReader) :
    ∀ transfers, Keeps KeyImagesVisible (addTransactionOutputs block tx transfers)
  | [] => keeps_pure _
  | transfer :: transfers => by
    unfold addTransactionOutputs
    exact keeps_bind (addTransactionOutput_keeps block tx transfer) fun _ =>
      keeps_bind (addTransactionOutputs_keeps block tx transfers) fun _ => keeps_pure _

theorem addTransactionInputsFrom_keeps (block : TransactionBlockInfo) (tx : TransactionReader) :
    ∀ i inputs, Keeps KeyImagesVisible (addTransactionInputsFrom block tx i inputs)
  | _, [] => keeps_pure _
  | i, input :: inputs => by
    unfold addTransactionInputsFrom
    exact keeps_bind (addTransactionInput_keeps block tx i input) fun _ =>
      keeps_bind (addTransactionInputsFrom_keeps block tx (i + 1) inputs) fun _ => keeps_pure _

theorem KeyImagesVisible.withHeight {s : TransfersContainer} (holds : s.KeyImagesVisible) (height : UInt32) :
    { s with currentHeight := height }.KeyImagesVisible :=
  holds

theorem KeyImagesVisible.withTransactions {s : TransfersContainer} (holds : s.KeyImagesVisible)
    (transactions : List TransactionInformation) : { s with transactions := transactions }.KeyImagesVisible :=
  holds

theorem addTransactionInformation_visible {s : TransfersContainer} (holds : s.KeyImagesVisible)
    (block : TransactionBlockInfo) (tx : TransactionReader) : (s.addTransactionInformation block tx).KeyImagesVisible := by
  unfold TransfersContainer.addTransactionInformation
  split
  · exact holds
  · exact holds

theorem addTransaction_keeps (block : TransactionBlockInfo) (tx : TransactionReader)
    (transfers : List TransactionOutputInformationIn) : Keeps KeyImagesVisible (addTransaction block tx transfers) := by
  intro s holds
  unfold addTransaction
  apply keepsAt_tryCatch
  · apply keepsAt_get_bind
    extract_lets record checked
    split
    · exact keepsAt_throw_bind _ holds
    · simp only [checked]
      split
      · exact keepsAt_throw_bind _ holds
      · simp only [record]
        refine keepsAt_bind (addTransactionOutputs_keeps block tx transfers s holds) fun _ =>
          keeps_bind (addTransactionInputsFrom_keeps block tx 0 tx.inputs) fun _ => ?_
        -- the record of the transaction and the height change no transfer
        intro s holds
        split
        · apply keepsAt_modify_bind
          have recorded := addTransactionInformation_visible holds block tx
          split
          · exact keepsAt_modify_bind _ (keepsAt_pure (KeyImagesVisible.withHeight recorded block.height) _)
          · exact keepsAt_pure recorded _
        · split
          · exact keepsAt_modify_bind _ (keepsAt_pure (KeyImagesVisible.withHeight holds block.height) _)
          · exact keepsAt_pure holds _
  · -- the handler deletes the transfers of a transaction it did not record, and throws on
    intro e s holds
    apply keepsAt_get_bind
    extract_lets rethrow
    split
    · exact keepsAt_set_bind _ (keepsAt_throw (deleteTransactionTransfers_visible holds tx.transactionHash) e)
    · exact keepsAt_throw holds e

theorem deleteUnconfirmedTransaction_keeps (transactionHash : Hash) :
    Keeps KeyImagesVisible (deleteUnconfirmedTransaction transactionHash) := by
  intro s holds
  unfold deleteUnconfirmedTransaction
  apply keepsAt_get_bind
  split
  · exact keepsAt_pure holds _
  · next it _ =>
    split
    · exact keepsAt_pure holds _
    · exact keepsAt_set_bind _ (keepsAt_pure (KeyImagesVisible.withTransactions
        (deleteTransactionTransfers_visible holds it.transactionHash) _) _)

theorem replaceTransaction_keeps (txInfo : TransactionInformation)
    (update : TransactionInformation → TransactionInformation) :
    Keeps KeyImagesVisible (replaceTransaction txInfo update) :=
  fun _ holds => keepsAt_modify _ (KeyImagesVisible.withTransactions holds _)

theorem setSpendingBlock_keeps (transactionHash : Hash) (block : TransactionBlockInfo) :
    Keeps KeyImagesVisible (setSpendingBlock transactionHash block) := by
  intro s holds
  apply keepsAt_modify
  -- the spending block is no part of what the visibility reads
  refine holds.of_untouched fun keyImage _ => ?_
  simp only [keyView, Prod.mk.injEq, and_true]
  rw [filter_map_of_keeps (fun t => by split <;> rfl), List.map_map]
  apply List.map_congr_left
  intro t _
  simp only [Function.comp]
  split <;> rfl

theorem confirmTransfers_keeps (block : TransactionBlockInfo) (transactionHash : Hash) (globalIndices : List UInt32) :
    ∀ fuel, Keeps KeyImagesVisible (confirmTransfers block transactionHash globalIndices fuel)
  | 0 => keeps_pure ()
  | fuel + 1 => by
    intro s holds
    unfold confirmTransfers
    apply keepsAt_get_bind
    split
    · exact keepsAt_pure holds _
    · split
      · exact keepsAt_pure holds _
      · next i _ t found =>
        split
        · exact keepsAt_throw holds _
        · extract_lets confirmed
          split
          · exact keepsAt_throw_bind _ holds
          · -- the transfer moves from the unconfirmed ones to the available ones
            refine keepsAt_set_bind _ (confirmTransfers_keeps block transactionHash globalIndices fuel _ ?_)
            refine holds.updateAfter (untouched_of_lists (fun _ _ => rfl) (fun _ ne => filter_append_of_ne ne _) ?_)
              fun keyImage _ => holds.spentCount_le keyImage
            intro keyImage ne
            exact filter_eraseIdx_of_not found (TransactionOutputInformationIn.descriptor_ne ne)

theorem markTransactionConfirmed_keeps (block : TransactionBlockInfo) (transactionHash : Hash)
    (globalIndices : List UInt32) :
    Keeps KeyImagesVisible (markTransactionConfirmed block transactionHash globalIndices) := by
  intro s holds
  unfold markTransactionConfirmed
  split
  · exact keepsAt_throw_bind _ holds
  · apply keepsAt_get_bind
    split
    · exact keepsAt_pure holds _
    · split
      · exact keepsAt_pure holds _
      · apply keepsAt_tryCatch
        · exact (keeps_bind (replaceTransaction_keeps _ _) fun _ =>
            keeps_bind (confirmTransfers_keeps block transactionHash globalIndices _) fun _ =>
              keeps_bind (setSpendingBlock_keeps transactionHash block) fun _ => keeps_pure true).at holds
        · -- the rollback moves the confirmed transfers back to the unconfirmed ones
          intro e
          refine keeps_bind (replaceTransaction_keeps _ _) fun _ => keeps_bind ?_ fun _ =>
            keeps_bind (setSpendingBlock_keeps _ _) fun _ _ holds => keepsAt_throw holds e
          exact fun _ holds => keepsAt_modify _ (Loops.whileLoop_preserves _ _ KeyImagesVisible
            (fun _ holds _ => unconfirmAvailable_visible holds transactionHash) _ _ holds)

theorem detach_keeps (height : UInt32) : Keeps KeyImagesVisible (detach height) := by
  intro s holds
  unfold detach
  apply keepsAt_get_bind
  extract_lets byHeight
  have visible := detachLoop_visible height byHeight s [] holds
  generalize detachLoop height byHeight (s, []) = walked at visible
  obtain ⟨s', deletedTransactions⟩ := walked
  exact keepsAt_set_bind _ (keepsAt_pure (KeyImagesVisible.withHeight visible _) _)

theorem advanceHeight_keeps (height : UInt32) : Keeps KeyImagesVisible (advanceHeight height) := by
  intro s holds
  unfold advanceHeight
  apply keepsAt_get_bind
  split
  · exact keepsAt_set_bind _ (keepsAt_pure (KeyImagesVisible.withHeight holds height) _)
  · exact keepsAt_pure holds _

/-! ## Runs of the container -/

inductive ContainerOperation
  | addTransaction (block : TransactionBlockInfo) (tx : TransactionReader)
      (transfers : List TransactionOutputInformationIn)
  | markTransactionConfirmed (block : TransactionBlockInfo) (transactionHash : Hash) (globalIndices : List UInt32)
  | deleteUnconfirmedTransaction (transactionHash : Hash)
  | detach (height : UInt32)
  | advanceHeight (height : UInt32)

namespace ContainerOperation

def apply (s : TransfersContainer) : ContainerOperation → TransfersContainer
  | addTransaction block tx transfers => stateOf ((CryptoNote.addTransaction block tx transfers).run s)
  | markTransactionConfirmed block transactionHash globalIndices =>
    stateOf ((CryptoNote.markTransactionConfirmed block transactionHash globalIndices).run s)
  | deleteUnconfirmedTransaction transactionHash =>
    stateOf ((CryptoNote.deleteUnconfirmedTransaction transactionHash).run s)
  | detach height => stateOf ((CryptoNote.detach height).run s)
  | advanceHeight height => stateOf ((CryptoNote.advanceHeight height).run s)

theorem apply_keyImagesVisible {s : TransfersContainer} (holds : s.KeyImagesVisible) :
    ∀ op, (apply s op).KeyImagesVisible
  | addTransaction block tx transfers => addTransaction_keeps block tx transfers s holds
  | markTransactionConfirmed block transactionHash globalIndices =>
    markTransactionConfirmed_keeps block transactionHash globalIndices s holds
  | deleteUnconfirmedTransaction transactionHash => deleteUnconfirmedTransaction_keeps transactionHash s holds
  | detach height => detach_keeps height s holds
  | advanceHeight height => advanceHeight_keeps height s holds

end ContainerOperation

def runOperations (ops : List ContainerOperation) : TransfersContainer :=
  ops.foldl ContainerOperation.apply TransfersContainer.empty

theorem empty_keyImagesVisible : TransfersContainer.empty.KeyImagesVisible := by
  intro keyImage
  simp [TransfersContainer.empty, keyView, VisibleAsSpecified]

theorem foldl_apply_keyImagesVisible (ops : List ContainerOperation) {s : TransfersContainer}
    (holds : s.KeyImagesVisible) : (ops.foldl ContainerOperation.apply s).KeyImagesVisible := by
  induction ops generalizing s with
  | nil => exact holds
  | cons op ops ih => exact ih (ContainerOperation.apply_keyImagesVisible holds op)

theorem runOperations_keyImagesVisible (ops : List ContainerOperation) : (runOperations ops).KeyImagesVisible :=
  foldl_apply_keyImagesVisible ops empty_keyImagesVisible

/-! ## What the wallet counts -/

theorem VisibleAsSpecified.visibleCount_le {spent : List Bool}
    {available unconfirmed : List TransactionOutputInformationEx}
    (specified : VisibleAsSpecified (spent, available, unconfirmed)) :
    available.countP (·.visible) + unconfirmed.countP (·.visible) ≤ 1 := by
  obtain ⟨_, described⟩ := specified
  split at described
  · obtain ⟨_, hidden, hiddenUnconfirmed⟩ := described
    rw [List.countP_eq_zero.mpr (by simpa using hidden), List.countP_eq_zero.mpr (by simpa using hiddenUnconfirmed)]
    omega
  · split at described
    · obtain ⟨one, _, hidden⟩ := described
      rw [one, List.countP_eq_zero.mpr (by simpa using hidden)]
    · next noneAvailable =>
      obtain rfl : available = [] := by simpa using noneAvailable
      rw [List.countP_nil, Nat.zero_add]
      -- the unconfirmed transfers are visible when there is one, and hidden otherwise
      by_cases single : unconfirmed.length = 1
      · exact single ▸ List.countP_le_length
      · rw [List.countP_eq_zero.mpr fun t mem => by simp [described t mem, single]]
        omega

theorem countP_filter_visible_le (keyImage : KeyImage) (q : TransactionOutputInformationEx → Bool)
    (l : List TransactionOutputInformationEx) :
    (l.filter fun t => t.visible ∧ q t).countP (·.getSpentOutputDescriptor = .key keyImage) ≤
      (l.filter (·.getSpentOutputDescriptor = .key keyImage)).countP (·.visible) := by
  rw [List.countP_filter, List.countP_filter]
  apply List.countP_mono_left
  intro t _ chosen
  simp_all

theorem KeyImagesVisible.getOutputs_countP_le {s : TransfersContainer} (holds : s.KeyImagesVisible)
    (settings : TransfersSettings) (currentTime : Nat) (flags : UInt32) (keyImage : KeyImage) :
    (s.getOutputs settings currentTime flags).countP (·.getSpentOutputDescriptor = .key keyImage) ≤ 1 := by
  have visible := (holds keyImage).visibleCount_le
  have available := countP_filter_visible_le keyImage (s.isIncluded settings currentTime · flags) s.availableTransfers
  have unconfirmed := countP_filter_visible_le keyImage (isIncludedType ·.type IncludeStateLocked flags)
    s.unconfirmedTransfers
  unfold getOutputs
  rw [List.countP_append]
  split
  · omega
  · simp only [List.countP_nil]
    omega

namespace TransfersContainer

def visibleTransfers (s : TransfersContainer) : List TransactionOutputInformationEx :=
  s.availableTransfers.filter (·.visible) ++ s.unconfirmedTransfers.filter (·.visible)

theorem isIncludedType_includeAll (type : OutputType) {state : UInt32}
    (named : state = IncludeStateUnlocked ∨ state = IncludeStateLocked ∨ state = IncludeStateSoftLocked) :
    isIncludedType type state IncludeAll = true := by
  rcases named with rfl | rfl | rfl <;> cases type <;> decide

theorem isIncluded_includeAll (s : TransfersContainer) (settings : TransfersSettings) (currentTime : Nat)
    (t : TransactionOutputInformationEx) : s.isIncluded settings currentTime t IncludeAll = true := by
  unfold isIncluded
  split_ifs
  · exact isIncludedType_includeAll _ (.inr (.inl rfl))
  · exact isIncludedType_includeAll _ (.inr (.inr rfl))
  · exact isIncludedType_includeAll _ (.inl rfl)

theorem getOutputs_includeAll (s : TransfersContainer) (settings : TransfersSettings) (currentTime : Nat) :
    s.getOutputs settings currentTime IncludeAll = s.visibleTransfers := by
  have locked : IncludeAll &&& IncludeStateLocked ≠ 0 := by decide
  simp only [getOutputs, visibleTransfers, isIncluded_includeAll, isIncludedType_includeAll _ (.inr (.inl rfl)),
    and_true, Bool.decide_eq_true]
  rw [if_pos locked]

theorem balance_eq_sum (s : TransfersContainer) (settings : TransfersSettings) (currentTime : Nat) (flags : UInt32) :
    s.balance settings currentTime flags = ((s.getOutputs settings currentTime flags).map (·.amount)).sum :=
  List.sum_eq_foldl.symm

end TransfersContainer

theorem transfersVisibility_invariant (ops : List ContainerOperation) (keyImage : KeyImage) :
    VisibleAsSpecified ((runOperations ops).keyView keyImage) ∧
      (∀ settings currentTime flags,
        ((runOperations ops).getOutputs settings currentTime flags).countP
            (·.getSpentOutputDescriptor = .key keyImage) ≤ 1 ∧
          (runOperations ops).balance settings currentTime flags =
            (((runOperations ops).getOutputs settings currentTime flags).map (·.amount)).sum) ∧
      ((runOperations ops).visibleTransfers.filter (·.keyImage? = some keyImage)).length ≤ 1 ∧
      ∀ settings currentTime,
        (runOperations ops).balance settings currentTime IncludeAll =
          ∑ k ∈ ((runOperations ops).visibleTransfers.filterMap (·.keyImage?)).toFinset,
              (((runOperations ops).visibleTransfers.filter (·.keyImage? = some k)).map (·.amount)).sum +
            (((runOperations ops).visibleTransfers.filter (·.keyImage? = none)).map (·.amount)).sum := by
  have holds := runOperations_keyImagesVisible ops
  -- with every flag set, what `getOutputs` returns is every visible transfer, whatever the settings
  have once : ((runOperations ops).visibleTransfers.filter (·.keyImage? = some keyImage)).length ≤ 1 := by
    have counted := KeyImagesVisible.getOutputs_countP_le holds ⟨0, 0, 0, 0⟩ 0 IncludeAll keyImage
    rw [getOutputs_includeAll, List.countP_eq_length_filter] at counted
    simpa only [TransactionOutputInformationIn.getSpentOutputDescriptor_eq_key] using counted
  refine ⟨holds keyImage, fun settings currentTime flags =>
    ⟨KeyImagesVisible.getOutputs_countP_le holds settings currentTime flags keyImage, balance_eq_sum _ _ _ _⟩, once,
    fun settings currentTime => ?_⟩
  rw [balance_eq_sum, getOutputs_includeAll]
  exact ListAlgorithms.sum_map_eq_sum_keys _ _ _

end CryptoNote
