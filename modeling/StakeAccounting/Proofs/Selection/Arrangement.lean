import Mathlib.Data.List.Sort
import StakeAccounting.Proofs.Selection.Select

/-!
# The order lots are visited in

Arranging lots is sorting them by insertion (`arrangeBy_eq_insertionSort`), so in the
arrangement no lot comes behind one that it should come before (`pairwise_arrangeBy`). Of
two lots of different epochs one always comes before the other, in either order: that is
`SelectionOrder.Precedes`, and the lots of a snapshot are arranged by it strictly
(`SelectionOrder.pairwise_arrange`).

A selection draws on the first lots of the arrangement, so its removals tell more than the
lots they name: a lot that is visited precedes the lots that are visited after it, and all
those that are not visited (`Selector.precedes_of_select`).
-/

namespace StakeAccounting

/-! ## Sorting -/

section Sorting

variable {α : Type}

theorem insertBehind_eq_orderedInsert (before : α → α → Bool) (a : α) (as : List α) :
    insertBehind before a as = as.orderedInsert (fun x y => before y x = false) a := by
  induction as with
  | nil => rfl
  | cons b bs ih =>
    rw [insertBehind, List.orderedInsert_cons, ih]
    cases before b a with
    | true => rw [if_pos rfl, if_neg (by decide)]
    | false => rw [if_neg (by decide), if_pos rfl]

/-- **Arranging is insertion sort**, by the order in which the second does not come before
the first. -/
theorem arrangeBy_eq_insertionSort (before : α → α → Bool) (as : List α) :
    arrangeBy before as = as.insertionSort fun x y => before y x = false := by
  induction as with
  | nil => rfl
  | cons a as ih =>
    rw [List.insertionSort_cons, ← ih, ← insertBehind_eq_orderedInsert]
    rfl

/-- **No element is behind one that it comes before**, if what comes before is a strict weak
order. -/
theorem pairwise_arrangeBy {before : α → α → Bool}
    (htotal : ∀ a b, before b a = false ∨ before a b = false)
    (htrans : ∀ a b c, before b a = false → before c b = false → before c a = false)
    (as : List α) : (arrangeBy before as).Pairwise fun a b => before b a = false := by
  have total : Std.Total fun a b => before b a = false := ⟨htotal⟩
  have trans : IsTrans α fun a b => before b a = false := ⟨htrans⟩
  rw [arrangeBy_eq_insertionSort]
  exact List.pairwise_insertionSort _ as

end Sorting

/-! ## Which lot comes first -/

/-- **A lot precedes another** in an order: it is newer, or its ratio is higher, or it is
newer and the ratios are equal. -/
def SelectionOrder.Precedes (a b : Lot) : SelectionOrder → Prop
  | .newestFirst => b.epoch < a.epoch
  | .highestRatioFirst => ∃ ra rb, a.ratio = .ok ra ∧ b.ratio = .ok rb ∧
      (rb < ra ∨ rb.Same ra ∧ b.epoch < a.epoch)

namespace Lot

theorem newer_eq_false {a b : Lot} : newer b a = false ↔ ¬ a.epoch < b.epoch :=
  decide_eq_false_iff_not

theorem richer_eq_false {a b : Decimal × Lot} :
    richer b a = false ↔ ¬ a.1 < b.1 ∧ ¬ (a.1.Same b.1 ∧ a.2.epoch < b.2.epoch) := by
  simp only [richer, newer, Bool.or_eq_false_iff, Bool.and_eq_false_iff, decide_eq_false_iff_not,
    not_and_or]

end Lot

namespace SelectionOrder

/-- The newest lot is first. -/
theorem pairwise_newer (ls : List Lot) :
    (arrangeBy Lot.newer ls).Pairwise fun a b => ¬ a.epoch < b.epoch := by
  refine (pairwise_arrangeBy (fun a b => ?_) (fun a b c => ?_) ls).imp Lot.newer_eq_false.mp
  · simp only [Lot.newer_eq_false, Epoch.lt_def]
    omega
  · simp only [Lot.newer_eq_false, Epoch.lt_def]
    omega

/-- The highest ratio is first, and the newest of equal ratios. -/
theorem pairwise_richer (keyed : List (Decimal × Lot)) :
    (arrangeBy Lot.richer keyed).Pairwise fun a b =>
      ¬ a.1 < b.1 ∧ ¬ (a.1.Same b.1 ∧ a.2.epoch < b.2.epoch) := by
  refine (pairwise_arrangeBy (fun a b => ?_) (fun a b c => ?_) keyed).imp Lot.richer_eq_false.mp
  · simp only [Lot.richer_eq_false, Decimal.lt_def, Decimal.same_def, Epoch.lt_def]
    omega
  · simp only [Lot.richer_eq_false, Decimal.lt_def, Decimal.same_def, Epoch.lt_def]
    omega

/-- Every lot is keyed by its ratio. -/
theorem ratio_of_keyed {ls : List Lot} : ∀ {keyed : List (Decimal × Lot)},
    (ls.mapM fun l => l.ratio >>= fun r => (pure (r, l) : Outcome (Decimal × Lot))) = .ok keyed →
      ∀ p ∈ keyed, p.2.ratio = .ok p.1 := by
  induction ls with
  | nil =>
    intro keyed h
    cases h
    exact fun p hp => nomatch hp
  | cons l ls ih =>
    intro keyed h
    rw [List.mapM_cons] at h
    obtain ⟨x, hx, h⟩ := Outcome.bind_eq_ok.mp h
    obtain ⟨r, hr, hx⟩ := Outcome.bind_eq_ok.mp hx
    obtain ⟨xs, hxs, h⟩ := Outcome.bind_eq_ok.mp h
    cases hx
    cases h
    intro p hp
    cases List.mem_cons.mp hp with
    | inl hpx => exact hpx ▸ hr
    | inr hps => exact ih hxs p hps

/-- **Lots of different epochs are arranged strictly**: each precedes all behind it. -/
theorem pairwise_arrange {order : SelectionOrder} {ls ordered : List Lot}
    (hnodup : (ls.map (·.epoch)).Nodup) (h : order.arrange ls = .ok ordered) :
    ordered.Pairwise fun a b => order.Precedes a b := by
  have hepochs : ordered.Pairwise fun a b => a.epoch ≠ b.epoch := by
    have hmap := ((perm_arrange h).map (·.epoch)).nodup_iff.mpr hnodup
    rwa [List.Nodup, List.pairwise_map] at hmap
  cases order with
  | newestFirst =>
    cases h
    exact (hepochs.and (pairwise_newer ls)).imp fun hab =>
      Epoch.lt_of_not_lt_of_ne hab.2 hab.1
  | highestRatioFirst =>
    obtain ⟨keyed, hkeyed, h⟩ := Outcome.bind_eq_ok.mp h
    cases h
    rw [List.pairwise_map] at hepochs ⊢
    refine ((hepochs.and (pairwise_richer keyed)).imp_of_mem ?_)
    rintro a b ha hb ⟨hne, hratio, htie⟩
    have hkey := fun p hp =>
      ratio_of_keyed hkeyed p ((perm_arrangeBy Lot.richer keyed).mem_iff.mp hp)
    refine ⟨a.1, b.1, hkey a ha, hkey b hb, ?_⟩
    rw [Decimal.lt_def, Decimal.same_def] at *
    by_cases hsame : a.1.quanta = b.1.quanta
    · exact Or.inr ⟨hsame.symm, Epoch.lt_of_not_lt_of_ne (fun hlt => htie ⟨hsame, hlt⟩) hne⟩
    · exact Or.inl (by omega)

end SelectionOrder

/-! ## What is visited before what -/

/-- **A lot is visited before another**: both are visited, in this order, or it is visited
and the other is not. -/
def Selection.VisitsBefore (sel : Selection) (a b : Lot) : Prop :=
  [a.epoch, b.epoch].Sublist sel.epochs ∨ a.epoch ∈ sel.epochs ∧ b.epoch ∉ sel.epochs

namespace Selector

variable {s : Selector} {now : Epoch} {order : SelectionOrder} {id : TokenId}
  {requested : Decimal} {ls : List Lot} {sel : Selection}

/-- **A selection visits the first lots** of an arrangement by its order. -/
theorem exists_visited (h : s.select order id requested ls now = .ok sel) :
    ∃ ordered drawn, ordered.Perm ls ∧ (ordered.map (·.epoch)).Nodup ∧
      (ordered.Pairwise fun a b => order.Precedes a b) ∧ drawn <+: ordered ∧
      sel.epochs = drawn.map (·.epoch) := by
  obtain ⟨hpos, t, -, ordered, -, hls, -, -, hordered, hdraw⟩ := select_eq_ok h
  have hperm := SelectionOrder.perm_arrange hordered
  have harranged : Snapshot now ordered := hls.perm hperm.symm
  obtain ⟨drawn, hfirst, htakes⟩ := takes_of_draw hpos harranged.amount_pos hdraw
  exact ⟨ordered, drawn, hperm, harranged.nodup,
    SelectionOrder.pairwise_arrange hls.nodup hordered, hfirst, epochs_of_takes htakes⟩

/-- **A lot that is visited before another precedes it.** -/
theorem precedes_of_select (h : s.select order id requested ls now = .ok sel) {a b : Lot}
    (ha : a ∈ ls) (hb : b ∈ ls) (hvisits : sel.VisitsBefore a b) : order.Precedes a b := by
  obtain ⟨ordered, drawn, hperm, hnodup, hpairs, hfirst, hepochs⟩ := exists_visited h
  have heq : ∀ {x y : Lot}, x ∈ ordered → y ∈ ordered → x.epoch = y.epoch → x = y :=
    fun hx hy => List.inj_on_of_nodup_map hnodup hx hy
  rw [← hperm.mem_iff] at ha hb
  unfold Selection.VisitsBefore at hvisits
  rw [hepochs] at hvisits
  obtain hboth | ⟨hin, hout⟩ := hvisits
  · obtain ⟨pair, hpair, hmap⟩ := List.sublist_map_iff.mp hboth
    obtain ⟨x, y, rfl⟩ : ∃ x y, pair = [x, y] := List.length_eq_two.mp
      (by rw [← List.length_map (·.epoch), ← hmap]; rfl)
    obtain ⟨hx, hy⟩ : a.epoch = x.epoch ∧ b.epoch = y.epoch := by simpa using hmap
    have hordered := hpair.trans hfirst.sublist
    rw [heq ha (hordered.subset (by simp)) hx, heq hb (hordered.subset (by simp)) hy]
    have hxy := hpairs.sublist hordered
    rwa [List.pairwise_pair] at hxy
  · obtain ⟨rest, rfl⟩ := hfirst
    obtain ⟨x, hx, hxa⟩ := List.mem_map.mp hin
    rw [← heq (List.mem_append_left rest hx) ha hxa]
    refine (List.pairwise_append.mp hpairs).2.2 x hx b ?_
    refine (List.mem_append.mp hb).resolve_left fun hbd => hout (List.mem_map.mpr ⟨b, hbd, rfl⟩)

end Selector

end StakeAccounting
