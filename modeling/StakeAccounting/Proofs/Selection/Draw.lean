import StakeAccounting.Proofs.Ledger.Amount
import StakeAccounting.Proofs.Selection.Split

/-!
# Drawing from lots

A selection draws on lots in order until the request is covered. One step of that is
`draw_cons_eq_ok`, and what is proved about drawing goes by induction on the lots with
this step: each removal takes from one of the first lots, in their order
(`takes_of_draw`); on a grid the removals take the request, exactly (`amount_draw`); and
there is no answer only for the range of decimals (`failsByRange_draw`).

Three numbers are kept on the way: what remains, the removals, and their sums. The sums are
those of the removals, added in order (`totals_of_draw`), so they are exact on a grid, too
(`DeltaTotals.amount_addAll`). The order that lots are arranged in rearranges them and no
more (`SelectionOrder.perm_arrange`).
-/

namespace StakeAccounting

/-- In lists that are related member by member, every member on the right has one on the
left. -/
theorem exists_of_forall₂ {α β : Type} {R : α → β → Prop} {as : List α} {bs : List β} {b : β}
    (h : List.Forall₂ R as bs) (hb : b ∈ bs) : ∃ a ∈ as, R a b := by
  induction h with
  | nil => cases hb
  | @cons x y xs ys hxy _ ih =>
    cases List.mem_cons.mp hb with
    | inl hby => exact ⟨x, List.mem_cons_self .., hby ▸ hxy⟩
    | inr hbs =>
      obtain ⟨a, ha, hab⟩ := ih hbs
      exact ⟨a, List.mem_cons_of_mem x ha, hab⟩

/-- In lists that are related member by member, what is read off the members is the same, if it
is for each two that are related. -/
theorem map_eq_of_forall₂ {α β γ : Type} {R : α → β → Prop} {f : α → γ} {g : β → γ}
    {as : List α} {bs : List β} (h : List.Forall₂ R as bs)
    (heq : ∀ a ∈ as, ∀ b, R a b → g b = f a) : bs.map g = as.map f := by
  induction h with
  | nil => rfl
  | @cons a b as bs hab _ ih =>
    rw [List.map_cons, List.map_cons, heq a List.mem_cons_self b hab,
      ih fun x hx => heq x (List.mem_cons_of_mem a hx)]

namespace Decimal

/-- What is left after taking no more than there is, is not negative. -/
theorem minus_nonneg {a b c : Decimal} (h : a.minus b = .ok c) (hle : b.quanta ≤ a.quanta) :
    0 ≤ c.quanta :=
  nearest?_nonneg (nearest?_of_sub? (minus_eq_ok.mp h))
    (Int.mul_nonneg (by omega) (Int.natCast_nonneg _))

end Decimal

namespace DeltaTotals

/-- **One more change** is added to every sum. -/
theorem add_eq_ok {totals next : DeltaTotals} {d : LotDelta} (h : totals.add d = .ok next) :
    totals.amount.plus d.amount = .ok next.amount ∧
      totals.baseValue.plus d.baseValue = .ok next.baseValue ∧
      totals.yieldRate.plus d.yieldRate = .ok next.yieldRate ∧
      totals.stakeWeight.plus d.stakeWeight = .ok next.stakeWeight := by
  unfold add at h
  obtain ⟨amount, hamount, h⟩ := Outcome.bind_eq_ok.mp h
  obtain ⟨baseValue, hbase, h⟩ := Outcome.bind_eq_ok.mp h
  obtain ⟨yieldRate, hyield, h⟩ := Outcome.bind_eq_ok.mp h
  obtain ⟨stakeWeight, hstake, h⟩ := Outcome.bind_eq_ok.mp h
  cases h
  exact ⟨hamount, hbase, hyield, hstake⟩

/-- **A change that is not added** overflows. -/
theorem failsOnly_add (totals : DeltaTotals) (d : LotDelta) :
    (totals.add d).FailsOnly (· = .overflow) := by
  unfold add
  refine (Outcome.failsOnly_orOverflow _).bind fun amount _ => ?_
  refine (Outcome.failsOnly_orOverflow _).bind fun baseValue _ => ?_
  refine (Outcome.failsOnly_orOverflow _).bind fun yieldRate _ => ?_
  exact (Outcome.failsOnly_orOverflow _).bind fun _ _ => Outcome.failsOnly_ok _

/-- **Changes are added up part by part.** -/
theorem sums_of_addAll {ds : List LotDelta} : ∀ {totals sums : DeltaTotals},
    ds.foldlM add totals = .ok sums →
      (ds.map (·.amount)).foldlM Decimal.plus totals.amount = .ok sums.amount ∧
      (ds.map (·.baseValue)).foldlM Decimal.plus totals.baseValue = .ok sums.baseValue ∧
      (ds.map (·.yieldRate)).foldlM Decimal.plus totals.yieldRate = .ok sums.yieldRate ∧
      (ds.map (·.stakeWeight)).foldlM Decimal.plus totals.stakeWeight = .ok sums.stakeWeight := by
  induction ds with
  | nil =>
    intro totals sums h
    cases h
    exact ⟨rfl, rfl, rfl, rfl⟩
  | cons d ds ih =>
    intro totals sums h
    obtain ⟨next, hnext, h⟩ := Outcome.bind_eq_ok.mp h
    obtain ⟨hamount, hbase, hyield, hstake⟩ := add_eq_ok hnext
    obtain ⟨h₁, h₂, h₃, h₄⟩ := ih h
    exact ⟨Outcome.bind_eq_ok.mpr ⟨_, hamount, h₁⟩, Outcome.bind_eq_ok.mpr ⟨_, hbase, h₂⟩,
      Outcome.bind_eq_ok.mpr ⟨_, hyield, h₃⟩, Outcome.bind_eq_ok.mpr ⟨_, hstake, h₄⟩⟩

/-- **What is taken on a grid is added up exactly**, as nothing is given and there is room for
all. -/
theorem amount_addAll {places : Nat} (hp : places ≤ 28) {ds : List LotDelta} {sums : DeltaTotals}
    (hds : ∀ d ∈ ds, d.amount.OnGrid places ∧ d.amount.quanta ≤ 0)
    (hlow : -Decimal.gridLimit places < (ds.map fun d => d.amount.quanta).sum)
    (h : ds.foldlM add .zero = .ok sums) :
    sums.amount.quanta = (ds.map fun d => d.amount.quanta).sum := by
  have hexact : Decimal.SumsExact (ds.map fun d => d.amount.quanta) := by
    refine Decimal.sumsExact_neg_iff.mp
      (Decimal.sumsExact_of_dvd hp (fun q hq => ?_) (by rw [← List.sum_neg]; omega))
    rw [List.map_map] at hq
    obtain ⟨d, hd, rfl⟩ := List.mem_map.mp hq
    obtain ⟨hgrid, hneg⟩ := hds d hd
    exact ⟨Int.dvd_neg.mpr hgrid, Int.neg_nonneg_of_nonpos hneg⟩
  exact Decimal.quanta_sum_of_exact hexact (sums_of_addAll h).1

end DeltaTotals

namespace SelectionOrder

theorem perm_arrange_highestRatio {ls : List Lot} : ∀ {keyed : List (Decimal × Lot)},
    (ls.mapM fun l => l.ratio >>= fun r => (pure (r, l) : Outcome (Decimal × Lot))) = .ok keyed →
      keyed.map (·.2) = ls := by
  induction ls with
  | nil =>
    intro keyed h
    cases h
    rfl
  | cons l ls ih =>
    intro keyed h
    rw [List.mapM_cons] at h
    obtain ⟨x, hx, h⟩ := Outcome.bind_eq_ok.mp h
    obtain ⟨r, -, hx⟩ := Outcome.bind_eq_ok.mp hx
    obtain ⟨xs, hxs, h⟩ := Outcome.bind_eq_ok.mp h
    cases hx
    cases h
    rw [List.map_cons, ih hxs]

/-- **An order rearranges the lots.** -/
theorem perm_arrange {order : SelectionOrder} {ls ordered : List Lot}
    (h : order.arrange ls = .ok ordered) : ordered.Perm ls := by
  cases order with
  | newestFirst =>
    cases h
    exact perm_arrangeBy Lot.newer ls
  | highestRatioFirst =>
    obtain ⟨keyed, hkeyed, h⟩ := Outcome.bind_eq_ok.mp h
    cases h
    have hperm := (perm_arrangeBy Lot.richer keyed).map (·.2)
    rwa [perm_arrange_highestRatio hkeyed] at hperm

/-- **Arranging** refuses a lot whose ratio is out of range, and fails in no other way. -/
theorem failsOnly_arrange (order : SelectionOrder) (ls : List Lot) :
    (order.arrange ls).FailsOnly (Failure.Refuses .ratioOutOfRange ls) := by
  cases order with
  | newestFirst => exact Outcome.failsOnly_ok _
  | highestRatioFirst =>
    refine Outcome.FailsOnly.bind ?_ fun _ _ => Outcome.failsOnly_ok _
    induction ls with
    | nil => exact Outcome.failsOnly_ok _
    | cons l ls ih =>
      rw [List.mapM_cons]
      have hratio := Outcome.failsOnly_orRefuse (List.mem_cons_self (a := l) (l := ls))
        .ratioOutOfRange (l.baseValue.div? l.rawAmount)
      refine (hratio.bind fun _ _ => Outcome.failsOnly_ok _).bind fun _ _ => ?_
      exact (ih.imp fun _ h => h.mono (List.subset_cons_self l ls)).bind fun _ _ =>
        Outcome.failsOnly_ok _

/-- Lots are arranged, or a ratio is out of range. -/
theorem failsByRange_arrange (order : SelectionOrder) (ls : List Lot) :
    (order.arrange ls).FailsByRange :=
  (failsOnly_arrange order ls).imp fun _ h => by
    obtain ⟨l, -, rfl⟩ := h
    trivial

end SelectionOrder

namespace Selector

variable {s : Selector} {t : Token} {now : Epoch}

/-! ## One lot after the other -/

/-- **One step of drawing**: a lot gives up what it has or what is still needed, and the
rest is drawn from the lots behind it, if there is one. -/
theorem draw_cons_eq_ok {l : Lot} {ls : List Lot} {remaining : Decimal}
    {totals sums : DeltaTotals} {ds : List LotDelta} :
    s.draw t now remaining totals (l :: ls) = .ok (sums, ds) ↔
      ∃ d next left, s.split t now l (l.rawAmount.min remaining) = .ok d ∧
        totals.add d = .ok next ∧ remaining.minus (l.rawAmount.min remaining) = .ok left ∧
        (left.isZero = true ∧ sums = next ∧ ds = [d] ∨
          left.isZero = false ∧
            ∃ others, s.draw t now left next ls = .ok (sums, others) ∧ ds = d :: others) := by
  show (s.split t now l (l.rawAmount.min remaining) >>= fun d => totals.add d >>= fun next =>
    remaining.minus (l.rawAmount.min remaining) >>= fun left =>
      if left.isZero then pure (next, [d])
      else s.draw t now left next ls >>= fun p => pure (p.1, d :: p.2)) = _ ↔ _
  simp only [Outcome.bind_eq_ok]
  constructor
  · rintro ⟨d, hd, next, hnext, left, hleft, h⟩
    refine ⟨d, next, left, hd, hnext, hleft, ?_⟩
    cases hzero : left.isZero with
    | true =>
      rw [hzero, if_pos rfl] at h
      cases h
      exact Or.inl ⟨rfl, rfl, rfl⟩
    | false =>
      rw [hzero, if_neg (by decide)] at h
      obtain ⟨⟨sums', others⟩, hrest, h⟩ := Outcome.bind_eq_ok.mp h
      cases h
      exact Or.inr ⟨rfl, others, hrest, rfl⟩
  · rintro ⟨d, next, left, hd, hnext, hleft, ⟨hzero, rfl, rfl⟩ | ⟨hzero, others, hrest, rfl⟩⟩
    · refine ⟨d, hd, _, hnext, left, hleft, ?_⟩
      rw [hzero, if_pos rfl]
      rfl
    · refine ⟨d, hd, next, hnext, left, hleft, ?_⟩
      rw [hzero, if_neg (by decide), hrest]
      rfl

/-- What is drawn from a lot is positive where the lot has something and something is
needed. -/
theorem zero_lt_min {l : Lot} {remaining : Decimal} (hl : .zero < l.rawAmount)
    (hr : .zero < remaining) : .zero < l.rawAmount.min remaining := by
  rw [Decimal.lt_def, Decimal.quanta_zero] at *
  rw [Decimal.quanta_min]
  omega

theorem min_le_rawAmount (l : Lot) (remaining : Decimal) :
    l.rawAmount.min remaining ≤ l.rawAmount := by
  rw [Decimal.le_def, Decimal.quanta_min]
  omega

/-- **A step takes from its lot**, some of it and no more than it has. -/
theorem takes_of_split {l : Lot} {remaining : Decimal} {d : LotDelta} (hl : .zero < l.rawAmount)
    (hr : .zero < remaining) (h : s.split t now l (l.rawAmount.min remaining) = .ok d) :
    s.Takes t now l d :=
  ⟨_, zero_lt_min hl hr, min_le_rawAmount l remaining, h⟩

/-- **What is still needed after a step** is there: no more is drawn than was needed before. -/
theorem exists_left {l : Lot} {remaining : Decimal} (hl : .zero < l.rawAmount)
    (hr : .zero < remaining) :
    ∃ left, remaining.minus (l.rawAmount.min remaining) = .ok left :=
  Decimal.exists_minus_of_le (Int.le_of_lt (zero_lt_min hl hr))
    (by rw [Decimal.quanta_min]; omega)

/-- What is still needed after a step is positive, or nothing. -/
theorem zero_lt_left {l : Lot} {remaining left : Decimal}
    (h : remaining.minus (l.rawAmount.min remaining) = .ok left) (hleft : left.isZero = false) :
    .zero < left := by
  have hnonneg := Decimal.minus_nonneg h (by rw [Decimal.quanta_min]; omega)
  have hzero : left.quanta ≠ 0 := fun hz => by
    rw [(Decimal.isZero_iff left).mpr hz] at hleft
    cases hleft
  rw [Decimal.lt_def, Decimal.quanta_zero]
  omega

/-- **What is drawn** takes from the first lots, one removal from each and in their
order. -/
theorem takes_of_draw {ls : List Lot} : ∀ {remaining : Decimal} {totals sums : DeltaTotals}
    {ds : List LotDelta}, .zero < remaining → (∀ l ∈ ls, .zero < l.rawAmount) →
      s.draw t now remaining totals ls = .ok (sums, ds) →
        ∃ drawn, drawn <+: ls ∧ List.Forall₂ (s.Takes t now) drawn ds := by
  induction ls with
  | nil =>
    intro remaining totals sums ds _ _ h
    cases h
    exact ⟨[], List.prefix_refl [], List.Forall₂.nil⟩
  | cons l ls ih =>
    intro remaining totals sums ds hr hls h
    obtain ⟨d, next, left, hd, -, hleft, hcases⟩ := draw_cons_eq_ok.mp h
    have htakes := takes_of_split (hls l (List.mem_cons_self ..)) hr hd
    obtain ⟨-, -, rfl⟩ | ⟨hmore, others, hrest, rfl⟩ := hcases
    · exact ⟨[l], by simp, List.Forall₂.cons htakes List.Forall₂.nil⟩
    · obtain ⟨drawn, hfirst, hall⟩ := ih (zero_lt_left hleft hmore)
        (fun x hx => hls x (List.mem_cons_of_mem l hx)) hrest
      exact ⟨l :: drawn, (List.prefix_cons_inj l).mpr hfirst, List.Forall₂.cons htakes hall⟩

/-- Removals have the epochs of the lots they take from. -/
theorem epochs_of_takes {drawn : List Lot} {ds : List LotDelta}
    (h : List.Forall₂ (s.Takes t now) drawn ds) :
    ds.map (·.epoch) = drawn.map (·.epoch) :=
  map_eq_of_forall₂ h fun _ _ _ htake => htake.epoch_eq

/-- **The sums of what is drawn** are those of the removals, added in their order. -/
theorem totals_of_draw {ls : List Lot} : ∀ {remaining : Decimal} {totals sums : DeltaTotals}
    {ds : List LotDelta}, s.draw t now remaining totals ls = .ok (sums, ds) →
      ds.foldlM DeltaTotals.add totals = .ok sums := by
  induction ls with
  | nil =>
    intro remaining totals sums ds h
    cases h
    rfl
  | cons l ls ih =>
    intro remaining totals sums ds h
    obtain ⟨d, next, left, -, hnext, -, hcases⟩ := draw_cons_eq_ok.mp h
    obtain ⟨-, rfl, rfl⟩ | ⟨-, others, hrest, rfl⟩ := hcases
    · exact Outcome.bind_eq_ok.mpr ⟨_, hnext, rfl⟩
    · exact Outcome.bind_eq_ok.mpr ⟨next, hnext, ih hrest⟩

/-- **What is left after a step is exact** on a grid, as it is between zero and what was still
needed. -/
theorem quanta_left {places : Nat} (hp : places ≤ 28) {l : Lot} {remaining left : Decimal}
    (hr : .zero < remaining) (hrgrid : remaining.OnGrid places)
    (hlt : remaining.quanta < Decimal.gridLimit places) (hl : .zero < l.rawAmount)
    (hlgrid : l.rawAmount.OnGrid places)
    (h : remaining.minus (l.rawAmount.min remaining) = .ok left) :
    left.quanta = remaining.quanta - (l.rawAmount.min remaining).quanta ∧
      left.OnGrid places := by
  have hmin := Decimal.quanta_min l.rawAmount remaining
  rw [Decimal.lt_def, Decimal.quanta_zero] at hr hl
  obtain ⟨c, hc, hq, hcgrid⟩ := Decimal.exists_sub?_of_onGrid hp hrgrid (hlgrid.min hrgrid)
    (by omega) (by omega)
  rw [Decimal.minus_eq_ok, hc] at h
  cases h
  exact ⟨hq, hcgrid⟩

/-- **What is drawn is on the grid** of the lots and the request. What is still needed may be
rounded, but not off the grid. -/
theorem onGrid_draw {places : Nat} {ls : List Lot} :
    ∀ {remaining : Decimal} {totals sums : DeltaTotals} {ds : List LotDelta},
      remaining.OnGrid places → (∀ l ∈ ls, l.rawAmount.OnGrid places) →
      s.draw t now remaining totals ls = .ok (sums, ds) → ∀ d ∈ ds, d.amount.OnGrid places := by
  induction ls with
  | nil =>
    intro remaining totals sums ds _ _ h
    cases h
    exact fun d hd => nomatch hd
  | cons l ls ih =>
    intro remaining totals sums ds hrgrid hls h
    obtain ⟨d, next, left, hd, -, hleft, hcases⟩ := draw_cons_eq_ok.mp h
    have hdrawn := (hls l List.mem_cons_self).min hrgrid
    have hdgrid : d.amount.OnGrid places := amount_of_split hd ▸ hdrawn.neg
    obtain ⟨-, -, rfl⟩ | ⟨-, others, hrest, rfl⟩ := hcases
    · exact fun x hx => List.mem_singleton.mp hx ▸ hdgrid
    · have hothers := ih (hrgrid.minus hdrawn hleft)
        (fun x hx => hls x (List.mem_cons_of_mem l hx)) hrest
      intro x hx
      cases List.mem_cons.mp hx with
      | inl hxd => exact hxd ▸ hdgrid
      | inr hxs => exact hothers x hxs

/-- **What is drawn is what was asked for**, on a grid and where the lots suffice. -/
theorem amount_draw {places : Nat} (hp : places ≤ 28) {ls : List Lot} :
    ∀ {remaining : Decimal} {totals sums : DeltaTotals} {ds : List LotDelta},
      .zero < remaining → remaining.OnGrid places →
      remaining.quanta < Decimal.gridLimit places →
      (∀ l ∈ ls, .zero < l.rawAmount ∧ l.rawAmount.OnGrid places) →
      remaining.quanta ≤ (ls.map fun l => l.rawAmount.quanta).sum →
      s.draw t now remaining totals ls = .ok (sums, ds) →
        (ds.map fun d => d.amount.quanta).sum = -remaining.quanta := by
  induction ls with
  | nil =>
    intro remaining totals sums ds hr _ _ _ hle _
    rw [Decimal.lt_def, Decimal.quanta_zero] at hr
    rw [List.map_nil, List.sum_nil] at hle
    omega
  | cons l ls ih =>
    intro remaining totals sums ds hr hrgrid hlt hls hle h
    obtain ⟨d, next, left, hd, -, hleft, hcases⟩ := draw_cons_eq_ok.mp h
    obtain ⟨hl, hlgrid⟩ := hls l List.mem_cons_self
    have hmin := Decimal.quanta_min l.rawAmount remaining
    have hdamount : d.amount.quanta = -(l.rawAmount.min remaining).quanta := by
      rw [amount_of_split hd, Decimal.quanta_neg]
    obtain ⟨hq, hleftgrid⟩ := quanta_left hp hr hrgrid hlt hl hlgrid hleft
    rw [List.map_cons, List.sum_cons] at hle
    obtain ⟨hzero, -, rfl⟩ | ⟨hmore, others, hrest, rfl⟩ := hcases
    · rw [Decimal.isZero_iff] at hzero
      rw [List.map_singleton, List.sum_singleton]
      omega
    · -- more is needed than the lot has, so the lot is drawn whole
      have hdrawn := zero_lt_min hl hr
      have hpos := zero_lt_left hleft hmore
      rw [Decimal.lt_def, Decimal.quanta_zero] at hdrawn hpos
      have hsum := ih (zero_lt_left hleft hmore) hleftgrid (by omega)
        (fun x hx => hls x (List.mem_cons_of_mem l hx)) (by omega) hrest
      rw [List.map_cons, List.sum_cons, hsum]
      omega

/-- **Drawing** overflows, or refuses a lot whose split is out of range. -/
theorem failsOnly_draw {ls : List Lot} : ∀ {remaining : Decimal} {totals : DeltaTotals},
    (s.draw t now remaining totals ls).FailsOnly
      fun failure => failure = .overflow ∨ failure.Refuses .splitOutOfRange ls := by
  induction ls with
  | nil => exact Outcome.failsOnly_ok _
  | cons l ls ih =>
    intro remaining totals
    have hsplit := failsOnly_split s t now (List.mem_cons_self (a := l) (l := ls))
    refine ((hsplit _).imp fun _ => Or.inr).bind fun d _ => ?_
    refine ((DeltaTotals.failsOnly_add totals d).imp fun _ => Or.inl).bind fun next _ => ?_
    refine ((Outcome.failsOnly_orOverflow _).imp fun _ => Or.inl).bind fun left _ => ?_
    split
    · exact Outcome.failsOnly_ok _
    · refine (ih.imp fun _ => ?_).bind fun _ _ => Outcome.failsOnly_ok _
      exact Or.imp_right fun h => h.mono (List.subset_cons_self l ls)

/-- **Drawing fails by range.** -/
theorem failsByRange_draw {ls : List Lot} {remaining : Decimal} {totals : DeltaTotals} :
    (s.draw t now remaining totals ls).FailsByRange :=
  failsOnly_draw.imp fun _ h => by
    obtain rfl | ⟨l, -, rfl⟩ := h
    · trivial
    · trivial

end Selector

end StakeAccounting
