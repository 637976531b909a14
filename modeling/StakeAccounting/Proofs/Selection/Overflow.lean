import StakeAccounting.Proofs.Selection.Select

/-!
# Where selecting overflows

A selection guards its arithmetic: where the total of the lots, a share or a ratio is out of
range, a lot is refused for it. What is subtracted from the request is no more than the
request, so that cannot go wrong (`exists_left`). Only the sums of the removals are
added up unguarded, four of them, and lots that are fine one by one may be too much together:
nothing bounds the sum of their base values.

So `select_overflow_iff` has two halves. Where a selection is refused, it is for the request,
the token, a lot of the snapshot, or the balance. And it overflows exactly where all checks
are passed and a removal that is drawn overfills the sums of those drawn before it. To say so
without the sums, `drawn` lists the removals alone, and `draw_eq_overflow_iff` adds them up
afterwards. What it takes to leave the range is a matter of the exact sum
(`bind_plus_eq_error_iff`).
-/

namespace StakeAccounting

/-! ## Out of range -/

namespace Decimal

/-- **Out of range**: so many quanta are at least half a unit more than the greatest decimal, or
as much less than the least. The greatest mantissa is odd, so a half is too much already. -/
def Beyond (n : Int) : Prop := (2 * mantissaBound - 1) * tens 28 ≤ 2 * n.natAbs

instance (n : Int) : Decidable (Beyond n) := inferInstanceAs (Decidable (_ ≤ _))

/-- **A whole number of quanta has no nearest decimal** where it is out of range. -/
theorem nearest?_eq_none_iff (n : Int) : nearest? (n * tens 28) = none ↔ Beyond n := by
  rw [nearest?_eq_nearestRatio?, Option.map_eq_none_iff, Int.natAbs_mul, Int.natAbs_natCast]
  exact nearestRatio?_tens_eq_none_iff (tens_pos 28)

/-- **An unguarded sum and what comes behind it** fail where the exact sum is out of range, or
where what comes behind does, if that does not depend on the sum. -/
theorem bind_plus_eq_error_iff {α : Type} {a b : Decimal} {f : Decimal → Outcome α}
    {failure : Failure} {P : Prop} (hf : ∀ c, f c = .error failure ↔ failure = .overflow ∧ P) :
    (a.plus b >>= f) = .error failure ↔
      failure = .overflow ∧ (Beyond (a.quanta + b.quanta) ∨ P) := by
  rw [← nearest?_eq_none_iff, ← map_quanta_add?, Option.map_eq_none_iff, plus]
  cases add? a b with
  | none =>
    constructor
    · exact fun h => ⟨(Except.error.inj h).symm, Or.inl rfl⟩
    · rintro ⟨rfl, -⟩
      rfl
  | some c =>
    rw [or_iff_right (Option.some_ne_none c)]
    exact hf c

end Decimal

namespace DeltaTotals

/-- **A change overfills the sums**: with it, one of them is out of range. -/
def Overfills (totals : DeltaTotals) (d : LotDelta) : Prop :=
  Decimal.Beyond (totals.amount.quanta + d.amount.quanta) ∨
    Decimal.Beyond (totals.baseValue.quanta + d.baseValue.quanta) ∨
    Decimal.Beyond (totals.yieldRate.quanta + d.yieldRate.quanta) ∨
    Decimal.Beyond (totals.stakeWeight.quanta + d.stakeWeight.quanta)

/-- **A change is added to the sums** unless it overfills them. -/
theorem add_eq_error_iff {totals : DeltaTotals} {d : LotDelta} {failure : Failure} :
    totals.add d = .error failure ↔ failure = .overflow ∧ totals.Overfills d := by
  unfold Overfills
  rw [← or_false (Decimal.Beyond (totals.stakeWeight.quanta + _))]
  refine Decimal.bind_plus_eq_error_iff fun _ => Decimal.bind_plus_eq_error_iff fun _ =>
    Decimal.bind_plus_eq_error_iff fun _ => Decimal.bind_plus_eq_error_iff fun _ => ?_
  exact iff_of_false nofun And.right

end DeltaTotals

/-! ## Folds that fail -/

/-- **A fold fails** where it goes through up to some member, and fails on that. The induction is
on the list. -/
theorem Outcome.foldlM_eq_error_iff {α β : Type} {f : β → α → Outcome β} {failure : Failure}
    {as : List α} : ∀ {b : β}, as.foldlM f b = .error failure ↔
      ∃ before a c, before ++ [a] <+: as ∧ before.foldlM f b = .ok c ∧
        f c a = .error failure := by
  induction as with
  | nil =>
    intro b
    refine iff_of_false nofun ?_
    rintro ⟨before, a, c, hprefix, -⟩
    simp at hprefix
  | cons x xs ih =>
    intro b
    rw [List.foldlM_cons, bind_eq_error]
    constructor
    · rintro (h | ⟨next, hnext, h⟩)
      · exact ⟨[], x, b, by simp, rfl, h⟩
      · obtain ⟨before, a, c, hprefix, hbefore, h⟩ := ih.mp h
        exact ⟨x :: before, a, c, (List.prefix_cons_inj x).mpr hprefix,
          bind_eq_ok.mpr ⟨next, hnext, hbefore⟩, h⟩
    · rintro ⟨_ | ⟨y, before⟩, a, c, hprefix, hbefore, h⟩
      · obtain ⟨rfl, -⟩ := List.cons_prefix_cons.mp hprefix
        cases hbefore
        exact Or.inl h
      · rw [List.cons_append, List.cons_prefix_cons] at hprefix
        obtain ⟨rfl, hprefix⟩ := hprefix
        obtain ⟨next, hnext, hbefore⟩ := bind_eq_ok.mp hbefore
        exact Or.inr ⟨next, hnext, ih.mpr ⟨before, a, c, hprefix, hbefore, h⟩⟩

/-! ## Guarded steps -/

/-- **A failure that blames a lot** of a list: the lot is refused. -/
def Failure.BlamesLot (ls : List Lot) (failure : Failure) : Prop :=
  ∃ l ∈ ls, ∃ fault, failure = .refused (.malformedLot l.epoch fault)

theorem Failure.BlamesLot.mono {ls xs : List Lot} {failure : Failure} (h : failure.BlamesLot ls)
    (hsub : ls ⊆ xs) : failure.BlamesLot xs := by
  obtain ⟨l, hl, hfault⟩ := h
  exact ⟨l, hsub hl, hfault⟩

/-- No lot is blamed for an overflow. -/
theorem Failure.not_blamesLot_overflow (ls : List Lot) : ¬ Failure.overflow.BlamesLot ls := by
  rintro ⟨l, -, fault, h⟩
  cases h

/-- A lot that is refused for a certain fault is blamed. -/
theorem Failure.Refuses.blamesLot {fault : LotFault} {ls : List Lot} {failure : Failure}
    (h : failure.Refuses fault ls) : failure.BlamesLot ls := by
  obtain ⟨l, hl, hfailure⟩ := h
  exact ⟨l, hl, fault, hfailure⟩

/-- The check of a lot blames the lot. -/
theorem Lot.blamesLot_check {ls : List Lot} {l : Lot} (hl : l ∈ ls) :
    l.check.FailsOnly (Failure.BlamesLot ls) := by
  intro failure h
  unfold check at h
  split at h
  · exact ⟨l, hl, _, (Except.error.inj h).symm⟩
  · split at h
    · exact ⟨l, hl, _, (Except.error.inj h).symm⟩
    · cases h

namespace Selector

variable {s : Selector} {t : Token} {now : Epoch}

/-- **The check of a snapshot** blames one of its lots. -/
theorem blamesLot_checkSnapshot {ls : List Lot} : ∀ {seen : List Epoch},
    (checkSnapshot now seen ls).FailsOnly (Failure.BlamesLot ls) := by
  induction ls with
  | nil => exact Outcome.failsOnly_ok _
  | cons l ls ih =>
    intro seen
    refine (Lot.blamesLot_check List.mem_cons_self).bind fun _ _ => ?_
    have hself : ∀ fault, Failure.BlamesLot (l :: ls) (.refused (.malformedLot l.epoch fault)) :=
      fun fault => ⟨l, List.mem_cons_self, fault, rfl⟩
    split
    · exact fun failure h => Except.error.inj h ▸ hself _
    · split
      · exact fun failure h => Except.error.inj h ▸ hself _
      · exact ih.imp fun _ h => h.mono (List.subset_cons_self l ls)

/-- **The total of lots** blames the one it leaves the range at. -/
theorem blamesLot_availableAmount (ls : List Lot) :
    (availableAmount ls).FailsOnly (Failure.BlamesLot ls) := by
  intro failure h
  obtain ⟨before, l, sum, hprefix, -, h⟩ := Outcome.foldlM_eq_error_iff.mp h
  have hl : l ∈ ls := hprefix.subset (by simp)
  exact (Outcome.failsOnly_orRefuse hl _ _ failure h).blamesLot

/-! ## Drawing without the sums -/

/-- **The removals that are drawn**, whatever they add up to: up to the one that covers the
request, or to the last that can be split. -/
def drawn (s : Selector) (t : Token) (now : Epoch) : Decimal → List Lot → List LotDelta
  | _, [] => []
  | remaining, l :: ls =>
    let consumed := l.rawAmount.min remaining
    match s.split t now l consumed, remaining.minus consumed with
    | .ok d, .ok left => d :: if left.isZero then [] else s.drawn t now left ls
    | _, _ => []

/-- **Drawing overflows** where the removals that are drawn cannot be added up. The induction is
on the lots; of the three steps that are made for each, only the sums are unguarded, as no more
is subtracted from what is needed than that. -/
theorem draw_eq_overflow_iff {ls : List Lot} : ∀ {remaining : Decimal} {totals : DeltaTotals},
    .zero < remaining → (∀ l ∈ ls, .zero < l.rawAmount) →
      (s.draw t now remaining totals ls = .error .overflow ↔
        (s.drawn t now remaining ls).foldlM DeltaTotals.add totals = .error .overflow) := by
  induction ls with
  | nil => exact fun _ _ => iff_of_false nofun nofun
  | cons l ls ih =>
    intro remaining totals hr hls
    obtain ⟨left, hleft⟩ := exists_left (hls l List.mem_cons_self) hr
    unfold draw drawn
    dsimp only
    rw [hleft]
    cases hsplit : s.split t now l (l.rawAmount.min remaining) with
    | error failure =>
      refine iff_of_false (fun h => ?_) nofun
      obtain rfl := Except.error.inj h
      have hrefuses := failsOnly_split s t now (List.mem_singleton_self l) _ _ hsplit
      exact Failure.not_blamesLot_overflow [l] hrefuses.blamesLot
    | ok d =>
      show (totals.add d >>= fun next => if left.isZero then pure (next, [d]) else
        s.draw t now left next ls >>= fun p => pure (p.1, d :: p.2)) = _ ↔
        (totals.add d >>= fun next => List.foldlM DeltaTotals.add next _) = _
      rw [Outcome.bind_eq_error, Outcome.bind_eq_error]
      refine or_congr_right (exists_congr fun next => and_congr_right fun _ => ?_)
      cases hzero : left.isZero with
      | true => exact iff_of_false nofun nofun
      | false =>
        rw [if_neg (by decide), if_neg (by decide), Outcome.bind_eq_error,
          or_iff_left fun ⟨_, _, hpure⟩ => nomatch hpure]
        exact ih (zero_lt_left hleft hzero) fun x hx => hls x (List.mem_cons_of_mem l hx)

/-! ## Selections -/

variable {order : SelectionOrder} {id : TokenId} {requested : Decimal} {ls : List Lot}
  {failure : Failure}

/-- **A selection that fails** is refused for a check, or all checks are passed and the drawing
fails. -/
theorem select_eq_error (h : s.select order id requested ls now = .error failure) :
    failure = .refused (.invalidAmount requested) ∨ failure = .refused (.unknownToken id) ∨
      failure.BlamesLot ls ∨
      (∃ available, failure = .refused (.insufficientBalance requested available)) ∨
      .zero < requested ∧ ∃ t available ordered, s.table.get id = .ok t ∧ Snapshot now ls ∧
        availableAmount ls = .ok available ∧ requested ≤ available ∧
        order.arrange ls = .ok ordered ∧
        s.draw t now requested .zero ordered = .error failure := by
  unfold select at h
  split at h
  · exact Or.inl (Except.error.inj h).symm
  · rename_i hpos
    obtain h | ⟨t, ht, h⟩ := Outcome.bind_eq_error.mp h
    · exact Or.inr (Or.inl (Outcome.refused_of_orRefuse h))
    obtain h | ⟨⟨⟩, hsnapshot, h⟩ := Outcome.bind_eq_error.mp h
    · exact Or.inr (Or.inr (Or.inl (blamesLot_checkSnapshot failure h)))
    obtain h | ⟨available, havailable, h⟩ := Outcome.bind_eq_error.mp h
    · exact Or.inr (Or.inr (Or.inl (blamesLot_availableAmount ls failure h)))
    split at h
    · exact Or.inr (Or.inr (Or.inr (Or.inl ⟨available, (Except.error.inj h).symm⟩)))
    · rename_i hsuffices
      obtain h | ⟨ordered, hordered, h⟩ := Outcome.bind_eq_error.mp h
      · exact Or.inr (Or.inr (Or.inl (order.failsOnly_arrange ls failure h).blamesLot))
      obtain h | ⟨⟨sums, ds⟩, -, h⟩ := Outcome.bind_eq_error.mp h
      · rw [Decimal.le_def] at hpos
        rw [Decimal.lt_def] at hsuffices
        exact Or.inr (Or.inr (Or.inr (Or.inr ⟨Int.not_le.mp hpos, t, available, ordered, ht,
          checkSnapshot_iff.mp hsnapshot, havailable, Int.not_lt.mp hsuffices, hordered, h⟩)))
      · cases h

/-- **Where a selection overflows.** A selection is refused for nothing but the request, the
token, one of the lots, or the balance. Where it is not refused and makes no answer, it
overflows, and that is so exactly where all checks are passed, and of the removals that are
drawn one overfills the sums of those before it: the amounts, the base values, the yield rates
or the stake weights add up to more than a decimal holds. -/
theorem select_overflow_iff (s : Selector) (order : SelectionOrder) (id : TokenId)
    (requested : Decimal) (ls : List Lot) (now : Epoch) :
    (∀ cause, s.select order id requested ls now = .error (.refused cause) →
      cause = .invalidAmount requested ∨ cause = .unknownToken id ∨
        (∃ l ∈ ls, ∃ fault, cause = .malformedLot l.epoch fault) ∨
        ∃ available, cause = .insufficientBalance requested available) ∧
    (s.select order id requested ls now = .error .overflow ↔
      .zero < requested ∧ ∃ t available ordered, s.table.get id = .ok t ∧ Snapshot now ls ∧
        availableAmount ls = .ok available ∧ requested ≤ available ∧
        order.arrange ls = .ok ordered ∧
        ∃ before d sums, before ++ [d] <+: s.drawn t now requested ordered ∧
          before.foldlM DeltaTotals.add .zero = .ok sums ∧ sums.Overfills d) := by
  have hlots : ∀ {ordered : List Lot}, Snapshot now ls → order.arrange ls = .ok ordered →
      ∀ l ∈ ordered, .zero < l.rawAmount := fun hls hordered l hl =>
    (hls.valid l ((SelectionOrder.perm_arrange hordered).mem_iff.mp hl)).1
  constructor
  · intro cause h
    obtain hcause | hcause | ⟨l, hl, fault, hcause⟩ | ⟨available, hcause⟩ |
      ⟨-, t, available, ordered, -, -, -, -, hordered, hdraw⟩ := select_eq_error h
    · exact Or.inl (Failure.refused.inj hcause)
    · exact Or.inr (Or.inl (Failure.refused.inj hcause))
    · exact Or.inr (Or.inr (Or.inl ⟨l, hl, fault, Failure.refused.inj hcause⟩))
    · exact Or.inr (Or.inr (Or.inr ⟨available, Failure.refused.inj hcause⟩))
    · obtain hover | hrefuses := failsOnly_draw _ hdraw
      · cases hover
      · obtain ⟨l, hl, hcause⟩ := hrefuses.mono (SelectionOrder.perm_arrange hordered).subset
        exact Or.inr (Or.inr (Or.inl ⟨l, hl, _, Failure.refused.inj hcause⟩))
  · constructor
    · intro h
      obtain hcause | hcause | hblame | ⟨available, hcause⟩ |
        ⟨hpos, t, available, ordered, ht, hls, havailable, hle, hordered, hdraw⟩ :=
          select_eq_error h
      · cases hcause
      · cases hcause
      · exact absurd hblame (Failure.not_blamesLot_overflow ls)
      · cases hcause
      · obtain ⟨before, d, sums, hprefix, hbefore, hadd⟩ := Outcome.foldlM_eq_error_iff.mp
          ((draw_eq_overflow_iff hpos (hlots hls hordered)).mp hdraw)
        exact ⟨hpos, t, available, ordered, ht, hls, havailable, hle, hordered, before, d, sums,
          hprefix, hbefore, (DeltaTotals.add_eq_error_iff.mp hadd).2⟩
    · rintro ⟨hpos, t, available, ordered, ht, hls, havailable, hle, hordered, before, d, sums,
        hprefix, hbefore, hover⟩
      have hdraw : s.draw t now requested .zero ordered = .error .overflow :=
        (draw_eq_overflow_iff hpos (hlots hls hordered)).mpr (Outcome.foldlM_eq_error_iff.mpr
          ⟨before, d, sums, hprefix, hbefore, DeltaTotals.add_eq_error_iff.mpr ⟨rfl, hover⟩⟩)
      have hsuffices : ¬ available < requested := Int.not_lt.mpr hle
      rw [select_of_snapshot hpos ht hls havailable, if_neg hsuffices, hordered]
      show (s.draw t now requested .zero ordered >>= fun _ => _) = _
      rw [hdraw]
      rfl

/-- Two valid lots of one token each, with as much base value as there can be, are in range one
by one. Asked for both tokens, the selection overflows where the base values are added up,
though no check is failed. -/
theorem base_values_overflow :
    let lot : Epoch → Lot := fun e => ⟨e, .one, .greatest, .one, .one⟩
    let s : Selector := ⟨.standard, standardAccrualRate⟩
    Snapshot ⟨2⟩ [lot ⟨1⟩, lot ⟨2⟩] ∧
      s.select .newestFirst TokenTable.beanId (.ofUInt32 2) [lot ⟨1⟩, lot ⟨2⟩] ⟨2⟩ =
        .error .overflow := by
  intro lot s
  exact ⟨⟨by decide +kernel, by decide +kernel, by decide +kernel⟩, by decide +kernel⟩

end Selector

end StakeAccounting
