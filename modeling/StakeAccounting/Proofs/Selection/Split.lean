import StakeAccounting.Proofs.Decimal.Quotient
import StakeAccounting.Proofs.Ledger.Within
import StakeAccounting.Proofs.Outcome
import StakeAccounting.Selection

/-!
# Splitting a lot

`Selector.split` answers with the removal of part of a lot's amount. What it is made
of is said once, with every intermediate value (`split_eq_ok`, `shareOf_cases`). The
rest follows from how fractions are rounded: a fraction of a lot is neither negative
nor greater than one (`exists_div?_of_lt`), so the share of the base value and of the
yield rate that goes with it is within what the lot has, and the removal is within its
lot (`Takes.within`). The stake weight is granted anew and not taken as a share, so it
is the one part that is not.

A split has no answer only where a value of it is out of range, and then it refuses its lot
(`failsOnly_split`). In which ways an operation fails, if it does, is said by
`Outcome.FailsOnly`, which is kept when operations follow each other. Failures for the range of
decimals, of a lot or not, are `Failure.OutOfRange`; an operation that fails in no other way is
said to fail by range (`Outcome.FailsByRange`).
-/

namespace StakeAccounting

/-- **A failure for the range of decimals**: an unguarded value is out of range, or a
guarded one is and the lot is refused for it. -/
def Failure.OutOfRange : Failure → Prop
  | .overflow => True
  | .refused (.malformedLot _ .totalOutOfRange) => True
  | .refused (.malformedLot _ .splitOutOfRange) => True
  | .refused (.malformedLot _ .ratioOutOfRange) => True
  | .refused _ => False

/-- **A failure that refuses a lot** of a list, for a certain fault. -/
def Failure.Refuses (fault : LotFault) (ls : List Lot) (failure : Failure) : Prop :=
  ∃ l ∈ ls, failure = .refused (.malformedLot l.epoch fault)

/-- A lot of a list is one of a longer list. -/
theorem Failure.Refuses.mono {fault : LotFault} {ls xs : List Lot} {failure : Failure}
    (h : failure.Refuses fault ls) (hsub : ls ⊆ xs) : failure.Refuses fault xs := by
  obtain ⟨l, hl, hfailure⟩ := h
  exact ⟨l, hsub hl, hfailure⟩

namespace Outcome

/-- **An operation that fails by range** alone, if at all. -/
def FailsByRange {α : Type} (x : Outcome α) : Prop := x.FailsOnly Failure.OutOfRange

variable {α : Type}

/-- A guarded value that is not there refuses its lot. -/
theorem failsOnly_orRefuse {ls : List Lot} {l : Lot} (hl : l ∈ ls) (fault : LotFault)
    (o : Option α) :
    (orRefuse (.malformedLot l.epoch fault) o).FailsOnly (Failure.Refuses fault ls) :=
  fun _ h => ⟨l, hl, refused_of_orRefuse h⟩

end Outcome

namespace Decimal

/-- What is at most a number and not of its value is less. -/
theorem lt_of_le_of_not_same {a b : Decimal} (hle : a ≤ b) (hne : ¬ a.Same b) : a < b :=
  Int.lt_iff_le_and_ne.mpr ⟨hle, hne⟩

/-- A fraction of a number is there, and within the number. -/
theorem exists_mul?_of_le_one {a b : Decimal} (ha : zero ≤ a) (h1 : a ≤ one)
    (hb : 0 ≤ b.quanta) : ∃ c, mul? a b = some c ∧ 0 ≤ c.quanta ∧ c.quanta ≤ b.quanta := by
  rw [le_def, quanta_zero] at ha
  rw [le_def, quanta_one] at h1
  obtain ⟨q, hq, h0, hle⟩ := nearest?_of_le (n := a.quanta * b.quanta) (b := b)
    (Int.mul_nonneg ha hb) (by rw [Int.mul_comm]; exact Int.mul_le_mul_of_nonneg_left h1 hb)
  obtain ⟨c, hc, rfl⟩ := exists_mul? hq
  exact ⟨c, hc, h0, hle⟩

end Decimal

namespace Selector

/-! ## What a split is made of -/

theorem inSplit_eq_ok {l : Lot} {o : Option Decimal} {c : Decimal} :
    inSplit l o = .ok c ↔ o = some c := Outcome.orRefuse_eq_ok

/-- **The share of a lot** is all of what it stores, or the share that goes with a
fraction. -/
theorem shareOf_cases {t : Token} {l : Lot} {consumed baseValue yieldRate stakeWeight : Decimal}
    (h : shareOf t l consumed = .ok (baseValue, yieldRate, stakeWeight)) :
    (consumed.Same l.rawAmount ∧ baseValue = l.baseValue ∧ yieldRate = l.yieldRate ∧
        stakeWeight = l.stakeWeight) ∨
      ¬ consumed.Same l.rawAmount ∧ ∃ fraction, consumed.div? l.rawAmount = some fraction ∧
        fraction.mul? l.baseValue = some baseValue ∧ fraction.mul? l.yieldRate = some yieldRate ∧
        t.stakePerBase.mul? baseValue = some stakeWeight := by
  unfold shareOf at h
  split at h
  · rename_i hsame
    cases h
    exact Or.inl ⟨hsame, rfl, rfl, rfl⟩
  · rename_i hpart
    obtain ⟨fraction, hfraction, h⟩ := Outcome.bind_eq_ok.mp h
    obtain ⟨b, hb, h⟩ := Outcome.bind_eq_ok.mp h
    obtain ⟨y, hy, h⟩ := Outcome.bind_eq_ok.mp h
    obtain ⟨w, hw, h⟩ := Outcome.bind_eq_ok.mp h
    cases h
    exact Or.inr ⟨hpart, fraction, inSplit_eq_ok.mp hfraction, inSplit_eq_ok.mp hb,
      inSplit_eq_ok.mp hy, inSplit_eq_ok.mp hw⟩

/-- **A split** takes the share of the lot, and the stake weight that accrued on its
yield rate. -/
theorem split_eq_ok {s : Selector} {t : Token} {now : Epoch} {l : Lot} {consumed : Decimal}
    {d : LotDelta} (h : s.split t now l consumed = .ok d) :
    ∃ baseValue yieldRate base grown accrued stakeWeight,
      shareOf t l consumed = .ok (baseValue, yieldRate, base) ∧
      yieldRate.mul? (.ofUInt32 (now.elapsedSince l.epoch)) = some grown ∧
      grown.mul? s.accrualRate = some accrued ∧ base.add? accrued = some stakeWeight ∧
      d = ⟨l.epoch, -consumed, -baseValue, -yieldRate, -base, -accrued, -stakeWeight⟩ := by
  unfold split at h
  obtain ⟨⟨baseValue, yieldRate, base⟩, hshare, h⟩ := Outcome.bind_eq_ok.mp h
  obtain ⟨grown, hgrown, h⟩ := Outcome.bind_eq_ok.mp h
  obtain ⟨accrued, haccrued, h⟩ := Outcome.bind_eq_ok.mp h
  obtain ⟨stakeWeight, hweight, h⟩ := Outcome.bind_eq_ok.mp h
  cases h
  exact ⟨baseValue, yieldRate, base, grown, accrued, stakeWeight, hshare,
    inSplit_eq_ok.mp hgrown, inSplit_eq_ok.mp haccrued, inSplit_eq_ok.mp hweight, rfl⟩

/-- **A split** refuses its lot where a value of it is out of range, and fails in no other
way. -/
theorem failsOnly_split (s : Selector) (t : Token) (now : Epoch) {ls : List Lot} {l : Lot}
    (hl : l ∈ ls) (consumed : Decimal) :
    (s.split t now l consumed).FailsOnly (Failure.Refuses .splitOutOfRange ls) := by
  have hinSplit : ∀ o, (inSplit l o).FailsOnly (Failure.Refuses .splitOutOfRange ls) :=
    Outcome.failsOnly_orRefuse hl .splitOutOfRange
  have hshare : (shareOf t l consumed).FailsOnly (Failure.Refuses .splitOutOfRange ls) := by
    unfold shareOf
    split
    · exact Outcome.failsOnly_ok _
    · refine (hinSplit _).bind fun fraction _ => ?_
      refine (hinSplit _).bind fun baseValue _ => ?_
      refine (hinSplit _).bind fun yieldRate _ => ?_
      exact (hinSplit _).bind fun _ _ => Outcome.failsOnly_ok _
  unfold split
  refine hshare.bind fun share _ => ?_
  refine (hinSplit _).bind fun grown _ => ?_
  refine (hinSplit _).bind fun accrued _ => ?_
  exact (hinSplit _).bind fun _ _ => Outcome.failsOnly_ok _

/-! ## A split is within its lot -/

/-- **A removal takes part of a lot**, or all of it: it is the split of a positive
amount that the lot has. -/
def Takes (s : Selector) (t : Token) (now : Epoch) (l : Lot) (d : LotDelta) : Prop :=
  ∃ consumed, .zero < consumed ∧ consumed ≤ l.rawAmount ∧ s.split t now l consumed = .ok d

variable {s : Selector} {t : Token} {now : Epoch} {l : Lot} {d : LotDelta}

/-- A split takes what is consumed. -/
theorem amount_of_split {consumed : Decimal} (h : s.split t now l consumed = .ok d) :
    d.amount = -consumed := by
  obtain ⟨baseValue, yieldRate, base, grown, accrued, stakeWeight, -, -, -, -, rfl⟩ :=
    split_eq_ok h
  rfl

theorem Takes.epoch_eq (h : s.Takes t now l d) : d.epoch = l.epoch := by
  obtain ⟨consumed, -, -, h⟩ := h
  obtain ⟨baseValue, yieldRate, base, grown, accrued, stakeWeight, -, -, -, -, rfl⟩ :=
    split_eq_ok h
  rfl

/-- **The share of a valid lot** that goes with a positive part of its amount is within
what the lot has of base value and yield rate. -/
theorem shareOf_within {consumed baseValue yieldRate stakeWeight : Decimal} (hl : l.Valid)
    (hpos : .zero < consumed) (hle : consumed ≤ l.rawAmount)
    (h : shareOf t l consumed = .ok (baseValue, yieldRate, stakeWeight)) :
    0 ≤ baseValue.quanta ∧ baseValue.quanta ≤ l.baseValue.quanta ∧ 0 ≤ yieldRate.quanta ∧
      yieldRate.quanta ≤ l.yieldRate.quanta := by
  obtain ⟨-, hbase, -, hyield⟩ := l.valid_iff.mp hl
  obtain ⟨-, rfl, rfl, -⟩ | ⟨hpart, fraction, hfraction, hb, hy, -⟩ := shareOf_cases h
  · exact ⟨hbase, Int.le_refl _, hyield, Int.le_refl _⟩
  · -- a proper part is a fraction of at most one, and so are its shares
    obtain ⟨c, hc, h0, h1⟩ :=
      Decimal.exists_div?_of_lt hpos (Decimal.lt_of_le_of_not_same hle hpart)
    rw [hfraction] at hc
    cases hc
    obtain ⟨b, hb', hb0, hb1⟩ := Decimal.exists_mul?_of_le_one h0 h1 hbase
    obtain ⟨y, hy', hy0, hy1⟩ := Decimal.exists_mul?_of_le_one h0 h1 hyield
    rw [hb] at hb'
    rw [hy] at hy'
    cases hb'
    cases hy'
    exact ⟨hb0, hb1, hy0, hy1⟩

/-- **What takes from a valid lot is within the lot.** -/
theorem Takes.within (h : s.Takes t now l d) (hl : l.Valid) : d.Within l := by
  obtain ⟨consumed, hpos, hle, h⟩ := h
  obtain ⟨baseValue, yieldRate, base, grown, accrued, stakeWeight, hshare, -, -, -, rfl⟩ :=
    split_eq_ok h
  obtain ⟨hb0, hb1, hy0, hy1⟩ := shareOf_within hl hpos hle hshare
  rw [Decimal.lt_def, Decimal.quanta_zero] at hpos
  rw [Decimal.le_def] at hle
  refine ⟨rfl, ?_, ?_, ?_, ?_, fun hwhole => ?_⟩
  · show (-consumed).quanta < 0
    rw [Decimal.quanta_neg]
    omega
  · show 0 ≤ l.rawAmount.quanta + (-consumed).quanta
    rw [Decimal.quanta_neg]
    omega
  · show 0 ≤ l.baseValue.quanta + (-baseValue).quanta
    rw [Decimal.quanta_neg]
    omega
  · show 0 ≤ l.yieldRate.quanta + (-yieldRate).quanta
    rw [Decimal.quanta_neg]
    omega
  · change l.rawAmount.quanta + (-consumed).quanta = 0 at hwhole
    show 0 ≤ l.stakeWeight.quanta + (-base).quanta
    rw [Decimal.quanta_neg] at hwhole ⊢
    obtain ⟨-, -, -, rfl⟩ | ⟨hpart, -⟩ := shareOf_cases hshare
    · omega
    · rw [Decimal.same_def] at hpart
      omega

/-- **What takes more stake weight than its lot stores** takes a proper part of the lot, and
the stake weight that the token grants for the base value of the part. -/
theorem Takes.of_overdrawn (h : s.Takes t now l d) (hover : l.stakeWeight < -d.baseStakeWeight) :
    -d.amount < l.rawAmount ∧
      t.stakePerBase.mul? (-d.baseValue) = some (-d.baseStakeWeight) := by
  obtain ⟨consumed, -, hle, h⟩ := h
  obtain ⟨baseValue, yieldRate, base, grown, accrued, stakeWeight, hshare, -, -, -, rfl⟩ :=
    split_eq_ok h
  simp only [Decimal.neg_neg] at hover ⊢
  obtain ⟨-, -, -, rfl⟩ | ⟨hpart, fraction, -, -, -, hw⟩ := shareOf_cases hshare
  · exact absurd hover (Int.lt_irrefl _)
  · exact ⟨Decimal.lt_of_le_of_not_same hle hpart, hw⟩

/-- **What takes from a valid lot is a removal**, if nothing is granted or accrues below
zero. -/
theorem Takes.isRemoval (h : s.Takes t now l d) (hl : l.Valid)
    (hstake : 0 ≤ t.stakePerBase.quanta) (hrate : .zero ≤ s.accrualRate) :
    d.isRemoval = true := by
  obtain ⟨consumed, hpos, hle, h⟩ := h
  obtain ⟨baseValue, yieldRate, base, grown, accrued, stakeWeight, hshare, hgrown, haccrued, -,
    rfl⟩ := split_eq_ok h
  obtain ⟨hb0, -, hy0, -⟩ := shareOf_within hl hpos hle hshare
  have hbase : 0 ≤ base.quanta := by
    obtain ⟨-, -, -, rfl⟩ | ⟨-, fraction, -, -, -, hw⟩ := shareOf_cases hshare
    · exact (l.valid_iff.mp hl).2.2.1
    · exact Decimal.mul?_nonneg hw hstake hb0
  have helapsed : 0 ≤ (Decimal.ofUInt32 (now.elapsedSince l.epoch)).quanta :=
    Decimal.quanta_nonneg rfl
  have hacc : 0 ≤ accrued.quanta :=
    Decimal.mul?_nonneg haccrued (Decimal.mul?_nonneg hgrown hy0 helapsed) hrate
  rw [Decimal.lt_def, Decimal.quanta_zero] at hpos
  unfold LotDelta.isRemoval
  simp only [Bool.and_eq_true, Decimal.takesAway_iff, Decimal.le_def, Decimal.quanta_neg,
    Decimal.quanta_zero]
  omega

end Selector

end StakeAccounting
