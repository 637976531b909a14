import StakeAccounting.Proofs.Selection.Arrangement
import StakeAccounting.Proofs.Selection.Overflow

/-!
# The range that a selection needs

A selection that passes its checks can still fail for the range of decimals. Whether it does is
decided by the numbers it starts from: the lots, what the token grants, the accrual rate, the
epoch and the request. This module says how, without looking at what becomes of the selection.

A `Calculation` is a sum or a product before it is rounded, and it is out of range by its exact
value. A value that is worked out step by step is `Traced`: it carries the calculations it is
made of, each on the rounded results of those before it. So `Selector.drawTrace` lists all that
is added and multiplied when a request is drawn from lots. A calculation that is out of range
counts as zero in what comes behind it, which does not matter any more: the trace as a whole is
not in range then.

That this is what the range is needed for is proved for one operation after the other
(`Traced.Traces`): it has an answer exactly where its trace is in range, and the answer is the
value of the trace. Quotients and differences are not calculations of a trace. A part of a lot
is divided by the whole and taken from what is still needed, and neither can leave the range
(`Decimal.exists_div?_of_lt`, `Selector.exists_left`).
-/

namespace StakeAccounting

/-! ## Calculations -/

/-- **A calculation**: a sum or a product of two decimals, before it is rounded. -/
inductive Calculation where
  /-- A sum. -/
  | sum (a b : Decimal)
  /-- A product. -/
  | product (a b : Decimal)

namespace Calculation

open Decimal

/-- **Out of range**: the exact value is at least half a unit more than the greatest decimal, or
as much less than the least. A product of quanta counts units of `10^-56`. -/
def OutOfRange : Calculation → Prop
  | sum a b => Beyond (a.quanta + b.quanta)
  | product a b => (2 * mantissaBound - 1) * tens 56 ≤ 2 * (a.quanta * b.quanta).natAbs

instance : DecidablePred OutOfRange
  | sum _ _ => inferInstanceAs (Decidable (Beyond _))
  | product _ _ => inferInstanceAs (Decidable (_ ≤ _))

/-- What decimals make of a calculation. -/
def round? : Calculation → Option Decimal
  | sum a b => a.add? b
  | product a b => a.mul? b

/-- **The result of a calculation**, zero where it is out of range. -/
def result (c : Calculation) : Decimal := c.round?.getD .zero

/-- **A calculation has no decimal** where its exact value is out of range. -/
theorem round?_eq_none_iff (c : Calculation) : c.round? = none ↔ c.OutOfRange := by
  cases c with
  | sum a b =>
    rw [round?, ← Option.map_eq_none_iff (f := quanta), map_quanta_add?]
    exact nearest?_eq_none_iff _
  | product a b =>
    have ht := tens_pos 28
    rw [round?, ← Option.map_eq_none_iff (f := quanta), map_quanta_mul?, nearest?_eq_nearestRatio?,
      Option.map_eq_none_iff, ← nearestRatio?_mul_mul ht,
      nearestRatio?_tens_eq_none_iff (Nat.mul_pos ht ht), ← tens_add]
    rfl

/-- **A calculation in range** has its result. -/
theorem round?_eq_some_iff {c : Calculation} {x : Decimal} :
    c.round? = some x ↔ ¬ c.OutOfRange ∧ x = c.result := by
  rw [← round?_eq_none_iff, result]
  cases c.round? with
  | none => exact iff_of_false nofun fun h => h.1 rfl
  | some y => exact ⟨fun h => ⟨nofun, (Option.some.inj h).symm⟩, fun h => congrArg some h.2.symm⟩

end Calculation

/-! ## Traces -/

/-- **A traced value**: a value with the calculations it is made of. -/
structure Traced (α : Type) where
  /-- The value. -/
  value : α
  /-- The calculations, in the order they are made. -/
  calculations : List Calculation

namespace Traced

instance : Monad Traced where
  pure a := ⟨a, []⟩
  bind x f := ⟨(f x.value).value, x.calculations ++ (f x.value).calculations⟩

/-- The result of a calculation that is made. -/
def calculate (c : Calculation) : Traced Decimal := ⟨c.result, [c]⟩

variable {α β : Type}

/-- **A trace in range**: no calculation of it is out of range. -/
def InRange (x : Traced α) : Prop := ∀ c ∈ x.calculations, ¬ c.OutOfRange

instance (x : Traced α) : Decidable x.InRange :=
  inferInstanceAs (Decidable (∀ c ∈ x.calculations, ¬ c.OutOfRange))

theorem inRange_pure (a : α) : (pure a : Traced α).InRange := nofun

theorem inRange_bind {x : Traced α} {f : α → Traced β} :
    (x >>= f).InRange ↔ x.InRange ∧ (f x.value).InRange := List.forall_mem_append

theorem inRange_calculate {c : Calculation} : (calculate c).InRange ↔ ¬ c.OutOfRange :=
  List.forall_mem_singleton

/-- **A trace of an operation**: the operation has an answer exactly where the trace is in range,
and the answer is the value of the trace. -/
def Traces (x : Traced α) (o : Outcome α) : Prop := ∀ a, o = .ok a ↔ x.InRange ∧ a = x.value

theorem traces_pure (a : α) : (pure a : Traced α).Traces (pure a) := fun b => by
  rw [and_iff_right (inRange_pure a)]
  exact ⟨fun h => (Except.ok.inj h).symm, fun h => congrArg Except.ok h.symm⟩

/-- A guarded calculation is made where it is in range. -/
theorem traces_orRefuse (cause : Refusal) (c : Calculation) :
    (calculate c).Traces (Outcome.orRefuse cause c.round?) := fun x => by
  rw [Outcome.orRefuse_eq_ok, Calculation.round?_eq_some_iff, inRange_calculate]
  rfl

/-- An unguarded calculation is made where it is in range. -/
theorem traces_orOverflow (c : Calculation) :
    (calculate c).Traces (Outcome.orOverflow c.round?) := fun x => by
  rw [Outcome.orOverflow_eq_ok, Calculation.round?_eq_some_iff, inRange_calculate]
  rfl

/-- **Operations in a row** have their traces in a row. -/
theorem Traces.bind {x : Traced α} {o : Outcome α} {f : α → Traced β} {g : α → Outcome β}
    (hx : x.Traces o) (hf : (f x.value).Traces (g x.value)) : (x >>= f).Traces (o >>= g) :=
  fun b => by
    rw [Outcome.bind_eq_ok, inRange_bind, and_assoc]
    constructor
    · rintro ⟨a, ha, hb⟩
      obtain ⟨hrange, rfl⟩ := (hx a).mp ha
      exact ⟨hrange, (hf b).mp hb⟩
    · rintro ⟨hrange, hb⟩
      exact ⟨x.value, (hx _).mpr ⟨hrange, rfl⟩, (hf b).mpr hb⟩

/-- An operation has an answer where its trace is in range. -/
theorem Traces.exists_ok_iff {x : Traced α} {o : Outcome α} (h : x.Traces o) :
    (∃ a, o = .ok a) ↔ x.InRange :=
  ⟨fun ⟨a, ha⟩ => ((h a).mp ha).1, fun hrange => ⟨x.value, (h _).mpr ⟨hrange, rfl⟩⟩⟩

end Traced

open Traced Calculation

/-! ## The traces of a selection -/

/-- The four sums with one more change. -/
def DeltaTotals.addTrace (totals : DeltaTotals) (d : LotDelta) : Traced DeltaTotals := do
  let amount ← calculate (sum totals.amount d.amount)
  let baseValue ← calculate (sum totals.baseValue d.baseValue)
  let yieldRate ← calculate (sum totals.yieldRate d.yieldRate)
  let stakeWeight ← calculate (sum totals.stakeWeight d.stakeWeight)
  pure ⟨amount, baseValue, yieldRate, stakeWeight⟩

/-- **One more change** is added where the four sums are in range. -/
theorem DeltaTotals.traces_add (totals : DeltaTotals) (d : LotDelta) :
    (totals.addTrace d).Traces (totals.add d) := by
  refine (traces_orOverflow (sum _ _)).bind ?_
  refine (traces_orOverflow (sum _ _)).bind ?_
  refine (traces_orOverflow (sum _ _)).bind ?_
  exact (traces_orOverflow (sum _ _)).bind (traces_pure _)

namespace Selector

/-- **The share of a lot** that goes with part of its amount: three products, unless the part is
the whole. -/
def shareTrace (t : Token) (l : Lot) (part : Decimal) : Traced (Decimal × Decimal × Decimal) :=
  if part.Same l.rawAmount then pure (l.baseValue, l.yieldRate, l.stakeWeight)
  else do
    let fraction := (part.div? l.rawAmount).getD .zero
    let baseValue ← calculate (product fraction l.baseValue)
    let yieldRate ← calculate (product fraction l.yieldRate)
    let stakeWeight ← calculate (product t.stakePerBase baseValue)
    pure (baseValue, yieldRate, stakeWeight)

/-- **The removal of part of a lot**: what accrued on the yield rate is two products, and is added
to the stake weight. -/
def splitTrace (s : Selector) (t : Token) (now : Epoch) (l : Lot) (part : Decimal) :
    Traced LotDelta := do
  let (baseValue, yieldRate, baseStakeWeight) ← shareTrace t l part
  let grown ← calculate (product yieldRate (.ofUInt32 (now.elapsedSince l.epoch)))
  let accrued ← calculate (product grown s.accrualRate)
  let stakeWeight ← calculate (sum baseStakeWeight accrued)
  pure ⟨l.epoch, -part, -baseValue, -yieldRate, -baseStakeWeight, -accrued, -stakeWeight⟩

/-- **What is drawn from lots in order**, until nothing more is needed. -/
def drawTrace (s : Selector) (t : Token) (now : Epoch) :
    Decimal → DeltaTotals → List Lot → Traced (DeltaTotals × List LotDelta)
  | _, totals, [] => pure (totals, [])
  | remaining, totals, l :: ls => do
    let part := l.rawAmount.min remaining
    let d ← s.splitTrace t now l part
    let totals ← totals.addTrace d
    let left := (remaining.sub? part).getD .zero
    if left.isZero then pure (totals, [d])
    else do
      let (totals, ds) ← s.drawTrace t now left totals ls
      pure (totals, d :: ds)

variable {s : Selector} {t : Token} {now : Epoch} {l : Lot} {part : Decimal}

/-- **The share of a lot** has an answer where its products are in range. The fraction that the
part is of the whole is always there. -/
theorem traces_shareOf (hpos : .zero < part) (hle : part ≤ l.rawAmount) :
    (shareTrace t l part).Traces (shareOf t l part) := by
  unfold shareTrace shareOf
  split
  · exact traces_pure _
  · rename_i hpart
    obtain ⟨fraction, hfraction, -⟩ :=
      Decimal.exists_div?_of_lt hpos (Decimal.lt_of_le_of_not_same hle hpart)
    rw [hfraction]
    refine (traces_orRefuse _ (product _ _)).bind ?_
    refine (traces_orRefuse _ (product _ _)).bind ?_
    exact (traces_orRefuse _ (product _ _)).bind (traces_pure _)

/-- **A split** has an answer where its sums and products are in range. -/
theorem traces_split (hpos : .zero < part) (hle : part ≤ l.rawAmount) :
    (s.splitTrace t now l part).Traces (s.split t now l part) := by
  refine (traces_shareOf hpos hle).bind ?_
  refine (traces_orRefuse _ (product _ _)).bind ?_
  refine (traces_orRefuse _ (product _ _)).bind ?_
  exact (traces_orRefuse _ (sum _ _)).bind (traces_pure _)

/-- **Drawing** has an answer where all sums and products on the way are in range. The induction
is on the lots, and what is still needed stays positive along it. -/
theorem traces_draw {ls : List Lot} : ∀ {remaining : Decimal} {totals : DeltaTotals},
    .zero < remaining → (∀ l ∈ ls, .zero < l.rawAmount) →
      (s.drawTrace t now remaining totals ls).Traces (s.draw t now remaining totals ls) := by
  induction ls with
  | nil => exact fun _ _ => traces_pure _
  | cons l ls ih =>
    intro remaining totals hr hls
    have hl := hls l List.mem_cons_self
    obtain ⟨left, hleft⟩ := exists_left hl hr
    unfold drawTrace draw
    refine (traces_split (zero_lt_min hl hr) (min_le_rawAmount l remaining)).bind ?_
    refine (DeltaTotals.traces_add totals _).bind ?_
    rw [hleft, Decimal.minus_eq_ok.mp hleft]
    show Traced.Traces (if left.isZero then _ else _) (if left.isZero then _ else _)
    cases hzero : left.isZero with
    | true => exact traces_pure _
    | false =>
      refine (ih (zero_lt_left hleft hzero) fun x hx => ?_).bind (traces_pure _)
      exact hls x (List.mem_cons_of_mem l hx)

end Selector

/-! ## Newest first -/

/-- **Newest first, the lots of a ledger** come in reverse. -/
theorem Ledger.Sorted.arrange_newestFirst {g : Ledger} (hg : g.Sorted) :
    SelectionOrder.newestFirst.arrange g.lots = .ok g.lots.reverse := by
  obtain ⟨ordered, hordered⟩ : ∃ ordered, SelectionOrder.newestFirst.arrange g.lots = .ok ordered :=
    ⟨_, rfl⟩
  have hperm := (SelectionOrder.perm_arrange hordered).trans g.lots.reverse_perm.symm
  have hpairs : ordered.Pairwise fun a b => b.epoch < a.epoch :=
    SelectionOrder.pairwise_arrange hg.nodup_epochs hordered
  have hreverse : g.lots.reverse.Pairwise fun a b => b.epoch < a.epoch :=
    List.pairwise_reverse.mpr hg
  rw [hordered, hperm.eq_of_pairwise (fun a b _ _ hab hba => ?_) hpairs hreverse]
  rw [Epoch.lt_def] at hab hba
  omega

namespace Ledger

variable {s : Selector} {t : Token} {now : Epoch} {id : TokenId} {requested : Decimal}
  {places : Nat} {g : Ledger}

/-- **Where a withdrawal has a selection**: from a well-formed ledger on a grid that has what is
asked for, with no lot ahead, it is there exactly where no sum or product that is formed when the
lots are drawn, newest first, is out of range. -/
theorem WellFormed.exists_select_iff (hg : g.WellFormed) (hp : places ≤ 28)
    (hgrid : g.OnGrid places) (hlt : g.amount < Decimal.gridLimit places)
    (hnow : ∀ l ∈ g.lots, ¬ now < l.epoch) (hpos : .zero < requested)
    (hle : requested.quanta ≤ g.amount) (ht : s.table.get id = .ok t) :
    (∃ sel, s.select .newestFirst id requested g.lots now = .ok sel) ↔
      (s.drawTrace t now requested .zero g.lots.reverse).InRange := by
  have hls : Selector.Snapshot now g.lots := ⟨hg.valid, hnow, hg.sorted.nodup_epochs⟩
  obtain ⟨available, havailable, hq⟩ := Selector.exists_availableAmount hp hls.valid hgrid hlt
  have hsuffices : ¬ available < requested := by
    rw [Decimal.lt_def, hq]
    exact Int.not_lt.mpr hle
  have hdraw : (s.drawTrace t now requested .zero g.lots.reverse).Traces
      (s.draw t now requested .zero g.lots.reverse) :=
    Selector.traces_draw hpos fun l hl => hls.amount_pos l (List.mem_reverse.mp hl)
  rw [Selector.select_of_snapshot hpos ht hls havailable, if_neg hsuffices,
    hg.sorted.arrange_newestFirst, ← hdraw.exists_ok_iff]
  constructor
  · rintro ⟨sel, hsel⟩
    obtain ⟨ordered, hordered, hsel⟩ := Outcome.bind_eq_ok.mp hsel
    cases hordered
    obtain ⟨drawn, hdrawn, -⟩ := Outcome.bind_eq_ok.mp hsel
    exact ⟨drawn, hdrawn⟩
  · rintro ⟨drawn, hdrawn⟩
    exact ⟨_, Outcome.bind_eq_ok.mpr ⟨_, rfl, Outcome.bind_eq_ok.mpr ⟨drawn, hdrawn, rfl⟩⟩⟩

/-- Of two lots of the greatest base value one can be drawn. Drawn together, their base values add
up to more than there is. -/
example :
    let s : Selector := ⟨.standard, Selector.standardAccrualRate⟩
    let t : Token := ⟨TokenTable.beanPoolId, "BEAN3CRV", .one, .ofUInt32 4, 18, .pooled⟩
    let newest : List Lot :=
      [⟨⟨2⟩, .one, .greatest, .one, .one⟩, ⟨⟨1⟩, .one, .greatest, .one, .one⟩]
    (s.drawTrace t ⟨2⟩ .one .zero newest).InRange ∧
      ¬ (s.drawTrace t ⟨2⟩ (.ofUInt32 2) .zero newest).InRange := by
  decide +kernel

end Ledger

end StakeAccounting
