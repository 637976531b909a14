import StakeAccounting.Decimal.Arithmetic
import StakeAccounting.Peg.Case

/-!
# Evaluating an epoch

`Peg.evaluate` puts the three signals into their bands and looks up the case.
The answer is advice, so no signal is rejected: a ratio below zero counts as
zero, and a `Clamping` records that it did. The price deviation is signed and is
taken as it is.

`applyRateChange` then moves the maximum rate by the magnitude of the case. A
decrease never takes it below one percent, and never raises a rate that already
was.
-/

namespace StakeAccounting

/-- **The outcome of an evaluation.** -/
structure CaseOutcome where
  /-- The case of the bands. -/
  caseId : CaseId
  /-- The change of the maximum rate, in whole percent. -/
  magnitude : Int8
  /-- The bands themselves. -/
  state : CaseState
deriving DecidableEq

namespace Peg

/-- The signals that are ratios. -/
inductive RatioSignal where
  /-- Debt over supply. -/
  | debtRatio
  /-- Demand over that of the epoch before. -/
  | demandDelta
deriving DecidableEq

/-- How reports call a signal. -/
def RatioSignal.label : RatioSignal → String
  | debtRatio => "debt_ratio"
  | demandDelta => "demand_delta"

/-- **The record that a negative signal was counted as zero.** -/
structure Clamping where
  /-- Which signal it was. -/
  signal : RatioSignal
  /-- What it was. -/
  value : Decimal
deriving DecidableEq

/-- The wording of the record. -/
def Clamping.message : String := "Clamped negative signal to zero"

/-- A ratio as it counts: zero if it is below zero. -/
def clamped (a : Decimal) : Decimal := if a.isBelowZero then .zero else a

/-- The record of counting a ratio, if it was below zero. -/
def clamping? (signal : RatioSignal) (a : Decimal) : Option Clamping :=
  if a.isBelowZero then some ⟨signal, a⟩ else none

/-- The bands of three signals, taken as they are. -/
def classify (debtRatio priceDeviation demandDelta : Decimal) (bounds : PegBounds) : CaseState where
  debt := .ofRatio debtRatio bounds
  price := .ofDeviation priceDeviation debtRatio bounds
  demand := .ofDelta demandDelta bounds

/-- **Evaluate the signals of an epoch.** -/
def evaluate (debtRatio priceDeviation demandDelta : Decimal) (bounds : PegBounds) :
    CaseOutcome :=
  let state := classify (clamped debtRatio) priceDeviation (clamped demandDelta) bounds
  ⟨state.caseId, state.caseId.magnitude, state⟩

/-- The records an evaluation leaves, the debt ratio first. -/
def clampings (debtRatio demandDelta : Decimal) : List Clamping :=
  (clamping? .debtRatio debtRatio).toList ++ (clamping? .demandDelta demandDelta).toList

/-- The whole number of a magnitude. -/
def ofMagnitude (m : Int8) : Decimal := (Decimal.ofInt? m.toInt).getD .zero

/-- **The maximum rate moved by a magnitude.** -/
def applyRateChange (maxRate : Decimal) (m : Int8) : Decimal :=
  let next := maxRate.addSaturating (ofMagnitude m)
  if m < 0 ∧ next < .one then Decimal.one.min maxRate else next

end Peg

/-- The maximum rate of the next epoch. -/
def CaseOutcome.nextMaxRate (o : CaseOutcome) (maxRate : Decimal) : Decimal :=
  Peg.applyRateChange maxRate o.magnitude

end StakeAccounting
