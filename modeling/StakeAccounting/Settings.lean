import StakeAccounting.Auction.Curve
import StakeAccounting.Peg.Band
import StakeAccounting.Selection

/-!
# Settings

The protocol has few **settings**: the accrual rate of deposits, the tokens that
can be deposited, the rounding of the rate curve, and the bounds of the peg bands.
Each has a default, the value the protocol uses.

`Settings.check` looks at them in a fixed order – accrual rate, rate curve,
bounds, tokens – and refuses the first that makes no sense. A value that may not
be negative is refused for its minus sign, even on a zero.
-/

namespace StakeAccounting

/-- **The settings of the protocol.** -/
structure Settings where
  /-- The stake weight that accrues per epoch on a unit of yield rate. -/
  accrualRate : Decimal
  /-- The tokens that can be deposited. -/
  tokens : List Token
  /-- How rates are rounded. -/
  curve : RateCurve
  /-- Where the bands of the signals begin. -/
  bounds : PegBounds
deriving DecidableEq

namespace Settings

/-- The settings the protocol uses. -/
def standard : Settings where
  accrualRate := Selector.standardAccrualRate
  tokens := TokenTable.standardEntries
  curve := .standard
  bounds := .standard

instance : Inhabited Settings := ⟨standard⟩

/-- What is wrong with a rate curve, if anything is. -/
def curveFault? (c : RateCurve) : Option SettingsFault :=
  if Decimal.maxPlaces < c.rateDecimals then some .tooManyRatePlaces
  else if c.minRate.negative then some .negativeMinRate
  else none

/-- What is wrong with the bounds of the bands, if anything is. -/
def boundsFault? (b : PegBounds) : Option SettingsFault :=
  if ¬(b.debtRatioLower ≤ b.debtRatioOptimal ∧ b.debtRatioOptimal ≤ b.debtRatioUpper) then
    some .debtBoundsOutOfOrder
  else if b.demandUpper < b.demandLower then some .demandBoundsOutOfOrder
  else if b.debtRatioLower.negative || b.demandLower.negative then some .negativeBounds
  else none

/-- **The table of the tokens**, if they make one. -/
def tokenTable (s : Settings) : Outcome TokenTable := TokenTable.ofList s.tokens

/-- What is wrong with the settings apart from the tokens, if anything is. -/
def fault? (s : Settings) : Option SettingsFault :=
  if s.accrualRate.negative then some .negativeAccrualRate
  else curveFault? s.curve <|> boundsFault? s.bounds

/-- **Whether the settings make sense.** -/
def check (s : Settings) : Outcome Unit :=
  match s.fault? with
  | some fault => Outcome.refuseSettings fault
  | none => do
    let _ ← s.tokenTable
    pure ()

/-- The selector the settings ask for, with a table. -/
def selector (s : Settings) (table : TokenTable) : Selector := ⟨table, s.accrualRate⟩

end Settings

end StakeAccounting
