import StakeAccounting.Peg.Band

/-!
# Cases

The three bands together make a **case**, numbered by the sum of their numbers.
Every case has a **magnitude**, the change of the maximum rate it calls for, in
whole percent. The table has a row for every number of five bits; the numbers no
bands make are there, too, and those with a demand of three carry no change.
-/

namespace StakeAccounting

/-- **The number of a case**: five bits, two for debt, one for price, two for
demand. -/
abbrev CaseId : Type := Fin 32

/-- **The magnitude of every case**, eight to a row of debt: four for a price
below the peg, four for one at or above it. -/
def magnitudes : List Int8 :=
  [ 3, 1, 0, 0, -1, -3, -3, 0,
    3, 1, 0, 0, -1, -3, -3, 0,
    3, 3, 1, 0, 0, -1, -3, 0,
    3, 3, 1, 0, 0, -1, -3, 0 ]

/-- There is a magnitude for every case. -/
theorem length_magnitudes : magnitudes.length = 32 := rfl

namespace CaseId

/-- The case of a number, if there is one. -/
def ofNat? (n : Nat) : Option CaseId := if h : n < 32 then some ⟨n, h⟩ else none

/-- The change of the maximum rate a case calls for. -/
def magnitude (c : CaseId) : Int8 :=
  magnitudes.get ⟨c.val, by rw [length_magnitudes]; exact c.isLt⟩

/-- The text of a case. -/
def toText (c : CaseId) : String := "case " ++ toString c.val

end CaseId

/-- **The bands the three signals fell into.** -/
structure CaseState where
  /-- How much debt there is. -/
  debt : DebtBand
  /-- Where the price is. -/
  price : PriceSign
  /-- Where demand is going. -/
  demand : DemandBand
deriving DecidableEq

namespace CaseState

/-- The sum of the three numbers has five bits. -/
theorem offsets_lt (s : CaseState) :
    s.debt.offset + s.price.offset + s.demand.offset < 32 := by
  rcases s with ⟨d, p, m⟩
  cases d <;> cases p <;> cases m <;> decide

/-- **The case of the bands.** -/
def caseId (s : CaseState) : CaseId :=
  ⟨s.debt.offset + s.price.offset + s.demand.offset, s.offsets_lt⟩

end CaseState

end StakeAccounting
