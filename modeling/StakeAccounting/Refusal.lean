import StakeAccounting.Clock
import StakeAccounting.Decimal.Text
import StakeAccounting.TokenId

/-!
# Refusals

An operation that does not do what it is asked says why. A **refusal** is such
a reason: an amount that is not positive, a token nobody knows, a lot that is
malformed, a balance or a capacity that does not suffice, settings that make no
sense. Every refusal is raised before anything is changed.

Each reason is a constructor with the values it is about. The wording is one
function of it (`Refusal.message`), and so are the stable number that reports
carry (`Refusal.code`) and whether trying again with fresh data may help
(`Refusal.recoverable`).
-/

namespace StakeAccounting

/-- The parts of a lot that must not be negative. -/
inductive Share where
  /-- The economic size of the deposit. -/
  | baseValue
  /-- The weight granted for the deposit. -/
  | stakeWeight
  /-- The yield granted for the deposit. -/
  | yieldRate
deriving DecidableEq

/-- How reports call a part of a lot. -/
def Share.label : Share → String
  | baseValue => "base value"
  | stakeWeight => "stake-weight"
  | yieldRate => "yield rate"

/-- **What is wrong with a lot**, or with a change to one. -/
inductive LotFault where
  /-- The lot's amount is zero or negative. -/
  | amountNotPositive (amount : Decimal)
  /-- A part of the lot is negative. -/
  | negativeShare (share : Share) (value : Decimal)
  /-- A removal would add to some part. -/
  | notARemoval
  /-- No lot has the epoch of the removal. -/
  | noLot
  /-- A removal takes more than the amount there is. -/
  | amountOverdrawn (rest : Decimal)
  /-- A removal takes more of a part than there is. -/
  | shareOverdrawn (share : Share) (rest : Decimal)
  /-- The amounts up to this lot have no decimal sum. -/
  | totalOutOfRange
  /-- The share of a removal has no decimal value. -/
  | splitOutOfRange
  /-- The base value per amount has no decimal value. -/
  | ratioOutOfRange
  /-- The lot's epoch lies ahead. -/
  | notYetCreated (now : Epoch)
  /-- An earlier lot has the same epoch. -/
  | repeatedEpoch
deriving DecidableEq

/-- The wording of a fault. -/
def LotFault.reason : LotFault → String
  | amountNotPositive amount => "amount " ++ amount.toText ++ " is not positive"
  | negativeShare share value => share.label ++ " " ++ value.toText ++ " is negative"
  | notARemoval => "delta has a positive component"
  | noLot => "no lot at this epoch"
  | amountOverdrawn rest => "amount would go negative (" ++ rest.toText ++ ")"
  | shareOverdrawn share rest => share.label ++ " would go negative (" ++ rest.toText ++ ")"
  | totalOutOfRange => "amount total out of range"
  | splitOutOfRange => "split out of range"
  | ratioOutOfRange => "base value ratio out of range"
  | notYetCreated now => "created after current " ++ now.toText
  | repeatedEpoch => "duplicate epoch in snapshot"

/-- **What is wrong with settings.** -/
inductive SettingsFault where
  /-- The symbol of a token is blank. -/
  | blankSymbol (token : TokenId)
  /-- A multiplier of a token carries a minus sign. -/
  | negativeMultiplier (symbol : String)
  /-- A token declares more decimal places than a decimal has. -/
  | tooManyDecimals (symbol : String) (decimals : UInt32)
  /-- Two tokens have one name. -/
  | duplicateToken (token : TokenId)
  /-- There are no tokens. -/
  | noTokens
  /-- The accrual rate carries a minus sign. -/
  | negativeAccrualRate
  /-- Rates are to keep more decimal places than a decimal has. -/
  | tooManyRatePlaces
  /-- The least rate carries a minus sign. -/
  | negativeMinRate
  /-- The bounds of the debt ratio are not in order. -/
  | debtBoundsOutOfOrder
  /-- The bounds of the demand are not in order. -/
  | demandBoundsOutOfOrder
  /-- A lower bound carries a minus sign. -/
  | negativeBounds
  /-- A pooled token has no price. -/
  | noPriceFeed (symbol : String)
deriving DecidableEq

/-- The wording of a fault. -/
def SettingsFault.reason : SettingsFault → String
  | blankSymbol token => "token " ++ token.text ++ " has an empty symbol"
  | negativeMultiplier symbol => "token " ++ symbol ++ " has a negative multiplier"
  | tooManyDecimals symbol decimals =>
    "token " ++ symbol ++ " declares " ++ toString decimals.toNat ++ " decimals (max 28)"
  | duplicateToken token => "duplicate token entry " ++ token.text
  | noTokens => "token table has no entries"
  | negativeAccrualRate => "silo.accrual_rate must not be negative"
  | tooManyRatePlaces => "field.rate_decimals must be at most 28"
  | negativeMinRate => "field.min_rate must not be negative"
  | debtBoundsOutOfOrder =>
    "weather debt ratio bounds must satisfy lower <= optimal <= upper"
  | demandBoundsOutOfOrder => "weather demand bounds must satisfy lower <= upper"
  | negativeBounds => "weather bounds must not be negative"
  | noPriceFeed symbol => "no pricing oracle configured for pooled token " ++ symbol

/-- **What is wrong with a file.** -/
inductive FileFault where
  /-- There is no such file. -/
  | missing
  /-- The bytes of the file are no UTF-8 text. -/
  | notText
deriving DecidableEq

/-- The wording of a fault. -/
def FileFault.reason : FileFault → String
  | missing => "No such file or directory (os error 2)"
  | notText => "stream did not contain valid UTF-8"

/-- **Why an operation is refused.** -/
inductive Refusal where
  /-- An amount, or a value computed from one, has to be positive and is
  not, or leaves the range of decimals. -/
  | invalidAmount (amount : Decimal)
  /-- No entry of the table has this name. -/
  | unknownToken (token : TokenId)
  /-- A lot, or a change to one, is malformed. -/
  | malformedLot (epoch : Epoch) (fault : LotFault)
  /-- The lots do not cover the request. -/
  | insufficientBalance (requested available : Decimal)
  /-- The capacity does not cover the request. -/
  | insufficientCapacity (requested available : Decimal)
  /-- The settings make no sense. -/
  | invalidSettings (fault : SettingsFault)
  /-- The text of the settings cannot be read. -/
  | unreadableSettings
  /-- The file of the settings cannot be read. -/
  | unreadableFile (fault : FileFault)
deriving DecidableEq

namespace Refusal

/-- **The wording of a refusal.** -/
def message : Refusal → String
  | invalidAmount amount =>
    "Invalid amount: " ++ amount.toText ++ " (must be greater than zero)"
  | unknownToken token => "Unknown token: " ++ token.text
  | malformedLot epoch fault => "Malformed crate at " ++ epoch.toText ++ ": " ++ fault.reason
  | insufficientBalance requested available =>
    "Insufficient balance: requested " ++ requested.toText ++ ", available " ++ available.toText
  | insufficientCapacity requested available =>
    "Insufficient capacity: requested " ++ requested.toText ++ ", available " ++ available.toText
  | invalidSettings fault => "Invalid configuration: " ++ fault.reason
  | unreadableSettings => "Configuration parse error"
  | unreadableFile fault => "I/O error: " ++ fault.reason

/-- The number a refusal is reported under. -/
def code : Refusal → Nat
  | invalidAmount _ => 2001
  | unknownToken _ => 2002
  | malformedLot _ _ => 2003
  | insufficientBalance _ _ => 2004
  | insufficientCapacity _ _ => 2005
  | invalidSettings _ | unreadableSettings | unreadableFile _ => 2100

/-- Whether the operation may succeed with fresh data: balances, capacities
and files change, malformed lots and bad requests do not. -/
def recoverable : Refusal → Bool
  | insufficientBalance _ _ | insufficientCapacity _ _ | unreadableFile _ => true
  | _ => false

end Refusal

end StakeAccounting
