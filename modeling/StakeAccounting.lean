import StakeAccounting.Auction.Action
import StakeAccounting.Book.Request
import StakeAccounting.Json.Number
import StakeAccounting.Ledger.Change
import StakeAccounting.Peg.Signal
import StakeAccounting.Proofs.Account.Address
import StakeAccounting.Proofs.Auction.Capture
import StakeAccounting.Proofs.Auction.Debt
import StakeAccounting.Proofs.Auction.Excess
import StakeAccounting.Proofs.Auction.Failure
import StakeAccounting.Proofs.Auction.Shortfall
import StakeAccounting.Proofs.Auction.Sowing
import StakeAccounting.Proofs.Book.Credits
import StakeAccounting.Proofs.Book.Presence
import StakeAccounting.Proofs.Book.SelfTransfer
import StakeAccounting.Proofs.Book.Supply
import StakeAccounting.Proofs.Book.Transfer
import StakeAccounting.Proofs.Book.Undo
import StakeAccounting.Proofs.Book.UnitWeight
import StakeAccounting.Proofs.Ledger.Grouping
import StakeAccounting.Proofs.Peg.Negative
import StakeAccounting.Proofs.Peg.Rates
import StakeAccounting.Proofs.Peg.Response
import StakeAccounting.Proofs.Selection.Everything
import StakeAccounting.Proofs.Selection.Fit
import StakeAccounting.Proofs.Selection.Monotone
import StakeAccounting.Proofs.Selection.Overflow
import StakeAccounting.Proofs.Selection.Permuted
import StakeAccounting.Proofs.Selection.Proportion
import StakeAccounting.Proofs.Selection.Ratio
import StakeAccounting.Proofs.Selection.Stack
import StakeAccounting.Proofs.Snapshot.RoundTrip
import StakeAccounting.Proofs.TokenTable
import StakeAccounting.Settings.File
