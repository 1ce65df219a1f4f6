import TwoWayPeg.Host.Account

/-!
# The ledger of the host chain

Balances are numbers of host units below `2 ^ 128`. The peg moves them between accounts and never
makes or destroys any: what is burned goes to an account of which nobody holds a key.
-/

namespace TwoWayPeg

/-- The balances of all accounts; an account without an entry holds nothing. -/
abbrev Ledger := SortedMap HostAddress Nat

/-- Why a balance is not moved. -/
inductive LedgerError
  | insufficientBalance (address : HostAddress) (required available : Nat)
  | overflow (address : HostAddress)
deriving DecidableEq

/-- The name of the kind of error. -/
def LedgerError.kind : LedgerError → String
  | insufficientBalance _ _ _ => "InsufficientBalance"
  | overflow _ => "Overflow"

/-- The error in words. -/
def LedgerError.message : LedgerError → String
  | insufficientBalance a required available =>
    s!"insufficient balance in {a.text}: need {required}, have {available}"
  | overflow a => "balance overflow for " ++ a.text

namespace Ledger

/-- What an account holds. -/
def balance (l : Ledger) (a : HostAddress) : Nat := (l.get? a).getD 0

/-- The ledger with more in one account. -/
def credit (l : Ledger) (a : HostAddress) (amount : Nat) : Ledger :=
  l.insert a (balance l a + amount)

/-- Balances stay below this number of host units. -/
def bound : Nat := 1 <<< 128

/-- The ledger after an amount has moved from one account to another. -/
def transfer (l : Ledger) (source target : HostAddress) (amount : Nat) :
    Except LedgerError Ledger :=
  let available := balance l source
  if available < amount then .error (.insufficientBalance source amount available)
  else if source = target then .ok l
  else
    let credited := balance l target + amount
    if bound ≤ credited then .error (.overflow target)
    else .ok ((l.insert source (available - amount)).insert target credited)

end Ledger

end TwoWayPeg
