import TwoWayPeg.Bitcoin.Transaction

/-!
# Transactions that wait to be signed

A transaction that the peg has built waits for some blocks of the host chain before its signatures
are collected. Transactions are taken out in the order in which they were put in, as soon as they
are old enough.
-/

namespace TwoWayPeg

/-- A transaction and the block in which it was built. -/
structure WaitingTransaction where
  transaction : Transaction
  block : UInt64
deriving DecidableEq

/-- The waiting transactions, earliest first. -/
abbrev WaitingList := List WaitingTransaction

namespace WaitingTransaction

/-- Whether a transaction has waited for a number of blocks. -/
def isDue (w : WaitingTransaction) (block confirmations : Nat) : Bool :=
  w.block.toNat + confirmations ≤ block

end WaitingTransaction

namespace WaitingList

/-- The list with one more transaction, unless one of its name is already waiting. -/
def add (l : WaitingList) (tx : Transaction) (block : UInt64) : WaitingList :=
  let txid := tx.txid
  if l.any fun w => w.transaction.txid == txid then l else l ++ [⟨tx, block⟩]

/-- The first `most` entries that are ready, and all others. -/
def split (ready : WaitingTransaction → Bool) :
    Nat → WaitingList → List Transaction × WaitingList
  | _, [] => ([], [])
  | 0, l => ([], l)
  | most + 1, w :: rest =>
    if ready w then
      let (taken, left) := split ready most rest
      (w.transaction :: taken, left)
    else
      let (taken, left) := split ready (most + 1) rest
      (taken, w :: left)

/-- Takes out the transactions that have waited long enough, `most` of them if a limit is given. -/
def takeDue (l : WaitingList) (block confirmations : Nat) (most : Option Nat) :
    List Transaction × WaitingList :=
  split (·.isDue block confirmations) (most.getD l.length) l

end WaitingList

end TwoWayPeg
