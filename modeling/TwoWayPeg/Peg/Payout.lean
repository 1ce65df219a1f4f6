import TwoWayPeg.Peg.Migration

/-!
# Paying out

Whoever sends value to the peg on the host chain is paid the same amount of bitcoin. The request is
queued, and updates build transactions for queued requests, as many as the constants allow. When
change had to be topped up to be an output, less bitcoin leaves the federation than was locked for
it, and the difference is burned on the host chain. Each update also releases the earliest waiting
transaction that is old enough to be signed.
-/

namespace TwoWayPeg.Payout

/-! ### Requests -/

/-- Requests the value of a host transaction in bitcoin, for the key that signed it. -/
def request (i : Invocation) (tx : HostTransaction) (w : World) : Except PegError Unit × World :=
  if tx.fromContract then (.error (.contractCaller tx.sender.text), w)
  else
    match tx.senderKey with
    | none => (.error (.illegalArgument "release sender has no public key"), w)
    | some key =>
      let amount := Amount.ofWei tx.value
      if amount.sats ≤ i.constants.minimumRelease.sats then
        (.ok (), w.notify (.release "release_rejected" tx.hash.text amount.sats tx.sender.text none
          (some "value not above the minimum release value")))
      else
        let destination := Script.payToKeyHash key.shortHash
        let w := w.notify (.release "release_requested" tx.hash.text amount.sats
          (i.describe destination) none none)
        (.ok (), { w with state := { w.state with
          requests := ReleaseQueue.add w.state.requests destination amount } })

/-! ### Building -/

/-- What has to be burned for a transaction: what was requested and not spent by the federation
after its change. The change is the second output. -/
def unbacked (built : BuiltTransaction) (requested : Nat) : Nat :=
  match built.tx.outputs[1]? with
  | none => 0
  | some change => requested - (built.totalInput - change.value.sats)

/-- Burns an amount, if there is one to burn. -/
def burn (sats : Nat) (l : Ledger) : Except LedgerError Ledger :=
  if sats = 0 then .ok l else Ledger.transfer l .bridge .burn (Amount.toWei sats)

/-- The state after a transaction of the active federation has been built. -/
def record (i : Invocation) (tx : Transaction) (s : State) : State :=
  let s := i.withActiveUtxos s (Utxo.withoutSpent (i.activeUtxos s) tx)
  { s with waiting := WaitingList.add s.waiting tx i.block.number }

/-- Builds the transaction for a request. A request whose transaction cannot be built is kept. -/
def build (i : Invocation) (r : ReleaseRequest) (w : World) : Except PegError Bool × World :=
  let active := i.active w.state
  let destination := i.describe r.destination
  let wallet := Wallet.of (i.activeUtxos w.state) [active] active.payScript
    (i.feePerKb w.state) i.constants
  match wallet.pay r.destination r.amount with
  | .error e =>
    (.ok false, w.notify (.release "release_build_failed" destination r.amount.sats destination
      none (some e.message)))
  | .ok built =>
    let w := { w with state := record i built.tx w.state }
    match burn (unbacked built r.amount.sats) w.ledger with
    | .error e => (.error (.ledger e), w)
    | .ok ledger =>
      let txid := built.tx.txid.text
      (.ok true, { w with ledger }.notify
        (.release "release_built" txid r.amount.sats destination (some txid) none))

/-- Builds transactions for queued requests, each considered once. -/
def buildQueued (i : Invocation) (w : World) : Except PegError Nat × World :=
  let pass := ReleaseQueue.pass w.state.requests i.constants.maxReleaseRounds (build i) w
  (pass.result, { pass.state with state := { pass.state.state with requests := pass.queue } })

/-! ### Waiting transactions -/

/-- Passes the earliest waiting transaction that is old enough on to be signed, under the name of a
host transaction. -/
def promote (i : Invocation) (hash : HostTxHash) (s : State) : State :=
  match WaitingList.takeDue s.waiting i.number i.constants.hostConfirmations (some 1) with
  | (tx :: _, waiting) => { s with waiting, pending := s.pending.insert hash tx }
  | ([], waiting) => { s with waiting }

/-- The regular update: migration, then queued requests, then waiting transactions. An error in the
second part ends the update. -/
def update (i : Invocation) (hash : HostTxHash) (w : World) : Except PegError Unit × World :=
  match buildQueued i (Migration.advance i w) with
  | (.error e, w) => (.error e, w)
  | (.ok _, w) => (.ok (), { w with state := promote i hash w.state })

/-! ### Signatures -/

/-- Takes the signatures of a member of a live federation. -/
def addSignatures (i : Invocation) (key : PublicKey) (signatures : List Bytes) (hash : HostTxHash)
    (s : State) : SigningOutcome × State :=
  if (i.live s).any fun f => f.hasKey key then
    let (outcome, pending) := PendingSignatures.submit s.pending hash key signatures
    (outcome, { s with pending })
  else (.unknownFederator, s)

end TwoWayPeg.Payout
