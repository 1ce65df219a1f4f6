import TwoWayPeg.Merkle.PartialTree
import TwoWayPeg.Peg.Classification
import TwoWayPeg.Peg.Invocation

/-!
# Registering bitcoin transactions

Anybody may register a bitcoin transaction together with a proof that it belongs to the block at
some height. First the submission is examined, which changes nothing: a transaction that is already
known, is not buried deeply enough, or whose proof leads elsewhere is left alone. Then the
transaction is settled by its kind. A deposit from a sender on the whitelist is credited on the host
chain, any other deposit is sent back; what spends or moves the funds of the federations is
recorded, and so are the outputs that pay them.
-/

namespace TwoWayPeg.Registration

/-- The name that raw bytes have as a transaction. -/
def rawTxid (raw : Bytes) : Txid := ⟨Sha256.double raw⟩

/-- The number of inputs that raw bytes announce. -/
def declaredInputCount (raw : Bytes) : Except SpvError Nat :=
  if raw.length < 4 then .error .truncatedVersion
  else
    match CompactSize.read (raw.drop 4) with
    | some (n, _) => .ok n
    | none => .error .unreadable

/-! ### Examination -/

/-- A transaction that belongs to the best chain. -/
structure MinedTransaction where
  /-- The name that the proof is about. -/
  txid : Txid
  tx : Transaction
  /-- The height of its block. -/
  height : UInt32

/-- What the examination of a submission finds. -/
inductive Finding
  /-- There is nothing to do. -/
  | nothing
  /-- Something is wrong that operators should know of. -/
  | alarm (kind : AlertKind) (message : String)
  | genuine (mined : MinedTransaction)

/-- The root that a proof leads to from a transaction. -/
def provedRoot (txid : Txid) (proof : Bytes) : Except PegError Merkle.Node :=
  if !Merkle.PartialTree.hasDeclaredSize proof then
    .error (.illegalArgument "partial merkle tree doesn't have the expected size")
  else
    match Merkle.PartialTree.parse proof with
    | .error e =>
      .error (.illegalArgument ("partial merkle tree could not be parsed: " ++ e.message))
    | .ok tree => (tree.rootFor txid).mapError fun e => .illegalArgument e.message

/-- The transaction that raw bytes spell, if it has inputs and keeps the rules. -/
def soundTransaction (raw : Bytes) : Except PegError Transaction :=
  match declaredInputCount raw with
  | .error e => .error (.illegalArgument e.message)
  | .ok 0 => .error (.verification "transaction has no inputs")
  | .ok _ =>
    match Transaction.decode? raw with
    | none => .error (.illegalArgument "bitcoin transaction could not be parsed: ")
    | some tx =>
      match tx.checkStructure with
      | .error flaw => .error (.verification flaw.message)
      | .ok () => .ok tx

/-- Examines a submission that is not known yet, at a height that is not below zero. -/
def examineAt (i : Invocation) (raw : Bytes) (height : Nat) (proof : Bytes) :
    Except PegError Finding :=
  let txid := rawTxid raw
  if i.chain.bestHeight + 1 < height + i.constants.btcConfirmations then .ok .nothing
  else
    match provedRoot txid proof with
    | .error e => .error e
    | .ok root =>
      match i.chain.headerAt height with
      | none => .error (.illegalArgument s!"no best-chain block at height {height}")
      | some header =>
        if header.merkleRoot ≠ root then
          .ok (.alarm .merkleRootMismatch
            ("bitcoin tx " ++ txid.text ++ " proves root " ++ Hex.encode root.toList ++
              s!" but the block at {height} has " ++
              Hex.encode header.merkleRoot.reverse.toList))
        else (soundTransaction raw).map fun tx => .genuine ⟨txid, tx, UInt32.ofNat height⟩

/-- Examines a submission. -/
def examine (i : Invocation) (s : State) (raw : Bytes) (height : Int) (proof : Bytes) :
    Except PegError Finding :=
  if s.processed.contains (rawTxid raw) then .ok .nothing
  else if height < 0 then
    .ok (.alarm .negativeHeight
      ("bitcoin tx " ++ (rawTxid raw).text ++ s!" supplied with negative height {height}"))
  else examineAt i raw height.toNat proof

/-! ### Deposits -/

/-- The bytes that stand where the first input's key belongs when it spends an output that pays to a
key. -/
def senderBytes? (tx : Transaction) : Option Bytes :=
  match tx.inputs with
  | [] => none
  | input :: _ =>
    match input.scriptSig.chunks with
    | some [_, key] => some key
    | _ => none

/-- Sends a deposit back to its sender, less the fee, or raises an alert. -/
def refund (i : Invocation) (m : MinedTransaction) (sender : PublicKey) (total : Nat)
    (w : World) : World :=
  let live := i.live w.state
  let destination := Script.payToKeyHash sender.hash
  let address := i.describe destination
  let received := Utxo.ofOutputs m.tx m.height fun script =>
    live.any fun f => f.payScript == script
  let wallet := Wallet.of received live (i.active w.state).payScript (i.feePerKb w.state)
    i.constants
  match wallet.payAll destination with
  | .error e =>
    w.alert .refundBuildFailed
      ("refund of " ++ Amount.display total ++ " to " ++ address ++ " for bitcoin tx " ++
        m.txid.text ++ " failed: " ++ e.message)
  | .ok built =>
    let w := w.notify (.pegIn "pegin_refunded" m.txid.text total (some address) false)
    { w with state := { w.state with
        waiting := WaitingList.add w.state.waiting built.tx i.block.number } }

/-- Credits a deposit to the account of its sender's key, and charges the whitelist. -/
def credit (m : MinedTransaction) (sender : PublicKey) (total : Nat) (w : World) :
    Except PegError Unit × World :=
  let recipient := HostAddress.ofKey sender
  match Ledger.transfer w.ledger .bridge recipient (Amount.toWei total) with
  | .error e => (.error (.ledger e), w)
  | .ok ledger =>
    let state := { w.state with whitelist := w.state.whitelist.charge sender.hash total }
    (.ok (), { w with state, ledger }.notify
      (.pegIn "pegin_credited" m.txid.text total (some recipient.text) true))

/-! ### Records -/

/-- The state with a transaction registered in the block. -/
def markProcessed (i : Invocation) (m : MinedTransaction) (s : State) : State :=
  { s with processed := s.processed.insert m.txid i.block.number }

/-- The state with the outputs that pay the live federations, each in its own list. -/
def saveUtxos (i : Invocation) (m : MinedTransaction) (s : State) : State :=
  let activeScript := (i.active s).payScript
  let paid (script : Script) := Utxo.ofOutputs m.tx m.height (· == script)
  let withActive := i.withActiveUtxos s (Utxo.addNew (i.activeUtxos s) (paid activeScript))
  match i.retiring s with
  | none => withActive
  | some retiring =>
    if retiring.payScript = activeScript then withActive
    else
      let old := Utxo.addNew withActive.holdings.old (paid retiring.payScript)
      { withActive with holdings := { withActive.holdings with old } }

/-- The world with a transaction registered and its outputs saved. -/
def keep (i : Invocation) (m : MinedTransaction) (w : World) : World :=
  { w with state := saveUtxos i m (markProcessed i m w.state) }

/-! ### Settlement -/

/-- Settles a deposit. A sender that cannot be found is left alone. -/
def settleDeposit (i : Invocation) (m : MinedTransaction) (w : World) :
    Except PegError Unit × World :=
  match senderBytes? m.tx with
  | none => (.ok (), w)
  | some bytes =>
    match PublicKey.ofBytes? bytes with
    | none => (.error (.illegalArgument "sender public key could not be parsed: "), w)
    | some sender =>
      let total := m.tx.valueSentToAll (i.live w.state)
      if w.state.whitelist.permits sender.hash total m.height.toNat then
        match credit m sender total w with
        | (.error e, w) => (.error e, w)
        | (.ok (), w) => (.ok (), keep i m w)
      else
        let w := refund i m sender total w
        (.ok (), { w with state := markProcessed i m w.state })

/-- Settles a transaction that belongs to the best chain. -/
def settle (i : Invocation) (m : MinedTransaction) (w : World) : Except PegError Unit × World :=
  match m.tx.classify (i.active w.state) (i.retiring w.state) i.constants.minimumLock.sats with
  | .pegIn => settleDeposit i m w
  | .pegOut => (.ok (), keep i m w)
  | .migration => (.ok (), keep i m w)
  | .unrecognized =>
    (.ok (), w.alert .unrecognizedTransaction
      ("bitcoin tx " ++ m.txid.text ++ " is not a peg-in, a peg-out nor a migration"))

/-- Registers a transaction that is claimed to be in the block at a height. The world that comes
with an error holds what was done before it. -/
def register (i : Invocation) (raw : Bytes) (height : Int) (proof : Bytes) (w : World) :
    Except PegError Unit × World :=
  match examine i w.state raw height proof with
  | .error e => (.error e, w)
  | .ok .nothing => (.ok (), w)
  | .ok (.alarm kind message) => (.ok (), w.alert kind message)
  | .ok (.genuine mined) => settle i mined w

end TwoWayPeg.Registration
