import TwoWayPeg.Bitcoin.Address
import TwoWayPeg.Bitcoin.Amount
import TwoWayPeg.Bitcoin.CompactSize
import TwoWayPeg.Bitcoin.Digest
import TwoWayPeg.Bitcoin.Header
import TwoWayPeg.Bitcoin.HeaderChain
import TwoWayPeg.Bitcoin.Network
import TwoWayPeg.Bitcoin.PublicKey
import TwoWayPeg.Bitcoin.Script
import TwoWayPeg.Bitcoin.Transaction
import TwoWayPeg.Bytes
import TwoWayPeg.Configuration
import TwoWayPeg.Constants
import TwoWayPeg.Curve.Ecdsa
import TwoWayPeg.Curve.Secp256k1
import TwoWayPeg.Election
import TwoWayPeg.Error
import TwoWayPeg.Federation.Basic
import TwoWayPeg.Federation.Pending
import TwoWayPeg.Federation.Slots
import TwoWayPeg.Hash.Keccak256
import TwoWayPeg.Hash.Ripemd160
import TwoWayPeg.Hash.Sha256
import TwoWayPeg.Host.Account
import TwoWayPeg.Host.Ledger
import TwoWayPeg.Inspection
import TwoWayPeg.Json.Basic
import TwoWayPeg.Json.Read
import TwoWayPeg.Json.Record
import TwoWayPeg.Log
import TwoWayPeg.Main
import TwoWayPeg.Merkle.Branch
import TwoWayPeg.Merkle.Flaw
import TwoWayPeg.Merkle.Node
import TwoWayPeg.Merkle.PartialTree
import TwoWayPeg.Peg.Classification
import TwoWayPeg.Peg.FederationVote
import TwoWayPeg.Peg.FeeVote
import TwoWayPeg.Peg.Invocation
import TwoWayPeg.Peg.Migration
import TwoWayPeg.Peg.Node
import TwoWayPeg.Peg.Operation
import TwoWayPeg.Peg.Payout
import TwoWayPeg.Peg.Query
import TwoWayPeg.Peg.Registration
import TwoWayPeg.Peg.WhitelistChange
import TwoWayPeg.Proofs.Bitcoin.BestChain
import TwoWayPeg.Proofs.Bitcoin.Pushes
import TwoWayPeg.Proofs.Bitcoin.Reading
import TwoWayPeg.Proofs.Bitcoin.Size
import TwoWayPeg.Proofs.Bitcoin.Writing
import TwoWayPeg.Proofs.Curve.Encoding
import TwoWayPeg.Proofs.Federation.Address
import TwoWayPeg.Proofs.Federation.CommitHash
import TwoWayPeg.Proofs.Federation.Forming
import TwoWayPeg.Proofs.Federation.Identification
import TwoWayPeg.Proofs.Json.Reading
import TwoWayPeg.Proofs.Merkle.Branches
import TwoWayPeg.Proofs.Merkle.Climbing
import TwoWayPeg.Proofs.Merkle.Inclusion
import TwoWayPeg.Proofs.Merkle.Serialized
import TwoWayPeg.Proofs.Peg.Accounting
import TwoWayPeg.Proofs.Peg.Atomic
import TwoWayPeg.Proofs.Peg.Backing
import TwoWayPeg.Proofs.Peg.Burning
import TwoWayPeg.Proofs.Peg.Confirmation
import TwoWayPeg.Proofs.Peg.Custody
import TwoWayPeg.Proofs.Peg.Mined
import TwoWayPeg.Proofs.Peg.Move
import TwoWayPeg.Proofs.Peg.Naming
import TwoWayPeg.Proofs.Peg.Once
import TwoWayPeg.Proofs.Peg.OwnTransactions
import TwoWayPeg.Proofs.Peg.Ownership
import TwoWayPeg.Proofs.Peg.Pipeline
import TwoWayPeg.Proofs.Peg.Poll
import TwoWayPeg.Proofs.Peg.Promotion
import TwoWayPeg.Proofs.Peg.Quorum
import TwoWayPeg.Proofs.Peg.Recognition
import TwoWayPeg.Proofs.Peg.Refund
import TwoWayPeg.Proofs.Peg.Run
import TwoWayPeg.Proofs.Peg.Settlement
import TwoWayPeg.Proofs.Peg.Signable
import TwoWayPeg.Proofs.Peg.Staging
import TwoWayPeg.Proofs.Peg.Succession
import TwoWayPeg.Proofs.Peg.Sweep
import TwoWayPeg.Proofs.Peg.Tenure
import TwoWayPeg.Proofs.Peg.Verdict
import TwoWayPeg.Proofs.Release.Applied
import TwoWayPeg.Proofs.Release.Balance
import TwoWayPeg.Proofs.Release.Building
import TwoWayPeg.Proofs.Release.Collecting
import TwoWayPeg.Proofs.Release.Fees
import TwoWayPeg.Proofs.Release.Frame
import TwoWayPeg.Proofs.Release.Growth
import TwoWayPeg.Proofs.Release.InFlight
import TwoWayPeg.Proofs.Release.Pass
import TwoWayPeg.Proofs.Release.Rebuilding
import TwoWayPeg.Proofs.Release.Selection
import TwoWayPeg.Proofs.Release.SignedSize
import TwoWayPeg.Proofs.Release.SigningOrder
import TwoWayPeg.Proofs.Release.Slots
import TwoWayPeg.Proofs.Release.SpendingOrder
import TwoWayPeg.Proofs.SortedMap
import TwoWayPeg.Proofs.Store.Forms
import TwoWayPeg.Proofs.Store.RoundTrip
import TwoWayPeg.Proofs.Text.Base58
import TwoWayPeg.Proofs.Utxo
import TwoWayPeg.Proofs.Whitelist
import TwoWayPeg.Release.Builder
import TwoWayPeg.Release.Queue
import TwoWayPeg.Release.ScriptSig
import TwoWayPeg.Release.Signing
import TwoWayPeg.Release.SigningKey
import TwoWayPeg.Release.Waiting
import TwoWayPeg.SettingsFile
import TwoWayPeg.SortedMap
import TwoWayPeg.State
import TwoWayPeg.Store.Basic
import TwoWayPeg.Store.File
import TwoWayPeg.Store.Persisted
import TwoWayPeg.Text.Base58
import TwoWayPeg.Text.Bech32
import TwoWayPeg.Text.Binary64
import TwoWayPeg.Text.Hex
import TwoWayPeg.Text.Letters
import TwoWayPeg.Text.Order
import TwoWayPeg.Text.Plain
import TwoWayPeg.Utxo
import TwoWayPeg.Whitelist
