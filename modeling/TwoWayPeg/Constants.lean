import TwoWayPeg.Bitcoin.Amount
import TwoWayPeg.Election
import TwoWayPeg.Federation.Basic

/-!
# The constants of a peg

All nodes of the host chain must agree on these numbers, so they are fixed when a peg is deployed:
how deep a transaction must be buried, which amounts are too small, how long federations take to
change hands, and who may vote. Every deployment has its presets.
-/

namespace TwoWayPeg

/-- What all nodes agree on. -/
structure Constants where
  deployment : Deployment
  /-- The federation that the peg begins with. -/
  genesis : Federation
  /-- Bitcoin blocks that must confirm a transaction before it is registered. -/
  btcConfirmations : Nat
  /-- Host blocks that a release waits before it is signed. -/
  hostConfirmations : Nat
  /-- The least amount that can be locked. -/
  minimumLock : Amount
  /-- The least amount that can be released. -/
  minimumRelease : Amount
  /-- The fee for a thousand bytes until another is voted. -/
  genesisFeePerKb : Amount
  /-- The least amount of an output. -/
  minimumOutput : Amount
  /-- The most bytes that a signed transaction may have. -/
  maxTransactionSize : Nat
  /-- Host blocks until a committed federation takes over. -/
  activationAge : Nat
  /-- Host blocks from taking over until funds begin to migrate; the migration begins after them. -/
  migrationBegin : Nat
  /-- Host blocks from taking over until all remaining funds migrate. -/
  migrationEnd : Nat
  /-- The least number of members that can be committed. -/
  minimumPendingSize : Nat
  /-- The most requests that one update looks at. -/
  maxReleaseRounds : Nat
  /-- The most amounts that a migration is tried with. -/
  maxMigrationAttempts : Nat
  federationAuthorizer : Authorizer
  feeAuthorizer : Authorizer
  whitelistAuthorizer : Authorizer

namespace Constants

/-- The bitcoin network of the peg. -/
def network (c : Constants) : Network := c.deployment.network

/-- The presets of the main network, on which the others are based. -/
def basePreset (d : Deployment) (genesis : Federation) : Constants where
  deployment := d
  genesis := genesis
  btcConfirmations := 100
  hostConfirmations := 4000
  minimumLock := .clamp 1000000
  minimumRelease := .clamp 800000
  genesisFeePerKb := .clamp 50000
  minimumOutput := .clamp 546
  maxTransactionSize := 100000
  activationAge := 18500
  migrationBegin := 0
  migrationEnd := 10585
  minimumPendingSize := 2
  maxReleaseRounds := 30
  maxMigrationAttempts := 20
  federationAuthorizer := ⟨.empty, .majority⟩
  feeAuthorizer := ⟨.empty, .majority⟩
  whitelistAuthorizer := ⟨.empty, .one⟩

/-- The presets of a deployment; nobody may vote yet. -/
def preset (d : Deployment) (genesis : Federation) : Constants :=
  let base := basePreset d genesis
  match d with
  | .mainnet => base
  | .testnet =>
    { base with
      btcConfirmations := 10
      hostConfirmations := 10
      activationAge := 60
      migrationBegin := 60
      migrationEnd := 900 }
  | .regtest =>
    { base with
      btcConfirmations := 3
      hostConfirmations := 3
      minimumLock := .clamp 500000
      minimumRelease := .clamp 250000
      genesisFeePerKb := .clamp 10000
      activationAge := 10
      migrationBegin := 15
      migrationEnd := 100 }

/-! ### Numbers by name -/

/-- A number among the constants. -/
structure Parameter where
  name : String
  get : Constants → Nat
  set : Constants → Nat → Constants

/-- All numbers among the constants. -/
def parameters : List Parameter :=
  [⟨"btc2host_min_confirmations", btcConfirmations, fun c n => { c with btcConfirmations := n }⟩,
   ⟨"host2btc_min_confirmations", hostConfirmations, fun c n => { c with hostConfirmations := n }⟩,
   ⟨"minimum_lock_tx_value", (·.minimumLock.sats), fun c n => { c with minimumLock := .clamp n }⟩,
   ⟨"minimum_release_tx_value", (·.minimumRelease.sats),
    fun c n => { c with minimumRelease := .clamp n }⟩,
   ⟨"genesis_fee_per_kb", (·.genesisFeePerKb.sats),
    fun c n => { c with genesisFeePerKb := .clamp n }⟩,
   ⟨"min_nondust_output", (·.minimumOutput.sats), fun c n => { c with minimumOutput := .clamp n }⟩,
   ⟨"max_transaction_size", maxTransactionSize, fun c n => { c with maxTransactionSize := n }⟩,
   ⟨"federation_activation_age", activationAge, fun c n => { c with activationAge := n }⟩,
   ⟨"funds_migration_age_since_activation_begin", migrationBegin,
    fun c n => { c with migrationBegin := n }⟩,
   ⟨"funds_migration_age_since_activation_end", migrationEnd,
    fun c n => { c with migrationEnd := n }⟩,
   ⟨"min_pending_federation_size", minimumPendingSize,
    fun c n => { c with minimumPendingSize := n }⟩,
   ⟨"max_release_iterations", maxReleaseRounds, fun c n => { c with maxReleaseRounds := n }⟩,
   ⟨"max_migration_iterations", maxMigrationAttempts,
    fun c n => { c with maxMigrationAttempts := n }⟩]

/-- The constants with another number under a name; a name that no number has changes nothing. -/
def withNumber (c : Constants) (name : String) (n : Nat) : Constants :=
  match parameters.find? (·.name == name) with
  | some p => p.set c n
  | none => c

end Constants

end TwoWayPeg
