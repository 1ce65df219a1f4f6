import TwoWayPeg.Bitcoin.HeaderChain
import TwoWayPeg.Configuration
import TwoWayPeg.Host.Ledger
import TwoWayPeg.Merkle.Flaw
import TwoWayPeg.Release.Builder
import TwoWayPeg.Store.Basic

/-!
# Errors of the peg

An operation that is refused because of what the caller supplied, or that fails because of what it
depends on, ends with an error, and nothing that it has changed may be kept. Refusals that belong to
the rules of the peg are no errors: they are outcomes and codes.
-/

namespace TwoWayPeg

/-- Why an operation ends. -/
inductive PegError
  | config (reason : ConfigError)
  /-- Logging could not be set up. -/
  | logging (reason : String)
  | illegalArgument (reason : String)
  /-- A bitcoin transaction breaks the rules for all transactions. -/
  | verification (reason : String)
  /-- A contract asks for a release. -/
  | contractCaller (caller : String)
  | spv (reason : SpvError)
  | chain (reason : ChainError)
  | federation (reason : FederationError)
  | build (reason : BuildError)
  | ledger (reason : LedgerError)
  | storage (reason : StorageError)
  | internal (reason : String)
deriving DecidableEq

namespace PegError

/-- The code by which callers tell errors apart. -/
def code : PegError → String
  | config _ => "CONFIG_ERROR"
  | logging _ => "LOGGING_ERROR"
  | illegalArgument _ => "ILLEGAL_ARGUMENT"
  | verification _ => "VERIFICATION_ERROR"
  | contractCaller _ => "CONTRACT_CALLER"
  | spv _ => "SPV_ERROR"
  | chain _ => "CHAIN_ERROR"
  | federation _ => "FEDERATION_ERROR"
  | build _ => "BUILD_ERROR"
  | ledger _ => "LEDGER_ERROR"
  | storage _ => "STORAGE_ERROR"
  | internal _ => "INTERNAL_ERROR"

/-- The error in words. -/
def message : PegError → String
  | config reason => "configuration error: " ++ reason.message
  | logging reason => "logging error: failed to initialize logging: " ++ reason
  | illegalArgument reason => "illegal argument: " ++ reason
  | verification reason => "verification failed: " ++ reason
  | contractCaller caller => "contract " ++ caller ++ " cannot request a release"
  | spv reason => "spv error: " ++ reason.message
  | chain reason => "chain error: " ++ reason.message
  | federation reason => "federation error: " ++ reason.message
  | build reason => "build error: " ++ reason.message
  | ledger reason => "ledger error: " ++ reason.message
  | storage reason => "storage error: " ++ reason.message
  | internal reason => "internal error: " ++ reason

/-- The name of the kind of error within the part that it comes from. -/
def kind : PegError → String
  | config reason => reason.kind
  | spv reason => reason.kind
  | chain reason => reason.kind
  | federation reason => reason.kind
  | build reason => reason.kind
  | ledger reason => reason.kind
  | storage reason => reason.kind
  | e => e.code

/-- The error in the words of the part that it comes from. -/
def reason : PegError → String
  | config reason => reason.message
  | spv reason => reason.message
  | chain reason => reason.message
  | federation reason => reason.message
  | build reason => reason.message
  | ledger reason => reason.message
  | storage reason => reason.message
  | e => e.message

/-- Whether the fault lies in what the caller supplied. -/
def isCallerError : PegError → Bool
  | illegalArgument _ => true
  | verification _ => true
  | contractCaller _ => true
  | spv _ => true
  | _ => false

/-- Whether the same call may succeed later. -/
def isRetryable : PegError → Bool
  | storage (.connection _) => true
  | _ => false

end PegError

end TwoWayPeg
