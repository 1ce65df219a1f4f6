import TwoWayPeg.Json.Basic
import TwoWayPeg.Text.Plain

/-!
# Notices and log events

While it works the peg gives notice of what happens: payments, releases, changes of federations,
votes, and alerts about what should not happen. A notice says what happened in the terms of the
peg; its log event is the structured record that operators read, with a level, a category and a
target to filter by.
-/

namespace TwoWayPeg

/-! ### Events -/

/-- How urgent an event is. -/
inductive LogLevel
  | trace | debug | info | warn | error
deriving DecidableEq

namespace LogLevel

/-- The level of a name in any case; an unknown name means the ordinary level. -/
def ofName (s : String) : LogLevel :=
  let name := Text.folded s
  if name = "trace" then .trace
  else if name = "debug" then .debug
  else if name = "warn" ∨ name = "warning" then .warn
  else if name = "error" then .error
  else .info

/-- The name in records. -/
def name : LogLevel → String
  | trace => "TRACE"
  | debug => "DEBUG"
  | info => "INFO"
  | warn => "WARN"
  | error => "ERROR"

/-- The name of the constant. -/
def title : LogLevel → String
  | trace => "Trace"
  | debug => "Debug"
  | info => "Info"
  | warn => "Warn"
  | error => "Error"

end LogLevel

/-- What an event is about. -/
inductive EventCategory
  | pegIn | release | federation | election | alert | system
deriving DecidableEq

/-- The name in records. -/
def EventCategory.name : EventCategory → String
  | pegIn => "peg_in"
  | release => "release"
  | federation => "federation"
  | election => "election"
  | alert => "alert"
  | system => "system"

/-- The category of a name in records. -/
def EventCategory.ofName? (s : String) : Option EventCategory :=
  [pegIn, release, federation, election, alert, system].find? fun c => c.name == s

/-- A structured record, apart from the time at which it is written. -/
structure LogEvent where
  level : LogLevel
  category : EventCategory
  message : String
  /-- What ties related events together. -/
  correlationId : Option String := none
  data : Option Json := none
  /-- A code and a message. -/
  error : Option (String × String) := none

/-- The record as an object; what is absent has no field. -/
def LogEvent.toJson (e : LogEvent) : Json :=
  .obj <|
    [("level", .str e.level.name), ("category", .str e.category.name),
      ("message", .str e.message)] ++
    (e.correlationId.map fun id => ("correlation_id", Json.str id)).toList ++
    (e.data.map fun d => ("data", d)).toList ++
    (e.error.map fun x =>
      ("error", Json.obj [("code", .str x.1), ("message", .str x.2)])).toList

/-! ### Notices -/

/-- What should not happen. -/
inductive AlertKind
  /-- A registration gives a height below zero. -/
  | negativeHeight
  /-- A proof leads to another root than the header's. -/
  | merkleRootMismatch
  /-- A registered transaction is of no known kind. -/
  | unrecognizedTransaction
  /-- A refused deposit cannot be paid back. -/
  | refundBuildFailed
  /-- Funds cannot be moved to the active federation. -/
  | migrationFailed
  /-- A call that has won its vote fails. -/
  | voteExecutionFailed
deriving DecidableEq

/-- The name in records. -/
def AlertKind.name : AlertKind → String
  | negativeHeight => "negative_height"
  | merkleRootMismatch => "merkle_root_mismatch"
  | unrecognizedTransaction => "unrecognized_transaction"
  | refundBuildFailed => "refund_build_failed"
  | migrationFailed => "migration_failed"
  | voteExecutionFailed => "vote_execution_failed"

/-- What the peg gives notice of. -/
inductive Notice
  | alert (kind : AlertKind) (message : String)
  /-- A deposit was credited, or not. -/
  | pegIn (event txid : String) (sats : Nat) (sender : Option String) (success : Bool)
  /-- A release was requested or built, or not. -/
  | release (event id : String) (sats : Nat) (destination : String) (txid failure : Option String)
  | federation (event : String) (details : Json)
  | election (function voter : String) (result : Int)

namespace Notice

/-- The log event of a notice. -/
def toEvent : Notice → LogEvent
  | alert kind message =>
    { level := .error, category := .alert, message,
      data := some (.obj [("kind", .str kind.name)]) }
  | pegIn event txid sats sender success =>
    { level := if success then .info else .warn, category := .pegIn, message := event,
      correlationId := some txid,
      data := some (.obj [("btc_txid", .str txid), ("amount_sats", .natural sats),
        ("sender", .ofText? sender), ("success", .bool success)]) }
  | release event id sats destination txid failure =>
    { level := if failure.isSome then .warn else .info, category := .release, message := event,
      correlationId := some id,
      data := some (.obj [("amount_sats", .natural sats), ("destination", .str destination),
        ("btc_txid", .ofText? txid)]),
      error := failure.map fun text => ("RELEASE_ERROR", text) }
  | federation event details =>
    { level := .info, category := .federation, message := event, data := some details }
  | election function voter result =>
    { level := if 0 < result then .info else .debug, category := .election, message := function,
      data := some (.obj [("voter", .str voter), ("result", .int result)]) }

/-- The name by which operators filter. -/
def target : Notice → String
  | alert _ _ => "fedpeg::alert"
  | pegIn _ _ _ _ _ => "fedpeg::pegin"
  | release _ _ _ _ _ _ => "fedpeg::release"
  | federation _ _ => "fedpeg::federation"
  | election _ _ _ => "fedpeg::election"

/-- The kind and the message of an alert. -/
def alert? : Notice → Option (AlertKind × String)
  | alert kind message => some (kind, message)
  | _ => none

end Notice

end TwoWayPeg
