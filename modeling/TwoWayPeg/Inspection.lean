import TwoWayPeg.Configuration
import TwoWayPeg.SettingsFile
import TwoWayPeg.Store.Basic

/-!
# Inspecting a stored peg

The command-line tool shows what is stored of a peg: a summary, the transactions that wait for
signatures, the whitelist, or the configuration by which it reads them. What it prints and the code
it ends with are a function of its arguments, its settings and the store.
-/

namespace TwoWayPeg.Inspection

/-! ### Settings -/

/-- The settings of the environment, and behind them those of a file. -/
def layered (environment : SettingsFile.Variables) (file : String) : Configuration.Settings :=
  fun name => (SettingsFile.load environment (file.splitOn "\n")).lookup name

/-! ### What is shown -/

/-- How to use the tool. -/
def usage : List String :=
  ["fedpeg-inspect - Bridge State Inspection",
   "",
   "Usage:",
   "  fedpeg-inspect [summary]     Show state summary",
   "  fedpeg-inspect config        Show resolved configuration",
   "  fedpeg-inspect pending       List transactions awaiting signatures",
   "  fedpeg-inspect whitelist     List lock whitelist entries",
   "",
   "Environment Variables:",
   "  FEDPEG_NETWORK       mainnet | testnet | regtest (default: regtest)",
   "  FEDPEG_DB_PATH       SQLite state file (default: fedpeg-state.db)",
   "  FEDPEG_LOG_LEVEL     Log level (default: info)",
   "  FEDPEG_JSON_LOGS     Set to 1 for JSON logs"]

/-- The threshold and the size of a federation. -/
def describeFederation (f : Federation) : String := s!"{f.threshold}-of-{f.size}"

/-- What is known of the places for federations. -/
def federationLines (c : Constants) (s : FederationSlots) : List String :=
  match s.new with
  | none => ["Active Federation: genesis"]
  | some new =>
    let created := new.creationBlock.toNat
    ["New Federation: " ++ describeFederation new ++ s!" (created at block {created})"] ++
      (s.old.map fun old => "Old Federation: " ++ describeFederation old).toList ++
      [s!"Activates At Block: {created + c.activationAge}"]

/-- The number of outputs in a list and the sum of their values. -/
def describeUtxos (us : List Utxo) : String :=
  s!"{us.length} (" ++ Amount.describe (Utxo.total us) ++ ")"

/-- The state in a few lines. -/
def summary (c : Constants) (s : State) : List String :=
  ["=== Bridge State ==="] ++
    federationLines c s.federations ++
    (s.federations.pending.map fun p => s!"Pending Federation: {p.size} members").toList ++
    ["New Federation UTXOs: " ++ describeUtxos s.holdings.new,
     "Old Federation UTXOs: " ++ describeUtxos s.holdings.old,
     s!"Release Requests: {s.requests.length}",
     s!"Release Transactions: {s.waiting.length}",
     s!"Pending Signatures: {s.pending.size}",
     s!"Processed BTC Transactions: {s.processed.size}",
     s!"Lock Whitelist Entries: {s.whitelist.size}",
     "Fee Per kB: " ++ Amount.describe (s.feePerKb.getD c.genesisFeePerKb).sats,
     "===================="]

/-- The transactions that wait for signatures. -/
def pendingLines (s : State) : List String :=
  if s.pending.isEmpty then ["No transactions awaiting signatures"]
  else
    s.pending.entries.map fun e =>
      e.1.text ++ " -> " ++ e.2.txid.text ++
        s!" ({e.2.inputs.length} inputs, {e.2.outputs.length} outputs)"

/-- What an entry of the whitelist allows. -/
def describeEntry (e : WhitelistEntry) : String :=
  match e.allowance with
  | .oneOff maxValue uses =>
    e.address ++ "  one-off  max " ++ Amount.describe maxValue.sats ++ s!"  uses {uses.toNat}"
  | .unlimited capacity =>
    e.address ++ "  unlimited  cap " ++
      ((capacity.map fun a => Amount.describe a.sats).getD "none")

/-- The entries of the whitelist. -/
def whitelistLines (s : State) : List String :=
  (s.whitelist.disableHeight.map fun h =>
    s!"Whitelist disabled after BTC block {h.toNat}").toList ++
    s.whitelist.entries.values.map describeEntry

/-! ### The tool -/

/-- What the tool prints and the code it ends with. -/
structure Outcome where
  exitCode : UInt32
  output : List String
  errors : List String

/-- The tool ends well. -/
def Outcome.success (output : List String) : Outcome := ⟨0, output, []⟩

/-- The tool cannot go on. -/
def Outcome.failure (error : String) : Outcome := ⟨1, [], [error]⟩

/-- What a command shows of a state; an unknown one shows how to use the tool. -/
def display (c : Constants) (s : State) (command : String) : Outcome :=
  if command = "summary" then .success (summary c s)
  else if command = "pending" then .success (pendingLines s)
  else if command = "whitelist" then .success (whitelistLines s)
  else ⟨1, usage, []⟩

/-- What the tool does before it needs a store: it ends, or it names the store it needs. -/
def prepare (args : List String) (settings : Configuration.Settings) :
    Except Outcome (String × Configuration) :=
  match Configuration.ofSettings settings with
  | .error e => .error (.failure ("Configuration error: " ++ e.message))
  | .ok config =>
    let command := args.headD "summary"
    if ["help", "--help", "-h"].contains command then .error (.success usage)
    else if command = "config" then .error (.success config.summary)
    else .ok (command, config)

/-- What the tool does with the store it has asked for. -/
def present (command : String) (config : Configuration) (store : Except StorageError Store) :
    Outcome :=
  match store.bind Store.load with
  | .error e =>
    .failure ("Failed to load state from " ++ config.storePath ++ ": " ++ e.message)
  | .ok state => display config.constants state command

/-- The whole run of the tool, given the store at each path. -/
def run (args : List String) (settings : Configuration.Settings)
    (storeAt : String → Except StorageError Store) : Outcome :=
  match prepare args settings with
  | .error outcome => outcome
  | .ok (command, config) => present command config (storeAt config.storePath)

end TwoWayPeg.Inspection
