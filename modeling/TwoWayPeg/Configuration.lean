import TwoWayPeg.Constants

/-!
# Configuration

A peg is configured by named settings. Settings that are missing have defaults, but the keys of the
first federation and the accounts that may vote must be given for every deployment except the one
for tests.

* `Configuration.ofSettings`: the settings in the order in which they are looked at; the first one
  that is wrong is reported.
* `Constants.validate`: what must hold of all constants, wherever they come from.
-/

namespace TwoWayPeg

/-- What is wrong with a configuration. -/
inductive ConfigError
  /-- A setting that must be given is missing. -/
  | missing (setting : String)
  /-- No deployment has the name. -/
  | unknownDeployment (name : String)
  /-- The value of a setting is no number, or one that is too large. -/
  | notANumber (setting value : String)
  /-- A part of the value of a setting is no account. -/
  | notAnAddress (setting : String) (reason : HexError)
  /-- The window in which funds are moved does not end after it begins. -/
  | emptyMigrationWindow
  /-- No block is asked for to confirm a transaction. -/
  | noConfirmations
  /-- The fee before the first vote on it is nothing. -/
  | noFee
  /-- The first federation is recorded for another network. -/
  | foreignGenesis (expected got : Network)
  /-- The deployment is not the one for production. -/
  | notProduction (got : Deployment)
  /-- A text among the keys of the first federation is no key. -/
  | genesisKey (text : String)
  /-- The first federation cannot be formed from its keys. -/
  | genesis (reason : FederationError)
deriving DecidableEq

/-! ### Names of settings -/

namespace Setting

/-- Which deployment the peg belongs to. -/
def network : String := "FEDPEG_NETWORK"
/-- The keys of the first federation, separated by commas. -/
def genesisKeys : String := "FEDPEG_GENESIS_FEDERATION_KEYS"
/-- When the first federation was created, in milliseconds. -/
def genesisTime : String := "FEDPEG_GENESIS_FEDERATION_CREATION_TIME_MS"
/-- The accounts that vote on the federation. -/
def federationAuthorizers : String := "FEDPEG_FEDERATION_CHANGE_AUTHORIZERS"
/-- The accounts that vote on the fee. -/
def feeAuthorizers : String := "FEDPEG_FEE_PER_KB_AUTHORIZERS"
/-- The accounts that change the whitelist. -/
def whitelistAuthorizers : String := "FEDPEG_LOCK_WHITELIST_AUTHORIZERS"
/-- The blocks that must confirm a transaction on the Bitcoin side. -/
def btcConfirmations : String := "FEDPEG_BTC2HOST_MIN_CONFIRMATIONS"
/-- The blocks that must confirm a release on the host side. -/
def hostConfirmations : String := "FEDPEG_HOST2BTC_MIN_CONFIRMATIONS"
/-- The fee before the first vote on it, in satoshis for a thousand bytes. -/
def genesisFee : String := "FEDPEG_GENESIS_FEE_PER_KB_SATS"
/-- Where the state is kept. -/
def storePath : String := "FEDPEG_DB_PATH"
/-- The level from which messages are written to the log. -/
def logLevel : String := "FEDPEG_LOG_LEVEL"
/-- Whether the log is written as JSON. -/
def jsonLogs : String := "FEDPEG_JSON_LOGS"

/-- All names. -/
def all : List String :=
  [network, genesisKeys, genesisTime, federationAuthorizers, feeAuthorizers, whitelistAuthorizers,
    btcConfirmations, hostConfirmations, genesisFee, storePath, logLevel, jsonLogs]

end Setting

/-- The name of the kind of error. -/
def ConfigError.kind : ConfigError → String
  | missing _ => "MissingEnvVar"
  | unknownDeployment _ => "InvalidValue"
  | notANumber _ _ => "InvalidValue"
  | notAnAddress _ _ => "InvalidValue"
  | emptyMigrationWindow => "InvalidValue"
  | noConfirmations => "InvalidValue"
  | noFee => "InvalidValue"
  | foreignGenesis _ _ => "NetworkMismatch"
  | notProduction _ => "NetworkMismatch"
  | genesisKey _ => "InvalidGenesisFederation"
  | genesis _ => "InvalidGenesisFederation"

/-- The error in words. -/
def ConfigError.message : ConfigError → String
  | missing setting => "missing required environment variable: " ++ setting
  | unknownDeployment name =>
    "invalid value for " ++ Setting.network ++ ": unknown network: " ++ name
  | notANumber setting value =>
    "invalid value for " ++ setting ++ ": cannot parse '" ++ value ++ "'"
  | notAnAddress setting reason => "invalid value for " ++ setting ++ ": " ++ reason.message
  | emptyMigrationWindow =>
    "invalid value for funds_migration_age: migration window must begin before it ends"
  | noConfirmations =>
    "invalid value for " ++ Setting.btcConfirmations ++ ": must be at least 1"
  | noFee => "invalid value for " ++ Setting.genesisFee ++ ": must be positive"
  | foreignGenesis expected got =>
    "network mismatch: expected " ++ expected.title ++ ", got " ++ got.title
  | notProduction got => "network mismatch: expected mainnet, got " ++ got.title
  | genesisKey text => "invalid genesis federation: " ++ text ++ ": "
  | genesis reason => "invalid genesis federation: " ++ reason.message

/-! ### Checks on constants -/

namespace Constants

/-- What must hold of the constants of every peg. -/
def validate (c : Constants) : Except ConfigError Unit :=
  if c.genesis.network ≠ c.network then .error (.foreignGenesis c.network c.genesis.network)
  else if c.migrationEnd ≤ c.migrationBegin then .error .emptyMigrationWindow
  else if c.btcConfirmations = 0 then .error .noConfirmations
  else if c.genesisFeePerKb.sats = 0 then .error .noFee
  else .ok ()

/-- What must hold in production beside: the main network, and somebody who may vote. -/
def validateForProduction (c : Constants) : Except ConfigError Unit :=
  if c.deployment ≠ .mainnet then .error (.notProduction c.deployment)
  else if c.federationAuthorizer.addresses.isEmpty then
    .error (.missing Setting.federationAuthorizers)
  else if c.feeAuthorizer.addresses.isEmpty then .error (.missing Setting.feeAuthorizers)
  else if c.whitelistAuthorizer.addresses.isEmpty then
    .error (.missing Setting.whitelistAuthorizers)
  else .ok ()

end Constants

/-- The deployment of a name in any case. -/
def Deployment.ofName (s : String) : Except ConfigError Deployment :=
  let name := Text.folded s
  if name = "mainnet" ∨ name = "main" then .ok .mainnet
  else if name = "testnet" ∨ name = "test" then .ok .testnet
  else if name = "regtest" ∨ name = "reg" then .ok .regtest
  else .error (.unknownDeployment s)

/-! ### Reading settings -/

/-- How a peg is set up on a node. -/
structure Configuration where
  /-- What the peg goes by. -/
  constants : Constants
  /-- Where the state is kept. -/
  storePath : String
  /-- The level from which messages are written to the log. -/
  logLevel : String
  /-- Whether the log is written as JSON. -/
  jsonLogs : Bool

namespace Configuration

/-- The settings by name. -/
abbrev Settings := String → Option String

/-- The keys of the first federation in tests: the first three multiples of the base point. -/
def testKeys : String :=
  "0279be667ef9dcbbac55a06295ce870b07029bfcdb2dce28d959f2815b16f81798," ++
  "02c6047f9441ed7d6d3045406e95c07cd85c778e4b8cef3ca7abac09b95c709ee5," ++
  "02f9308a019258c31049344f85f89d5229b531c845836f99b08601f113bce036f9"

/-- The member that a part of the list of keys stands for. -/
def memberOfKey (text : String) : Except ConfigError Member :=
  match PublicKey.ofText? text with
  | some k => .ok (.ofKey k)
  | none => .error (.genesisKey text)

/-- The first federation, from its keys separated by commas. -/
def genesisOfKeys (keys : String) (timeMs : UInt64) (d : Deployment) :
    Except ConfigError Federation :=
  match (Text.commaSeparated keys).mapM memberOfKey with
  | .error e => .error e
  | .ok members => (Federation.form members timeMs 0 d.network).mapError .genesis

/-- A setting that only tests may leave out. -/
def required (s : Settings) (setting default : String) (d : Deployment) :
    Except ConfigError String :=
  match s setting with
  | some value => .ok value
  | none => if d = .regtest then .ok default else .error (.missing setting)

/-- A number below a bound, or the default where the setting is missing. -/
def number (s : Settings) (setting : String) (bound default : Nat) : Except ConfigError Nat :=
  match s setting with
  | none => .ok default
  | some value =>
    match Text.natBelow? bound (Text.trim value) with
    | some n => .ok n
    | none => .error (.notANumber setting value)

/-- The accounts that may vote, separated by commas. -/
def authorizer (s : Settings) (setting : String) (quorum : Quorum) (d : Deployment) :
    Except ConfigError Authorizer := do
  let raw ← required s setting "" d
  let addresses ← (Text.commaSeparated raw).mapM fun part =>
    (HostAddress.ofText part).mapError (.notAnAddress setting)
  return ⟨SortedSet.ofElements addresses, quorum⟩

/-- The constants that the settings describe. -/
def constantsOf (s : Settings) : Except ConfigError Constants := do
  let deployment ← Deployment.ofName ((s Setting.network).getD "regtest")
  let timeMs ← number s Setting.genesisTime UInt64.size 0
  let keys ← required s Setting.genesisKeys testKeys deployment
  let genesis ← genesisOfKeys keys (UInt64.ofNat timeMs) deployment
  let preset := Constants.preset deployment genesis
  let federationAuthorizer ← authorizer s Setting.federationAuthorizers .majority deployment
  let feeAuthorizer ← authorizer s Setting.feeAuthorizers .majority deployment
  let whitelistAuthorizer ← authorizer s Setting.whitelistAuthorizers .one deployment
  let btcConfirmations ← number s Setting.btcConfirmations UInt32.size preset.btcConfirmations
  let hostConfirmations ← number s Setting.hostConfirmations UInt64.size preset.hostConfirmations
  let fee ← number s Setting.genesisFee UInt64.size preset.genesisFeePerKb.sats
  let constants := { preset with
    federationAuthorizer, feeAuthorizer, whitelistAuthorizer, btcConfirmations,
    hostConfirmations, genesisFeePerKb := .clamp fee }
  constants.validate
  return constants

/-- The configuration that the settings describe. -/
def ofSettings (s : Settings) : Except ConfigError Configuration := do
  let constants ← constantsOf s
  return {
    constants
    storePath := (s Setting.storePath).getD "fedpeg-state.db"
    logLevel := (s Setting.logLevel).getD "info"
    jsonLogs := s Setting.jsonLogs == some "1" }

/-- The configuration as lines for an operator. -/
def summary (c : Configuration) : List String :=
  let k := c.constants
  ["=== fedpeg Configuration ===",
   "Network: " ++ k.deployment.title,
   s!"Genesis Federation: {k.genesis.threshold}-of-{k.genesis.size}",
   s!"BTC->Host Confirmations: {k.btcConfirmations}",
   s!"Host->BTC Confirmations: {k.hostConfirmations}",
   s!"Minimum Lock Value: {k.minimumLock.sats} sats",
   s!"Genesis Fee/kB: {k.genesisFeePerKb.sats} sats",
   "State DB: " ++ c.storePath,
   "Log Level: " ++ c.logLevel,
   "============================"]

end Configuration

end TwoWayPeg
