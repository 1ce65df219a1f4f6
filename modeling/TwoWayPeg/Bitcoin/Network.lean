/-!
# Networks

`Network` lists the bitcoin networks that a federation can have been recorded for. A peg itself is
deployed on one of three of them, and which one decides its presets.
-/

namespace TwoWayPeg

/-- A bitcoin network. -/
inductive Network
  | bitcoin | testnet | testnet4 | signet | regtest
deriving DecidableEq

namespace Network

/-- The name in records. -/
def name : Network → String
  | bitcoin => "bitcoin"
  | testnet => "testnet"
  | testnet4 => "testnet4"
  | signet => "signet"
  | regtest => "regtest"

/-- The name in messages. -/
def title : Network → String
  | bitcoin => "Bitcoin"
  | testnet => "Testnet"
  | testnet4 => "Testnet4"
  | signet => "Signet"
  | regtest => "Regtest"

/-- All networks. -/
def all : List Network := [bitcoin, testnet, testnet4, signet, regtest]

/-- The network of a name in records. -/
def ofName? (s : String) : Option Network := all.find? fun n => n.name == s

/-- A network is read back from its name. -/
theorem ofName?_name (n : Network) : ofName? n.name = some n := by cases n <;> decide

end Network

/-- Where a peg is deployed. -/
inductive Deployment
  | mainnet | testnet | regtest
deriving DecidableEq

namespace Deployment

/-- The bitcoin network of a deployment. -/
def network : Deployment → Network
  | mainnet => .bitcoin
  | testnet => .testnet
  | regtest => .regtest

/-- The name in messages. -/
def title : Deployment → String
  | mainnet => "Mainnet"
  | testnet => "Testnet"
  | regtest => "Regtest"

/-- The name in records. -/
def name : Deployment → String
  | mainnet => "mainnet"
  | testnet => "testnet"
  | regtest => "regtest"

/-- The deployment of a name in records. -/
def named? (s : String) : Option Deployment :=
  [mainnet, testnet, regtest].find? fun d => d.name == s

end Deployment

end TwoWayPeg
