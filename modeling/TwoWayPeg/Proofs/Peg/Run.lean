import TwoWayPeg.Proofs.Peg.Move

/-!
# Runs of the peg

A run is any number of calls, each in its own block and with its own view of the header chain. The
balances may change between calls as they like. After a call that fails, the state is either what
the call has left or what it was before: both are runs.

* `Run.preserves`: what every move keeps holds after a run if it holds before.
* `Run.get?_processed`: what has been recorded is never removed and never changed.
-/

namespace TwoWayPeg

/-- A call of the peg: an operation in a block, and the world in which it is carried out. -/
structure Call where
  invocation : Invocation
  operation : Operation
  before : World

namespace Call

/-- The answer or the error of the call. -/
def answer (c : Call) : Except PegError Answer := (c.operation.run c.invocation c.before).1

/-- What the call leaves in memory, whether it succeeds or fails. -/
def after (c : Call) : World := (c.operation.run c.invocation c.before).2

/-- A registration leaves what registering leaves. -/
theorem after_of_register {c : Call} {raw proof : Bytes} {height : Int}
    (hop : c.operation = .register raw height proof) :
    c.after = (Registration.register c.invocation raw height proof c.before).2 := by
  rw [after, hop]
  rfl

/-- The states that a call may be followed by: the one in memory, and after a failure also the one
before the call. -/
inductive Leaves (c : Call) : State → Prop
  | kept : Leaves c c.after.state
  | discarded (e : PegError) (hfailed : c.answer = .error e) : Leaves c c.before.state

/-- A call makes nothing but moves. -/
theorem moves (c : Call) : c.operation.Moves c.invocation c.before.state c.after.state :=
  Operation.run_moves c.invocation c.before c.operation

/-- What every move keeps holds after a call if it holds before. -/
theorem Leaves.preserves {P : State → Prop} {c : Call} {t : State} (h : c.Leaves t)
    (hmove : ∀ s t, c.operation.Move c.invocation s t → P s → P t) (hbefore : P c.before.state) :
    P t := by
  cases h with
  | discarded e hfailed => exact hbefore
  | kept =>
    have hmoves := c.moves
    generalize c.after.state = after at hmoves
    induction hmoves with
    | refl => exact hbefore
    | tail _ hlast ih => exact hmove _ _ hlast ih

end Call

/-- A run from one state to another. -/
inductive Run : State → List Call → State → Prop
  | nil (s : State) : Run s [] s
  | cons {s t finish : State} {c : Call} {calls : List Call} (hbefore : c.before.state = s)
    (hleaves : c.Leaves t) (hrest : Run t calls finish) : Run s (c :: calls) finish

namespace Run

variable {start finish : State} {calls : List Call}

/-- What every move keeps holds after a run if it holds before. -/
theorem preserves {P : State → Prop} (h : Run start calls finish)
    (hmove : ∀ c ∈ calls, ∀ s t, c.operation.Move c.invocation s t → P s → P t)
    (hstart : P start) : P finish := by
  induction h with
  | nil s => exact hstart
  | cons hbefore hleaves hrest ih =>
    refine ih (fun c hc => hmove c (List.mem_cons_of_mem _ hc)) ?_
    refine hleaves.preserves (hmove _ List.mem_cons_self) ?_
    rw [hbefore]
    exact hstart

end Run

/-! ### Records are permanent -/

/-- A move does not touch what has been recorded. -/
theorem Operation.Move.get?_processed {i : Invocation} {op : Operation} {s t : State}
    (h : op.Move i s t) {txid : Txid} {block : UInt64} (hs : s.processed.get? txid = some block) :
    t.processed.get? txid = some block := by
  rcases h.processed_cases with heq | ⟨raw, height, proof, m, -, hgenuine, heq⟩
  · rw [heq]
    exact hs
  · -- a genuine transaction has not been recorded before, so its name is another one
    have hne : txid ≠ m.txid := by
      rintro rfl
      have hfresh := hgenuine.fresh
      rw [SortedMap.contains, hs] at hfresh
      cases hfresh
    rw [heq, SortedMap.get?_insert_ne _ _ hne]
    exact hs

/-- What has been recorded stays recorded, in the same block, throughout a run. -/
theorem Run.get?_processed {start finish : State} {calls : List Call}
    (h : Run start calls finish) {txid : Txid} {block : UInt64}
    (hstart : start.processed.get? txid = some block) :
    finish.processed.get? txid = some block :=
  h.preserves (fun _ _ _ _ hmove hs => hmove.get?_processed hs) hstart

/-! ### A small peg -/

namespace Example

/-- The base point of the curve as a key. -/
def key : PublicKey := ⟨PublicKey.shortForm Secp256k1.base, by decide +kernel⟩

/-- A federation with one member. -/
def federation : Federation := ⟨[.ofKey key], 0, 0, .regtest⟩

/-- A payment of a hundredth of a bitcoin to the federation, by the holder of the key. -/
def deposit : Transaction where
  version := 1
  inputs := [⟨⟨⟨.replicate 32 1⟩, 0⟩, Script.push [0x30] ++ Script.push key.bytes, 0xFFFFFFFF, []⟩]
  outputs := [⟨.clamp 1000000, federation.payScript⟩]
  lockTime := 0

/-- A release of the federation with a thousandth of a bitcoin as change. -/
def change : Transaction where
  version := 1
  inputs :=
    [⟨⟨⟨.replicate 32 2⟩, 0⟩, Script.push [0x30] ++ Script.push federation.redeemScript,
      0xFFFFFFFF, []⟩]
  outputs := [⟨.clamp 100000, federation.payScript⟩]
  lockTime := 0

/-- The digest of the deposit. -/
def depositDigest : FixedBytes 32 :=
  .ofNat 32 0x61be158d8050e0f5c7fc3997b5a0aa9dea01a0d52cdcb3186d14032cb45de76d

/-- The digest of the release. -/
def changeDigest : FixedBytes 32 :=
  .ofNat 32 0xd6cb2c8d8383d81a676e9b7bf176b3a60148dd7bec370d2ba2502593d449f5e4

/-- The root over the deposit and the release. -/
def sharedRoot : FixedBytes 32 :=
  .ofNat 32 0xc83d7291088abe182d33b9659751fa003b83f418437364500e3b0130eb438785

/-- The proof that the release is the second of two transactions, the deposit being the first. -/
def secondOfTwo : Bytes :=
  [2, 0, 0, 0, 2] ++ depositDigest.toList ++ changeDigest.toList ++ [1, 5]

/-- A header with a root. -/
def headerWith (root : FixedBytes 32) : Header := ⟨1, ⟨.replicate 32 0⟩, root, 0, 0, 0⟩

/-- A chain whose first two blocks hold nothing but the deposit and nothing but the release. -/
def chain : ChainView where
  bestHeight := 5
  initialHeight := 0
  headerAt
    | 0 => some (headerWith depositDigest)
    | 1 => some (headerWith changeDigest)
    | _ => none
  stored? _ := none

/-- An account that may vote and list. -/
def voter : HostAddress := ⟨.replicate 20 7⟩

/-- The presets for tests, with one voter and federations of one member. -/
def constants : Constants :=
  { Constants.preset .regtest federation with
    minimumPendingSize := 1
    federationAuthorizer := ⟨SortedSet.ofElements [voter], .one⟩
    whitelistAuthorizer := ⟨SortedSet.ofElements [voter], .one⟩ }

/-- An operation in a host block. -/
def call (block : UInt64) (op : Operation) (s : State) (l : Ledger) : Call where
  invocation := ⟨constants, chain, ⟨block, 0⟩⟩
  operation := op
  before := ⟨s, l, []⟩

/-- The state before the call. -/
theorem state_before_call (block : UInt64) (op : Operation) (s : State) (l : Ledger) :
    (call block op s l).before.state = s := rfl

/-- A vote in the first host block. -/
def vote (function : String) (arguments : List Bytes) (s : State) : Call :=
  call 1 (.voteFederation voter ⟨function, arguments⟩) s .empty

/-- The registration of the deposit, the only transaction of its block. -/
def registerDeposit : Operation :=
  .register deposit.encodePlain 0 ([1, 0, 0, 0, 1] ++ depositDigest.toList ++ [1, 1])

/-- The registration of the release, the only transaction of its block. -/
def registerChange : Operation :=
  .register change.encodePlain 1 ([1, 0, 0, 0, 1] ++ changeDigest.toList ++ [1, 1])

end Example

end TwoWayPeg
