import TwoWayPeg.Peg.Invocation

/-!
# Votes on the federation

A federation is changed in steps that are voted on one by one: a pending federation is created,
members are added to it, and it is committed by the digest of its keys or rolled back. A change is
judged before a vote for it is taken, and it is performed when it wins.

* `FederationVote.judge` gives the code of a change without performing it.
* `FederationVote.vote` takes a vote and performs a winning change.
-/

namespace TwoWayPeg

/-- A change of the federation. -/
inductive FederationChange
  | create
  | add (member : Member)
  | commit (hash : FixedBytes 32)
  | rollback
deriving DecidableEq

namespace FederationVote

/-- The code of a change that is done. -/
def succeeded : Int := 1

/-- The code of a vote that is not taken, and of a change that cannot be made. -/
def refused : Int := -10

/-- The key that bytes encode, in its short encoding whatever encoding was used. -/
def memberKey? (b : Bytes) : Option PublicKey :=
  (PublicKey.ofBytes? b).bind PublicKey.compressed?

/-- The change that a call asks for. -/
def changeOf? (c : CallSpec) : Option FederationChange :=
  match c.function, c.arguments with
  | "create", [] => some .create
  | "add", [key] => (memberKey? key).map fun k => .add (.ofKey k)
  | "add-multi", [btc, host, mst] =>
    match memberKey? btc, memberKey? host, memberKey? mst with
    | some btc, some host, some mst => some (.add ⟨btc, host, mst⟩)
    | _, _, _ => none
  | "commit", [hash] => (FixedBytes.ofList? 32 hash).map .commit
  | "rollback", [] => some .rollback
  | _, _ => none

/-! ### Judging -/

/-- The federation that committing would form in the block. -/
def formed (i : Invocation) (p : PendingFederation) : Except FederationError Federation :=
  p.form i.block.timestampMs i.block.number i.constants.network

/-- The code for creating a pending federation: there is none yet, none is waiting to take over, and
none is retiring. -/
def judgeCreate (i : Invocation) (s : State) : Int :=
  if s.federations.pending.isSome then -1
  else if s.federations.isAwaiting i.constants.activationAge i.number then -2
  else if (i.retiring s).isSome then -3
  else succeeded

/-- The code for adding a member: there is a pending federation and no key is used twice. -/
def judgeAdd (s : State) (m : Member) : Int :=
  match s.federations.pending with
  | none => -1
  | some p => if p.conflictsWith m then -2 else succeeded

/-- The code for committing: there are enough members, the digest is that of their keys, and they
form a federation. -/
def judgeCommit (i : Invocation) (s : State) (hash : FixedBytes 32) : Int :=
  match s.federations.pending with
  | none => -1
  | some p =>
    if !p.isComplete i.constants.minimumPendingSize then -2
    else if p.hash ≠ hash then -3
    else
      match formed i p with
      | .error _ => refused
      | .ok _ => succeeded

/-- The code for rolling back: there is a pending federation. -/
def judgeRollback (s : State) : Int := if s.federations.pending.isNone then -1 else succeeded

/-- The code of a change, which is negative if it cannot be made. -/
def judge (i : Invocation) (s : State) : FederationChange → Int
  | .create => judgeCreate i s
  | .add m => judgeAdd s m
  | .commit hash => judgeCommit i s hash
  | .rollback => judgeRollback s

/-! ### Performing -/

/-- The state with another pending federation. -/
def withPending (s : State) (pending : Option PendingFederation) : State :=
  { s with federations := { s.federations with pending } }

/-- The state with an empty pending federation and without votes. -/
def create (i : Invocation) (w : World) : World :=
  let state := { withPending w.state (some .empty) with federationElection := .empty }
  { w with state }.notify
    (.federation "pending_federation_created" (.obj [("block", .natural i.number)]))

/-- The world with one more pending member. -/
def addMember (m : Member) (p : PendingFederation) (w : World) : World :=
  let p := p.add m
  { w with state := withPending w.state (some p) }.notify
    (.federation "federator_added"
      (.obj [("btc_public_key", .str m.btc.text), ("pending_size", .natural p.size)]))

/-- The state in which a federation is the new one: the active federation becomes the old one, and
the outputs go along. What the old place held before is dropped. -/
def install (i : Invocation) (new : Federation) (s : State) : State :=
  { s with
    federations := ⟨some new, some (i.active s), none⟩
    holdings := ⟨[], s.holdings.new⟩
    federationElection := .empty }

/-- The world with a federation installed. -/
def commit (i : Invocation) (new : Federation) (w : World) : World :=
  let active := i.active w.state
  { w with state := install i new w.state }.notify
    (.federation "federation_committed"
      (.obj [("old_redeem_script", .str (Hex.encode active.redeemScript)),
        ("new_redeem_script", .str (Hex.encode new.redeemScript)),
        ("new_size", .natural new.size), ("block", .natural i.number)]))

/-- The world without the pending federation and without votes. -/
def rollback (i : Invocation) (w : World) : World :=
  let state := { withPending w.state none with federationElection := .empty }
  { w with state }.notify
    (.federation "pending_federation_rolled_back" (.obj [("block", .natural i.number)]))

/-- Performs a change that has been judged to be possible. -/
def perform (i : Invocation) (w : World) : FederationChange → World
  | .create => create i w
  | .add m =>
    match w.state.federations.pending with
    | some p => addMember m p w
    | none => w
  | .commit _ =>
    match w.state.federations.pending with
    | none => w
    | some p =>
      match formed i p with
      | .ok new => commit i new w
      | .error _ => w
  | .rollback => rollback i w

/-- Makes a change if it is possible, and gives its code. -/
def execute (i : Invocation) (change : FederationChange) (w : World) : Int × World :=
  let code := judge i w.state change
  if code < 0 then (code, w) else (code, perform i w change)

/-! ### Voting -/

/-- Gives notice of a vote and answers with its code. -/
def answer (function : String) (voter : HostAddress) (code : Int) (w : World) : Int × World :=
  (code, w.notify (.election function voter.text code))

/-- Executes a call that has won and clears its votes. -/
def conclude (i : Invocation) (winner : CallSpec) (w : World) : Int × World :=
  let (code, w) :=
    match changeOf? winner with
    | some change => execute i change w
    | none => (refused, w)
  let election := w.state.federationElection.withoutWinner i.constants.federationAuthorizer
  let w := { w with state := { w.state with federationElection := election } }
  if code < 0 then
    (code, w.alert .voteExecutionFailed
      ("winning federation change " ++ winner.text ++ s!" failed with {code}"))
  else (code, w)

/-- Takes a vote for a call, and executes the call that wins by it. -/
def vote (i : Invocation) (voter : HostAddress) (call : CallSpec) (w : World) : Int × World :=
  let authorizer := i.constants.federationAuthorizer
  if !authorizer.allows voter then answer call.function voter refused w
  else
    match changeOf? call with
    | none => answer call.function voter refused w
    | some change =>
      let code := judge i w.state change
      if code < 0 then answer call.function voter code w
      else
        match w.state.federationElection.vote? call voter authorizer with
        | none => answer call.function voter refused w
        | some election =>
          let w := { w with state := { w.state with federationElection := election } }
          match election.winner? authorizer with
          | none => answer call.function voter code w
          | some winner =>
            let (code, w) := conclude i winner w
            answer winner.function voter code w

end FederationVote

end TwoWayPeg
