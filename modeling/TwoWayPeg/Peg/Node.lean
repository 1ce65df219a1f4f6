import TwoWayPeg.Peg.Operation

/-!
# A running peg

A node runs a peg over many calls. The header chain and the balances stay as calls leave them,
whether the calls succeed or not. The state is either held, and then a call that fails leaves what
it has changed, or it is kept in a store, and then a call that fails changes nothing of it.
-/

namespace TwoWayPeg

/-- Where the state of a peg is. -/
inductive Keeping
  | held (state : State)
  | stored (store : Store)

namespace Keeping

/-- The texts of the state, one for each part. -/
def texts : Keeping → Store.Batch
  | held state => Store.batchOf state
  | stored store => (Store.batchOf .initial).map fun e => (e.1, store.get? e.1)

/-- Asks something of the state. A store in which the question is answered is written anew. -/
def ask {α : Type} (k : Keeping) (question : State → Except PegError α) :
    Except PegError α × Keeping :=
  match k with
  | held state => (question state, k)
  | stored store =>
    let (answer, store, _) :=
      Store.transact .storage store () fun state => (question state, state, ())
    (answer, stored store)

end Keeping

/-- A peg with the chain and the balances that it works on. -/
structure Node where
  constants : Constants
  chain : HeaderChain
  ledger : Ledger
  keeping : Keeping

namespace Node

/-- Carries out an operation, and gives the notices of it. -/
def perform (n : Node) (i : Invocation) (op : Operation) :
    Except PegError Answer × Node × List Notice :=
  match n.keeping with
  | .held state =>
    let (answer, w) := op.run i ⟨state, n.ledger, []⟩
    (answer, { n with ledger := w.ledger, keeping := .held w.state }, w.notices)
  | .stored store =>
    let (answer, store, ledger, notices) := op.runStored i store n.ledger
    (answer, { n with ledger, keeping := .stored store }, notices)

/-- Asks something of the state. -/
def ask {α : Type} (n : Node) (question : State → Except PegError α) : Except PegError α × Node :=
  let (answer, keeping) := n.keeping.ask question
  (answer, { n with keeping })

/-- Adds headers to the chain, and tells how many were new. Headers are received only where the
state can be read. -/
def receiveHeaders (n : Node) (headers : List Header) : Except PegError Nat × Node :=
  let (chain, added) := n.chain.addAll headers
  match n.ask fun _ => .ok added with
  | (.ok added, n) => (.ok added, { n with chain })
  | (.error e, n) => (.error e, n)

end Node

end TwoWayPeg
