import TwoWayPeg.Bitcoin.Amount
import TwoWayPeg.Bitcoin.Script

/-!
# Requests for release

Whoever wants bitcoin back is put into a queue. A pass over the queue hands requests to a handler in
order, each at most once: what the handler has released leaves the queue, what it keeps goes to the
back, and a failure ends the pass with the request still in front.
-/

namespace TwoWayPeg

/-- A script to be paid and the amount that was given for it. -/
structure ReleaseRequest where
  destination : Script
  amount : Amount
deriving DecidableEq

/-- The requests, first one first. -/
abbrev ReleaseQueue := List ReleaseRequest

namespace ReleaseQueue

/-- The queue with one more request at its back. -/
def add (q : ReleaseQueue) (destination : Script) (amount : Amount) : ReleaseQueue :=
  q ++ [⟨destination, amount⟩]

/-- What a pass leaves behind. -/
structure Pass (ε σ : Type) where
  /-- The number of released requests, or the failure that ended the pass. -/
  result : Except ε Nat
  queue : ReleaseQueue
  /-- The state of the handler. -/
  state : σ

/-- Hands `rounds` requests to the handler, after `released` have been released. -/
def passRounds {ε σ : Type} (handler : ReleaseRequest → σ → Except ε Bool × σ) :
    Nat → Nat → ReleaseQueue → σ → Pass ε σ
  | 0, released, q, s => ⟨.ok released, q, s⟩
  | _ + 1, released, [], s => ⟨.ok released, [], s⟩
  | rounds + 1, released, r :: q, s =>
    match handler r s with
    | (.ok true, s) => passRounds handler rounds (released + 1) q s
    | (.ok false, s) => passRounds handler rounds released (q ++ [r]) s
    | (.error e, s) => ⟨.error e, r :: q, s⟩

/-- Hands at most `most` requests to the handler, none of them twice. -/
def pass {ε σ : Type} (q : ReleaseQueue) (most : Nat)
    (handler : ReleaseRequest → σ → Except ε Bool × σ) (s : σ) : Pass ε σ :=
  passRounds handler (min most q.length) 0 q s

end ReleaseQueue

end TwoWayPeg
