import TwoWayPeg.Peg.Invocation

/-!
# Votes on the fee

The fee for a thousand bytes is voted on by amount. An amount wins as soon as enough votes are for
it, and then all votes are cleared.
-/

namespace TwoWayPeg.FeeVote

/-- The function that votes are for. -/
def function : String := "setFeePerKb"

/-- The code of a vote that is taken. -/
def succeeded : Int := 1

/-- The code of a vote that was cast before. -/
def repeated : Int := -1

/-- The code of a vote that is not allowed, and of one for an amount that cannot be. -/
def refused : Int := -10

/-- The call that sets a fee. -/
def callFor (fee : Amount) : CallSpec := ⟨function, [Bytes.ofNatBE 8 fee.sats]⟩

/-- The fee that a call sets. -/
def feeOf? (call : CallSpec) : Option Amount :=
  match call.arguments with
  | [] => none
  | bytes :: _ => if bytes.length = 8 then Amount.ofNat? (Bytes.toNatBE bytes) else none

/-- Whether an amount can be a fee. -/
def isPossible (fee : Amount) : Bool := 0 < fee.sats && fee.sats ≤ Amount.maxMoney

/-- Gives notice of a vote and answers with its code. -/
def answer (voter : HostAddress) (code : Int) (w : World) : Int × World :=
  (code, w.notify (.election function voter.text code))

/-- The state with a fee and without votes. -/
def setFee (fee : Amount) (s : State) : State :=
  { s with feePerKb := some fee, feeElection := .empty }

/-- Takes a vote for a fee, and sets the fee that wins by it. -/
def vote (i : Invocation) (voter : HostAddress) (fee : Amount) (w : World) : Int × World :=
  let authorizer := i.constants.feeAuthorizer
  if !authorizer.allows voter || !isPossible fee then answer voter refused w
  else
    match w.state.feeElection.vote? (callFor fee) voter authorizer with
    | none => answer voter repeated w
    | some election =>
      let w := { w with state := { w.state with feeElection := election } }
      match election.winner? authorizer with
      | none => answer voter succeeded w
      | some winner =>
        match feeOf? winner with
        | none => (refused, w)
        | some fee => answer voter succeeded { w with state := setFee fee w.state }

end TwoWayPeg.FeeVote
