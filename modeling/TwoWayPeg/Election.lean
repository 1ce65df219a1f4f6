import TwoWayPeg.Host.Account
import TwoWayPeg.Text.Order

/-!
# Elections

Changes of the peg are made by vote. A vote is for a call, that is a function with its arguments,
and an authorizer says who may vote and how many must agree. Ballots are kept in the order of the
calls and voters in the order of their accounts; the winner is the first call in that order with
enough voters.
-/

namespace TwoWayPeg

/-! ### Calls -/

/-- A call that is voted on. -/
structure CallSpec where
  function : String
  arguments : List Bytes
deriving DecidableEq

namespace CallSpec

/-- The call as text, its arguments in hexadecimal digits. -/
def text (c : CallSpec) : String :=
  c.function ++ "(" ++ ", ".intercalate (c.arguments.map Hex.encode) ++ ")"

/-- The call as a list of byte strings: the name, then the arguments. -/
def parts (c : CallSpec) : List Bytes := Hex.utf8 c.function :: c.arguments

/-- Lists of byte strings compared item by item. -/
def cmpParts : List Bytes → List Bytes → Ordering
  | [], [] => .eq
  | [], _ :: _ => .lt
  | _ :: _, [] => .gt
  | a :: as, b :: bs =>
    match Bytes.cmp a b with
    | .eq => cmpParts as bs
    | o => o

/-- Only equal lists compare equal. -/
theorem cmpParts_eq_iff (a b : List Bytes) : cmpParts a b = .eq ↔ a = b := by
  induction a generalizing b with
  | nil => cases b <;> simp [cmpParts]
  | cons x xs ih =>
    cases b with
    | nil => simp [cmpParts]
    | cons y ys =>
      simp only [cmpParts, List.cons.injEq, ← Bytes.cmp_eq_iff x y]
      cases h : Bytes.cmp x y <;> simp [ih]

/-- Comparing the other way round gives the opposite answer. -/
theorem cmpParts_swap (a b : List Bytes) : cmpParts a b = (cmpParts b a).swap := by
  induction a generalizing b with
  | nil => cases b <;> rfl
  | cons x xs ih =>
    cases b with
    | nil => rfl
    | cons y ys =>
      simp only [cmpParts, Bytes.cmp_swap x y]
      cases h : Bytes.cmp y x <;> simp [ih ys]

/-- Coming before is transitive. -/
theorem cmpParts_lt_trans {a b c : List Bytes} (hab : cmpParts a b = .lt)
    (hbc : cmpParts b c = .lt) : cmpParts a c = .lt := by
  induction a generalizing b c with
  | nil =>
    cases b with
    | nil => simp [cmpParts] at hab
    | cons y ys =>
      cases c with
      | nil => simp [cmpParts] at hbc
      | cons z zs => rfl
  | cons x xs ih =>
    cases b with
    | nil => simp [cmpParts] at hab
    | cons y ys =>
      cases c with
      | nil => simp [cmpParts] at hbc
      | cons z zs =>
        simp only [cmpParts] at hab hbc ⊢
        cases hxy : Bytes.cmp x y with
        | gt => simp [hxy] at hab
        | lt =>
          cases hyz : Bytes.cmp y z with
          | gt => simp [hyz] at hbc
          | lt => simp [Bytes.cmp_lt_trans hxy hyz]
          | eq => simp [← (Bytes.cmp_eq_iff y z).mp hyz, hxy]
        | eq =>
          have := (Bytes.cmp_eq_iff x y).mp hxy
          subst this
          cases hyz : Bytes.cmp x z with
          | gt => simp [hyz] at hbc
          | lt => rfl
          | eq =>
            simp only [hxy] at hab
            simp only [hyz] at hbc ⊢
            exact ih hab hbc

/-- Lists of parts are ordered part by part. -/
instance : KeyOrder (List Bytes) where
  cmp := cmpParts
  cmp_eq_iff := cmpParts_eq_iff
  cmp_swap := cmpParts_swap
  cmp_lt_trans := cmpParts_lt_trans

/-- Calls are ordered by their function and its arguments. -/
instance : KeyOrder CallSpec :=
  .ofInjective CallSpec.parts fun a b h => by
    cases a; cases b
    simp only [parts, List.cons.injEq] at h
    simp [Text.eq_of_utf8_eq h.1, h.2]

end CallSpec

/-! ### Voters -/

/-- How many of those who may vote have to agree. -/
inductive Quorum
  | one
  /-- More than half. -/
  | majority
  | all
deriving DecidableEq

namespace Quorum

/-- The name of the rule. -/
def name : Quorum → String
  | one => "one"
  | majority => "majority"
  | all => "all"

/-- The rule of a name. -/
def ofName? (s : String) : Option Quorum := [one, majority, all].find? fun q => q.name == s

end Quorum

/-- Who may vote, and how many have to agree. -/
structure Authorizer where
  addresses : SortedSet HostAddress
  quorum : Quorum
deriving DecidableEq

namespace Authorizer

/-- Whether an account may vote. -/
def allows (a : Authorizer) (voter : HostAddress) : Bool := a.addresses.contains voter

/-- The number of votes that decide. -/
def requiredVotes (a : Authorizer) : Nat :=
  match a.quorum with
  | .one => 1
  | .majority => a.addresses.size / 2 + 1
  | .all => a.addresses.size

end Authorizer

/-! ### Ballots -/

/-- The votes cast so far, by call. -/
structure Election where
  ballots : SortedMap CallSpec (SortedSet HostAddress)
deriving DecidableEq

namespace Election

/-- No vote yet. -/
def empty : Election := ⟨.empty⟩

/-- Those who have voted for a call. -/
def votersFor (e : Election) (call : CallSpec) : SortedSet HostAddress :=
  (e.ballots.get? call).getD .empty

/-- The election with one more vote, if the voter may vote and has not yet voted for the call. -/
def vote? (e : Election) (call : CallSpec) (voter : HostAddress) (a : Authorizer) :
    Option Election :=
  let voters := e.votersFor call
  if a.allows voter && !voters.contains voter then
    some ⟨e.ballots.insert call (SortedSet.add voters voter)⟩
  else none

/-- The first call with enough votes. -/
def winner? (e : Election) (a : Authorizer) : Option CallSpec :=
  (e.ballots.entries.find? fun b => a.requiredVotes ≤ b.2.size).map (·.1)

/-- The election without the votes for its winner. -/
def withoutWinner (e : Election) (a : Authorizer) : Election :=
  match e.winner? a with
  | some call => ⟨e.ballots.erase call⟩
  | none => e

end Election

end TwoWayPeg
