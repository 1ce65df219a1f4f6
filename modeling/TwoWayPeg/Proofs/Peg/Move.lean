import Mathlib.Logic.Relation
import TwoWayPeg.Peg.Operation
import TwoWayPeg.Proofs.Peg.Settlement
import TwoWayPeg.Proofs.Release.Pass

/-!
# The moves of the peg

An operation changes the state in a few kinds of moves: it records a transaction, adds one to the
waiting ones, passes one on to be signed, takes a ballot, and so on. `Operation.Move` lists all kinds
with what is known when they are made, and `Operation.run_moves` says that every operation, in every
world and block, makes nothing but moves. A property of states that every move keeps is then kept
by all operations, and the operations need not be taken apart again for it.

A registration that credits a deposit is two moves, as the whitelist entry is charged apart; an
update is any number of moves.
-/

namespace TwoWayPeg

/-! ### Where outputs are kept -/

namespace Invocation

variable (i : Invocation) (s : State)

/-- While a federation retires, the active one is the new one. -/
theorem activeSlot_of_retiring {s : State} {f : Federation} (h : i.retiring s = some f) :
    i.activeSlot s = .new := by
  unfold retiring FederationSlots.retiring at h
  unfold activeSlot FederationSlots.activeSlot
  split at h
  · next new old hnew hold =>
    split at h
    · next hage => simp [hnew, hold, hage]
    · cases h
  · cases h

/-- The holdings with other outputs for the active federation. -/
def replaceActive (us : List Utxo) : Holdings :=
  match i.activeSlot s with
  | .old => { s.holdings with old := us }
  | _ => { s.holdings with new := us }

/-- Only the holdings change with the outputs of the active federation. -/
theorem withActiveUtxos_eq (us : List Utxo) :
    i.withActiveUtxos s us = { s with holdings := i.replaceActive s us } := by
  unfold withActiveUtxos replaceActive
  cases i.activeSlot s <;> rfl

/-- The list of the active federation is one of the two, and the other one stays. -/
theorem replaceActive_cases (us : List Utxo) :
    (i.activeUtxos s = s.holdings.old ∧ i.replaceActive s us = { s.holdings with old := us }) ∨
      (i.activeUtxos s = s.holdings.new ∧
        i.replaceActive s us = { s.holdings with new := us }) := by
  unfold activeUtxos replaceActive
  cases i.activeSlot s with
  | old => exact .inl ⟨rfl, rfl⟩
  | genesis => exact .inr ⟨rfl, rfl⟩
  | new => exact .inr ⟨rfl, rfl⟩

end Invocation

namespace Registration

variable (i : Invocation) (m : MinedTransaction) (s : State)

/-- The outputs of a transaction that pay to a script. -/
def paidTo (script : Script) : List Utxo := Utxo.ofOutputs m.tx m.height (· == script)

/-- The outputs of a transaction that belong into the old place: those of the retiring federation,
unless they are the active federation's as well. -/
def paidToRetiring : List Utxo :=
  match i.retiring s with
  | none => []
  | some f => if f.payScript = (i.active s).payScript then [] else paidTo m f.payScript

/-- The holdings with the outputs of a transaction. -/
def savedHoldings : Holdings :=
  let withActive := i.replaceActive s
    (Utxo.addNew (i.activeUtxos s) (paidTo m (i.active s).payScript))
  { withActive with old := Utxo.addNew withActive.old (paidToRetiring i m s) }

/-- Saving outputs changes nothing but the holdings. -/
theorem saveUtxos_eq : saveUtxos i m s = { s with holdings := savedHoldings i m s } := by
  unfold saveUtxos savedHoldings paidToRetiring
  simp only [Invocation.withActiveUtxos_eq]
  cases i.retiring s with
  | none => rfl
  | some f =>
    by_cases hscript : f.payScript = (i.active s).payScript
    · simp only [hscript, if_true]
      rfl
    · simp only [hscript, if_false]
      rfl

/-- Keeping a transaction records it and saves its outputs. -/
theorem state_of_keep (w : World) :
    (keep i m w).state = { w.state with
      processed := w.state.processed.insert m.txid i.block.number
      holdings := savedHoldings i m w.state } := by
  rw [keep, saveUtxos_eq]
  rfl

end Registration

/-! ### The moves -/

namespace Operation

/-- Whether an operation may change the whitelist. -/
def concernsWhitelist : Operation → Bool
  | register _ _ _ | listOneOff _ _ _ _ | listUnlimited _ _ _ | unlist _ _ | openWhitelist _ _ =>
    true
  | _ => false

/-- A change that an operation makes to the state at once, in the block of an invocation. -/
inductive Move (i : Invocation) : Operation → State → State → Prop
  /-- The whitelist is changed or an entry is charged. -/
  | list {op : Operation} (s : State) (whitelist : Whitelist) (hop : op.concernsWhitelist) :
    Move i op s { s with whitelist }
  /-- A transaction is recorded together with the outputs that pay the live federations. -/
  | keep {raw proof : Bytes} {height : Int} (s : State) (m : Registration.MinedTransaction)
    (hmined : Registration.examine i s raw height proof = .ok (.genuine m)) :
    Move i (.register raw height proof) s
      { s with
        processed := s.processed.insert m.txid i.block.number
        holdings := Registration.savedHoldings i m s }
  /-- A transaction is recorded and none of its outputs. -/
  | mark {raw proof : Bytes} {height : Int} (s : State) (m : Registration.MinedTransaction)
    (hmined : Registration.examine i s raw height proof = .ok (.genuine m)) :
    Move i (.register raw height proof) s (Registration.markProcessed i m s)
  /-- A transaction is recorded and what it paid is sent back. -/
  | refund {raw proof : Bytes} {height : Int} (s : State) (m : Registration.MinedTransaction)
    (destination : Script) (built : BuiltTransaction)
    (hmined : Registration.examine i s raw height proof = .ok (.genuine m))
    (hbuilt : (Wallet.of
        (Utxo.ofOutputs m.tx m.height fun script => (i.live s).any fun f => f.payScript == script)
        (i.live s) (i.active s).payScript (i.feePerKb s) i.constants).payAll destination =
      .ok built) :
    Move i (.register raw height proof) s
      { s with
        processed := s.processed.insert m.txid i.block.number
        waiting := WaitingList.add s.waiting built.tx i.block.number }
  /-- A request is queued. -/
  | request {tx : HostTransaction} (s : State) (destination : Script) (amount : Amount)
    (hamount : i.constants.minimumRelease.sats < amount.sats) :
    Move i (.release tx) s
      { s with requests := ReleaseQueue.add s.requests destination amount }
  /-- Funds of the retiring federation are sent to the active one. -/
  | migrate {hash : HostTxHash} (s : State) (retiring : Federation) (built : BuiltTransaction)
    (hretiring : i.retiring s = some retiring)
    (hbuilt : (Wallet.of s.holdings.old [retiring] (i.active s).payScript (i.feePerKb s)
        i.constants).migrate (i.active s).payScript (.clamp (Utxo.total s.holdings.old)) =
      .ok built) :
    Move i (.update hash) s
      { s with
        holdings := { s.holdings with old := Utxo.withoutSpent s.holdings.old built.tx }
        waiting := WaitingList.add s.waiting built.tx i.block.number }
  /-- The retiring federation is forgotten at the end of its window. -/
  | forget {hash : HostTxHash} (s : State) (retiring : Federation)
    (hretiring : i.retiring s = some retiring)
    (hage : i.constants.activationAge + i.constants.migrationEnd ≤
      i.number - (i.active s).creationBlock.toNat) :
    Move i (.update hash) s (Migration.forget s)
  /-- A requested release is built. -/
  | build {hash : HostTxHash} (s : State) (r : ReleaseRequest) (built : BuiltTransaction)
    (hbuilt : (Wallet.of (i.activeUtxos s) [i.active s] (i.active s).payScript (i.feePerKb s)
        i.constants).pay r.destination r.amount = .ok built) :
    Move i (.update hash) s (Payout.record i built.tx s)
  /-- The queue is what a pass has left of it. -/
  | requeue {hash : HostTxHash} (s : State) (requests : ReleaseQueue) :
    Move i (.update hash) s { s with requests }
  /-- A waiting transaction is passed on to be signed. -/
  | promote {hash : HostTxHash} (s : State) :
    Move i (.update hash) s (Payout.promote i hash s)
  /-- Signatures of a live member are taken. -/
  | sign {key : PublicKey} {signatures : List Bytes} {hash : HostTxHash} (s : State)
    (hlive : (i.live s).any fun f => f.hasKey key) :
    Move i (.addSignatures key signatures hash) s
      { s with pending := (PendingSignatures.submit s.pending hash key signatures).2 }
  /-- A vote on the federation is taken. -/
  | ballot {voter : HostAddress} {call : CallSpec} (s : State) (election : Election)
    (hvote : s.federationElection.vote? call voter i.constants.federationAuthorizer =
      some election) :
    Move i (.voteFederation voter call) s { s with federationElection := election }
  /-- A pending federation is created, and all votes are cleared. -/
  | create {voter : HostAddress} {call : CallSpec} (s : State)
    (hcode : ¬ FederationVote.judgeCreate i s < 0) :
    Move i (.voteFederation voter call) s
      { FederationVote.withPending s (some .empty) with federationElection := .empty }
  /-- A member is added to the pending federation. -/
  | addMember {voter : HostAddress} {call : CallSpec} (s : State) (m : Member)
    (p : PendingFederation) (hpending : s.federations.pending = some p)
    (hcode : ¬ FederationVote.judgeAdd s m < 0) :
    Move i (.voteFederation voter call) s (FederationVote.withPending s (some (p.add m)))
  /-- The federation that the pending members form is installed. -/
  | install {voter : HostAddress} {call : CallSpec} (s : State) (hash : FixedBytes 32)
    (p : PendingFederation) (new : Federation) (hpending : s.federations.pending = some p)
    (hcode : ¬ FederationVote.judgeCommit i s hash < 0)
    (hformed : FederationVote.formed i p = .ok new) :
    Move i (.voteFederation voter call) s (FederationVote.install i new s)
  /-- The pending federation is dropped, and all votes are cleared. -/
  | rollback {voter : HostAddress} {call : CallSpec} (s : State)
    (hcode : ¬ FederationVote.judgeRollback s < 0) :
    Move i (.voteFederation voter call) s
      { FederationVote.withPending s none with federationElection := .empty }
  /-- The votes for the winner are cleared. -/
  | conclude {voter : HostAddress} {call : CallSpec} (s : State) :
    Move i (.voteFederation voter call) s
      { s with
        federationElection :=
          s.federationElection.withoutWinner i.constants.federationAuthorizer }
  /-- A vote on the fee is taken. -/
  | feeBallot {voter : HostAddress} {fee : Amount} (s : State) (election : Election)
    (hvote : s.feeElection.vote? (FeeVote.callFor fee) voter i.constants.feeAuthorizer =
      some election) :
    Move i (.voteFee voter fee) s { s with feeElection := election }
  /-- The fee that has won is set. -/
  | setFee {voter : HostAddress} {fee : Amount} (s : State) (winner : CallSpec) (won : Amount)
    (hwinner : s.feeElection.winner? i.constants.feeAuthorizer = some winner)
    (hwon : FeeVote.feeOf? winner = some won) :
    Move i (.voteFee voter fee) s (FeeVote.setFee won s)

/-- Any number of moves. -/
abbrev Moves (i : Invocation) (op : Operation) : State → State → Prop :=
  Relation.ReflTransGen (Move i op)

/-- No move at all, where the state is the same. -/
theorem Moves.of_eq {i : Invocation} {op : Operation} {s t : State} (h : t = s) :
    op.Moves i s t := by
  rw [h]

end Operation

/-! ### Registrations -/

namespace Registration

variable {i : Invocation} {m : MinedTransaction} {raw proof : Bytes} {height : Int}

/-- What a deposit paid is sent back, or only its name is recorded. -/
theorem refund_move {w : World} (sender : PublicKey) (total : Nat)
    (hmined : examine i w.state raw height proof = .ok (.genuine m)) :
    Operation.Move i (.register raw height proof) w.state
      (markProcessed i m (refund i m sender total w).state) := by
  simp only [refund]
  split
  · exact .mark w.state m hmined
  · next built hbuilt => exact .refund w.state m _ built hmined hbuilt

/-- Every way of settling is made of moves. -/
theorem Settled.moves {w after : World} (h : Settled i m w after)
    (hmined : examine i w.state raw height proof = .ok (.genuine m)) :
    Operation.Moves i (.register raw height proof) w.state after.state := by
  cases h with
  | untouched _ hstate hledger => exact .of_eq hstate
  | credited sender ledger hkind hsender hlisted htransfer =>
    -- the examination does not look at the whitelist, so it finds the same after the charge
    refine .tail (.single (.list w.state (w.state.whitelist.charge sender.hash
      (m.tx.valueSentToAll (i.live w.state))) rfl)) ?_
    rw [state_of_keep]
    exact .keep { w.state with whitelist := (w.state.whitelist.charge sender.hash
      (m.tx.valueSentToAll (i.live w.state))) } m hmined
  | kept hkind =>
    rw [state_of_keep]
    exact .single (.keep w.state m hmined)
  | refused sender hkind hsender hlisted =>
    exact .single (refund_move sender (m.tx.valueSentToAll (i.live w.state)) hmined)

/-- A registration is made of moves. -/
theorem register_moves (i : Invocation) (raw : Bytes) (height : Int) (proof : Bytes) (w : World) :
    Operation.Moves i (.register raw height proof) w.state
      (register i raw height proof w).2.state := by
  rcases register_cases i raw height proof w with ⟨hstate, -⟩ | ⟨m, hmined, hsettled⟩
  · exact .of_eq hstate
  · exact hsettled.moves hmined

end Registration

/-! ### Updates -/

namespace Migration

variable {i : Invocation} {retiring : Federation} {hash : HostTxHash}

/-- Funds are sent to the active federation in one move. -/
theorem move_of_ok {s t : State} (hretiring : i.retiring s = some retiring)
    (h : move i retiring (i.active s) s = .ok t) : Operation.Move i (.update hash) s t := by
  simp only [move] at h
  split at h
  · cases h
  · next built hbuilt =>
    injection h with h
    rw [← h]
    exact .migrate s retiring built hretiring hbuilt

/-- What is worth moving is moved, or nothing happens. -/
theorem moveWithinWindow_moves {w : World} (hretiring : i.retiring w.state = some retiring) :
    Operation.Moves i (.update hash) w.state
      (moveWithinWindow i retiring (i.active w.state) w).state := by
  simp only [moveWithinWindow]
  split
  · split
    · next hmove => exact .single (move_of_ok hretiring hmove)
    · exact .refl
  · exact .refl

/-- What is left is moved, or nothing happens. -/
theorem moveRest_moves {w : World} (hretiring : i.retiring w.state = some retiring) :
    Operation.Moves i (.update hash) w.state
      (moveRest i retiring (i.active w.state) w).state := by
  simp only [moveRest]
  split
  · split
    · next hmove => exact .single (move_of_ok hretiring hmove)
    · exact .refl
  · exact .refl

/-- Moving what is left does not change the federations. -/
theorem federations_of_moveRest (i : Invocation) (retiring active : Federation) (w : World) :
    (moveRest i retiring active w).state.federations = w.state.federations := by
  simp only [moveRest]
  split
  · split
    · next hmove =>
      simp only [move] at hmove
      split at hmove
      · cases hmove
      · injection hmove with hmove
        rw [← hmove]
    · rfl
  · rfl

/-- What an update does about the retiring federation is made of moves. -/
theorem advance_moves (i : Invocation) (hash : HostTxHash) (w : World) :
    Operation.Moves i (.update hash) w.state (advance i w).state := by
  unfold advance
  split
  · exact .refl
  · next retiring hretiring =>
    simp only
    split
    · next hage =>
      have hfederations := federations_of_moveRest i retiring (i.active w.state) w
      refine (moveRest_moves hretiring).tail (.forget _ retiring ?_ ?_)
      · rw [Invocation.retiring, hfederations]
        exact hretiring
      · rw [Invocation.active, hfederations]
        exact hage
    · split
      · exact moveWithinWindow_moves hretiring
      · exact .refl

end Migration

namespace Payout

/-- A release is built in one move, or nothing happens. -/
theorem build_moves (i : Invocation) (hash : HostTxHash) (r : ReleaseRequest) (w : World) :
    Operation.Moves i (.update hash) w.state (build i r w).2.state := by
  simp only [build]
  split
  · exact .refl
  · next built hbuilt =>
    have hmove : Operation.Move i (.update hash) w.state (record i built.tx w.state) :=
      .build w.state r built hbuilt
    split
    · exact .single hmove
    · exact .single hmove

/-- The queued releases are built in moves. -/
theorem buildQueued_moves (i : Invocation) (hash : HostTxHash) (w : World) :
    Operation.Moves i (.update hash) w.state (buildQueued i w).2.state := by
  refine .tail ?_ (.requeue _ _)
  exact ReleaseQueue.passRounds_induct
    (R := fun before after : World => Operation.Moves i (.update hash) before.state after.state)
    (fun _ => .refl) (fun hst htu => hst.trans htu) (build_moves i hash) _ _ _ _

/-- An update is made of moves. -/
theorem update_moves (i : Invocation) (hash : HostTxHash) (w : World) :
    Operation.Moves i (.update hash) w.state (update i hash w).2.state := by
  have hadvance := Migration.advance_moves i hash w
  have hbuild := buildQueued_moves i hash (Migration.advance i w)
  simp only [update]
  split
  · next hqueued =>
    rw [hqueued] at hbuild
    exact hadvance.trans hbuild
  · next hqueued =>
    rw [hqueued] at hbuild
    exact (hadvance.trans hbuild).tail (.promote _)

/-- A request is queued in one move, or nothing happens. -/
theorem request_moves (i : Invocation) (tx : HostTransaction) (w : World) :
    Operation.Moves i (.release tx) w.state (request i tx w).2.state := by
  simp only [request]
  split
  · exact .refl
  · split
    · exact .refl
    · split
      · exact .refl
      · next hamount =>
        exact .single (.request w.state _ _ (Nat.not_le.mp hamount))

/-- Signatures are taken in one move, or nothing happens. -/
theorem addSignatures_moves (i : Invocation) (key : PublicKey) (signatures : List Bytes)
    (hash : HostTxHash) (s : State) :
    Operation.Moves i (.addSignatures key signatures hash) s
      (addSignatures i key signatures hash s).2 := by
  unfold addSignatures
  split
  · next hlive => exact .single (.sign s hlive)
  · exact .refl

end Payout

/-! ### Votes -/

namespace FederationVote

/-- A change that is possible is made in one move, unless there is nothing to change. -/
theorem execute_moves (i : Invocation) (voter : HostAddress) (call : CallSpec)
    (change : FederationChange) (w : World) :
    Operation.Moves i (.voteFederation voter call) w.state (execute i change w).2.state := by
  simp only [execute]
  split
  · exact .refl
  · next hcode =>
    cases change with
    | create => exact .single (.create w.state hcode)
    | add m =>
      simp only [perform]
      split
      · next p hpending => exact .single (.addMember w.state m p hpending hcode)
      · exact .refl
    | commit hash =>
      simp only [perform]
      split
      · exact .refl
      · next p hpending =>
        split
        · next new hformed =>
          exact .single (.install w.state hash p new hpending hcode hformed)
        · exact .refl
    | rollback => exact .single (.rollback w.state hcode)

/-- The winning call is executed in moves. -/
theorem conclude_moves (i : Invocation) (voter : HostAddress) (call winner : CallSpec)
    (w : World) :
    Operation.Moves i (.voteFederation voter call) w.state (conclude i winner w).2.state := by
  simp only [conclude]
  split
  · next change hchange =>
    have hexecuted := execute_moves i voter call change w
    split
    · exact hexecuted.tail (.conclude _)
    · exact hexecuted.tail (.conclude _)
  · split
    · exact .single (.conclude _)
    · exact .single (.conclude _)

/-- A vote on the federation is made of moves. -/
theorem vote_moves (i : Invocation) (voter : HostAddress) (call : CallSpec) (w : World) :
    Operation.Moves i (.voteFederation voter call) w.state (vote i voter call w).2.state := by
  simp only [vote]
  split
  · exact .refl
  · split
    · exact .refl
    · split
      · exact .refl
      · split
        · exact .refl
        · next election hvote =>
          have hballot : Operation.Move i (.voteFederation voter call) w.state
              { w.state with federationElection := election } := .ballot w.state election hvote
          split
          · exact .single hballot
          · next winner hwinner =>
            have hconclude := conclude_moves i voter call winner
              { w with state := { w.state with federationElection := election } }
            exact .head hballot hconclude

end FederationVote

/-- A vote on the fee is made of moves. -/
theorem FeeVote.vote_moves (i : Invocation) (voter : HostAddress) (fee : Amount) (w : World) :
    Operation.Moves i (.voteFee voter fee) w.state (vote i voter fee w).2.state := by
  simp only [vote]
  split
  · exact .refl
  · split
    · exact .refl
    · next election hvote =>
      have hballot : Operation.Move i (.voteFee voter fee) w.state
          { w.state with feeElection := election } := .feeBallot w.state election hvote
      split
      · exact .single hballot
      · next winner hwinner =>
        split
        · exact .single hballot
        · next won hwon =>
          exact .head hballot (.single (.setFee _ winner won hwinner hwon))

/-! ### The whitelist -/

namespace WhitelistChange

variable {i : Invocation} {op : Operation} {caller : HostAddress}

/-- A whitelist operation is made of moves when it changes nothing but the whitelist. -/
theorem moves_of_list (hop : op.concernsWhitelist) {s t : State}
    (h : t = s ∨ ∃ whitelist, t = { s with whitelist }) : op.Moves i s t := by
  rcases h with h | ⟨whitelist, h⟩
  · exact .of_eq h
  · rw [h]
    exact .single (.list s whitelist hop)

/-- Listing an address changes nothing but the whitelist. -/
theorem addEntry_eq (entry : WhitelistEntry) (s : State) :
    (addEntry i caller entry s).2 = s ∨
      ∃ whitelist, (addEntry i caller entry s).2 = { s with whitelist } := by
  unfold addEntry
  split
  · exact .inl rfl
  · split
    · exact .inl rfl
    · split
      · exact .inr ⟨_, rfl⟩
      · exact .inl rfl

/-- Listing an address for a number of locks changes nothing but the whitelist. -/
theorem addOneOff_eq (address : String) (maxValue : Amount) (uses : UInt32) (s : State) :
    (addOneOff i caller address maxValue uses s).2 = s ∨
      ∃ whitelist, (addOneOff i caller address maxValue uses s).2 = { s with whitelist } := by
  unfold addOneOff
  split
  · exact .inl rfl
  · exact addEntry_eq _ s

/-- Striking an address off changes nothing but the whitelist. -/
theorem remove_eq (address : String) (s : State) :
    (remove i caller address s).2 = s ∨
      ∃ whitelist, (remove i caller address s).2 = { s with whitelist } := by
  unfold remove
  split
  · exact .inl rfl
  · split
    · exact .inl rfl
    · split
      · exact .inr ⟨_, rfl⟩
      · exact .inl rfl

/-- Opening the whitelist changes nothing but the whitelist. -/
theorem disableAfter_eq (delay : Int) (s : State) :
    (disableAfter i caller delay s).2 = s ∨
      ∃ whitelist, (disableAfter i caller delay s).2 = { s with whitelist } := by
  unfold disableAfter
  split
  · exact .inl rfl
  · split
    · exact .inl rfl
    · split
      · exact .inl rfl
      · split
        · exact .inr ⟨_, rfl⟩
        · exact .inl rfl

end WhitelistChange

/-! ### All operations -/

/-- What a move does to the records: it leaves them as they are or records a genuine transaction. -/
theorem Operation.Move.processed_cases {i : Invocation} {op : Operation} {s t : State}
    (h : op.Move i s t) :
    t.processed = s.processed ∨
      ∃ raw height proof m, op = .register raw height proof ∧
        Registration.Genuine i s raw height proof m ∧
        t.processed = s.processed.insert m.txid i.block.number := by
  cases h with
  | keep _ m hmined =>
    exact .inr ⟨_, _, _, m, rfl, Registration.genuine_of_examine hmined, rfl⟩
  | mark _ m hmined =>
    exact .inr ⟨_, _, _, m, rfl, Registration.genuine_of_examine hmined, rfl⟩
  | refund _ m destination built hmined hbuilt =>
    exact .inr ⟨_, _, _, m, rfl, Registration.genuine_of_examine hmined, rfl⟩
  | build _ r built hbuilt =>
    rw [Payout.record, Invocation.withActiveUtxos_eq]
    exact .inl rfl
  | promote _ =>
    rw [Payout.promote]
    split
    · exact .inl rfl
    · exact .inl rfl
  | _ => exact .inl rfl

/-- **Every operation makes nothing but moves**, whether it succeeds or fails. -/
theorem Operation.run_moves (i : Invocation) (w : World) (op : Operation) :
    op.Moves i w.state (op.run i w).2.state := by
  cases op with
  | register raw height proof => exact Registration.register_moves i raw height proof w
  | release tx => exact Payout.request_moves i tx w
  | update hash => exact Payout.update_moves i hash w
  | addSignatures key signatures hash =>
    exact Payout.addSignatures_moves i key signatures hash w.state
  | voteFederation voter call => exact FederationVote.vote_moves i voter call w
  | voteFee voter fee => exact FeeVote.vote_moves i voter fee w
  | listOneOff caller address maxValue uses =>
    exact WhitelistChange.moves_of_list rfl (WhitelistChange.addOneOff_eq address maxValue uses _)
  | listUnlimited caller address capacity =>
    exact WhitelistChange.moves_of_list rfl (WhitelistChange.addEntry_eq _ _)
  | unlist caller address =>
    exact WhitelistChange.moves_of_list rfl (WhitelistChange.remove_eq address _)
  | openWhitelist caller delay =>
    exact WhitelistChange.moves_of_list rfl (WhitelistChange.disableAfter_eq delay _)

end TwoWayPeg
