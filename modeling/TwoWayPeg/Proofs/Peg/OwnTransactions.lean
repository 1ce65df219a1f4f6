import TwoWayPeg.Proofs.Peg.Recognition

/-!
# The peg is never its own depositor

What the peg has built comes back to it when it has been mined. As long as the federation whose
outputs it spends is live, it is known by the script that its inputs carry. Later it may pass for a
deposit, since what it pays to a live federation counts like a payment from outside. Nothing is
credited or sent back all the same, since a depositor is known by an input that pushes a signature
and a key and no more, and an input of a federation pushes at least three strings: the empty one, one
for each signature that is needed, and the script.

* `Wallet.Builds`: the three ways of building a transaction.
* `Wallet.Builds.three_le_of_frame`: how much the inputs of a built transaction push.
* `Registration.credits_nobody_of_builds`: registering a built transaction moves no money and charges
  nobody.
-/

namespace TwoWayPeg

/-! ### What a built transaction pushes -/

/-- A wallet builds a transaction: it pays an amount and keeps the change, it pays all that it has, or
it moves as much as possible of an amount to another script. -/
inductive Wallet.Builds (w : Wallet) : Transaction → Prop
  | release {destination : Script} {amount : Amount} {built : BuiltTransaction}
    (h : w.pay destination amount = .ok built) : w.Builds built.tx
  | refund {destination : Script} {built : BuiltTransaction}
    (h : w.payAll destination = .ok built) : w.Builds built.tx
  | migration {destination : Script} {amount : Amount} {built : BuiltTransaction}
    (h : w.migrate destination amount = .ok built) : w.Builds built.tx

/-- An input with empty slots pushes at least three strings, whoever owns its coin: no federation is
so small that it needs no signature. (A script that is too long to be pushed leaves no frame.) -/
theorem Coin.three_le_of_frame_input {c : Coin} {n : Nat} {redeem : Script}
    (h : c.input.frame = some (n, redeem)) : 3 ≤ n := by
  obtain ⟨cs, hchunks, rfl⟩ := TxIn.exists_chunks_of_frame h
  have hscript : c.input.scriptSig =
      (Script.ofChunks? (List.replicate (c.owner.threshold + 1) [] ++
        [c.owner.redeemScript])).getD [] := rfl
  have hthreshold : c.owner.threshold = c.owner.size / 2 + 1 := rfl
  rw [hscript] at hchunks
  rcases hwritten : Script.ofChunks? (List.replicate (c.owner.threshold + 1) [] ++
    [c.owner.redeemScript]) with - | script
  · rw [hwritten, Option.getD_none, Script.chunks, Script.instructions] at hchunks
    have hlength := congrArg List.length (Option.some.inj hchunks)
    rw [List.length_append] at hlength
    cases hlength
  · rw [hwritten, Option.getD_some, Script.chunks_of_ofChunks? hwritten] at hchunks
    have hlength := congrArg List.length (Option.some.inj hchunks)
    simp only [List.length_append, List.length_replicate, List.length_singleton] at hlength
    omega

namespace Wallet.Builds

variable {wallet : Wallet} {tx unsigned : Transaction}

/-- What is built spends some coins and has nothing in its slots. -/
theorem exists_unsigned (h : wallet.Builds tx) :
    ∃ coins outputs, tx = Wallet.unsigned coins outputs := by
  have hpaid : ∀ {destination changeScript : Script} {amount : Amount} {built : BuiltTransaction},
      wallet.payWithChange destination amount changeScript = .ok built →
        ∃ coins outputs, built.tx = Wallet.unsigned coins outputs := by
    intro destination changeScript amount built hpay
    obtain ⟨-, -, -, recipient, topped, -, htx, -⟩ := Wallet.payWithChange_eq_ok hpay
    exact ⟨_, _, htx⟩
  cases h with
  | release hbuilt => exact hpaid hbuilt
  | refund hbuilt =>
    obtain ⟨-, -, -, htx, -⟩ := Wallet.payAll_eq_ok hbuilt
    exact ⟨_, _, htx⟩
  | migration hbuilt =>
    obtain ⟨tried, -, hpay⟩ := Wallet.migrateFrom_eq_ok hbuilt
    exact hpaid hpay

/-- **The inputs of a built transaction push at least three strings each**, whatever is in their
slots. -/
theorem three_le_of_frame (h : wallet.Builds unsigned) (hfills : tx.Fills unsigned) {n : Nat}
    {redeem : Script} (hframe : some (n, redeem) ∈ tx.frames) : 3 ≤ n := by
  obtain ⟨coins, outputs, rfl⟩ := h.exists_unsigned
  rw [hfills.frames, Transaction.frames, Wallet.unsigned, List.map_map] at hframe
  obtain ⟨c, -, hinput⟩ := List.mem_map.mp hframe
  exact Coin.three_le_of_frame_input hinput

/-- A built transaction tells no sender. -/
theorem sender?_eq_none (h : wallet.Builds unsigned) (hfills : tx.Fills unsigned) :
    Registration.sender? tx = none := by
  have hbytes : Registration.senderBytes? tx = none :=
    Transaction.senderBytes?_eq_none_of_frames fun n redeem hframe =>
      h.three_le_of_frame hfills hframe
  rw [Registration.sender?, hbytes, Option.bind_none]

end Wallet.Builds

/-! ### Registering a built transaction -/

namespace Registration

/-- A registration of what tells no sender moves no money and changes nothing but the records and the
lists of what the federations hold. -/
theorem register_of_sender?_eq_none {tx : Transaction} {raw : Bytes}
    (hdecode : Transaction.decode? raw = some tx) (hsender : sender? tx = none) (i : Invocation)
    (w : World) (height : Int) (proof : Bytes) :
    (register i raw height proof w).2.ledger = w.ledger ∧
      ∃ processed holdings,
        (register i raw height proof w).2.state = { w.state with processed, holdings } := by
  have hsame : w.state =
      { w.state with processed := w.state.processed, holdings := w.state.holdings } := rfl
  rcases register_cases i raw height proof w with ⟨hstate, hledger⟩ | ⟨m, hmined, hsettled⟩
  · exact ⟨hledger, _, _, hstate.trans hsame⟩
  · obtain ⟨-, hspelled, -⟩ := soundTransaction_eq_ok (genuine_of_examine hmined).sound
    rw [hdecode, Option.some.injEq] at hspelled
    rw [hspelled] at hsender
    rcases hsettled.untouched_or_kept hsender with ⟨hstate, hledger⟩ | ⟨-, hkept⟩
    · exact ⟨hledger, _, _, hstate.trans hsame⟩
    · rw [hkept]
      exact ⟨rfl, _, _, state_of_keep i m w⟩

/-- **The peg never credits its own transactions.** Let a wallet of any coins of any federations
build a release, a refund or a migration, let anything be in its slots, and let bytes that spell it be
registered, at any height and with any proof, in any call and any state, whichever federations are
live. Then all balances, the whitelist and the waiting transactions are what they were. -/
theorem credits_nobody_of_builds {wallet : Wallet} {unsigned tx : Transaction} {raw : Bytes}
    (hbuilds : wallet.Builds unsigned) (hfills : tx.Fills unsigned)
    (hdecode : Transaction.decode? raw = some tx) (i : Invocation) (w : World) (height : Int)
    (proof : Bytes) :
    (register i raw height proof w).2.ledger = w.ledger ∧
      (register i raw height proof w).2.state.whitelist = w.state.whitelist ∧
      (register i raw height proof w).2.state.waiting = w.state.waiting := by
  obtain ⟨hledger, processed, holdings, hstate⟩ :=
    register_of_sender?_eq_none hdecode (hbuilds.sender?_eq_none hfills) i w height proof
  rw [hstate]
  exact ⟨hledger, rfl, rfl⟩

end Registration

/-! ### A migration that passes for a deposit -/

namespace Example

/-- The update builds the migration from a wallet of the first federation. -/
theorem exists_wallet_of_migration : ∃ wallet : Wallet, wallet.Builds migration := by
  obtain ⟨⟨-, hbefore, hwaits⟩, -⟩ := migrates_migration
  obtain ⟨retiring, built, -, hsweep, htx⟩ := Migration.exists_sweep_of_advance hbefore hwaits
  rw [← htx]
  exact ⟨_, .migration hsweep⟩

/-- The migration is registered after the window, by a peg that takes small deposits. -/
def returnedAsDeposit : Call :=
  { returnedLate with
    invocation := { returnedLate.invocation with
      constants := { constants with minimumLock := .clamp 50000 } } }

/-- Only the federation that the migration pays is live then. -/
theorem live_returnedAsDeposit :
    returnedAsDeposit.invocation.live returnedAsDeposit.before.state = [heir] := by
  obtain ⟨-, -, -, -, hplaces⟩ := handover_states
  have hbefore : returnedAsDeposit.before.state = windowEnded.after.state :=
    state_before_loneCall 115 migrationFilled.encodePlain windowEnded.after.state
  rw [hbefore, Invocation.live_of_old_none (by rw [hplaces]), hplaces]
  rfl

/-- The migration is a deposit by what it pays. -/
theorem classify_migrationFilled :
    migrationFilled.classify heir none returnedAsDeposit.invocation.constants.minimumLock.sats =
      .pegIn := by
  decide +kernel

end Example

namespace Registration

open Example

/-- The migration comes back, signed and with a valid proof, when only the federation that it pays is
live. It is a deposit by its kind, and credits nobody. -/
theorem credits_nobody_of_builds_after_window :
    (∃ wallet : Wallet, wallet.Builds migration) ∧ migrationFilled.Fills migration ∧
      (returnedAsDeposit.operation = .register migrationFilled.encodePlain 2
          (loneProof migrationFilled.encodePlain) ∧
        Transaction.decode? migrationFilled.encodePlain = some migrationFilled ∧
        Buried returnedAsDeposit.invocation migrationFilled.encodePlain 2
          (loneProof migrationFilled.encodePlain)) ∧
      (returnedAsDeposit.invocation.live returnedAsDeposit.before.state = [heir] ∧
        migrationFilled.classify heir none
          returnedAsDeposit.invocation.constants.minimumLock.sats = .pegIn) ∧
      returnedAsDeposit.after.ledger = returnedAsDeposit.before.ledger ∧
        returnedAsDeposit.after.state.whitelist = returnedAsDeposit.before.state.whitelist ∧
        returnedAsDeposit.after.state.waiting = returnedAsDeposit.before.state.waiting := by
  obtain ⟨wallet, hbuilds⟩ := exists_wallet_of_migration
  have hburied := buried_migrationFilled 115 windowEnded.after.state
  have hnobody := credits_nobody_of_builds hbuilds fills_migration decode?_migrationFilled
    returnedAsDeposit.invocation returnedAsDeposit.before 2
    (loneProof migrationFilled.encodePlain)
  rw [← Call.after_of_register (c := returnedAsDeposit) rfl] at hnobody
  exact ⟨⟨wallet, hbuilds⟩, fills_migration, ⟨rfl, decode?_migrationFilled,
    hburied.height_nonneg, hburied.confirmed, hburied.proved⟩,
    ⟨live_returnedAsDeposit, classify_migrationFilled⟩, hnobody⟩

end Registration

end TwoWayPeg
