import TwoWayPeg.Proofs.Peg.Run
import TwoWayPeg.Proofs.Release.Fees
import TwoWayPeg.Proofs.Release.InFlight

/-!
# Refunds

A deposit whose sender is not listed is sent back. The outputs of the deposit that pay a live
federation are never tracked: they are gathered for this one transaction, which spends all of them
and pays the sender what the fee leaves. When no such transaction can be built, an alert says so and
nothing else happens.

* `Coin.inputs_ofOutputs_perm`: none of these outputs is left out and none is spent twice.
* `Registration.refunds_of_payAll`: what is built sends the deposit back.
* `Registration.refunded_or_reported`: a refused deposit is sent back or reported.

A deposit is to be reported if it cannot pay for its own refund. That is what happens unless the
least output is nothing: then a fee above the deposit passes, and the sender is paid nothing.
-/

namespace TwoWayPeg

/-! ### What is sent back -/

namespace Transaction

/-- The input that spends a numbered output, if it pays one of some federations. The first one that
it pays has to sign. -/
def inputFor? (tx : Transaction) (fs : List Federation) (o : TxOut × Nat) : Option TxIn :=
  (fs.find? fun f => f.payScript == o.1.script).map fun f =>
    ⟨tx.created o, ScriptSig.placeholder f.redeemScript f.threshold, 0xFFFFFFFF, []⟩

/-- The inputs that spend all outputs which pay some federations. -/
def inputsFor (tx : Transaction) (fs : List Federation) : List TxIn :=
  tx.outputs.zipIdx.filterMap (tx.inputFor? fs)

/-- Whether a script pays one of some federations. -/
def pays (fs : List Federation) (script : Script) : Bool := fs.any fun f => f.payScript == script

/-- The sum of the outputs that pay some federations, each of them once. -/
def valuePaidToAny (tx : Transaction) (fs : List Federation) : Nat :=
  Amount.total ((tx.outputs.filter fun o => pays fs o.script).map TxOut.value)

/-- What federations are paid is no more than what is paid. -/
theorem valuePaidToAny_le (tx : Transaction) (fs : List Federation) :
    tx.valuePaidToAny fs ≤ tx.totalOutput :=
  Amount.total_le_of_subperm (List.filter_sublist.map TxOut.value).subperm

end Transaction

section Received

variable {tx : Transaction} {height : UInt32} {fs : List Federation}

/-- What federations are paid is owned by them. -/
theorem Utxo.filter_isOwned_ofOutputs :
    (ofOutputs tx height (Transaction.pays fs)).filter (Coin.isOwned fs) =
      ofOutputs tx height (Transaction.pays fs) := by
  refine List.filter_eq_self.mpr fun u hu => ?_
  rw [ofOutputs_eq_map] at hu
  obtain ⟨o, ho, rfl⟩ := List.mem_map.mp hu
  obtain ⟨f, hf, hpaid⟩ := List.any_eq_true.mp (List.mem_filter.mp ho).2
  exact Coin.isOwned_iff.mpr ⟨f, hf, eq_of_beq hpaid⟩

/-- The input of the coin of an output is the one for the output. -/
theorem Coin.input_of?_ofOutput (o : TxOut × Nat) :
    (of? fs (Utxo.ofOutput tx height o)).map input = tx.inputFor? fs o := by
  rw [of?, List.find?_map, Option.map_map, Option.map_map]
  rfl

/-- The coins of the outputs that pay some federations are spent by the inputs for these outputs. -/
theorem Coin.inputs_ofOutputs_perm :
    ((ofUtxos (Utxo.ofOutputs tx height (Transaction.pays fs)) fs).map input).Perm
      (tx.inputsFor fs) := by
  have hcoins : ((Utxo.ofOutputs tx height (Transaction.pays fs)).filterMap (of? fs)).map input =
      tx.inputsFor fs := by
    rw [Utxo.ofOutputs_eq_map, List.filterMap_map, List.map_filterMap, List.filterMap_filter]
    refine List.filterMap_congr fun o _ => ?_
    rw [Function.comp_apply, input_of?_ofOutput]
    split
    · rfl
    · next hunpaid =>
      rw [eq_comm, Transaction.inputFor?, Option.map_eq_none_iff, List.find?_eq_none]
      exact fun f hf hpaid => hunpaid (List.any_eq_true.mpr ⟨f, hf, hpaid⟩)
  rw [ofUtxos_eq, ← hcoins]
  exact (List.mergeSort_perm _ _).map input

variable {changeScript : Script} {feePerKb : Amount} {c : Constants}

/-- The wallet of the outputs that pay some federations is worth what these are paid. -/
theorem Wallet.balance_ofOutputs :
    (Wallet.of (Utxo.ofOutputs tx height (Transaction.pays fs)) fs changeScript feePerKb
      c).balance = tx.valuePaidToAny fs := by
  rw [balance_of, Utxo.filter_isOwned_ofOutputs, Utxo.total, Utxo.values_ofOutputs]
  rfl

/-- No outpoint is spent twice, as long as outputs can be numbered with 32 bits. -/
theorem Coin.nodup_outpoints_ofOutputs (h : tx.outputs.length ≤ UInt32.size) :
    ((ofUtxos (Utxo.ofOutputs tx height (Transaction.pays fs)) fs).map
      fun c => c.utxo.outpoint).Nodup := by
  have hperm := (utxos_ofUtxos_perm (Utxo.ofOutputs tx height (Transaction.pays fs)) fs).map
    Utxo.outpoint
  rw [List.map_map, Utxo.filter_isOwned_ofOutputs] at hperm
  exact hperm.nodup_iff.mpr
    ((Transaction.nodup_creates h).sublist (Utxo.outpoints_ofOutputs_sublist tx height _))

end Received

/-! ### The refund -/

/-- **A transaction sends a deposit back to its sender**: it spends all outputs of the deposit that
pay a live federation, and its single output pays the sender what the fee leaves of them, which is
not too small. If the fee is more than they are worth, nothing is paid, which passes where the least
output is nothing. -/
structure BuiltTransaction.Refunds (built : BuiltTransaction) (i : Invocation) (s : State)
    (tx : Transaction) (sender : PublicKey) : Prop where
  inputs : built.tx.inputs.Perm (tx.inputsFor (i.live s))
  /-- No outpoint is spent twice, as long as outputs can be numbered with 32 bits. -/
  distinct : tx.outputs.length ≤ UInt32.size → built.tx.spends.Nodup
  output : ∃ value : Amount, built.tx.outputs = [⟨value, Script.payToKeyHash sender.hash⟩] ∧
    i.constants.minimumOutput.sats ≤ value.sats ∧
    (value.sats + built.fee.sats = tx.valuePaidToAny (i.live s) ∨
      tx.valuePaidToAny (i.live s) < built.fee.sats ∧ value.sats = 0 ∧
        i.constants.minimumOutput.sats = 0)
  fee : built.fee.sats =
    Wallet.signedSize built.tx built.coins * (i.feePerKb s).sats / 1000

namespace Registration

variable {i : Invocation} {m : MinedTransaction} {sender : PublicKey} {total : Nat} {w : World}

/-- The wallet of what a deposit pays to the live federations. -/
def received (i : Invocation) (m : MinedTransaction) (s : State) : Wallet :=
  Wallet.of (Utxo.ofOutputs m.tx m.height (Transaction.pays (i.live s))) (i.live s)
    (i.active s).payScript (i.feePerKb s) i.constants

/-- A refund is built and added to the waiting transactions, or an alert is raised. -/
theorem refund_cases (i : Invocation) (m : MinedTransaction) (sender : PublicKey) (total : Nat)
    (w : World) :
    (∃ built, (received i m w.state).payAll (Script.payToKeyHash sender.hash) = .ok built ∧
      refund i m sender total w =
        { w.notify (.pegIn "pegin_refunded" m.txid.text total
            (some (i.describe (Script.payToKeyHash sender.hash))) false) with
          state := { w.state with
            waiting := WaitingList.add w.state.waiting built.tx i.block.number } }) ∨
      ∃ e, (received i m w.state).payAll (Script.payToKeyHash sender.hash) = .error e ∧
        refund i m sender total w = w.alert .refundBuildFailed
          ("refund of " ++ Amount.display total ++ " to " ++
            i.describe (Script.payToKeyHash sender.hash) ++ " for bitcoin tx " ++
            m.txid.text ++ " failed: " ++ e.message) := by
  unfold refund
  simp only
  split
  · next e hfailed => exact .inr ⟨e, hfailed, rfl⟩
  · next built hbuilt => exact .inl ⟨built, hbuilt, rfl⟩

/-- **What is built to send a deposit back sends it back.** -/
theorem refunds_of_payAll {s : State} {built : BuiltTransaction}
    (h : (received i m s).payAll (Script.payToKeyHash sender.hash) = .ok built)
    (hrange : m.tx.totalOutput ≤ Amount.maxMoney) : built.Refunds i s m.tx sender := by
  obtain ⟨-, -, hleast, htx, hcoins⟩ := Wallet.payAll_eq_ok h
  have hpriced := Wallet.priced_of_payAll h
  have hbalance : (received i m s).balance = m.tx.valuePaidToAny (i.live s) :=
    Wallet.balance_ofOutputs
  have hfits : (received i m s).balance < UInt64.size := by
    have hpart := m.tx.valuePaidToAny_le (i.live s)
    have hmost : Amount.maxMoney < UInt64.size := by decide
    omega
  have hvalue : (Amount.clamp ((received i m s).balance - built.fee.sats)).sats =
      (received i m s).balance - built.fee.sats := Amount.clamp_sats (by omega)
  have hminimum : (received i m s).minimumOutput = i.constants.minimumOutput := rfl
  constructor
  case inputs =>
    rw [hpriced.inputs, hcoins]
    exact Coin.inputs_ofOutputs_perm
  case distinct =>
    intro houtputs
    rw [Transaction.spends, hpriced.inputs, hcoins, List.map_map]
    exact Coin.nodup_outpoints_ofOutputs houtputs
  case output =>
    refine ⟨_, by rw [htx]; rfl, ?_, ?_⟩
    · rw [hvalue, ← hminimum]
      exact hleast
    · rw [hvalue, ← hbalance, ← hminimum]
      omega
  case fee =>
    obtain ⟨-, hfee⟩ := Wallet.feeFor_eq_ok hpriced.fee
    exact hfee

/-- **A registration refuses a deposit**: the bytes spell a deposit, its sender is not listed for
what the live federations are paid, and the registration records it for the first time. -/
structure Refuses (i : Invocation) (w : World) (raw : Bytes) (height : Int) (proof : Bytes)
    (tx : Transaction) (sender : PublicKey) : Prop where
  decodes : Transaction.decode? raw = some tx
  kind : tx.classify (i.active w.state) (i.retiring w.state) i.constants.minimumLock.sats = .pegIn
  sent : sender? tx = some sender
  unlisted : w.state.whitelist.permits sender.hash (tx.valueSentToAll (i.live w.state))
    (UInt32.ofNat height.toNat).toNat = false
  fresh : w.state.processed.contains (rawTxid raw) = false
  recorded : (register i raw height proof w).2.state.processed.contains (rawTxid raw) = true

/-- A transaction that was mined at a height. -/
def minedAt (tx : Transaction) (height : Int) : MinedTransaction :=
  ⟨tx.txid, tx, UInt32.ofNat height.toNat⟩

/-- A registration that refuses a deposit succeeds. It leaves the world of a refund, with the name
recorded. -/
theorem Refuses.register_eq {raw proof : Bytes} {height : Int} {tx : Transaction}
    (h : Refuses i w raw height proof tx sender) :
    (register i raw height proof w).1 = .ok () ∧ tx.totalOutput ≤ Amount.maxMoney ∧
      (register i raw height proof w).2 =
        { refund i (minedAt tx height) sender (tx.valueSentToAll (i.live w.state)) w with
          state := markProcessed i (minedAt tx height) (refund i (minedAt tx height) sender
            (tx.valueSentToAll (i.live w.state)) w).state } := by
  have hchanged : (register i raw height proof w).2.state ≠ w.state := by
    intro hsame
    have hrecorded := h.recorded
    rw [hsame, h.fresh] at hrecorded
    cases hrecorded
  constructor
  · cases hanswer : (register i raw height proof w).1 with
    | ok => rfl
    | error e => exact absurd (congrArg World.state (eq_of_register_error hanswer)) hchanged
  rcases register_cases i raw height proof w with ⟨hsame, -⟩ | ⟨m, hexamine, hsettled⟩
  · exact absurd hsame hchanged
  have hgenuine := genuine_of_examine hexamine
  obtain ⟨-, hdecodes, hstructure⟩ := soundTransaction_eq_ok hgenuine.sound
  have htx : m.tx = tx := Option.some.inj (hdecodes.symm.trans h.decodes)
  subst htx
  have hmined : minedAt m.tx height = m := by
    rw [minedAt, hgenuine.txid_eq, ← hgenuine.height_eq]
  rw [hmined]
  refine ⟨?_, ?_⟩
  · unfold Transaction.checkStructure at hstructure
    split at hstructure
    · cases hstructure
    · split at hstructure
      · cases hstructure
      · next hrange => exact Nat.le_of_not_lt hrange
  have hkind := h.kind
  have hsender := h.sent
  have hlisted := h.unlisted
  generalize (register i raw height proof w).2 = after at hsettled hchanged ⊢
  cases hsettled with
  | untouched _ hstate _ => exact absurd hstate hchanged
  | credited other ledger _ hother hpermitted _ =>
    rw [hsender] at hother
    cases hother
    rw [hgenuine.height_eq, hlisted] at hpermitted
    cases hpermitted
  | kept hother =>
    rw [hkind] at hother
    rcases hother with hother | hother
    · cases hother
    · cases hother
  | refused other _ hother _ =>
    rw [hsender] at hother
    cases hother
    rfl

/-- **A refused deposit is sent back or reported.** No balance, no entry of the whitelist and no
unspent output changes. It is sent back if a refund can be built, and reported if none can. -/
theorem refunded_or_reported {raw proof : Bytes} {height : Int} {tx : Transaction}
    (h : Refuses i w raw height proof tx sender) :
    (register i raw height proof w).1 = .ok () ∧
    (register i raw height proof w).2.ledger = w.ledger ∧
    (register i raw height proof w).2.state.whitelist = w.state.whitelist ∧
    (register i raw height proof w).2.state.holdings = w.state.holdings ∧
    ((∃ built, (received i (minedAt tx height) w.state).payAll
          (Script.payToKeyHash sender.hash) = .ok built ∧
        built.Refunds i w.state tx sender ∧
        ((register i raw height proof w).2.state.waiting =
            w.state.waiting ++ [⟨built.tx, i.block.number⟩] ∨
          (∃ waiting ∈ w.state.waiting, waiting.transaction.txid = built.tx.txid) ∧
            (register i raw height proof w).2.state.waiting = w.state.waiting)) ∨
      ∃ e, (received i (minedAt tx height) w.state).payAll
          (Script.payToKeyHash sender.hash) = .error e ∧
        (register i raw height proof w).2.notices = w.notices ++
          [.alert .refundBuildFailed ("refund of " ++
            Amount.display (tx.valueSentToAll (i.live w.state)) ++ " to " ++
            i.describe (Script.payToKeyHash sender.hash) ++ " for bitcoin tx " ++ tx.txid.text ++
            " failed: " ++ e.message)] ∧
        (register i raw height proof w).2.state.waiting = w.state.waiting) := by
  obtain ⟨hanswer, hrange, hleft⟩ := h.register_eq
  refine ⟨hanswer, ?_⟩
  rw [hleft]
  rcases refund_cases i (minedAt tx height) sender (tx.valueSentToAll (i.live w.state)) w with
    ⟨built, hbuilt, hrefund⟩ | ⟨e, hfailed, hrefund⟩
  · rw [hrefund]
    refine ⟨rfl, rfl, rfl, .inl ⟨built, hbuilt, refunds_of_payAll hbuilt hrange, ?_⟩⟩
    rcases WaitingList.add_cases w.state.waiting built.tx i.block.number with
      ⟨hwaits, hadd⟩ | ⟨-, hadd⟩
    · exact .inr ⟨hwaits, hadd⟩
    · exact .inl hadd
  · rw [hrefund]
    exact ⟨rfl, rfl, rfl, .inr ⟨e, hfailed, rfl, rfl⟩⟩

end Registration

namespace Example

/-- The presets for tests, with outputs of any amount and a fee of a tenth of a bitcoin for a
thousand bytes. -/
def highFee : Constants :=
  { constants with minimumOutput := .zero, genesisFeePerKb := .clamp 10000000 }

/-- The fifth host block under these presets. -/
def highFeeBlock : Invocation := ⟨highFee, chain, ⟨5, 0⟩⟩

/-- Nothing has happened yet. -/
def untouched : World := ⟨.initial, .empty, []⟩

/-- The proof that the deposit is the only transaction of its block. -/
def depositProof : Bytes := [1, 0, 0, 0, 1] ++ depositDigest.toList ++ [1, 1]

/-- The registration records the deposit, and the only transaction that waits then holds nothing for
the sender. -/
theorem register_deposit :
    (Registration.register highFeeBlock deposit.encodePlain 0 depositProof
      untouched).2.state.processed.contains (Registration.rawTxid deposit.encodePlain) = true ∧
    (Registration.register highFeeBlock deposit.encodePlain 0 depositProof
      untouched).2.state.waiting.map (fun r => r.transaction.outputs) =
        [[⟨.zero, Script.payToKeyHash key.hash⟩]] := by
  set_option maxRecDepth 100000 in
  decide +kernel

/-- The first registration refuses the deposit. -/
theorem refuses_deposit :
    Registration.Refuses highFeeBlock untouched deposit.encodePlain 0 depositProof deposit
      key where
  decodes := by
    set_option maxRecDepth 100000 in
    decide +kernel
  kind := by decide +kernel
  sent := by decide +kernel
  unlisted := by decide +kernel
  fresh := by decide +kernel
  recorded := register_deposit.1

end Example

namespace Registration

/-- The presets are in order, but the fee is more than the deposit. The refund spends the deposit
and pays its sender nothing. -/
theorem refunded_with_nothing :
    Example.highFee.validate = .ok () ∧
    Refuses Example.highFeeBlock Example.untouched Example.deposit.encodePlain 0
      Example.depositProof Example.deposit Example.key ∧
    ∃ built : BuiltTransaction,
      built.Refunds Example.highFeeBlock .initial Example.deposit Example.key ∧
      (register Example.highFeeBlock Example.deposit.encodePlain 0 Example.depositProof
        Example.untouched).2.state.waiting = [⟨built.tx, 5⟩] ∧
      built.tx.outputs = [⟨.zero, Script.payToKeyHash Example.key.hash⟩] := by
  have hvalid : Example.highFee.validate = .ok () := by
    decide +kernel
  refine ⟨hvalid, Example.refuses_deposit, ?_⟩
  have hpaid := Example.register_deposit.2
  obtain ⟨-, -, -, -, houtcome⟩ := refunded_or_reported Example.refuses_deposit
  rcases houtcome with ⟨built, -, hrefunds, hadded | ⟨⟨r, hr, -⟩, -⟩⟩ | ⟨e, -, -, hnone⟩
  · rw [hadded] at hpaid ⊢
    exact ⟨built, hrefunds, rfl, List.singleton_inj.mp hpaid⟩
  · cases hr
  · rw [hnone] at hpaid
    cases hpaid

end Registration

end TwoWayPeg
