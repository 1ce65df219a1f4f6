import TwoWayPeg.Proofs.Bitcoin.Writing
import TwoWayPeg.Proofs.Peg.Refund

/-!
# One name for a transaction

A registration reads the same bytes three times. It takes their digest as the name that is proved and
recorded, it reads how many inputs they announce, and it parses the transaction, whose outputs are
then listed under the name that the transaction itself has. If these readings came apart, outputs
would be listed under a name that is not recorded. They do not: bytes that announce an input and can
be parsed are the plain form of what they spell. A transaction with a witness has another form, which
announces no input, and it is left alone.

* `Transaction.reads_alike`: the digest, the count and the parsed transaction agree.
* `Registration.Adds`: what comes in with a registration bears the recorded name.
* `Registration.register_adds`: every registration is of this kind.
* `Registration.register_of_flagged`: what announces no input changes nothing.
* `Registration.one_name`: all of it.
-/

namespace TwoWayPeg

open Registration

/-! ### Three readings -/

namespace Transaction

variable {raw : Bytes} {tx : Transaction} {n : Nat}

/-- Bytes that begin like a transaction with inputs and spell one are all that it is written as. -/
theorem encode_of_decode? {tail : Bytes} (hread : CompactSize.read (raw.drop 4) = some (n, tail))
    (hn : n ≠ 0) (hdecode : decode? raw = some tx) :
    tx.inputs.length = n ∧ (∀ i ∈ tx.inputs, i.witness = []) ∧ tx.encode = raw := by
  obtain ⟨hplain, hlength, hwitness⟩ := plain_of_decode? hdecode hread hn
  have hinputs : tx.inputs ≠ [] := by
    intro hnil
    rw [hnil] at hlength
    exact hn hlength.symm
  exact ⟨hlength, hwitness, (encode_eq_plain hinputs hwitness).trans hplain.symm⟩

/-- **The three readings agree** on bytes that announce an input and spell a transaction: it has as
many inputs as are announced and no witness, it is written as these bytes, and its name is their
digest. -/
theorem reads_alike (hcount : declaredInputCount raw = .ok n) (hn : n ≠ 0)
    (hdecode : decode? raw = some tx) :
    tx.inputs.length = n ∧ (∀ i ∈ tx.inputs, i.witness = []) ∧ tx.encode = raw ∧
      tx.txid = rawTxid raw := by
  obtain ⟨tail, hread⟩ := exists_of_declaredInputCount hcount
  obtain ⟨hlength, hwitness, hencode⟩ := encode_of_decode? hread hn hdecode
  refine ⟨hlength, hwitness, hencode, ?_⟩
  rw [txid, rawTxid, (plain_of_decode? hdecode hread hn).1]

/-- Behind the version of a transaction with a witness stands the mark that announces no input. -/
theorem drop_encode_of_needsFlag (h : tx.needsFlag = true) :
    ∃ rest, tx.encode.drop 4 = 0x00 :: rest := by
  rw [encode, if_pos h]
  exact ⟨_, List.drop_left' (Bytes.length_ofNatLE 4 _)⟩

end Transaction

/-! ### What a registration adds -/

/-- The outputs of a transaction bear its name. -/
theorem Utxo.txid_of_mem_ofOutputs {tx : Transaction} {height : UInt32} {wanted : Script → Bool}
    {u : Utxo} (h : u ∈ ofOutputs tx height wanted) : u.txid = tx.txid := by
  rw [ofOutputs_eq_map] at h
  obtain ⟨o, -, rfl⟩ := List.mem_map.mp h
  rfl

namespace Registration

variable {i : Invocation} {m : MinedTransaction} {s t : State} {w : World} {u : Utxo}
  {raw proof : Bytes} {height : Int}

/-- What is saved for the retiring federation bears the name of the transaction. -/
theorem txid_of_mem_paidToRetiring (h : u ∈ paidToRetiring i m s) : u.txid = m.tx.txid := by
  unfold paidToRetiring at h
  split at h
  · exact absurd h List.not_mem_nil
  · split at h
    · exact absurd h List.not_mem_nil
    · exact Utxo.txid_of_mem_ofOutputs h

/-- What stands in the new place after saving stood there before or bears the name of the
transaction. -/
theorem new_or_txid_of_saved (h : u ∈ (savedHoldings i m s).new) :
    u ∈ s.holdings.new ∨ u.txid = m.tx.txid := by
  have h : u ∈ (i.replaceActive s (Utxo.addNew (i.activeUtxos s)
      (paidTo m (i.active s).payScript))).new := h
  rcases i.replaceActive_cases s (Utxo.addNew (i.activeUtxos s)
    (paidTo m (i.active s).payScript)) with ⟨-, heq⟩ | ⟨hactive, heq⟩
  · rw [heq] at h
    exact .inl h
  · rw [heq, hactive] at h
    exact (Utxo.mem_of_mem_addNew h).imp_right Utxo.txid_of_mem_ofOutputs

/-- So does what stands in the old place. -/
theorem old_or_txid_of_saved (h : u ∈ (savedHoldings i m s).old) :
    u ∈ s.holdings.old ∨ u.txid = m.tx.txid := by
  rcases Utxo.mem_of_mem_addNew h with h | h
  · rcases i.replaceActive_cases s (Utxo.addNew (i.activeUtxos s)
      (paidTo m (i.active s).payScript)) with ⟨hactive, heq⟩ | ⟨-, heq⟩
    · rw [heq, hactive] at h
      exact (Utxo.mem_of_mem_addNew h).imp_right Utxo.txid_of_mem_ofOutputs
    · rw [heq] at h
      exact .inl h
  · exact .inr (txid_of_mem_paidToRetiring h)

/-- The refund of a transaction spends outputs that bear its name. -/
theorem txid_of_mem_spends {destination : Script} {built : BuiltTransaction} {o : OutPoint}
    (h : (received i m s).payAll destination = .ok built) (ho : o ∈ built.tx.spends) :
    o.txid = m.tx.txid := by
  have hspent := (Wallet.spends_of_payAll h).subset ho
  exact Transaction.txid_of_mem_creates ((Utxo.outpoints_ofOutputs_sublist _ _ _).subset hspent)

/-- What comes in between two states bears a name, and this name is then recorded in a block: the
outputs that are listed, and all that the transactions which come to wait spend. No other name is
recorded. -/
structure Adds (txid : Txid) (block : UInt64) (s t : State) : Prop where
  records : t.processed = s.processed ∨ t.processed = s.processed.insert txid block
  listed_new : ∀ u ∈ t.holdings.new, u ∉ s.holdings.new →
    u.txid = txid ∧ t.processed = s.processed.insert txid block
  listed_old : ∀ u ∈ t.holdings.old, u ∉ s.holdings.old →
    u.txid = txid ∧ t.processed = s.processed.insert txid block
  refunded : ∀ r ∈ t.waiting, r ∉ s.waiting →
    (∀ o ∈ r.transaction.spends, o.txid = txid) ∧ t.processed = s.processed.insert txid block

namespace Adds

variable {txid : Txid} {block : UInt64}

/-- Nothing comes in. -/
theorem of_eq (h : t = s) : Adds txid block s t := by
  subst h
  exact ⟨.inl rfl, fun u hu hnew => absurd hu hnew, fun u hu hnew => absurd hu hnew,
    fun r hr hnew => absurd hr hnew⟩

/-- A transaction is recorded and its outputs are listed. -/
theorem of_saved (hprocessed : t.processed = s.processed.insert m.tx.txid block)
    (hholdings : t.holdings = savedHoldings i m s) (hwaiting : t.waiting = s.waiting) :
    Adds m.tx.txid block s t := by
  refine ⟨.inr hprocessed, fun u hu hnew => ?_, fun u hu hnew => ?_, fun r hr hnew => ?_⟩
  · rw [hholdings] at hu
    exact ⟨(new_or_txid_of_saved hu).resolve_left hnew, hprocessed⟩
  · rw [hholdings] at hu
    exact ⟨(old_or_txid_of_saved hu).resolve_left hnew, hprocessed⟩
  · rw [hwaiting] at hr
    exact absurd hr hnew

/-- A transaction is recorded and perhaps its refund comes to wait. -/
theorem of_waiting (hprocessed : t.processed = s.processed.insert txid block)
    (hholdings : t.holdings = s.holdings)
    (hwaiting : ∀ r ∈ t.waiting, r ∉ s.waiting → ∀ o ∈ r.transaction.spends, o.txid = txid) :
    Adds txid block s t := by
  refine ⟨.inr hprocessed, fun u hu hnew => ?_, fun u hu hnew => ?_, fun r hr hnew => ?_⟩
  · exact absurd (hholdings ▸ hu) hnew
  · exact absurd (hholdings ▸ hu) hnew
  · exact ⟨hwaiting r hr hnew, hprocessed⟩

end Adds

/-- Sending back a transaction that is recorded adds under its name. -/
theorem refund_adds (i : Invocation) (m : MinedTransaction) (sender : PublicKey) (total : Nat)
    (w : World) (hname : m.tx.txid = m.txid) :
    Adds m.tx.txid i.block.number w.state
      (markProcessed i m (refund i m sender total w).state) := by
  rcases refund_cases i m sender total w with ⟨built, hbuilt, hrefund⟩ | ⟨e, -, hrefund⟩
  · rw [hrefund]
    refine .of_waiting (by rw [hname]; rfl) rfl fun r hr hnew o ho => ?_
    -- the only entry that can be new is the refund
    rcases WaitingList.add_eq w.state.waiting built.tx i.block.number with hadd | hadd
    · exact absurd (hadd ▸ hr) hnew
    · have hr : r ∈ w.state.waiting ++ [⟨built.tx, i.block.number⟩] := hadd ▸ hr
      have hrefunded := List.mem_singleton.mp ((List.mem_append.mp hr).resolve_left hnew)
      rw [hrefunded] at ho
      exact txid_of_mem_spends hbuilt ho
  · rw [hrefund]
    exact .of_waiting (by rw [hname]; rfl) rfl fun r hr hnew => absurd hr hnew

/-- **What comes in with a registration** bears the name of the bytes, and this name is recorded. -/
theorem register_adds (i : Invocation) (raw : Bytes) (height : Int) (proof : Bytes) (w : World) :
    Adds (rawTxid raw) i.block.number w.state (register i raw height proof w).2.state := by
  rcases register_cases i raw height proof w with ⟨hstate, -⟩ | ⟨m, hmined, hsettled⟩
  · exact .of_eq hstate
  have hgenuine := genuine_of_examine hmined
  have hname := hgenuine.txid_eq
  rw [← hgenuine.txid_eq_raw, ← hname]
  generalize (register i raw height proof w).2 = after at hsettled ⊢
  cases hsettled with
  | untouched _ hstate _ => exact .of_eq hstate
  | credited sender ledger _ _ _ _ =>
    rw [state_of_keep]
    exact .of_saved (by rw [hname]; rfl) rfl rfl
  | kept _ =>
    rw [state_of_keep]
    exact .of_saved (by rw [hname]) rfl rfl
  | refused sender _ _ _ => exact refund_adds i m sender _ w hname

/-- **What announces no input is left alone.** -/
theorem register_of_flagged {rest : Bytes} (h : raw.drop 4 = 0x00 :: rest) :
    (register i raw height proof w).2.state = w.state ∧
      (register i raw height proof w).2.ledger = w.ledger := by
  rcases register_cases i raw height proof w with hleft | ⟨m, hmined, -⟩
  · exact hleft
  · obtain ⟨⟨n, tail, hread, hn⟩, -, -⟩ := soundTransaction_eq_ok (genuine_of_examine hmined).sound
    rw [h] at hread
    exact absurd (congrArg Prod.fst (Option.some.inj hread)).symm hn

/-- Bytes whose registration changes anything are all that a transaction without a witness is
written as. -/
theorem encode_of_changed (h : (register i raw height proof w).2.state ≠ w.state ∨
      (register i raw height proof w).2.ledger ≠ w.ledger) :
    ∃ tx, Transaction.decode? raw = some tx ∧ (∀ input ∈ tx.inputs, input.witness = []) ∧
      tx.encode = raw := by
  rcases register_cases i raw height proof w with ⟨hstate, hledger⟩ | ⟨m, hmined, -⟩
  · rcases h with h | h
    · exact absurd hstate h
    · exact absurd hledger h
  · obtain ⟨⟨n, tail, hread, hn⟩, hdecode, -⟩ :=
      soundTransaction_eq_ok (genuine_of_examine hmined).sound
    exact ⟨m.tx, hdecode, (Transaction.encode_of_decode? hread hn hdecode).2⟩

/-- **One name for a transaction.** If bytes announce an input and spell a transaction, then it has
as many inputs as announced and no witness, it is written as these bytes, and its name is their
digest. So all outputs that a registration lists, and all that its refund spends, bear the name that
is recorded; and bytes with a witness are never taken: whatever changes anything is all that a
transaction without a witness is written as. -/
theorem one_name (raw : Bytes) :
    (∀ n tx, declaredInputCount raw = .ok n → n ≠ 0 → Transaction.decode? raw = some tx →
      tx.inputs.length = n ∧ (∀ input ∈ tx.inputs, input.witness = []) ∧ tx.encode = raw ∧
        tx.txid = rawTxid raw) ∧
    ∀ (i : Invocation) (height : Int) (proof : Bytes) (w : World),
      Adds (rawTxid raw) i.block.number w.state (register i raw height proof w).2.state ∧
      ((register i raw height proof w).2.state ≠ w.state ∨
          (register i raw height proof w).2.ledger ≠ w.ledger →
        ∃ tx, Transaction.decode? raw = some tx ∧ (∀ input ∈ tx.inputs, input.witness = []) ∧
          tx.encode = raw) ∧
      ∀ tx : Transaction, tx.needsFlag = true → tx.encode = raw →
        (register i raw height proof w).2.state = w.state ∧
          (register i raw height proof w).2.ledger = w.ledger := by
  refine ⟨fun n tx hcount hn hdecode => Transaction.reads_alike hcount hn hdecode,
    fun i height proof w => ⟨register_adds i raw height proof w, encode_of_changed, ?_⟩⟩
  rintro tx hflag rfl
  obtain ⟨rest, hrest⟩ := Transaction.drop_encode_of_needsFlag hflag
  exact register_of_flagged hrest

end Registration

/-- The deposit with a witness. -/
def Example.witnessed : Transaction :=
  { deposit with inputs := deposit.inputs.map fun input => { input with witness := [[0x01]] } }

namespace Registration

open Example

/-- A deposit is sent back by a transaction that spends outputs of its own name only. With a witness
it is left alone. -/
theorem one_name_deposit :
    (declaredInputCount deposit.encodePlain = .ok 1 ∧
        Transaction.decode? deposit.encodePlain = some deposit ∧
        (register highFeeBlock deposit.encodePlain 0 depositProof
          untouched).2.state.waiting.length = 1 ∧
        witnessed.needsFlag = true) ∧
      deposit.encode = deposit.encodePlain ∧ deposit.txid = rawTxid deposit.encodePlain ∧
      (∀ r ∈ (register highFeeBlock deposit.encodePlain 0 depositProof
        untouched).2.state.waiting, ∀ o ∈ r.transaction.spends, o.txid = deposit.txid) ∧
      (register highFeeBlock witnessed.encode 0 depositProof untouched).2.state = .initial := by
  have hcount : declaredInputCount deposit.encodePlain = .ok 1 := by
    set_option maxRecDepth 100000 in
    decide +kernel
  have hwaiting : (register highFeeBlock deposit.encodePlain 0 depositProof
      untouched).2.state.waiting.length = 1 := by
    rw [← List.length_map, register_deposit.2]
    rfl
  have hflag : witnessed.needsFlag = true := rfl
  obtain ⟨hreads, hregistrations⟩ := one_name deposit.encodePlain
  obtain ⟨-, -, hencode, hname⟩ := hreads 1 deposit hcount Nat.one_ne_zero refuses_deposit.decodes
  have hadds := (hregistrations highFeeBlock 0 depositProof untouched).1
  have hleft := ((one_name witnessed.encode).2 highFeeBlock 0 depositProof untouched).2.2 witnessed
    hflag rfl
  refine ⟨⟨hcount, refuses_deposit.decodes, hwaiting, hflag⟩, hencode, hname, fun r hr o ho => ?_,
    hleft.1⟩
  rw [hname]
  exact (hadds.refunded r hr List.not_mem_nil).1 o ho

end Registration

end TwoWayPeg
