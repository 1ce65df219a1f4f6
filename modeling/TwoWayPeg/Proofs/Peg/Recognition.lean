import TwoWayPeg.Proofs.Peg.Backing
import TwoWayPeg.Proofs.Peg.Signable

/-!
# When a migration comes back

A migration spends what the retiring federation holds and pays the active one, and when it has been
mined it is registered like any other transaction. It is known by the script that its inputs carry:
if this is the script of a live federation, the transaction is recorded and its outputs are listed.
While the federation retires it is live. When an update has ended its window, it is not, and a
migration that comes back then is no transaction of the federations any more, and no deposit either:
it changes nothing, and its outputs are never listed, unless a live federation has the same script.

* `Transaction.MovesFunds`: what is known of a migration, whatever its slots hold.
* `Registration.register_of_movesFunds`, `Registration.state_of_register_of_not_live`: what
  registering one does.
* `Call.recognises_iff`: when a call recognises what moves funds.
* `Run.migration_recognised`: when a migration is recognised in a run.
-/

namespace TwoWayPeg

/-! ### Migrations -/

/-- A transaction moves funds of a federation to a script. -/
structure Transaction.MovesFunds (tx : Transaction) (f : Federation) (destination : Script) :
    Prop where
  inputs_ne_nil : tx.inputs ≠ []
  outputs_ne_nil : tx.outputs ≠ []
  frames : ∀ frame ∈ tx.frames, frame = some f.frame
  distinct : tx.spends.Nodup
  unwitnessed : ∀ i ∈ tx.inputs, i.witness = []
  destination : ∀ o ∈ tx.outputs, o.script = destination

/-- A transaction is another one with something else in the slots of its inputs. -/
structure Transaction.Fills (tx unsigned : Transaction) : Prop where
  bare : tx.bare = unsigned.bare
  frames : tx.frames = unsigned.frames

/-- What stands in the slots does not matter for moving funds. -/
theorem Transaction.MovesFunds.of_fills {tx unsigned : Transaction} {f : Federation}
    {destination : Script} (h : unsigned.MovesFunds f destination) (hfills : tx.Fills unsigned) :
    tx.MovesFunds f destination := by
  have hinputs : tx.inputs.map TxIn.bare = unsigned.inputs.map TxIn.bare :=
    show tx.bare.inputs = unsigned.bare.inputs by rw [hfills.bare]
  have houtputs : tx.outputs = unsigned.outputs :=
    show tx.bare.outputs = unsigned.bare.outputs by rw [hfills.bare]
  have hspends : tx.spends = unsigned.spends := by
    rw [← Transaction.spends_bare, hfills.bare, Transaction.spends_bare]
  constructor
  case inputs_ne_nil =>
    intro hnil
    rw [hnil, List.map_nil] at hinputs
    exact h.inputs_ne_nil (List.map_eq_nil_iff.mp hinputs.symm)
  case outputs_ne_nil =>
    rw [houtputs]
    exact h.outputs_ne_nil
  case frames =>
    rw [hfills.frames]
    exact h.frames
  case distinct =>
    rw [hspends]
    exact h.distinct
  case unwitnessed =>
    intro i hi
    have hbare : i.bare ∈ unsigned.inputs.map TxIn.bare := hinputs ▸ List.mem_map_of_mem hi
    obtain ⟨j, hj, hsame⟩ := List.mem_map.mp hbare
    have hwitness : j.witness = i.witness := show j.bare.witness = i.bare.witness by rw [hsame]
    rw [← hwitness]
    exact h.unwitnessed j hj
  case destination =>
    rw [houtputs]
    exact h.destination

namespace Migration

variable {i : Invocation} {retiring : Federation} {built : BuiltTransaction}

/-- **What an update builds for the retiring federation moves its funds** to the active one. -/
theorem movesFunds_of_sweep {s : State} (hs : s.Secured) (hformed : retiring.IsFormed)
    (h : sweep i retiring s = .ok built) :
    built.tx.MovesFunds retiring (i.active s).payScript := by
  have hspends := Wallet.spends_of_migrate h
  obtain ⟨tried, -, hpay⟩ := Wallet.migrateFrom_eq_ok h
  obtain ⟨-, hsome, -, recipient, topped, -, htx, -⟩ := Wallet.payWithChange_eq_ok hpay
  constructor
  case inputs_ne_nil =>
    rw [htx]
    exact fun hnil => hsome (List.map_eq_nil_iff.mp hnil)
  case outputs_ne_nil =>
    rw [htx]
    exact List.cons_ne_nil _ _
  case frames =>
    rw [htx, Transaction.frames, Wallet.unsigned, List.map_map]
    intro frame hframe
    obtain ⟨c, hc, rfl⟩ := List.mem_map.mp hframe
    have howner : c.owner = retiring :=
      Coin.owner_of_mem_ofUtxos ((Wallet.isPrefix_gather _ _).subset hc)
    rw [← howner] at hformed ⊢
    exact Coin.frame_input hformed
  case distinct =>
    have hold : (s.holdings.old.map Utxo.outpoint).Nodup := hs.distinct.sublist s.old_sublist_tracked
    obtain ⟨part, hperm, hsub⟩ := hspends
    exact hperm.nodup_iff.mp (hold.sublist hsub)
  case unwitnessed =>
    rw [htx]
    intro input hinput
    obtain ⟨c, -, rfl⟩ := List.mem_map.mp hinput
    rfl
  case destination => exact Wallet.script_of_migrate h

/-- Within the window nothing happens, or what is built comes to wait. -/
theorem moveWithinWindow_cases (i : Invocation) (retiring : Federation) (w : World) :
    (moveWithinWindow i retiring (i.active w.state) w).state = w.state ∨
      ∃ built, sweep i retiring w.state = .ok built ∧
        (moveWithinWindow i retiring (i.active w.state) w).state.waiting =
          WaitingList.add w.state.waiting built.tx i.block.number := by
  simp only [moveWithinWindow, move_eq]
  split
  · rcases sweep i retiring w.state with e | built
    · exact .inl rfl
    · exact .inr ⟨built, rfl, rfl⟩
  · exact .inl rfl

/-- **What comes to wait in this part of an update** moves the funds of the retiring federation. -/
theorem exists_sweep_of_advance {w : World} {tx : Transaction}
    (hbefore : tx ∉ WaitingList.transactions w.state.waiting)
    (hafter : tx ∈ WaitingList.transactions (advance i w).state.waiting) :
    ∃ retiring built, i.retiring w.state = some retiring ∧
      sweep i retiring w.state = .ok built ∧ built.tx = tx := by
  have hadded : ∀ built : BuiltTransaction,
      tx ∈ WaitingList.transactions (WaitingList.add w.state.waiting built.tx i.block.number) →
        built.tx = tx := fun built hmem =>
    ((WaitingList.mem_transactions_of_add hmem).resolve_left hbefore).symm
  unfold advance at hafter
  split at hafter
  · exact absurd hafter hbefore
  · next retiring hretiring =>
    simp only at hafter
    split at hafter
    · rcases finish_cases i retiring _ w with ⟨-, -, hstate⟩ | ⟨e, message, -, -, -, hstate⟩ |
        ⟨built, hsweep, -, -, hstate⟩
      · rw [hstate] at hafter
        exact absurd hafter hbefore
      · rw [hstate] at hafter
        exact absurd hafter hbefore
      · rw [hstate] at hafter
        exact ⟨retiring, built, hretiring, hsweep, hadded built hafter⟩
    · split at hafter
      · rcases moveWithinWindow_cases i retiring w with hstate | ⟨built, hsweep, hwaiting⟩
        · rw [hstate] at hafter
          exact absurd hafter hbefore
        · rw [hwaiting] at hafter
          exact ⟨retiring, built, hretiring, hsweep, hadded built hafter⟩
      · exact absurd hafter hbefore

end Migration

/-! ### Kinds -/

namespace Transaction

variable {tx : Transaction} {f : Federation} {destination : Script}

/-- **A transaction is kept for what it spends** exactly if it spends from a live federation. -/
theorem classify_iff {active : Federation} {retiring : Option Federation} (minimumLock : Nat) :
    (tx.classify active retiring minimumLock = .pegOut ∨
        tx.classify active retiring minimumLock = .migration) ↔
      ∃ g ∈ active :: retiring.toList, tx.spendsFrom g = true := by
  unfold classify
  simp only
  split
  · next hmigration =>
    refine iff_of_true (.inr rfl) ?_
    rcases retiring with - | g
    · cases hmigration
    · rw [Option.any_some, Bool.and_eq_true] at hmigration
      exact ⟨g, List.mem_cons_of_mem _ List.mem_cons_self, hmigration.1⟩
  · split
    · next hrelease => exact iff_of_true (.inl rfl) (List.any_eq_true.mp hrelease)
    · next hnone =>
      refine iff_of_false ?_ (fun h => hnone (List.any_eq_true.mpr h))
      split
      · rintro (h | h) <;> cases h
      · rintro (h | h) <;> cases h

/-- A transaction tells no sender if no input pushes just a signature and a key. -/
theorem senderBytes?_eq_none_of_frames
    (h : ∀ n redeem, some (n, redeem) ∈ tx.frames → 3 ≤ n) :
    Registration.senderBytes? tx = none := by
  unfold Registration.senderBytes?
  split
  · rfl
  · next input rest hinputs =>
    split
    · next signature key hpushed =>
      have hpushes : input.scriptSig.chunks = some ([signature] ++ [key]) := hpushed
      have hframe : some (2, key) ∈ tx.frames := by
        rw [frames, hinputs, List.map_cons, TxIn.frame_of_chunks hpushes]
        exact List.mem_cons_self
      have hmore := h 2 key hframe
      omega
    · rfl

namespace MovesFunds

/-- What moves the funds of a federation spends from those with its script. -/
theorem spendsFrom_iff (h : tx.MovesFunds f destination) {g : Federation} :
    tx.spendsFrom g = true ↔ g.redeemScript = f.redeemScript := by
  have hscript : ∀ i ∈ tx.inputs, ScriptSig.redeemScript? i.scriptSig = some f.redeemScript :=
    fun i hi => TxIn.redeemScript?_of_frame (h.frames _ (List.mem_map_of_mem hi))
  rw [spendsFrom, List.any_eq_true]
  constructor
  · rintro ⟨i, hi, hredeem⟩
    rw [hscript i hi, beq_iff_eq, Option.some.injEq] at hredeem
    exact hredeem.symm
  · intro hredeem
    obtain ⟨i, hi⟩ := List.exists_mem_of_ne_nil _ h.inputs_ne_nil
    refine ⟨i, hi, ?_⟩
    rw [hscript i hi, hredeem, beq_self_eq_true]

/-- What moves funds tells no sender: an input pushes more than a signature and a key. -/
theorem senderBytes?_eq_none (h : tx.MovesFunds f destination) (hformed : f.IsFormed) :
    Registration.senderBytes? tx = none := by
  apply senderBytes?_eq_none_of_frames
  intro n redeem hframe
  have hsame := Option.some.inj (h.frames _ hframe)
  obtain ⟨-, -, hneeded, -⟩ := hformed.numbers
  rw [(Prod.mk.inj hsame).1]
  omega

/-- What moves funds keeps the rules, unless it pays more than there can be. -/
theorem checkStructure_iff (h : tx.MovesFunds f destination) :
    tx.checkStructure = .ok () ↔ tx.totalOutput ≤ Amount.maxMoney := by
  have hsome : ¬ (tx.inputs.isEmpty || tx.outputs.isEmpty) = true := by
    rw [Bool.or_eq_true, not_or, List.isEmpty_iff, List.isEmpty_iff]
    exact ⟨h.inputs_ne_nil, h.outputs_ne_nil⟩
  have hdistinct : tx.hasDistinctInputs = true := decide_eq_true h.distinct
  rw [checkStructure, if_neg hsome]
  by_cases hrange : Amount.maxMoney < tx.totalOutput
  · rw [if_pos hrange]
    refine iff_of_false ?_ (Nat.not_le.mpr hrange)
    intro heq
    cases heq
  · rw [if_neg hrange, hdistinct]
    exact iff_of_true rfl (Nat.not_lt.mp hrange)

end MovesFunds

end Transaction

/-! ### Registering a migration -/

namespace Registration

variable {i : Invocation} {s : State} {w : World} {raw proof : Bytes} {height : Int}

/-- A proof leads from the bytes to the root in the header at the height, and the block is buried
deeply enough. -/
structure Buried (i : Invocation) (raw : Bytes) (height : Int) (proof : Bytes) : Prop where
  height_nonneg : 0 ≤ height
  confirmed : height.toNat + i.constants.btcConfirmations ≤ i.chain.bestHeight + 1
  proved : ∃ header, i.chain.headerAt height.toNat = some header ∧
    provedRoot (rawTxid raw) proof = .ok header.merkleRoot

/-- With such a proof, bytes that are new are a genuine transaction if they are a sound one. -/
theorem examine_of_buried (h : Buried i raw height proof)
    (hnew : s.processed.contains (rawTxid raw) = false) :
    examine i s raw height proof = (soundTransaction raw).map fun tx =>
      .genuine ⟨rawTxid raw, tx, UInt32.ofNat height.toNat⟩ := by
  obtain ⟨header, hheader, hproved⟩ := h.proved
  have hheight : ¬ height < 0 := Int.not_lt.mpr h.height_nonneg
  have hconfirmed := Nat.not_lt.mpr h.confirmed
  have hroot : ¬ header.merkleRoot ≠ header.merkleRoot := fun hne => hne rfl
  rw [examine, hnew, if_neg Bool.false_ne_true, if_neg hheight]
  simp only [examineAt, if_neg hconfirmed, hproved, hheader, if_neg hroot]

/-- A genuine transaction that spends from a live federation is kept. -/
theorem register_of_spendsFrom {m : MinedTransaction}
    (h : examine i w.state raw height proof = .ok (.genuine m))
    (hspends : ∃ g ∈ i.live w.state, m.tx.spendsFrom g = true) :
    (register i raw height proof w).2 = keep i m w := by
  have hkind := (Transaction.classify_iff i.constants.minimumLock.sats).mpr hspends
  rw [register, h]
  simp only [settle]
  rcases hkind with hkind | hkind
  · rw [hkind]
  · rw [hkind]

section Migration

variable {tx : Transaction} {f : Federation} {destination : Script}

/-- Bytes that spell a migration are a sound transaction if it pays no more than there can be. -/
theorem soundTransaction_of_movesFunds (h : tx.MovesFunds f destination)
    (hdecode : Transaction.decode? raw = some tx) (hrange : tx.totalOutput ≤ Amount.maxMoney) :
    soundTransaction raw = .ok tx := by
  obtain ⟨hlength, n, tail, hread, hn⟩ :=
    Transaction.exists_count_of_decode? hdecode h.inputs_ne_nil h.unwitnessed
  have hcount : declaredInputCount raw = .ok n := by
    rw [declaredInputCount, if_neg (Nat.not_lt.mpr hlength), hread]
  unfold soundTransaction
  rw [hcount]
  split
  · next hnone => cases hnone
  · next hzero =>
    cases hzero
    exact absurd rfl hn
  · simp only [hdecode, h.checkStructure_iff.mpr hrange]

/-- **A migration of a live federation is kept**, and nothing else changes. -/
theorem register_of_movesFunds (h : tx.MovesFunds f destination)
    (hdecode : Transaction.decode? raw = some tx) (hburied : Buried i raw height proof)
    (hnew : w.state.processed.contains (rawTxid raw) = false)
    (hrange : tx.totalOutput ≤ Amount.maxMoney)
    (hlive : ∃ g ∈ i.live w.state, g.redeemScript = f.redeemScript) :
    examine i w.state raw height proof =
        .ok (.genuine ⟨rawTxid raw, tx, UInt32.ofNat height.toNat⟩) ∧
      (register i raw height proof w).2 =
        keep i ⟨rawTxid raw, tx, UInt32.ofNat height.toNat⟩ w := by
  have hexamine : examine i w.state raw height proof =
      .ok (.genuine ⟨rawTxid raw, tx, UInt32.ofNat height.toNat⟩) := by
    rw [examine_of_buried hburied hnew, soundTransaction_of_movesFunds h hdecode hrange]
    rfl
  obtain ⟨g, hg, hredeem⟩ := hlive
  exact ⟨hexamine, register_of_spendsFrom hexamine ⟨g, hg, h.spendsFrom_iff.mpr hredeem⟩⟩

/-- **Any other migration changes nothing.** -/
theorem state_of_register_of_not_live (h : tx.MovesFunds f destination) (hformed : f.IsFormed)
    (hdecode : Transaction.decode? raw = some tx)
    (hnot : ¬ (tx.totalOutput ≤ Amount.maxMoney ∧
      ∃ g ∈ i.live w.state, g.redeemScript = f.redeemScript)) :
    (register i raw height proof w).2.state = w.state ∧
      (register i raw height proof w).2.ledger = w.ledger := by
  rcases register_cases i raw height proof w with hsame | ⟨m, hmined, hsettled⟩
  · exact hsame
  obtain ⟨-, hspelled, hstructure⟩ := soundTransaction_eq_ok (genuine_of_examine hmined).sound
  rw [hdecode, Option.some.injEq] at hspelled
  rw [← hspelled] at hstructure
  have hsender : sender? m.tx = none := by
    rw [← hspelled, sender?, h.senderBytes?_eq_none hformed, Option.bind_none]
  rcases hsettled.untouched_or_kept hsender with hsame | ⟨hkind, -⟩
  · exact hsame
  · obtain ⟨g, hg, hspends⟩ := (Transaction.classify_iff _).mp hkind
    rw [← hspelled, h.spendsFrom_iff] at hspends
    exact absurd ⟨h.checkStructure_iff.mp hstructure, g, hg, hspends⟩ hnot

end Migration

/-- Keeping a transaction leaves the active federation in its place. -/
theorem activeSlot_keep (i : Invocation) (m : MinedTransaction) (w : World) :
    i.activeSlot (keep i m w).state = i.activeSlot w.state := by
  rw [state_of_keep]
  rfl

/-- Keeping a genuine transaction lists all its outputs that pay the active federation. -/
theorem Genuine.activeUtxos_keep {m : MinedTransaction}
    (h : Genuine i w.state raw height proof m) (hs : w.state.Secured)
    (houtputs : m.tx.outputs.length ≤ UInt32.size) :
    i.activeUtxos (keep i m w).state =
      i.activeUtxos w.state ++ paidTo m (i.active w.state).payScript := by
  have hpaid : ((paidTo m (i.active w.state).payScript).map Utxo.outpoint).Sublist m.tx.creates :=
    Utxo.outpoints_ofOutputs_sublist m.tx m.height _
  have hnew := h.addNew_eq hs houtputs w.state.new_sublist_tracked hpaid
  have hold := h.addNew_eq hs houtputs w.state.old_sublist_tracked hpaid
  have hkept : (keep i m w).state.holdings = savedHoldings i m w.state := by
    rw [state_of_keep]
  unfold Invocation.activeUtxos
  rw [activeSlot_keep, hkept]
  cases hactive : i.activeSlot w.state with
  | old =>
    simp only [savedHoldings, Invocation.replaceActive, Invocation.activeUtxos, hactive,
      paidToRetiring_of_old hactive, hold]
    rfl
  | genesis =>
    simp only [savedHoldings, Invocation.replaceActive, Invocation.activeUtxos, hactive, hnew]
  | new =>
    simp only [savedHoldings, Invocation.replaceActive, Invocation.activeUtxos, hactive, hnew]

end Registration

/-! ### Runs of a new peg -/

namespace Call

/-- In the call the transaction comes to wait, because funds of the retiring federation are moved. -/
def Migrates (c : Call) (tx : Transaction) : Prop :=
  (∃ hash, c.operation = .update hash) ∧
    tx ∉ WaitingList.transactions c.before.state.waiting ∧
    tx ∈ WaitingList.transactions (Migration.advance c.invocation c.before).state.waiting

/-- The call recognises a transaction: it records the name of the bytes in its block, and it adds
every output that pays the active federation to the list of the active federation, which stays in its
place. -/
structure Recognises (c : Call) (raw : Bytes) (height : Int) (tx : Transaction) : Prop where
  recorded :
    c.after.state.processed.get? (Registration.rawTxid raw) = some c.invocation.block.number
  slot : c.invocation.activeSlot c.after.state = c.invocation.activeSlot c.before.state
  listed : c.invocation.activeUtxos c.after.state =
    c.invocation.activeUtxos c.before.state ++
      Utxo.ofOutputs tx (UInt32.ofNat height.toNat)
        (· == (c.invocation.active c.before.state).payScript)

/-- **Registering what moves funds** of a federation recognises it exactly if it pays no more than
there can be and a live federation has the same script; otherwise nothing changes. -/
theorem recognises_iff {c : Call} {raw proof : Bytes} {height : Int} {tx : Transaction}
    {f : Federation} {destination : Script} (hmoves : tx.MovesFunds f destination)
    (hformed : f.IsFormed) (hsecured : c.before.state.Secured)
    (hop : c.operation = .register raw height proof) (hnumbered : c.operation.IsNumbered)
    (hdecode : Transaction.decode? raw = some tx)
    (hburied : Registration.Buried c.invocation raw height proof)
    (hnew : c.before.state.processed.contains (Registration.rawTxid raw) = false) :
    (c.Recognises raw height tx ↔ tx.totalOutput ≤ Amount.maxMoney ∧
        ∃ g ∈ c.invocation.live c.before.state, g.redeemScript = f.redeemScript) ∧
      (¬ c.Recognises raw height tx →
        c.after.state = c.before.state ∧ c.after.ledger = c.before.ledger) := by
  have hafter := Call.after_of_register hop
  have hyes : tx.totalOutput ≤ Amount.maxMoney ∧
      (∃ g ∈ c.invocation.live c.before.state, g.redeemScript = f.redeemScript) →
        c.Recognises raw height tx := by
    rintro ⟨hrange, hlive⟩
    obtain ⟨hexamine, hkeep⟩ :=
      Registration.register_of_movesFunds hmoves hdecode hburied hnew hrange hlive
    have hgenuine := Registration.genuine_of_examine hexamine
    rw [hop] at hnumbered
    constructor
    case recorded =>
      rw [hafter, hkeep, Registration.state_of_keep]
      exact SortedMap.get?_insert_self _ _ _
    case slot =>
      rw [hafter, hkeep]
      exact Registration.activeSlot_keep _ _ _
    case listed =>
      rw [hafter, hkeep]
      exact hgenuine.activeUtxos_keep hsecured (hnumbered tx hgenuine.sound)
  have hno : ¬ (tx.totalOutput ≤ Amount.maxMoney ∧
      ∃ g ∈ c.invocation.live c.before.state, g.redeemScript = f.redeemScript) →
        c.after.state = c.before.state ∧ c.after.ledger = c.before.ledger := by
    intro hnot
    rw [hafter]
    exact Registration.state_of_register_of_not_live hmoves hformed hdecode hnot
  refine ⟨⟨fun hrecognised => ?_, hyes⟩, fun hnot => hno (mt hyes hnot)⟩
  by_contra hnot
  have hrecorded := hrecognised.recorded
  rw [(hno hnot).1] at hrecorded
  rw [SortedMap.contains, hrecorded] at hnew
  cases hnew

end Call

namespace Run

variable {c₀ c : Call} {earlier later : List Call} {old : Federation} {migration : Transaction}

/-- What an update after a run makes wait moves the funds of the retiring federation. -/
theorem movesFunds_of_migrates (h : Run .initial earlier c₀.before.state)
    (hconstants : ∀ d ∈ earlier, d.invocation.constants = c₀.invocation.constants)
    (hgenesis : c₀.invocation.constants.genesis.IsFormed)
    (hnumbered : ∀ d ∈ earlier, d.operation.IsNumbered) (hmigrates : c₀.Migrates migration)
    (hretiring : c₀.invocation.retiring c₀.before.state = some old) :
    old.IsFormed ∧
      migration.MovesFunds old (c₀.invocation.active c₀.before.state).payScript := by
  obtain ⟨-, hbefore, hwaits⟩ := hmigrates
  obtain ⟨f, built, hf, hsweep, rfl⟩ := Migration.exists_sweep_of_advance hbefore hwaits
  rw [hretiring, Option.some.injEq] at hf
  subst hf
  have hformed : old.IsFormed := (h.meetsFormed State.orderly_initial
    (Invocation.meetsFormed_initial hgenesis) hconstants).retiring hretiring
  exact ⟨hformed, Migration.movesFunds_of_sweep (h.secured hnumbered) hformed hsweep⟩

/-- What retires goes on retiring behind the same federation, unless a call ends its window. -/
theorem retiring_of_window {start finish : State} {calls : List Call} {i j : Invocation}
    (h : Run start calls finish) (horderly : start.Orderly) (hij : i.Precedes j)
    (hretiring : i.retiring start = some old) (hwindow : ∀ d ∈ calls, ¬ d.EndsWindow old) :
    j.retiring finish = some old ∧ j.active finish = i.active start := by
  obtain ⟨hold, new, hplace, hage⟩ := i.retiring_eq_some_iff.mp hretiring
  rcases h.retained_or horderly hold with ⟨hnew, hold'⟩ | ⟨d, hd, hends⟩
  · have hlater : j.retiring finish = some old :=
      j.retiring_eq_some_iff.mpr ⟨hold', new, hnew.trans hplace, hij.hasAge hage⟩
    have hactive := Invocation.active_of_retiring hlater
    rw [hnew, Invocation.active_of_retiring hretiring, Option.some.injEq] at hactive
    exact ⟨hlater, hactive.symm⟩
  · exact absurd hends (hwindow d hd)

/-- **A migration is recognised when it comes back mined.** Let an update of a new peg build a
migration within the window of the retiring federation, and let it be registered in a later call with
anything in its slots and a valid proof, when it has not been recorded. Then it pays the federation
that was active in the update. If no call has ended the window meanwhile, that one is active still,
the transaction is recorded, and every output that pays it is added to its list, provided they sum up
to no more than there can be. In general, it is recognised exactly if a live federation has the
script of the one that it spends from, and the call changes nothing otherwise. (Outputs are assumed
to be numbered.) -/
theorem migration_recognised {tx : Transaction} {raw proof : Bytes} {height : Int}
    (hearlier : Run .initial earlier c₀.before.state)
    (hlater : Run c₀.after.state later c.before.state)
    (hconstants : ∀ d ∈ earlier, d.invocation.constants = c₀.invocation.constants)
    (hgenesis : c₀.invocation.constants.genesis.IsFormed)
    (hprecedes : c₀.invocation.Precedes c.invocation)
    (hnumbered : ∀ d ∈ c :: (earlier ++ c₀ :: later), d.operation.IsNumbered)
    (hmigrates : c₀.Migrates migration)
    (hretiring : c₀.invocation.retiring c₀.before.state = some old)
    (hwithin : ¬ c₀.EndsWindow old) (hfills : tx.Fills migration)
    (hop : c.operation = .register raw height proof)
    (hdecode : Transaction.decode? raw = some tx)
    (hburied : Registration.Buried c.invocation raw height proof)
    (hnew : c.before.state.processed.contains (Registration.rawTxid raw) = false) :
    (∀ o ∈ tx.outputs, o.script = (c₀.invocation.active c₀.before.state).payScript) ∧
      ((∀ d ∈ later, ¬ d.EndsWindow old) → tx.totalOutput ≤ Amount.maxMoney →
        c.invocation.active c.before.state = c₀.invocation.active c₀.before.state ∧
          c.after.state.processed.get? (Registration.rawTxid raw) =
            some c.invocation.block.number ∧
          c.after.state.holdings.new = c.before.state.holdings.new ++
            Utxo.ofOutputs tx (UInt32.ofNat height.toNat)
              (· == (c.invocation.active c.before.state).payScript)) ∧
      (c.Recognises raw height tx ↔ tx.totalOutput ≤ Amount.maxMoney ∧
        ∃ g ∈ c.invocation.live c.before.state, g.redeemScript = old.redeemScript) ∧
      (¬ c.Recognises raw height tx →
        c.after.state = c.before.state ∧ c.after.ledger = c.before.ledger) := by
  rw [List.forall_mem_cons] at hnumbered
  obtain ⟨hregister, hnumbered⟩ := hnumbered
  obtain ⟨hformed, hbuilt⟩ := hearlier.movesFunds_of_migrates hconstants hgenesis
    (fun d hd => hnumbered d (List.mem_append_left _ hd)) hmigrates hretiring
  have hmoves := hbuilt.of_fills hfills
  have hrun : Run c₀.before.state (c₀ :: later) c.before.state := .cons rfl .kept hlater
  obtain ⟨hiff, hunchanged⟩ := Call.recognises_iff hmoves hformed
    ((hearlier.append hrun).secured hnumbered) hop hregister hdecode hburied hnew
  refine ⟨hmoves.destination, fun hwindow hrange => ?_, hiff, hunchanged⟩
  obtain ⟨hstill, hactive⟩ := hrun.retiring_of_window hearlier.orderly hprecedes hretiring
    (List.forall_mem_cons.mpr ⟨hwithin, hwindow⟩)
  have hlive : old ∈ c.invocation.live c.before.state := by
    rw [Invocation.live, hstill]
    exact List.mem_cons_of_mem _ List.mem_cons_self
  have hrecognised := hiff.mpr ⟨hrange, old, hlive, rfl⟩
  have hslot := c.invocation.activeSlot_of_retiring hstill
  have hlisted := hrecognised.listed
  rw [Invocation.activeUtxos, Invocation.activeUtxos, hrecognised.slot, hslot] at hlisted
  exact ⟨hactive, hrecognised.recorded, hlisted⟩

end Run

/-! ### A migration that comes back in time, and too late -/

namespace Example

/-- The migration with its slot filled. -/
def migrationFilled : Transaction :=
  { migration with
    inputs :=
      [{ migrationInput with
        scriptSig :=
          Script.push [] ++ Script.push [0x30] ++ Script.push federation.redeemScript }] }

/-- The proof that bytes are the only transaction of a block. -/
def loneProof (raw : Bytes) : Bytes := [1, 0, 0, 0, 1] ++ (Sha256.double raw).toList ++ [1, 1]

/-- The registration of the only transaction of a block. -/
def loneCall (block : UInt64) (raw : Bytes) (s : State) : Call where
  invocation :=
    { constants := constants
      chain := { chain with headerAt := fun _ => some (headerWith (Sha256.double raw)) }
      block := ⟨block, 0⟩ }
  operation := .register raw 2 (loneProof raw)
  before := ⟨s, .empty, []⟩

/-- The state before the call. -/
theorem state_before_loneCall (block : UInt64) (raw : Bytes) (s : State) :
    (loneCall block raw s).before.state = s := rfl

/-- The migration is registered within the window. -/
def returned : Call := loneCall 60 migrationFilled.encodePlain passedOn.after.state

/-- The migration is registered after the window. -/
def returnedLate : Call := loneCall 115 migrationFilled.encodePlain windowEnded.after.state

/-- The calls before the update that builds the migration. -/
theorem run_migrated :
    Run .initial commitment migrated.before.state := by
  rw [migrated, state_before_call]
  exact run_commitment

/-- The call between the update and the registration within the window. -/
theorem run_returned : Run migrated.after.state [passedOn] returned.before.state := by
  rw [returned, state_before_loneCall]
  exact .cons (state_before_call _ _ _ _) .kept (.nil _)

/-- The calls between the update and the registration after the window. -/
theorem run_returnedLate :
    Run migrated.after.state [passedOn, windowEnded] returnedLate.before.state := by
  rw [returnedLate, state_before_loneCall]
  exact .cons (state_before_call _ _ _ _) .kept
    (.cons (state_before_call _ _ _ _) .kept (.nil _))

/-- No call before the update is made under other constants. -/
theorem constants_commitment : ∀ d ∈ commitment, d.invocation.constants = constants :=
  fun d hd => constants_handover d (List.mem_append_left _ (List.mem_append_left _ hd))

/-- What there is to compute about the bytes of the migration: they are no more than can be numbered,
and neither are those of the change; they spell the transaction, and only what is in its slots has
changed; they have another name than the change; and the proof leads to their root. -/
theorem bytes_migrationFilled :
    (change.encodePlain.length ≤ 9 * UInt32.size ∧
        migrationFilled.encodePlain.length ≤ 9 * UInt32.size) ∧
      (Transaction.decode? migrationFilled.encodePlain = some migrationFilled ∧
        migrationFilled.frames = migration.frames) ∧
      Registration.rawTxid migrationFilled.encodePlain ≠ ⟨changeDigest⟩ ∧
      (Registration.provedRoot (Registration.rawTxid migrationFilled.encodePlain)
        (loneProof migrationFilled.encodePlain)).toOption =
          some (Sha256.double migrationFilled.encodePlain) := by
  decide +kernel

/-- The outputs are numbered in all calls. -/
theorem isNumbered_handover : ∀ d ∈ handover ++ [windowEnded], d.operation.IsNumbered := by
  simp only [handover, commitment, List.cons_append, List.nil_append, List.forall_mem_cons,
    List.not_mem_nil, false_implies, implies_true, and_true]
  exact ⟨Operation.isNumbered_of_length_le bytes_migrationFilled.1.1, trivial, trivial, trivial,
    trivial, trivial, trivial⟩

/-- They are in the registrations of the migration. -/
theorem isNumbered_loneCall (block : UInt64) (s : State) :
    (loneCall block migrationFilled.encodePlain s).operation.IsNumbered :=
  Operation.isNumbered_of_length_le bytes_migrationFilled.1.2

/-- Only what is in the slots has changed. -/
theorem fills_migration : migrationFilled.Fills migration := ⟨rfl, bytes_migrationFilled.2.1.2⟩

/-- The bytes spell the transaction. -/
theorem decode?_migrationFilled :
    Transaction.decode? migrationFilled.encodePlain = some migrationFilled :=
  bytes_migrationFilled.2.1.1

/-- The update builds the migration of the first federation to the other one. -/
theorem migrates_migration :
    migrated.Migrates migration ∧
      migrated.invocation.retiring migrated.before.state = some federation ∧
      migrated.invocation.active migrated.before.state = heir := by
  obtain ⟨⟨hwaits, hlive⟩, -⟩ := handover_states
  rw [Invocation.live, List.cons.injEq] at hlive
  refine ⟨⟨⟨_, rfl⟩, hwaits⟩, ?_, hlive.1⟩
  rcases hretiring : migrated.invocation.retiring migrated.before.state with - | f
  · rw [hretiring] at hlive
    cases hlive.2
  · rw [hretiring] at hlive
    exact congrArg some (List.singleton_injective hlive.2)

/-- No window of a federation has ended when the migration has been passed on. -/
theorem not_endsWindow_of_mem {d : Call} (hd : d ∈ [migrated, passedOn]) (f : Federation) :
    ¬ d.EndsWindow f :=
  not_endsWindow_of_mem_handover d (List.mem_append_right commitment hd) f

/-- The bytes have not been recorded where only the change has. -/
theorem not_contains_migrationFilled {s : State} (h : s.processed.keys = [⟨changeDigest⟩]) :
    s.processed.contains (Registration.rawTxid migrationFilled.encodePlain) = false := by
  rw [← Bool.not_eq_true, ← SortedMap.mem_keys_iff, h, List.mem_singleton]
  exact bytes_migrationFilled.2.2.1

/-- The proof leads to the root in the header. -/
theorem buried_migrationFilled (block : UInt64) (s : State) :
    Registration.Buried (loneCall block migrationFilled.encodePlain s).invocation
      migrationFilled.encodePlain 2 (loneProof migrationFilled.encodePlain) := by
  have hproved := eq_ok_of_toOption bytes_migrationFilled.2.2.2
  exact ⟨by decide, show 2 + constants.btcConfirmations ≤ chain.bestHeight + 1 by decide,
    headerWith (Sha256.double migrationFilled.encodePlain), rfl, hproved⟩

end Example

namespace Run

open Example

/-- The migration comes back within the window, and its output is listed. -/
theorem migration_recognised_within_window :
    (migrated.Migrates migration ∧ migrationFilled.Fills migration ∧
        ∀ d ∈ [passedOn], ¬ d.EndsWindow federation) ∧
      returned.invocation.active returned.before.state = heir ∧
      returned.after.state.processed.get?
        (Registration.rawTxid migrationFilled.encodePlain) = some 60 ∧
      returned.after.state.holdings.new = returned.before.state.holdings.new ++
        Utxo.ofOutputs migrationFilled 2 (· == heir.payScript) := by
  obtain ⟨hmigrates, hretiring, hactive⟩ := migrates_migration
  obtain ⟨-, ⟨-, hprocessed⟩, -⟩ := handover_states
  have hnumbered : ∀ d ∈ returned :: handover, d.operation.IsNumbered :=
    List.forall_mem_cons.mpr ⟨isNumbered_loneCall _ _,
      fun d hd => isNumbered_handover d (List.mem_append_left _ hd)⟩
  have hnew : returned.before.state.processed.contains
      (Registration.rawTxid migrationFilled.encodePlain) = false := by
    rw [returned, state_before_loneCall]
    exact not_contains_migrationFilled hprocessed
  have hwindow : ∀ d ∈ [passedOn], ¬ d.EndsWindow federation := fun d hd =>
    not_endsWindow_of_mem (List.mem_cons_of_mem _ hd) federation
  obtain ⟨-, hkept, -⟩ := migration_recognised run_migrated run_returned constants_commitment
    federation_isFormed ⟨rfl, by decide⟩ hnumbered hmigrates hretiring
    (not_endsWindow_of_mem List.mem_cons_self federation) fills_migration rfl
    decode?_migrationFilled (buried_migrationFilled _ _) hnew
  obtain ⟨hsame, hrecorded, hlisted⟩ := hkept hwindow (by decide)
  rw [hsame, hactive] at hlisted
  exact ⟨⟨hmigrates, fills_migration, hwindow⟩, hsame.trans hactive, hrecorded, hlisted⟩

/-- The migration has been built within the window. It comes back after the window with its slot
filled and a valid proof, when the federation that it pays is still active, and nothing happens. -/
theorem migration_ignored_after_window :
    (Run .initial commitment migrated.before.state ∧
        migrated.Migrates migration ∧ ¬ migrated.EndsWindow federation) ∧
      (Run migrated.after.state [passedOn, windowEnded] returnedLate.before.state ∧
        migrated.invocation.Precedes returnedLate.invocation ∧
        returnedLate.invocation.active returnedLate.before.state =
          migrated.invocation.active migrated.before.state) ∧
      (migrationFilled.Fills migration ∧
        returnedLate.operation = .register migrationFilled.encodePlain 2
          (loneProof migrationFilled.encodePlain) ∧
        Transaction.decode? migrationFilled.encodePlain = some migrationFilled ∧
        Registration.Buried returnedLate.invocation migrationFilled.encodePlain 2
          (loneProof migrationFilled.encodePlain) ∧
        returnedLate.before.state.processed.contains
          (Registration.rawTxid migrationFilled.encodePlain) = false) ∧
      ¬ returnedLate.Recognises migrationFilled.encodePlain 2 migrationFilled ∧
        returnedLate.after.state = returnedLate.before.state := by
  obtain ⟨hmigrates, hretiring, hactive⟩ := migrates_migration
  obtain ⟨-, -, -, hprocessed, -⟩ := handover_states
  have hlive : returnedLate.invocation.live returnedLate.before.state = [heir] := by
    rw [returnedLate, state_before_loneCall]
    exact live_windowEnded rfl
  have hother : heir.redeemScript ≠ federation.redeemScript := by decide +kernel
  obtain ⟨hformed, hbuilt⟩ := run_migrated.movesFunds_of_migrates constants_commitment
    federation_isFormed (fun d hd => isNumbered_handover d
      (List.mem_append_left _ (List.mem_append_left _ hd))) hmigrates hretiring
  have hnew : returnedLate.before.state.processed.contains
      (Registration.rawTxid migrationFilled.encodePlain) = false := by
    rw [returnedLate, state_before_loneCall]
    exact not_contains_migrationFilled hprocessed
  have hsecured : returnedLate.before.state.Secured := by
    rw [returnedLate, state_before_loneCall]
    exact run_windowEnded.secured isNumbered_handover
  obtain ⟨hiff, hunchanged⟩ := Call.recognises_iff (hbuilt.of_fills fills_migration) hformed
    hsecured rfl (isNumbered_loneCall _ _) decode?_migrationFilled (buried_migrationFilled _ _) hnew
  have hnot : ¬ returnedLate.Recognises migrationFilled.encodePlain 2 migrationFilled := by
    rw [hiff, hlive]
    rintro ⟨-, g, hg, hredeem⟩
    rw [List.mem_singleton.mp hg] at hredeem
    exact hother hredeem
  have hsame : returnedLate.invocation.active returnedLate.before.state = heir :=
    (List.cons.inj hlive).1
  exact ⟨⟨run_migrated, hmigrates, not_endsWindow_of_mem List.mem_cons_self federation⟩,
    ⟨run_returnedLate, ⟨rfl, by decide⟩, hsame.trans hactive.symm⟩,
    ⟨fills_migration, rfl, decode?_migrationFilled, buried_migrationFilled _ _, hnew⟩,
    hnot, (hunchanged hnot).1⟩

end Run

end TwoWayPeg
