import TwoWayPeg.Proofs.Bitcoin.Pushes
import TwoWayPeg.Proofs.Federation.RedeemScript
import TwoWayPeg.Proofs.Release.InFlight

/-!
# What signing keeps of a script

An input pushes an empty string, its slots, and the script that they satisfy. Signing fills slots; it
changes neither how many pushes there are nor the last one. So whoever had to sign an input has to
sign it throughout, and the input is recognised by its script whatever its slots hold.

* `Coin.frame_input`: an unsigned input carries the script of its owner.
* `PendingSignatures.frames_signTransaction`: signing keeps the frames of all inputs.
-/

namespace TwoWayPeg

/-- What signing keeps of the script of an input: how many pushes there are, and the last of them. -/
def TxIn.frame (i : TxIn) : Option (Nat × Script) :=
  i.scriptSig.chunks.bind fun cs => cs.getLast?.map fun redeem => (cs.length, redeem)

/-- The frames of all inputs. -/
def Transaction.frames (tx : Transaction) : List (Option (Nat × Script)) :=
  tx.inputs.map TxIn.frame

namespace TxIn

variable {i : TxIn} {cs : List Bytes} {redeem : Script}

/-- The frame of an input, by what it pushes. -/
theorem frame_of_chunks (h : i.scriptSig.chunks = some (cs ++ [redeem])) :
    i.frame = some (cs.length + 1, redeem) := by
  rw [frame, h, Option.bind_some, List.getLast?_concat, Option.map_some, List.length_append]
  rfl

/-- What an input with a frame pushes. -/
theorem exists_chunks_of_frame {n : Nat} (h : i.frame = some (n, redeem)) :
    ∃ cs, i.scriptSig.chunks = some (cs ++ [redeem]) ∧ n = cs.length + 1 := by
  obtain ⟨pushed, hpushed, hframe⟩ := Option.bind_eq_some_iff.mp h
  obtain ⟨last, hlast, hpair⟩ := Option.map_eq_some_iff.mp hframe
  obtain ⟨rfl, rfl⟩ := Prod.mk.inj hpair
  obtain ⟨cs, rfl⟩ := List.getLast?_eq_some_iff.mp hlast
  exact ⟨cs, hpushed, List.length_append⟩

/-- An input satisfies the script of its frame. -/
theorem redeemScript?_of_frame {n : Nat} (h : i.frame = some (n, redeem)) :
    ScriptSig.redeemScript? i.scriptSig = some redeem := by
  obtain ⟨cs, hchunks, -⟩ := exists_chunks_of_frame h
  rw [ScriptSig.redeemScript?, hchunks, Option.bind_some, List.getLast?_concat]

/-- The script that an input satisfies is kept in its frame. -/
theorem redeemScript?_eq (i : TxIn) :
    ScriptSig.redeemScript? i.scriptSig = i.frame.map Prod.snd := by
  unfold ScriptSig.redeemScript? frame
  rcases i.scriptSig.chunks with - | cs
  · rfl
  · rcases h : cs.getLast? with - | redeem
    · simp [h]
    · simp [h]

end TxIn

/-! ### Unsigned inputs -/

/-- What a script with empty slots pushes. -/
theorem ScriptSig.chunks_placeholder {redeem : Script} (h : redeem.length < UInt32.size)
    (slots : Nat) :
    (placeholder redeem slots).chunks = some (List.replicate (slots + 1) [] ++ [redeem]) := by
  have hchunks : ∀ c ∈ List.replicate (slots + 1) [] ++ [redeem], c.length < UInt32.size := by
    intro c hc
    rcases List.mem_append.mp hc with hc | hc
    · rw [List.eq_of_mem_replicate hc]
      decide
    · rw [List.mem_singleton.mp hc]
      exact h
  obtain ⟨s, hs⟩ := Script.exists_ofChunks? hchunks
  rw [placeholder, hs, Option.getD_some, Script.chunks_of_ofChunks? hs]

/-- **An unsigned input carries the script of its owner**, behind one slot for each signature that
is needed. -/
theorem Coin.frame_input {c : Coin} (h : c.owner.IsFormed) :
    c.input.frame = some (c.owner.threshold + 2, c.owner.redeemScript) := by
  have hframe := TxIn.frame_of_chunks (i := c.input)
    (ScriptSig.chunks_placeholder h.redeemScript_lt c.owner.threshold)
  rw [hframe, List.length_replicate]

/-! ### Signing -/

namespace PendingSignatures

/-- Filling slots keeps how many there are and the script behind them. -/
theorem chunks_of_fill {slots : Nat} {filled : List Bytes} {redeem script : Script}
    (h : fill slots filled redeem = some script) (hroom : filled.length ≤ slots) :
    ∃ cs, script.chunks = some (cs ++ [redeem]) ∧ cs.length = slots + 1 := by
  refine ⟨[] :: (filled ++ List.replicate (slots - filled.length) []),
    Script.chunks_of_ofChunks? h, ?_⟩
  simp only [List.length_cons, List.length_append, List.length_replicate]
  omega

/-- The place of a signature is one among the filled slots or behind them. -/
theorem slotPosition_le {keys : List PublicKey} {digest : FixedBytes 32} {place position : Nat}
    {filled : List Bytes} (h : slotPosition keys digest place filled = some position) :
    position ≤ filled.length := by
  induction filled generalizing position with
  | nil =>
    cases h
    exact Nat.le_refl 0
  | cons slot rest ih =>
    unfold slotPosition at h
    split at h
    · cases h
    · split at h
      · cases h
        exact Nat.zero_le _
      · obtain ⟨before, hbefore, rfl⟩ := Option.map_eq_some_iff.mp h
        exact Nat.succ_le_succ (ih hbefore)

/-- The script that signing gives to an input: the one it has, or the script of its pushes with the
signature put among the filled slots, of which not all were filled. -/
theorem signInput_eq_signed {key : PublicKey} {c : CheckedInput} {script : Script}
    (h : signInput key c = .signed script) :
    ∃ pushed, c.input.scriptSig.chunks = some pushed ∧
      (script = c.input.scriptSig ∨
        let slots := (pushed.drop 1).dropLast
        let filled := slots.filter fun slot => !slot.isEmpty
        filled.length < slots.length ∧ ∃ position ≤ filled.length,
          fill slots.length (filled.insertIdx position (c.signature.encode ++ [commitsToAll]))
            (pushed.getLastD []) = some script) := by
  unfold signInput at h
  split at h
  · cases h
  · next pushed hpushed =>
    refine ⟨pushed, hpushed, ?_⟩
    split at h
    · cases h
    · simp only at h
      split at h
      · cases h
      · split at h
        · cases h
        · split at h
          · cases h
            exact .inl rfl
          · next hroom =>
            split at h
            · cases h
            · next position hposition =>
              split at h
              · cases h
              · next hfill =>
                cases h
                exact .inr ⟨Nat.lt_of_not_le hroom, position, slotPosition_le hposition, hfill⟩

/-- Signing an input keeps its frame. -/
theorem frame_of_signInput {key : PublicKey} {c : CheckedInput} {script : Script}
    (h : signInput key c = .signed script) :
    ({ c.input with scriptSig := script } : TxIn).frame = c.input.frame := by
  obtain ⟨pushed, hpushed, rfl | ⟨hroom, position, hposition, hfill⟩⟩ := signInput_eq_signed h
  · rfl
  have hfits := List.length_insertIdx_of_le_length hposition
    (c.signature.encode ++ [commitsToAll])
  obtain ⟨cs, hchunks, hsize⟩ := chunks_of_fill hfill (by omega)
  rcases List.eq_nil_or_concat pushed with rfl | ⟨front, redeem, rfl⟩
  · exact absurd hroom (Nat.not_lt_zero _)
  rw [List.concat_eq_append] at hpushed hroom hchunks hsize
  rw [List.getLastD_concat] at hchunks
  rw [TxIn.frame_of_chunks (i := c.input) hpushed,
    TxIn.frame_of_chunks (i := { c.input with scriptSig := script }) hchunks, hsize]
  rw [List.length_dropLast, List.length_drop, List.length_append, List.length_singleton] at hroom ⊢
  congr 2
  omega

/-- **Signing keeps the frames of all inputs.** -/
theorem frames_signTransaction (tx : Transaction) (key : PublicKey) (signatures : List Bytes) :
    (signTransaction tx key signatures).2.frames = tx.frames := by
  obtain ⟨inputs, htx, hinputs⟩ :=
    exists_inputs_signTransaction (fun _ _ h => frame_of_signInput h) tx signatures
  rw [htx]
  exact hinputs

end PendingSignatures

/-- Signatures keep the frames of all inputs. -/
theorem Transaction.SignedFrom.frames_eq {tx kept : Transaction} (h : tx.SignedFrom kept) :
    kept.frames = tx.frames := by
  induction h with
  | unsigned => rfl
  | signed h key signatures ih => rw [PendingSignatures.frames_signTransaction, ih]

end TwoWayPeg
