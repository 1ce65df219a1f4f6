import TwoWayPeg.Bitcoin.Transaction

/-!
# Only canonical bytes are read

A reader is *canonical* for a way of writing when everything it takes from the front of an input is
what writing the value gives. All readers of the bitcoin formats are canonical, because a count is
accepted in its shortest form only.

* `CompactSize.read_canonical`, `Reader.list_canonical`: counts and counted lists.
* `Transaction.plain_of_decode?`: a transaction whose bytes announce at least one input is in the
  plain form. It has as many inputs as announced and no witness, and its plain form is the bytes it
  was read from. So its name is the double digest of those bytes.
* `Transaction.exists_count_of_decode?`: a transaction with inputs and without witnesses is read from
  bytes that announce its inputs.
-/

namespace TwoWayPeg

namespace Reader

/-- What the reader takes from the front of an input is the written form of the value. -/
def Canonical {α : Type} (r : Reader α) (encode : α → Bytes) : Prop :=
  ∀ b x rest, r b = some (x, rest) → b = encode x ++ rest

/-- Taking succeeds on inputs that begin with that many bytes. -/
theorem take_eq_some_iff {n : Nat} {b part rest : Bytes} :
    take n b = some (part, rest) ↔ b = part ++ rest ∧ part.length = n := by
  simp only [take]
  constructor
  · intro h
    split at h
    · next hlen =>
      cases h
      exact ⟨(List.take_append_drop n b).symm, hlen⟩
    · cases h
  · rintro ⟨rfl, rfl⟩
    simp

/-- Bytes of a fixed length are read as they stand. -/
theorem fixed_canonical (n : Nat) : (fixed n).Canonical FixedBytes.toList := by
  intro b a rest h
  unfold fixed at h
  obtain ⟨a', ha', h⟩ := Option.map_eq_some_iff.mp h
  cases h
  rw [FixedBytes.toList_of_ofList? ha', List.take_append_drop]

/-- A number that is read was written in its width, and it fits the width. -/
theorem number_eq_some {width n : Nat} {b rest : Bytes} (h : number width b = some (n, rest)) :
    b = Bytes.ofNatLE width n ++ rest ∧ n < Bytes.capacity width := by
  unfold number at h
  obtain ⟨⟨part, rest'⟩, hpart, h⟩ := Option.map_eq_some_iff.mp h
  cases h
  obtain ⟨rfl, rfl⟩ := take_eq_some_iff.mp hpart
  exact ⟨by rw [Bytes.ofNatLE_toNatLE], Bytes.toNatLE_lt part⟩

variable {α : Type} {item : Reader α} {encode : α → Bytes}

/-- Values read one after another stand one after another. -/
theorem list_canonical (hitem : item.Canonical encode) (count : Nat) :
    (list item count).Canonical fun xs => xs.flatMap encode := by
  induction count with
  | zero =>
    intro b xs rest h
    cases h
    rfl
  | succ count ih =>
    intro b xs rest h
    unfold list at h
    split at h
    · cases h
    · next x b' hx =>
      split at h
      · cases h
      · next xs' b'' hxs =>
        cases h
        rw [hitem _ _ _ hx, ih _ _ _ hxs]
        simp

/-- As many values are read as are asked for. -/
theorem length_of_list {count : Nat} {b rest : Bytes} {xs : List α}
    (h : list item count b = some (xs, rest)) : xs.length = count := by
  induction count generalizing b xs with
  | zero => cases h; rfl
  | succ count ih =>
    unfold list at h
    split at h
    · cases h
    · split at h
      · cases h
      · next hxs =>
        cases h
        simp [ih hxs]

/-- What holds of everything a reader takes holds of all values in a list. -/
theorem forall_mem_of_list {P : α → Prop} (hitem : ∀ b x rest, item b = some (x, rest) → P x)
    {count : Nat} {b rest : Bytes} {xs : List α} (h : list item count b = some (xs, rest)) :
    ∀ x ∈ xs, P x := by
  induction count generalizing b xs with
  | zero => cases h; simp
  | succ count ih =>
    unfold list at h
    split at h
    · cases h
    · next x b' hx =>
      split at h
      · cases h
      · next hxs =>
        cases h
        intro y hy
        rcases List.mem_cons.mp hy with rfl | hy
        · exact hitem _ _ _ hx
        · exact ih hxs y hy

end Reader

/-! ### Counts -/

namespace CompactSize

/-- A longer form is accepted only for numbers that need it. -/
theorem readAbove_eq_some {width least n : Nat} {b rest : Bytes}
    (h : readAbove width least b = some (n, rest)) :
    b = Bytes.ofNatLE width n ++ rest ∧ least ≤ n ∧ n < Bytes.capacity width := by
  unfold readAbove at h
  split at h
  · cases h
  · next hn =>
    split at h
    · cases h
    · next hleast =>
      cases h
      obtain ⟨hb, hlt⟩ := Reader.number_eq_some hn
      exact ⟨hb, Nat.le_of_not_lt hleast, hlt⟩

/-- A count is accepted in its shortest form only. -/
theorem read_canonical : Reader.Canonical read encode := by
  intro b n rest h
  cases b with
  | nil => cases h
  | cons mark b =>
    simp only [read] at h
    split at h
    · next hmark =>
      obtain ⟨rfl, hle, hlt⟩ := readAbove_eq_some h
      have hlt : n < 0x10000 := hlt
      simp [encode, hmark, Nat.not_lt.mpr hle, hlt]
    · split at h
      · next hmark =>
        obtain ⟨rfl, hle, hlt⟩ := readAbove_eq_some h
        have hlt : n < 0x100000000 := hlt
        have hbig : ¬ n < 0xFD := by omega
        simp [encode, hmark, hbig, Nat.not_lt.mpr hle, hlt]
      · split at h
        · next hmark =>
          obtain ⟨rfl, hle, -⟩ := readAbove_eq_some h
          have hbig : ¬ n < 0xFD := by omega
          have hbigger : ¬ n < 0x10000 := by omega
          simp [encode, hmark, hbig, hbigger, Nat.not_lt.mpr hle]
        · next hfd hfe hff =>
          cases h
          have hsmall : mark.toNat < 0xFD := by
            have h256 := mark.toNat_lt
            have h1 : mark.toNat ≠ 0xFD := fun he => hfd (UInt8.toNat_inj.mp he)
            have h2 : mark.toNat ≠ 0xFE := fun he => hfe (UInt8.toNat_inj.mp he)
            have h3 : mark.toNat ≠ 0xFF := fun he => hff (UInt8.toNat_inj.mp he)
            omega
          simp [encode, hsmall]

/-- A counted byte string is read as it was written. -/
theorem readBytes_canonical : Reader.Canonical readBytes encodeBytes := by
  intro b part rest h
  unfold readBytes at h
  split at h
  · cases h
  · next n b' hn =>
    obtain ⟨rfl, rfl⟩ := Reader.take_eq_some_iff.mp h
    rw [read_canonical _ _ _ hn, encodeBytes, List.append_assoc]

end CompactSize

/-! ### Transactions -/

namespace Transaction

/-- A word is read as it was written. -/
theorem readWord_canonical : Reader.Canonical readWord wordBytes := by
  intro b w rest h
  unfold readWord at h
  obtain ⟨⟨n, rest'⟩, hn, h⟩ := Option.map_eq_some_iff.mp h
  cases h
  obtain ⟨rfl, hlt⟩ := Reader.number_eq_some hn
  have hlt : n < UInt32.size := hlt
  have hword : (UInt32.ofNat n).toNat = n := UInt32.toNat_ofNat_of_lt' hlt
  rw [wordBytes, hword]

/-- An outpoint is read as it was written. -/
theorem readOutPoint_canonical : Reader.Canonical readOutPoint OutPoint.encode := by
  intro b o rest h
  unfold readOutPoint at h
  split at h
  · cases h
  · next txid b' htxid =>
    obtain ⟨⟨vout, rest'⟩, hvout, h⟩ := Option.map_eq_some_iff.mp h
    cases h
    rw [Reader.fixed_canonical 32 _ _ _ htxid, readWord_canonical _ _ _ hvout]
    simp [OutPoint.encode]

/-- An input is read as it was written. -/
theorem readInput_canonical : Reader.Canonical readInput TxIn.encode := by
  intro b input rest h
  unfold readInput at h
  split at h
  · cases h
  · next previous b' hprevious =>
    split at h
    · cases h
    · next scriptSig b'' hscript =>
      obtain ⟨⟨sequence, rest'⟩, hsequence, h⟩ := Option.map_eq_some_iff.mp h
      cases h
      rw [readOutPoint_canonical _ _ _ hprevious, CompactSize.readBytes_canonical _ _ _ hscript,
        readWord_canonical _ _ _ hsequence]
      simp [TxIn.encode]

/-- The witness of an input does not stand among the inputs. -/
theorem witness_of_readInput {b rest : Bytes} {input : TxIn}
    (h : readInput b = some (input, rest)) : input.witness = [] := by
  unfold readInput at h
  split at h
  · cases h
  · split at h
    · cases h
    · obtain ⟨r, -, h⟩ := Option.map_eq_some_iff.mp h
      cases h
      rfl

/-- An output is read as it was written. -/
theorem readOutput_canonical : Reader.Canonical readOutput TxOut.encode := by
  intro b output rest h
  unfold readOutput at h
  split at h
  · cases h
  · next n b' hn =>
    split at h
    · cases h
    · next value hvalue =>
      obtain ⟨⟨script, rest'⟩, hscript, h⟩ := Option.map_eq_some_iff.mp h
      cases h
      rw [(Reader.number_eq_some hn).1, CompactSize.readBytes_canonical _ _ _ hscript,
        ← Amount.sats_of_ofNat? hvalue]
      simp [TxOut.encode]

/-- A list is read as it was written, its count included. -/
theorem readCounted_canonical {α : Type} {item : Reader α} {encode : α → Bytes}
    (hitem : item.Canonical encode) :
    (readCounted item).Canonical fun xs => CompactSize.encode xs.length ++ xs.flatMap encode := by
  intro b xs rest h
  unfold readCounted at h
  split at h
  · cases h
  · next n b' hn =>
    rw [CompactSize.read_canonical _ _ _ hn, Reader.list_canonical hitem n _ _ _ h]
    simp [Reader.length_of_list h]

/-- A list has as many items as its count says. -/
theorem length_of_readCounted {α : Type} {item : Reader α} {b rest : Bytes} {xs : List α}
    (h : readCounted item b = some (xs, rest)) :
    ∃ tail, CompactSize.read b = some (xs.length, tail) := by
  unfold readCounted at h
  split at h
  · cases h
  · next n b' hn => exact ⟨b', by rw [hn, Reader.length_of_list h]⟩

/-- What holds of everything a reader takes holds of all values in a counted list. -/
theorem forall_mem_of_readCounted {α : Type} {item : Reader α} {P : α → Prop}
    (hitem : ∀ b x rest, item b = some (x, rest) → P x) {b rest : Bytes} {xs : List α}
    (h : readCounted item b = some (xs, rest)) : ∀ x ∈ xs, P x := by
  unfold readCounted at h
  split at h
  · cases h
  · exact Reader.forall_mem_of_list hitem h

/-- A transaction whose bytes announce inputs in front is read in the plain form. -/
theorem plain_of_read {b rest : Bytes} {tx : Transaction} {n : Nat} {tail : Bytes}
    (h : read b = some (tx, rest)) (hcount : CompactSize.read (b.drop 4) = some (n, tail))
    (hn : n ≠ 0) :
    b = tx.encodePlain ++ rest ∧ tx.inputs.length = n ∧ ∀ i ∈ tx.inputs, i.witness = [] := by
  unfold read at h
  split at h
  · cases h
  · next version b₁ hversion =>
    have hb := readWord_canonical _ _ _ hversion
    have hdrop : b.drop 4 = b₁ := by
      rw [hb, List.drop_left' (by simp [wordBytes])]
    split at h
    · cases h
    · next b₂ hinputs =>
      obtain ⟨tail', htail⟩ := length_of_readCounted hinputs
      rw [← hdrop, hcount] at htail
      cases htail
      exact absurd rfl hn
    · next hinputs =>
      cases h
    · next inputs b₂ _ _ hinputs =>
      split at h
      · cases h
      · next outputs b₃ houtputs =>
        obtain ⟨⟨lockTime, rest'⟩, hlock, h⟩ := Option.map_eq_some_iff.mp h
        cases h
        obtain ⟨tail', htail⟩ := length_of_readCounted hinputs
        rw [← hdrop, hcount] at htail
        cases htail
        refine ⟨?_, rfl, forall_mem_of_readCounted (fun _ _ _ => witness_of_readInput) hinputs⟩
        rw [hb, readCounted_canonical readInput_canonical _ _ _ hinputs,
          readCounted_canonical readOutput_canonical _ _ _ houtputs,
          readWord_canonical _ _ _ hlock]
        simp [encodePlain, encodeInputs, encodeOutputs]

/-- **Bytes that announce inputs are the plain form of what they spell.** The transaction has as
many inputs as announced, and no witness. -/
theorem plain_of_decode? {raw : Bytes} {tx : Transaction} {n : Nat} {tail : Bytes}
    (h : decode? raw = some tx) (hcount : CompactSize.read (raw.drop 4) = some (n, tail))
    (hn : n ≠ 0) :
    raw = tx.encodePlain ∧ tx.inputs.length = n ∧ ∀ i ∈ tx.inputs, i.witness = [] := by
  unfold decode? Reader.whole at h
  split at h
  · next hread =>
    cases h
    simpa using plain_of_read hread hcount hn
  · cases h

/-- What is read behind the flag without any witness has no inputs. -/
theorem inputs_of_readFlagged {version : UInt32} {b rest : Bytes} {tx : Transaction}
    (h : readFlagged version b = some (tx, rest)) (hwitness : ∀ i ∈ tx.inputs, i.witness = []) :
    tx.inputs = [] := by
  unfold readFlagged at h
  split at h
  · cases h
  · split at h
    · cases h
    · split at h
      · cases h
      · next inputs b₃ _ =>
        split at h
        · cases h
        · next hflag =>
          obtain ⟨⟨lockTime, rest'⟩, -, h⟩ := Option.map_eq_some_iff.mp h
          cases h
          have hall : (inputs.all fun i => i.witness.isEmpty) = true :=
            List.all_eq_true.mpr fun i hi => List.isEmpty_iff.mpr (hwitness i hi)
          rw [hall, Bool.and_true, Bool.not_eq_true', Bool.not_eq_false] at hflag
          exact List.isEmpty_iff.mp hflag

/-- **Bytes that spell a transaction with inputs and without witnesses announce its inputs**, behind
the four bytes of the version. -/
theorem exists_count_of_decode? {raw : Bytes} {tx : Transaction} (h : decode? raw = some tx)
    (hinputs : tx.inputs ≠ []) (hwitness : ∀ i ∈ tx.inputs, i.witness = []) :
    4 ≤ raw.length ∧ ∃ n tail, CompactSize.read (raw.drop 4) = some (n, tail) ∧ n ≠ 0 := by
  unfold decode? Reader.whole at h
  split at h
  case h_2 => cases h
  next hread =>
  cases h
  unfold read at hread
  split at hread
  · cases hread
  · next version b₁ hversion =>
    have hb := readWord_canonical _ _ _ hversion
    have hlength : (wordBytes version).length = 4 := by simp [wordBytes]
    have hdrop : raw.drop 4 = b₁ := by
      rw [hb, List.drop_left' hlength]
    refine ⟨?_, ?_⟩
    · rw [hb, List.length_append]
      omega
    rw [hdrop]
    split at hread
    · cases hread
    · exact absurd (inputs_of_readFlagged hread hwitness) hinputs
    · cases hread
    · next inputs b₂ _ _ hcounted =>
      split at hread
      · cases hread
      · obtain ⟨⟨lockTime, rest⟩, -, hread⟩ := Option.map_eq_some_iff.mp hread
        cases hread
        obtain ⟨tail, htail⟩ := length_of_readCounted hcounted
        exact ⟨_, tail, htail, fun hzero => hinputs (List.length_eq_zero_iff.mp hzero)⟩

end Transaction

end TwoWayPeg
