import TwoWayPeg.Proofs.Federation.CommitHash
import TwoWayPeg.Proofs.Release.Growth

/-!
# Scripts are rebuilt from what they push

Signing does not change the script of an input in place: it reads what the script pushes, puts the
signature among it and writes a new script. Whoever wrote the old script was free to announce its
pushes in longer forms than they need, and the new script has the shortest ones, so the bytes may
change all over. What is read from them must not. It does not, as chunks are read back from the
script that is written of them, and whatever is read from a script is short enough to be written
again.

* `Script.lt_size_of_mem_chunks`: what is read fits a push.
* `Script.exists_rebuilt`: a script that only pushes can be rebuilt, and then reads as before.
* `PendingSignatures.chunks_of_signInput`: what is read from an input that has been signed.
* `PendingSignatures.rebuilt_reads_alike`: all of it together.
-/

namespace TwoWayPeg

/-! ### What is read fits a push -/

namespace Script

/-- A push takes as many bytes as it announces. -/
theorem length_of_takePush {n : Nat} {rest data : Bytes} (h : (takePush n rest).1 = .push data) :
    data.length = n := by
  unfold takePush at h
  split at h
  · cases h
  · next hlong =>
    cases h
    exact List.length_take_of_le (Nat.le_of_not_lt hlong)

/-- A length that is written in at most four bytes fits a push. -/
theorem lt_size_of_takeSizedPush {width : Nat} (hwidth : width ≤ 4) {rest data : Bytes}
    (h : (takeSizedPush width rest).1 = .push data) : data.length < UInt32.size := by
  unfold takeSizedPush at h
  split at h
  · cases h
  · have hspelled := Bytes.toNatLE_lt (rest.take width)
    have hfits : Bytes.capacity (rest.take width).length ≤ Bytes.capacity 4 :=
      Bytes.capacity_mono (Nat.le_trans (List.length_take_le width rest) hwidth)
    have hcapacity : Bytes.capacity 4 = UInt32.size := by decide
    rw [length_of_takePush h]
    omega

/-- An instruction that pushes, in whichever form, has data that fit a push. -/
theorem lt_size_of_next {code : UInt8} {rest data : Bytes} (h : (next code rest).1 = .push data) :
    data.length < UInt32.size := by
  unfold next at h
  split at h
  · next hshort =>
    rw [length_of_takePush h]
    exact Nat.lt_trans hshort (by decide)
  · split at h
    · exact lt_size_of_takeSizedPush (by decide) h
    · split at h
      · exact lt_size_of_takeSizedPush (by decide) h
      · split at h
        · exact lt_size_of_takeSizedPush (by decide) h
        · cases h

/-- All data that a script pushes fit a push. -/
theorem lt_size_of_push_mem {s : Script} {data : Bytes} (h : .push data ∈ s.instructions) :
    data.length < UInt32.size := by
  induction s using instructions.induct with
  | case1 =>
    rw [instructions] at h
    cases h
  | case2 code rest hle ih =>
    rw [instructions] at h
    rcases List.mem_cons.mp h with hfirst | hlater
    · exact lt_size_of_next hfirst.symm
    · exact ih hlater

variable {s : Script} {cs : List Bytes}

/-- **What is read from a script fits a push**, in whichever forms the script announces it. -/
theorem lt_size_of_mem_chunks (h : s.chunks = some cs) : ∀ c ∈ cs, c.length < UInt32.size := by
  intro c hc
  apply lt_size_of_push_mem (s := s)
  rw [instructions_of_chunks h]
  exact List.mem_map_of_mem hc

/-! ### Rebuilding -/

/-- Chunks make a script exactly if all of them fit a push. -/
theorem exists_ofChunks?_iff : (∃ s, ofChunks? cs = some s) ↔ ∀ c ∈ cs, c.length < UInt32.size := by
  constructor
  · rintro ⟨s, hs⟩
    exact lt_size_of_mem_chunks (chunks_of_ofChunks? hs)
  · exact exists_ofChunks?

/-- **A script that only pushes can be rebuilt**, and the script that is rebuilt reads as before. -/
theorem exists_rebuilt (h : s.chunks = some cs) :
    ∃ rebuilt, ofChunks? cs = some rebuilt ∧ rebuilt.chunks = some cs := by
  obtain ⟨rebuilt, hrebuilt⟩ := exists_ofChunks? (lt_size_of_mem_chunks h)
  exact ⟨rebuilt, hrebuilt, chunks_of_ofChunks? hrebuilt⟩

end Script

/-! ### Signing -/

/-- What an input pushes when these are its filled slots: an empty string, the filled slots, as many
empty ones as it has left, and the script that it satisfies. -/
def TxIn.refilled (i : TxIn) (filled : List Bytes) : List Bytes :=
  [] :: (filled ++ List.replicate (i.slots.length - filled.length) [] ++
    [(i.scriptSig.chunks.getD []).getLastD []])

namespace PendingSignatures

/-- **What is read from an input that has been signed**: what was read before, or the same with the
signature put among the filled slots. -/
theorem chunks_of_signInput {key : PublicKey} {c : CheckedInput} {script : Script}
    (h : signInput key c = .signed script) :
    script.chunks = c.input.scriptSig.chunks ∨ ∃ position ≤ c.input.filled.length,
      script.chunks =
        some (c.input.refilled (c.input.filled.insertIdx position (slotOf c.signature))) := by
  obtain ⟨pushed, hpushed, rfl | ⟨-, position, hposition, hfill⟩⟩ := signInput_eq_signed h
  · exact .inl rfl
  · have hslots : c.input.slots = (pushed.drop 1).dropLast := by
      rw [TxIn.slots, hpushed, Option.getD_some]
    simp only [← hslots, ← TxIn.filled.eq_1] at hposition hfill
    refine .inr ⟨position, hposition, ?_⟩
    rw [TxIn.refilled, hpushed, Option.getD_some]
    exact Script.chunks_of_ofChunks? hfill

/-- **Rebuilding a script does not change what is read from it.** Chunks make a script exactly if
all of them fit a push, and this script reads as these chunks. A script that reads as some chunks,
in whatever forms it announces them, is rebuilt from them as a script that reads as the same chunks.
So from an input that has been signed the same is read as before, with one more slot filled at most.
-/
theorem rebuilt_reads_alike :
    (∀ cs : List Bytes,
        (∃ s, Script.ofChunks? cs = some s ∧ s.chunks = some cs) ↔
          ∀ c ∈ cs, c.length < UInt32.size) ∧
      (∀ (s : Script) (cs : List Bytes), s.chunks = some cs →
        ∃ rebuilt, Script.ofChunks? cs = some rebuilt ∧ rebuilt.chunks = some cs) ∧
      ∀ (key : PublicKey) (c : CheckedInput) (script : Script), signInput key c = .signed script →
        script.chunks = c.input.scriptSig.chunks ∨ ∃ position ≤ c.input.filled.length,
          script.chunks =
            some (c.input.refilled (c.input.filled.insertIdx position (slotOf c.signature))) := by
  refine ⟨fun cs => ?_, fun s cs => Script.exists_rebuilt, fun key c script => chunks_of_signInput⟩
  rw [← Script.exists_ofChunks?_iff]
  constructor
  · rintro ⟨s, hs, -⟩
    exact ⟨s, hs⟩
  · rintro ⟨s, hs⟩
    exact ⟨s, hs, Script.chunks_of_ofChunks? hs⟩

/-! ### A script in longer forms than it needs -/

/-- A script that lists one key. -/
def lone : Script := Script.push PendingFederation.shortKey.bytes

/-- An input with one slot, which announces its empty pushes in one and in two bytes and its script
in four. -/
def roundabout : CheckedInput where
  input :=
    ⟨⟨⟨.replicate 32 2⟩, 0⟩, [76, 0, 77, 0, 0, 78, 34, 0, 0, 0] ++ lone, 0xFFFFFFFF, []⟩
  digest := .replicate 32 0
  signature := ⟨1, 1⟩

/-- The input pushes an empty string, an empty slot and the script. -/
theorem chunks_roundabout : roundabout.input.scriptSig.chunks = some [[], [], lone] := by
  have hlength : lone.length = 34 := by decide
  have hscript : roundabout.input.scriptSig =
      76 :: (Bytes.ofNatLE 1 ([] : Bytes).length ++ [] ++
        77 :: (Bytes.ofNatLE 2 ([] : Bytes).length ++ [] ++
          78 :: (Bytes.ofNatLE 4 lone.length ++ lone ++ []))) := by
    rw [hlength]
    simp only [List.append_nil]
    rfl
  have hread : roundabout.input.scriptSig.instructions = [.push [], .push [], .push lone] := by
    rw [hscript, Script.instructions_of_next ((Script.next_sized _).1.trans
        (Script.takeSizedPush_append 1 (by decide) _)),
      Script.instructions_of_next ((Script.next_sized _).2.1.trans
        (Script.takeSizedPush_append 2 (by decide) _)),
      Script.instructions_of_next ((Script.next_sized _).2.2.trans
        (Script.takeSizedPush_append 4 (by rw [hlength]; decide) _)), Script.instructions]
  rw [Script.chunks, hread]
  rfl

/-- The key that the script lists. -/
theorem keysOf_lone : ScriptSig.keysOf lone = [PendingFederation.shortKey] := by
  have hlength : PendingFederation.shortKey.bytes.length < UInt32.size := by decide
  have hread := Script.instructions_push_append hlength []
  rw [List.append_nil, Script.instructions] at hread
  rw [ScriptSig.keysOf, Script.pushes, lone, hread]
  simp [Script.Instruction.data?]

/-- The listed key signs the input. -/
theorem exists_signInput_roundabout :
    ∃ script, signInput PendingFederation.shortKey roundabout = .signed script := by
  obtain ⟨script, hscript⟩ : ∃ script, fill 1 [slotOf roundabout.signature] lone = some script :=
    exists_fill_of_short 1 (by decide) (by decide)
  refine ⟨script, ?_⟩
  rw [slotOf] at hscript
  simp [signInput, chunks_roundabout, keysOf_lone, slotPosition, hscript]

/-- Chunks on both sides of each limit between two forms are read back; the script in longer forms
is rebuilt and reads as before, and when its input is signed, one more slot is filled. -/
theorem rebuilt_reads_alike_roundabout :
    let sides : List Bytes :=
      [0, 1, 75, 76, 0xFF, 0x100, 0xFFFF, 0x10000].map fun n => List.replicate n 0x81
    ((∀ c ∈ sides, c.length < UInt32.size) ∧
        ∃ s, Script.ofChunks? sides = some s ∧ s.chunks = some sides) ∧
      (roundabout.input.scriptSig.chunks = some [[], [], lone] ∧
        ∃ rebuilt, Script.ofChunks? [[], [], lone] = some rebuilt ∧
          rebuilt ≠ roundabout.input.scriptSig ∧ rebuilt.chunks = some [[], [], lone]) ∧
      ∃ script, signInput PendingFederation.shortKey roundabout = .signed script ∧
        (script.chunks = roundabout.input.scriptSig.chunks ∨
          script.chunks = some [[], slotOf roundabout.signature, lone]) := by
  intro sides
  have hsides : ∀ c ∈ sides, c.length < UInt32.size := by
    intro c hc
    obtain ⟨n, hn, rfl⟩ := List.mem_map.mp hc
    have hlimit : n ≤ 0x10000 := by
      simp only [List.mem_cons, List.not_mem_nil, or_false] at hn
      omega
    rw [List.length_replicate]
    exact Nat.lt_of_le_of_lt hlimit (by decide)
  obtain ⟨hread, hrebuilt, hsigned⟩ := rebuilt_reads_alike
  obtain ⟨rebuilt, hwritten, hchunks⟩ := hrebuilt _ _ chunks_roundabout
  obtain ⟨script, hscript⟩ := exists_signInput_roundabout
  have hother : rebuilt ≠ roundabout.input.scriptSig := by
    rw [← Option.some_inj.ne, ← hwritten]
    decide
  refine ⟨⟨hsides, (hread sides).mpr hsides⟩,
    ⟨chunks_roundabout, rebuilt, hwritten, hother, hchunks⟩, script, hscript, ?_⟩
  have hslots : roundabout.input.slots = [[]] := by
    rw [TxIn.slots, chunks_roundabout]
    rfl
  have hfilled : roundabout.input.filled = [] := by
    rw [TxIn.filled, hslots]
    rfl
  refine (hsigned _ _ _ hscript).imp_right ?_
  rintro ⟨position, hposition, hpushed⟩
  rw [hfilled, List.length_nil, Nat.le_zero] at hposition
  rw [hpushed, hposition, TxIn.refilled, hfilled, hslots, chunks_roundabout]
  rfl

end PendingSignatures

end TwoWayPeg
