import TwoWayPeg.Bitcoin.Script

/-!
# Pushes are read back

A push that is written is read as a push of the same data, whatever follows it, in each of the four
forms that its length can have. So the chunks that a script is made of are the chunks it reads as.

* `Script.instructions_push_append`: one push.
* `Script.chunks_of_ofChunks?`: a script of chunks.
-/

namespace TwoWayPeg.Script

/-- A push takes what it announces and leaves the rest. -/
theorem takePush_append (data rest : Bytes) :
    takePush data.length (data ++ rest) = (.push data, rest) := by
  have hlength : ¬ (data ++ rest).length < data.length := by
    rw [List.length_append]
    omega
  rw [takePush, if_neg hlength, List.take_left, List.drop_left]

/-- A push whose length is written in as many bytes as it needs. -/
theorem takeSizedPush_append (width : Nat) {data : Bytes}
    (h : data.length < Bytes.capacity width) (rest : Bytes) :
    takeSizedPush width (Bytes.ofNatLE width data.length ++ data ++ rest) =
      (.push data, rest) := by
  have hwidth : width = (Bytes.ofNatLE width data.length).length :=
    (Bytes.length_ofNatLE _ _).symm
  have hlength : ¬ (Bytes.ofNatLE width data.length ++ data ++ rest).length < width := by
    rw [List.length_append, List.length_append, Bytes.length_ofNatLE]
    omega
  have hnumber : Bytes.toNatLE ((Bytes.ofNatLE width data.length ++ data ++ rest).take width) =
      data.length := by
    rw [List.append_assoc, List.take_left' hwidth.symm, Bytes.toNatLE_ofNatLE h]
  have hrest : (Bytes.ofNatLE width data.length ++ data ++ rest).drop width = data ++ rest := by
    rw [List.append_assoc, List.drop_left' hwidth.symm]
  rw [takeSizedPush, if_neg hlength, hnumber, hrest, takePush_append]

/-- What the code of an instruction begins comes first. -/
theorem instructions_of_next {code : UInt8} {tail rest : Bytes} {i : Instruction}
    (h : next code tail = (i, rest)) : instructions (code :: tail) = i :: instructions rest := by
  rw [instructions, h]

/-- A code below 76 is the length of a push. -/
theorem next_of_lt {code : UInt8} (h : code.toNat < 76) (tail : Bytes) :
    next code tail = takePush code.toNat tail :=
  if_pos h

/-- The next three codes say in how many bytes the length of a push is written. -/
theorem next_sized (tail : Bytes) : next 76 tail = takeSizedPush 1 tail ∧
    next 77 tail = takeSizedPush 2 tail ∧ next 78 tail = takeSizedPush 4 tail := by
  refine ⟨?_, ?_, ?_⟩
  · rw [next, if_neg (by decide), if_pos (by decide)]
  · rw [next, if_neg (by decide), if_neg (by decide), if_pos (by decide)]
  · rw [next, if_neg (by decide), if_neg (by decide), if_neg (by decide), if_pos (by decide)]

/-- **A push is read back**, whatever follows it. -/
theorem instructions_push_append {data : Bytes} (h : data.length < UInt32.size) (rest : Bytes) :
    instructions (push data ++ rest) = .push data :: instructions rest := by
  unfold push
  simp only
  by_cases hshort : data.length < 76
  · rw [if_pos hshort, List.cons_append]
    refine instructions_of_next ?_
    have hcode : (UInt8.ofNat data.length).toNat = data.length := by
      rw [UInt8.toNat_ofNat']
      omega
    rw [next_of_lt (by rwa [hcode]), hcode, takePush_append]
  rw [if_neg hshort]
  by_cases hone : data.length < 0x100
  · rw [if_pos hone, List.cons_append]
    refine instructions_of_next ?_
    rw [(next_sized _).1, takeSizedPush_append 1 hone]
  rw [if_neg hone]
  by_cases htwo : data.length < 0x10000
  · rw [if_pos htwo, List.cons_append]
    refine instructions_of_next ?_
    rw [(next_sized _).2.1, takeSizedPush_append 2 htwo]
  rw [if_neg htwo, List.cons_append]
  refine instructions_of_next ?_
  rw [(next_sized _).2.2, takeSizedPush_append 4 h]

/-- Pushes one after another are read back, whatever follows them. -/
theorem instructions_flatMap_push_append {cs : List Bytes}
    (h : ∀ c ∈ cs, c.length < UInt32.size) (rest : Bytes) :
    instructions (cs.flatMap push ++ rest) = cs.map .push ++ instructions rest := by
  induction cs with
  | nil => rfl
  | cons c cs ih =>
    rw [List.flatMap_cons, List.append_assoc, instructions_push_append (h c List.mem_cons_self),
      ih fun c hc => h c (List.mem_cons_of_mem _ hc), List.map_cons, List.cons_append]

/-- The pushes of some chunks push these chunks. -/
theorem mapM_data?_map_push (cs : List Bytes) :
    (cs.map Instruction.push).mapM Instruction.data? = some cs := by
  induction cs with
  | nil => rfl
  | cons c cs ih =>
    rw [List.map_cons, List.mapM_cons, ih]
    rfl

/-- **A script of chunks reads as these chunks.** -/
theorem chunks_of_ofChunks? {cs : List Bytes} {s : Script} (h : ofChunks? cs = some s) :
    s.chunks = some cs := by
  unfold ofChunks? at h
  split at h
  · next hlengths =>
    cases h
    have hlengths : ∀ c ∈ cs, c.length < UInt32.size := by
      simpa only [List.all_eq_true, decide_eq_true_eq] using hlengths
    have hread := instructions_flatMap_push_append hlengths []
    rw [instructions, List.append_nil, List.append_nil] at hread
    rw [chunks, hread, mapM_data?_map_push]
  · cases h

/-- Chunks that are short enough make a script. -/
theorem exists_ofChunks? {cs : List Bytes} (h : ∀ c ∈ cs, c.length < UInt32.size) :
    ∃ s, ofChunks? cs = some s := by
  refine ⟨cs.flatMap push, if_pos ?_⟩
  simpa only [List.all_eq_true, decide_eq_true_eq] using h

end TwoWayPeg.Script
