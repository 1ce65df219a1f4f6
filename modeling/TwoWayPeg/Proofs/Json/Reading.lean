import TwoWayPeg.Json.Read

/-!
# Compact text is read back

Values that are made of texts, truth values, whole numbers of 64 bits, arrays and objects are read
back from their compact text. The text of a value ends where the value ends, so it is read in front
of anything that cannot go on with a number; and since every value begins with a character of its
own, as many calls suffice as the text has characters.

* `Json.readString_escape`: what stands for a character is read as the character.
* `Json.readNumber_toDigits`: digits are read as their number.
* `Json.Plain.reads`: a value is read in front of what may follow it.
* `Json.parse?_compact`: a text that is a value and nothing else.
-/

namespace TwoWayPeg.Json

/-! ### Strings -/

/-- The code of a control character is read as its number. -/
theorem fourHex?_control {n : Nat} (h : n < 32) :
    fourHex? '0' '0' (hexDigit (n / 16)) (hexDigit (n % 16)) = some n := by
  have hall : ∀ n : Fin 32,
      fourHex? '0' '0' (hexDigit (n.val / 16)) (hexDigit (n.val % 16)) = some n.val := by decide
  exact hall ⟨n, h⟩

/-- A code unit that is not half of a pair is a character. -/
theorem Spelling.unit_control {done : Option (List Char)} {c : Char} (h : c.toNat < 32) :
    Spelling.unit ⟨done, none⟩ c.toNat = Spelling.char ⟨done, none⟩ c := by
  have hhigh : isHigh c.toNat = false := by
    rw [isHigh, decide_eq_false (by omega), Bool.false_and]
  have hlow : isLow c.toNat = false := by
    rw [isLow, decide_eq_false (by omega), Bool.false_and]
  simp only [Spelling.unit, hhigh, hlow, Char.ofNat_toNat, Bool.false_eq_true, if_false]

/-- **What stands for a character is read as the character.** -/
theorem readString_escape (done : Option (List Char)) (c : Char) (rest : List Char) :
    readString ⟨done, none⟩ (escape c ++ rest) = readString (Spelling.char ⟨done, none⟩ c) rest := by
  unfold escape
  split
  case isTrue h => subst h; rfl
  split
  case isTrue h => subst h; rfl
  split
  case isTrue h => subst h; rfl
  split
  case isTrue h => subst h; rfl
  split
  case isTrue h => subst h; rfl
  split
  case isTrue h => subst h; rfl
  split
  case isTrue h => subst h; rfl
  split
  case isTrue hcontrol =>
    rw [← Spelling.unit_control hcontrol]
    simp only [List.cons_append, List.nil_append, readString, fourHex?_control hcontrol]
  case isFalse hquote hslash _ _ _ _ _ hcontrol =>
    rw [List.cons_append, List.nil_append, readString.eq_def]
    split
    · next heq => cases heq
    · next heq => exact absurd (List.cons.inj heq).1 hquote
    · next heq => exact absurd (List.cons.inj heq).1 hslash
    · next heq => exact absurd (List.cons.inj heq).1 hslash
    · next heq =>
      cases heq
      rw [if_neg hcontrol]

/-- Characters are read up to the closing quote, behind those read before. -/
theorem readString_flatMap (done cs rest : List Char) :
    readString ⟨some done, none⟩ (cs.flatMap escape ++ '"' :: rest) =
      some (some (String.ofList (done.reverse ++ cs)), rest) := by
  induction cs generalizing done with
  | nil => simp [readString, Spelling.text?]
  | cons c cs ih =>
    rw [List.flatMap_cons, List.append_assoc, readString_escape]
    refine (ih (c :: done)).trans ?_
    simp

/-- A quoted text is read behind its opening quote. -/
theorem readString_quote (s : String) (rest : List Char) :
    readString .empty (s.toList.flatMap escape ++ '"' :: rest) = some (some s, rest) := by
  refine (readString_flatMap [] s.toList rest).trans ?_
  simp

/-! ### Numbers -/

/-- Nothing that could go on with a number. -/
def Ends (rest : List Char) : Prop :=
  ∀ c ∈ rest.head?, c.isDigit = false ∧ c ≠ '.' ∧ c ≠ 'e' ∧ c ≠ 'E'

/-- Digits are read up to what is no digit. -/
theorem readDigits_append {cs rest : List Char} (hdigits : ∀ c ∈ cs, c.isDigit)
    (hrest : Ends rest) : readDigits (cs ++ rest) = (cs.map fun c => c.toNat - 48, rest) := by
  induction cs with
  | nil =>
    cases rest with
    | nil => rfl
    | cons c rest =>
      have hc := (hrest c rfl).1
      simp [readDigits, hc]
  | cons c cs ih =>
    have hc := hdigits c List.mem_cons_self
    have hcs := ih fun d hd => hdigits d (List.mem_cons_of_mem c hd)
    simp [readDigits, hc, hcs]

/-- Digits behind a number make it larger. -/
theorem le_foldl_digits (word : Nat) (ds : List Nat) :
    word ≤ ds.foldl (fun n d => 10 * n + d) word := by
  induction ds generalizing word with
  | nil => exact Nat.le_refl word
  | cons d ds ih =>
    rw [List.foldl_cons]
    exact Nat.le_trans (by omega) (ih (10 * word + d))

/-- A word holds all digits of a number that fits it. -/
theorem fillWord_eq {word : Nat} {ds : List Nat}
    (h : ds.foldl (fun n d => 10 * n + d) word < UInt64.size) :
    fillWord word ds = (ds.foldl (fun n d => 10 * n + d) word, 0) := by
  induction ds generalizing word with
  | nil => rfl
  | cons d ds ih =>
    rw [List.foldl_cons] at h ⊢
    have hle := le_foldl_digits (10 * word + d) ds
    rw [fillWord, if_pos (by omega), ih h]

/-- The digits of a number spell it. -/
theorem foldl_toDigits (n : Nat) :
    ((Nat.toDigits 10 n).map fun c => c.toNat - 48).foldl (fun n d => 10 * n + d) 0 = n := by
  rw [List.foldl_map]
  exact Nat.ofDigitChars_toDigits (by decide) (by decide)

/-- The first of several digits is not a zero. -/
theorem head?_toDigits_ne {n : Nat} (h : 10 ≤ n) : (Nat.toDigits 10 n).head? ≠ some '0' := by
  induction n using Nat.strongRecOn with
  | ind n ih =>
    rw [Nat.toDigits_of_base_le (by decide) h]
    have hhead : (Nat.toDigits 10 (n / 10)).head? ≠ some '0' := by
      rcases Nat.lt_or_ge (n / 10) 10 with hsmall | hlarge
      · rw [Nat.toDigits_of_lt_base hsmall]
        have hpos : ∀ d : Fin 10, d.val ≠ 0 → d.val.digitChar ≠ '0' := by decide
        intro heq
        exact hpos ⟨n / 10, hsmall⟩ (by simp only; omega) (Option.some.inj heq)
      · exact ih (n / 10) (by omega) hlarge
    obtain ⟨c, cs, hcs⟩ := List.exists_cons_of_length_pos
      (Nat.length_toDigits_pos (b := 10) (n := n / 10))
    rw [hcs] at hhead ⊢
    exact hhead

/-- Digits are not taken for a sign or for an opening character. -/
theorem exists_toDigits_eq (n : Nat) :
    ∃ c cs, Nat.toDigits 10 n = c :: cs ∧ c.isDigit := by
  obtain ⟨c, cs, hcs⟩ := List.exists_cons_of_length_pos (Nat.length_toDigits_pos (b := 10) (n := n))
  have hmem : c ∈ Nat.toDigits 10 n := by
    rw [hcs]
    exact List.mem_cons_self
  exact ⟨c, cs, hcs, Nat.isDigit_of_mem_toDigits (by decide) (by decide) hmem⟩

/-- A digit is none of the characters that begin other values. -/
theorem ne_of_isDigit {c d : Char} (hc : c.isDigit) (hd : d.isDigit = false) : c ≠ d := by
  rintro rfl
  rw [hc] at hd
  cases hd

/-- **Digits are read as their number.** -/
theorem readNumber_toDigits {n : Nat} (hn : n < UInt64.size) {rest : List Char}
    (hrest : Ends rest) : readNumber (Nat.toDigits 10 n ++ rest) = some (.natural n, rest) := by
  obtain ⟨c, cs, hcs, hc⟩ := exists_toDigits_eq n
  have hread : readDigits (Nat.toDigits 10 n ++ rest) =
      ((Nat.toDigits 10 n).map fun c => c.toNat - 48, rest) :=
    readDigits_append (fun c => Nat.isDigit_of_mem_toDigits (by decide) (by decide)) hrest
  have hword := fillWord_eq (by rw [foldl_toDigits n]; exact hn)
  rw [foldl_toDigits n] at hword
  -- a zero stands in front only where it is the only digit
  have hzero : ¬ (((Nat.toDigits 10 n).map fun c => c.toNat - 48).head? = some 0 ∧
      ((Nat.toDigits 10 n).map fun c => c.toNat - 48).length ≠ 1) := by
    rintro ⟨hhead, hlength⟩
    rcases Nat.lt_or_ge n 10 with hsmall | hlarge
    · rw [Nat.toDigits_of_lt_base hsmall] at hlength
      exact hlength rfl
    · refine head?_toDigits_ne hlarge ?_
      rw [hcs, List.map_cons, List.head?_cons, Option.some.injEq] at hhead
      rw [hcs, List.head?_cons, Option.some.injEq]
      rw [Char.isDigit, Bool.and_eq_true, decide_eq_true_iff, decide_eq_true_iff] at hc
      have hge : 48 ≤ c.toNat := hc.1
      have hcode : c.toNat = 48 := by omega
      rw [← Char.ofNat_toNat c, hcode]
  have hfraction : readFraction rest = some ([], rest) := by
    cases rest with
    | nil => rfl
    | cons d rest =>
      unfold readFraction
      split
      · next heq => exact absurd (List.cons.inj heq).1 (hrest d rfl).2.1
      · rfl
  have hexponent : readExponent rest = some (none, rest) := by
    cases rest with
    | nil => rfl
    | cons d rest =>
      obtain ⟨-, -, he, hE⟩ := hrest d rfl
      unfold readExponent
      exact if_neg fun h => h.elim he hE
  have hsome : ((Nat.toDigits 10 n).map fun c => c.toNat - 48).isEmpty = false := by
    rw [hcs]
    rfl
  unfold readNumber
  rw [hcs] at hread hzero hword hsome ⊢
  split
  next negative digits hsign =>
  have hunsigned : negative = false ∧ digits = c :: cs ++ rest := by
    split at hsign
    · next heq => exact absurd (List.cons.inj heq).1 (ne_of_isDigit hc rfl)
    · cases hsign
      exact ⟨rfl, rfl⟩
  rw [hunsigned.1, hunsigned.2]
  simp only [hread, hzero, hsome, hfraction, hexponent, Bool.false_eq_true, or_self, if_false]
  simp only [numberOf, hword, wholeOf?, List.isEmpty_nil, Option.isNone_none, Bool.and_self,
    ne_eq, not_true_eq_false, if_true, if_false, Bool.false_eq_true, Option.getD_some]

/-! ### Values -/

/-- A value that is made of texts, truth values and whole numbers of 64 bits. -/
inductive Plain : Json → Prop
  | null : Plain .null
  | bool (b : Bool) : Plain (.bool b)
  | natural (n : Nat) (h : n < UInt64.size) : Plain (.natural n)
  | str (s : String) : Plain (.str s)
  | arr (items : List Json) (h : ∀ j ∈ items, Plain j) : Plain (.arr items)
  | obj (fields : List (String × Json)) (h : ∀ f ∈ fields, Plain f.2) : Plain (.obj fields)

/-- The value is read in front of what may follow it, with as many calls as it has characters. -/
def Reads (j : Json) : Prop :=
  ∀ depth rest, j.write.length ≤ depth → Ends rest → readValue depth (j.write ++ rest) = some (j, rest)

/-- Where a value begins, there is no blank and no closing character. -/
def Begins (cs : List Char) : Prop :=
  ∃ c rest, cs = c :: rest ∧ isBlank c = false ∧ c ≠ ']' ∧ c ≠ '}'

/-- A text that a value begins is not empty. -/
theorem Begins.length_pos {cs : List Char} (h : Begins cs) : 0 < cs.length := by
  obtain ⟨c, rest, rfl, -⟩ := h
  exact Nat.succ_pos _

/-- Where no blank stands there is nothing to skip. -/
theorem skipBlank_cons {c : Char} (h : isBlank c = false) (rest : List Char) :
    skipBlank (c :: rest) = c :: rest := by
  rw [skipBlank, h]
  rfl

/-- A comma is not skipped. -/
@[simp] theorem skipBlank_comma (rest : List Char) : skipBlank (',' :: rest) = ',' :: rest := rfl

/-- A colon is not skipped. -/
@[simp] theorem skipBlank_colon (rest : List Char) : skipBlank (':' :: rest) = ':' :: rest := rfl

/-- A quote is not skipped. -/
@[simp] theorem skipBlank_quote (rest : List Char) : skipBlank ('"' :: rest) = '"' :: rest := rfl

/-- A closing bracket is not skipped. -/
@[simp] theorem skipBlank_bracket (rest : List Char) : skipBlank (']' :: rest) = ']' :: rest := rfl

/-- A closing brace is not skipped. -/
@[simp] theorem skipBlank_brace (rest : List Char) : skipBlank ('}' :: rest) = '}' :: rest := rfl

/-- A comma ends a value. -/
theorem ends_comma (rest : List Char) : Ends (',' :: rest) := by
  rintro c ⟨⟩
  decide

/-- A closing bracket ends a value. -/
theorem ends_bracket (rest : List Char) : Ends (']' :: rest) := by
  rintro c ⟨⟩
  decide

/-- A closing brace ends a value. -/
theorem ends_brace (rest : List Char) : Ends ('}' :: rest) := by
  rintro c ⟨⟩
  decide

/-- A plain value begins as a value does. -/
theorem Plain.begins {j : Json} (h : j.Plain) : Begins j.write := by
  cases h with
  | null => exact ⟨'n', _, rfl, by decide⟩
  | bool b => cases b with
    | true => exact ⟨'t', _, rfl, by decide⟩
    | false => exact ⟨'f', _, rfl, by decide⟩
  | natural n hn =>
    obtain ⟨c, cs, hcs, hc⟩ := exists_toDigits_eq n
    refine ⟨c, cs, hcs, ?_, ne_of_isDigit hc rfl, ne_of_isDigit hc rfl⟩
    simp only [isBlank, Bool.or_eq_false_iff, beq_eq_false_iff_ne]
    exact ⟨⟨⟨ne_of_isDigit hc rfl, ne_of_isDigit hc rfl⟩, ne_of_isDigit hc rfl⟩,
      ne_of_isDigit hc rfl⟩
  | str s => exact ⟨'"', _, rfl, by decide⟩
  | arr items hitems => cases items with
    | nil => exact ⟨'[', _, rfl, by decide⟩
    | cons item items => exact ⟨'[', _, rfl, by decide⟩
  | obj fields hfields => cases fields with
    | nil => exact ⟨'{', _, rfl, by decide⟩
    | cons field fields => exact ⟨'{', _, rfl, by decide⟩

/-- Numbers are what is read where no other value begins. -/
theorem reads_natural {n : Nat} (hn : n < UInt64.size) : Reads (.natural n) := by
  intro depth rest hdepth hrest
  obtain ⟨c, cs, hcs, hc⟩ := exists_toDigits_eq n
  have hnumber := readNumber_toDigits hn hrest
  have hwrite : (Json.natural n).write = c :: cs := hcs
  rw [hwrite] at hdepth ⊢
  rw [hcs] at hnumber
  obtain ⟨depth, rfl⟩ : ∃ d, depth = d + 1 := ⟨depth - 1, by
    rw [List.length_cons] at hdepth
    omega⟩
  have hblank : skipBlank (c :: cs ++ rest) = c :: (cs ++ rest) := by
    refine skipBlank_cons ?_ _
    simp only [isBlank, Bool.or_eq_false_iff, beq_eq_false_iff_ne]
    exact ⟨⟨⟨ne_of_isDigit hc rfl, ne_of_isDigit hc rfl⟩, ne_of_isDigit hc rfl⟩,
      ne_of_isDigit hc rfl⟩
  rw [readValue, hblank]
  split
  · next heq => exact absurd (List.cons.inj heq).1 (ne_of_isDigit hc rfl)
  · next heq => exact absurd (List.cons.inj heq).1 (ne_of_isDigit hc rfl)
  · next heq => exact absurd (List.cons.inj heq).1 (ne_of_isDigit hc rfl)
  · next heq => exact absurd (List.cons.inj heq).1 (ne_of_isDigit hc rfl)
  · next heq => exact absurd (List.cons.inj heq).1 (ne_of_isDigit hc rfl)
  · next heq => exact absurd (List.cons.inj heq).1 (ne_of_isDigit hc rfl)
  · exact hnumber

/-- Items are read up to the closing bracket. -/
theorem readItems_write {item : Json} {items : List Json}
    (hreads : ∀ j ∈ item :: items, j.Reads) (depth : Nat) (rest : List Char)
    (hdepth : (item.write ++ writeItems items).length ≤ depth) :
    readItems depth (item.write ++ (writeItems items ++ rest)) = some (item :: items, rest) := by
  induction items generalizing item depth with
  | nil =>
    simp only [writeItems, List.length_append, List.length_singleton] at hdepth
    obtain ⟨depth, rfl⟩ : ∃ d, depth = d + 1 := ⟨depth - 1, by omega⟩
    have hitem := hreads item List.mem_cons_self depth (']' :: rest) (by omega) (ends_bracket rest)
    simp [readItems, writeItems, hitem]
  | cons next items ih =>
    simp only [writeItems, List.length_append, List.length_cons] at hdepth
    obtain ⟨depth, rfl⟩ : ∃ d, depth = d + 1 := ⟨depth - 1, by omega⟩
    have hitem := hreads item List.mem_cons_self depth
      (',' :: (next.write ++ writeItems items ++ rest)) (by omega) (ends_comma _)
    have hnext := ih (fun j hj => hreads j (List.mem_cons_of_mem _ hj)) depth
      (by rw [List.length_append]; omega)
    rw [List.append_assoc] at hitem
    simp only [writeItems, List.cons_append, List.append_assoc, readItems, hitem, hnext,
      skipBlank_comma]

/-- The last field is read up to the brace behind its value. -/
theorem readFields_last {depth : Nat} {key : String} {value : Json} {rest after : List Char}
    (hvalue : readValue depth rest = some (value, '}' :: after)) :
    readFields (depth + 1) (quote key ++ ':' :: rest) = some (some [(key, value)], after) := by
  simp only [readFields, quote, List.cons_append, List.append_assoc, List.nil_append,
    skipBlank_quote, readString_quote, skipBlank_colon, hvalue, skipBlank_brace, Option.map_some]

/-- A field with a comma behind its value is read together with the fields that follow. -/
theorem readFields_comma {depth : Nat} {key : String} {value : Json}
    {rest others after : List Char} {fields : List (String × Json)}
    (hvalue : readValue depth rest = some (value, ',' :: others))
    (hothers : readFields depth others = some (some fields, after)) :
    readFields (depth + 1) (quote key ++ ':' :: rest) =
      some (some ((key, value) :: fields), after) := by
  simp only [readFields, quote, List.cons_append, List.append_assoc, List.nil_append,
    skipBlank_quote, readString_quote, skipBlank_colon, hvalue, skipBlank_comma, hothers,
    Option.bind_some, Option.map_some]

/-- Fields are read up to the closing brace. -/
theorem readFields_write {field : String × Json} {fields : List (String × Json)}
    (hreads : ∀ f ∈ field :: fields, f.2.Reads) (depth : Nat) (rest : List Char)
    (hdepth : (quote field.1 ++ ':' :: (field.2.write ++ writeFields fields)).length ≤ depth) :
    readFields depth (quote field.1 ++ ':' :: (field.2.write ++ (writeFields fields ++ rest))) =
      some (some (field :: fields), rest) := by
  induction fields generalizing field depth with
  | nil =>
    simp only [writeFields, List.length_append, List.length_cons, List.length_nil] at hdepth
    obtain ⟨depth, rfl⟩ : ∃ d, depth = d + 1 := ⟨depth - 1, by omega⟩
    have hvalue := hreads field List.mem_cons_self depth ('}' :: rest) (by omega) (ends_brace rest)
    rw [writeFields, List.cons_append, List.nil_append]
    exact readFields_last hvalue
  | cons next fields ih =>
    simp only [writeFields, List.length_append, List.length_cons] at hdepth
    obtain ⟨depth, rfl⟩ : ∃ d, depth = d + 1 := ⟨depth - 1, by omega⟩
    have hvalue := hreads field List.mem_cons_self depth
      (',' :: (quote next.1 ++ ':' :: (next.2.write ++ (writeFields fields ++ rest)))) (by omega)
      (ends_comma _)
    have hnext := ih (fun f hf => hreads f (List.mem_cons_of_mem _ hf)) depth
      (by simp only [List.length_append, List.length_cons]; omega)
    simp only [writeFields, List.cons_append, List.append_assoc]
    exact readFields_comma hvalue hnext

/-- **A plain value is read in front of what may follow it.** -/
theorem Plain.reads {j : Json} (h : j.Plain) : j.Reads := by
  induction h with
  | null =>
    intro depth rest hdepth _
    obtain ⟨depth, rfl⟩ := Nat.exists_eq_add_one_of_ne_zero (Nat.ne_of_gt (Nat.lt_of_lt_of_le
      Plain.null.begins.length_pos hdepth))
    rfl
  | bool b =>
    intro depth rest hdepth _
    obtain ⟨depth, rfl⟩ := Nat.exists_eq_add_one_of_ne_zero (Nat.ne_of_gt (Nat.lt_of_lt_of_le
      (Plain.bool b).begins.length_pos hdepth))
    cases b <;> rfl
  | natural n hn => exact reads_natural hn
  | str s =>
    intro depth rest hdepth _
    obtain ⟨depth, rfl⟩ := Nat.exists_eq_add_one_of_ne_zero (Nat.ne_of_gt (Nat.lt_of_lt_of_le
      (Plain.str s).begins.length_pos hdepth))
    simp [write, quote, readValue, readString_quote]
  | arr items hitems ih =>
    intro depth rest hdepth _
    obtain ⟨depth, rfl⟩ := Nat.exists_eq_add_one_of_ne_zero (Nat.ne_of_gt (Nat.lt_of_lt_of_le
      (Plain.arr items hitems).begins.length_pos hdepth))
    cases items with
    | nil => rfl
    | cons item items =>
      simp only [write, List.length_cons] at hdepth
      have hread := readItems_write ih depth rest (by omega)
      obtain ⟨c, cs, hitem, hblank, hbracket, -⟩ := (hitems item List.mem_cons_self).begins
      rw [hitem] at hread
      simp only [write, hitem, readValue, List.cons_append, List.append_assoc,
        skipBlank_cons (c := '[') (by decide), skipBlank_cons hblank]
      split
      · next heq => exact absurd (List.cons.inj heq).1 hbracket
      · rw [← List.cons_append, hread]
  | obj fields hfields ih =>
    intro depth rest hdepth _
    obtain ⟨depth, rfl⟩ := Nat.exists_eq_add_one_of_ne_zero (Nat.ne_of_gt (Nat.lt_of_lt_of_le
      (Plain.obj fields hfields).begins.length_pos hdepth))
    cases fields with
    | nil => rfl
    | cons field fields =>
      simp only [write, List.length_cons] at hdepth
      have hread := readFields_write ih depth rest (by omega)
      simp only [quote, List.cons_append, List.append_assoc, List.nil_append] at hread
      simp only [write, quote, readValue, List.cons_append, List.append_assoc, List.nil_append,
        skipBlank_cons (c := '{') (by decide), skipBlank_quote]
      split
      · next heq => exact absurd (List.cons.inj heq).1 (by decide)
      · rw [hread]
        rfl

/-- **The compact text of a plain value is read as the value.** -/
theorem parse?_compact {j : Json} (h : j.Plain) : parse? j.compact = some j := by
  have hread := h.reads (j.write.length + 1) [] (Nat.le_succ _) (by rintro c ⟨⟩)
  rw [List.append_nil] at hread
  simp [parse?, compact, hread, skipBlank]

end TwoWayPeg.Json
