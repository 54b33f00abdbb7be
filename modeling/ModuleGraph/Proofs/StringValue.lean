/-
# The value of string literals

What the text between the quotes of a literal stands for, by the rules of the language and
apart from how a reader cuts the text into pieces. A value is a row of units of sixteen bits: a
character that is no escape stands for its own units, one or two of them (`codeUnits`), and an
escape for the units of its code (`escapeValue?`). An escape of octal digits has three of them
at most, and two if it begins with a digit greater than 3, so that its code is below 256; a
backslash at the end of a line goes with the line end and leaves nothing.

Units need not be a text, since one half of a pair can stand without the other. Where they are
one, it is one only (`units_injective`).

Key definitions: `codeUnits`, `units`, `escapeValue?`, `StringValue`.
Key theorems: `units_injective`, `StringValue.of_append`, `StringValue.of_escape`.
-/
import ModuleGraph.Number.Digit

namespace ModuleGraph.Syntax

/-! ### Units -/

/-- The units of a code point: itself, or the two halves of a pair. -/
def codeUnits (code : Nat) : List Nat :=
  if code < 0x10000 then [code]
  else [0xd800 + (code - 0x10000) / 0x400, 0xdc00 + (code - 0x10000) % 0x400]

/-- The units of a text. -/
def units (cs : List Char) : List Nat := cs.flatMap fun c => codeUnits c.toNat

@[simp] theorem units_nil : units [] = [] := rfl

theorem units_cons (c : Char) (cs : List Char) : units (c :: cs) = codeUnits c.toNat ++ units cs :=
  List.flatMap_cons ..

theorem units_append (cs ds : List Char) : units (cs ++ ds) = units cs ++ units ds :=
  List.flatMap_append ..

theorem codeUnits_of_lt {code : Nat} (h : code < 0x10000) : codeUnits code = [code] := if_pos h

/-- The code of a character is no half of a pair. -/
theorem toNat_range (c : Char) : c.toNat < 0xd800 ∨ 0xdfff < c.toNat ∧ c.toNat < 0x110000 := c.valid

/-- The units of a text begin with those of its first character, whatever follows. -/
theorem eq_of_codeUnits_append {c d : Char} {us vs : List Nat}
    (h : codeUnits c.toNat ++ us = codeUnits d.toNat ++ vs) : c = d ∧ us = vs := by
  have hc := toNat_range c
  have hd := toNat_range d
  unfold codeUnits at h
  split at h <;> split at h <;> simp only [List.cons_append, List.nil_append, List.cons.injEq] at h
  · exact ⟨Char.toNat_inj.1 h.1, h.2⟩
  · omega
  · omega
  · exact ⟨Char.toNat_inj.1 (by omega), h.2.2⟩

theorem codeUnits_ne_nil (code : Nat) : codeUnits code ≠ [] := by
  unfold codeUnits
  split <;> simp

/-- **Units are those of one text.** -/
theorem units_injective : ∀ {cs ds : List Char}, units cs = units ds → cs = ds
  | [], [], _ => rfl
  | [], d :: ds, h => by simp [units_cons, codeUnits_ne_nil] at h
  | c :: cs, [], h => by simp [units_cons, codeUnits_ne_nil] at h
  | c :: cs, d :: ds, h => by
    rw [units_cons, units_cons] at h
    obtain ⟨rfl, hrest⟩ := eq_of_codeUnits_append h
    rw [units_injective hrest]

/-! ### Escapes -/

def isLineSeparator (c : Char) : Bool := c == '\u2028' || c == '\u2029'

theorem isLineSeparator_iff {c : Char} :
    isLineSeparator c = true ↔ c = '\u2028' ∨ c = '\u2029' := by
  simp [isLineSeparator]

/-- The code of an escape of one character: a control character for some letters, and the
character itself for all else. -/
def characterCode : Char → Nat
  | 'b' => 0x08
  | 't' => 0x09
  | 'n' => 0x0a
  | 'v' => 0x0b
  | 'f' => 0x0c
  | 'r' => 0x0d
  | c => c.toNat

/-- The code of an escape of hexadecimal digits and the text behind it, given the text behind
the letter: four digits, or any number of them in braces. -/
def unicodeEscape? : List Char → Option (Nat × List Char)
  | '{' :: text =>
    match text.dropWhile (Digit.isOf 16) with
    | '}' :: rest =>
      match Digit.number? 16 (text.takeWhile (Digit.isOf 16)) with
      | some code => if code ≤ 0x10ffff then some (code, rest) else none
      | none => none
    | _ => none
  | a :: b :: c :: d :: rest => (Digit.number? 16 [a, b, c, d]).map (·, rest)
  | _ => none

/-- How many digits an octal escape has at most, by the first of them. -/
def octalLimit (first : Char) : Nat := if first ≤ '3' then 3 else 2

/-- The units that an escape stands for and the text behind it, given the text behind its
backslash; none if the text is no literal. -/
def escapeValue? : List Char → Option (List Nat × List Char)
  | [] => none
  | '\r' :: '\n' :: rest => some ([], rest)
  | 'x' :: a :: b :: rest => (Digit.number? 16 [a, b]).map fun code => (codeUnits code, rest)
  | 'x' :: _ => none
  | 'u' :: text => (unicodeEscape? text).map fun found => (codeUnits found.1, found.2)
  | c :: rest =>
    if c = '\n' ∨ c = '\r' ∨ isLineSeparator c then some ([], rest)
    else if Digit.isOf 8 c then
      let digits := ((c :: rest).takeWhile (Digit.isOf 8)).take (octalLimit c)
      (Digit.number? 8 digits).map fun code => (codeUnits code, (c :: rest).drop digits.length)
    else some (codeUnits (characterCode c), rest)

/-! ### Values -/

/-- The value of the text between the quotes of a literal. -/
inductive StringValue : List Char → List Nat → Prop
  | nil : StringValue [] []
  | char {c : Char} {rest : List Char} {value : List Nat} (hescape : c ≠ '\\')
      (hline : c ≠ '\n' ∧ c ≠ '\r') (h : StringValue rest value) :
      StringValue (c :: rest) (codeUnits c.toNat ++ value)
  | escape {text rest : List Char} {own value : List Nat}
      (hown : escapeValue? text = some (own, rest)) (h : StringValue rest value) :
      StringValue ('\\' :: text) (own ++ value)

namespace StringValue

variable {text rest : List Char} {value : List Nat} {c : Char}

theorem of_cons (hc : c ≠ '\\') (h : StringValue (c :: rest) value) :
    (c ≠ '\n' ∧ c ≠ '\r') ∧
      ∃ value', value = codeUnits c.toNat ++ value' ∧ StringValue rest value' := by
  cases h with
  | char _ hline h => exact ⟨hline, _, rfl, h⟩
  | escape => exact absurd rfl hc

/-- Text without escapes stands for itself. -/
theorem of_append (htext : '\\' ∉ text) (h : StringValue (text ++ rest) value) :
    ∃ value', value = units text ++ value' ∧ StringValue rest value' := by
  induction text generalizing value with
  | nil => exact ⟨value, rfl, h⟩
  | cons c text ih =>
    simp only [List.mem_cons, not_or] at htext
    obtain ⟨-, value₁, rfl, h₁⟩ := of_cons (Ne.symm htext.1) h
    obtain ⟨value₂, rfl, h₂⟩ := ih htext.2 h₁
    exact ⟨value₂, by rw [units_cons, List.append_assoc], h₂⟩

theorem of_escape (h : StringValue ('\\' :: text) value) :
    ∃ own rest value', escapeValue? text = some (own, rest) ∧ value = own ++ value' ∧
      StringValue rest value' := by
  cases h with
  | char hescape => exact absurd rfl hescape
  | escape hown h => exact ⟨_, _, _, hown, rfl, h⟩

theorem of_escapeValue? {own : List Nat} (hown : escapeValue? text = some (own, rest))
    (h : StringValue ('\\' :: text) value) :
    ∃ value', value = own ++ value' ∧ StringValue rest value' := by
  obtain ⟨own', rest', value', hown', rfl, hrest⟩ := of_escape h
  obtain ⟨rfl, rfl⟩ : own' = own ∧ rest' = rest := by simpa [hown] using hown'.symm
  exact ⟨value', rfl, hrest⟩

/-- An escape and the character behind it. -/
theorem of_escapeValue?_cons {own : List Nat} (hown : escapeValue? text = some (own, c :: rest))
    (hc : c ≠ '\\') (h : StringValue ('\\' :: text) value) :
    (c ≠ '\n' ∧ c ≠ '\r') ∧
      ∃ value', value = own ++ codeUnits c.toNat ++ value' ∧ StringValue rest value' := by
  obtain ⟨value₁, rfl, h₁⟩ := of_escapeValue? hown h
  obtain ⟨hline, value₂, rfl, h₂⟩ := of_cons hc h₁
  exact ⟨hline, value₂, (List.append_assoc ..).symm, h₂⟩

end StringValue

end ModuleGraph.Syntax
