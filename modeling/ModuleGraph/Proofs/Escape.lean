/-
# Reading an escape

An escape is decoded by itself, from its own text. What it stands for in a literal is decided by
the rules of the language, which go on to read behind it. The two agree but for a few escapes
(`Misread`):

* half of a pair of units, which is no character, and is kept as it is written;
* three octal digits that begin with one greater than 3, of which only two belong to the escape;
* a carriage return or a question mark with a line separator behind it, which is cut out as one
  escape, though the separator is a character of its own.

A misread escape leaves a text that differs from the value at once, or that has lost a separator
(`Reading`).

Key definitions: `EscapeBody`, `Whole`, `Misread`, `Reading`, `IsRead`.
Key theorems: `exists_number?`, `Reading.of_code`, `EscapeBody.isRead`.
-/
import Mathlib.Algebra.Group.Nat.Defs
import ModuleGraph.Proofs.StringValue
import ModuleGraph.Syntax.Literal

namespace ModuleGraph

/-! ### Numbers of digits -/

namespace Digit

variable {base code : Nat} {c : Char} {digits : List Char}

/-- The value of a character that is a digit. -/
def digit (c : Char) : Nat := (value? c).getD 0

theorem isOf_iff : isOf base c = true ↔ ∃ d, value? c = some d ∧ d < base := by
  unfold isOf
  cases value? c <;> simp

theorem ne_of_isOf {d : Char} (hc : isOf base c = true) (hd : isOf base d = false) : c ≠ d := by
  rintro rfl
  rw [hc] at hd
  cases hd

theorem value?_of_isOf (h : isOf base c = true) : value? c = some (digit c) ∧ digit c < base := by
  obtain ⟨d, hd, hlt⟩ := isOf_iff.1 h
  simp [digit, hd, hlt]

theorem foldlM_digits (h : ∀ d ∈ digits, isOf base d = true) (n : Nat) :
    digits.foldlM (fun n c => do
      let d ← value? c
      if d < base then some (n * base + d) else none) n =
    some (digits.foldl (fun n c => n * base + digit c) n) := by
  induction digits generalizing n with
  | nil => rfl
  | cons c digits ih =>
    obtain ⟨hvalue, hlt⟩ := value?_of_isOf (h c List.mem_cons_self)
    rw [List.foldlM_cons, hvalue]
    simp only [Option.bind_eq_bind, Option.bind_some, if_pos hlt]
    exact ih (fun d hd => h d (List.mem_cons_of_mem c hd)) _

/-- Digits of a base stand for a number. -/
theorem number?_eq (hne : digits ≠ []) (h : ∀ d ∈ digits, isOf base d = true) :
    number? base digits = some (digits.foldl (fun n c => n * base + digit c) 0) := by
  rw [number?, if_neg (by simpa using hne)]
  exact foldlM_digits h 0

theorem foldl_digits_lt (h : ∀ d ∈ digits, isOf base d = true) (n : Nat) :
    digits.foldl (fun n c => n * base + digit c) n < (n + 1) * base ^ digits.length := by
  induction digits generalizing n with
  | nil => simp
  | cons c digits ih =>
    obtain ⟨-, hlt⟩ := value?_of_isOf (h c List.mem_cons_self)
    have hrest := ih (fun d hd => h d (List.mem_cons_of_mem c hd)) (n * base + digit c)
    have hstep : n * base + digit c + 1 ≤ (n + 1) * base := by
      rw [Nat.add_mul]
      omega
    calc digits.foldl (fun n c => n * base + digit c) (n * base + digit c)
        < (n * base + digit c + 1) * base ^ digits.length := hrest
      _ ≤ (n + 1) * base * base ^ digits.length := Nat.mul_le_mul_right _ hstep
      _ = (n + 1) * base ^ (digits.length + 1) := by rw [Nat.mul_assoc, Nat.pow_succ']

/-- Digits of a base stand for a number with so many digits. -/
theorem exists_number? (hne : digits ≠ []) (h : ∀ d ∈ digits, isOf base d = true) :
    ∃ n, number? base digits = some n ∧ n < base ^ digits.length :=
  ⟨_, number?_eq hne h, by simpa using foldl_digits_lt h 0⟩

theorem isOf_eight_iff : isOf 8 c = true ↔ '0' ≤ c ∧ c ≤ '7' := by
  rw [isOf_iff]
  unfold value?
  simp only [Char.le_def, UInt32.le_iff_toNat_le, Char.toNat]
  split <;> (try split) <;> (try split) <;> simp at * <;> omega

theorem four_le_digit (h : isOf 8 c = true) (hc : ¬ c ≤ '3') : 4 ≤ digit c := by
  obtain ⟨h0, h7⟩ := isOf_eight_iff.1 h
  have h9 : '0' ≤ c ∧ c ≤ '9' := ⟨h0, Char.le_trans h7 (by decide)⟩
  rw [digit, value?, if_pos h9]
  simp only [Char.le_def, UInt32.le_iff_toNat_le, Char.toNat] at *
  simp at *
  omega

theorem char?_of_isValidChar (h : code.isValidChar) : ∃ c, char? code = some c ∧ c.toNat = code :=
  ⟨Char.ofNat code, if_pos h, by rw [Char.ofNat, dif_pos h]; rfl⟩

theorem char?_of_not_isValidChar (h : ¬ code.isValidChar) : char? code = none := if_neg h

end Digit

namespace Syntax

open Digit

/-! ### The forms of escapes -/

/-- What may stand behind the backslash of an escape: one character, up to three octal digits,
a code of two or four hexadecimal digits or of any number of them in braces, or a carriage
return or question mark with a line end. -/
inductive EscapeBody : List Char → Prop
  | single {c : Char} (hx : c ≠ 'x') (hu : c ≠ 'u') (hdigit : isOf 8 c = false) : EscapeBody [c]
  | octal {digits : List Char} (hne : digits ≠ []) (hlength : digits.length ≤ 3)
      (h : ∀ d ∈ digits, isOf 8 d = true) : EscapeBody digits
  | byte {a b : Char} (h : ∀ d ∈ [a, b], isOf 16 d = true) : EscapeBody ['x', a, b]
  | code {a b c d : Char} (h : ∀ e ∈ [a, b, c, d], isOf 16 e = true) :
      EscapeBody ['u', a, b, c, d]
  | braced {digits : List Char} (hne : digits ≠ []) (h : ∀ d ∈ digits, isOf 16 d = true) :
      EscapeBody ('u' :: '{' :: (digits ++ ['}']))
  | line {c d : Char} (hc : c = '\r' ∨ c = '?') (hd : d = '\n' ∨ isLineSeparator d = true) :
      EscapeBody [c, d]

/-- An escape is read to its end: octal digits end where there are three of them or no other
follows. -/
def Whole (body rest : List Char) : Prop :=
  (∀ d ∈ body, isOf 8 d = true) → body.length < 3 → ∀ d ∈ rest.head?, isOf 8 d = false

/-- A code is that of half a pair. -/
def IsHalf (code : Nat) : Prop := 0xd800 ≤ code ∧ code ≤ 0xdfff

/-- The escapes that are not read for what they stand for. -/
inductive Misread : List Char → Prop
  | half {code : List Char} {n : Nat} (h : number? 16 (withoutBraces code) = some n)
      (hn : IsHalf n) : Misread ('\\' :: 'u' :: code)
  | octal {a b c : Char} (ha : ¬ a ≤ '3') (h : ∀ d ∈ [a, b, c], isOf 8 d = true) :
      Misread ['\\', a, b, c]
  | line {c d : Char} (hc : c = '\r' ∨ c = '?') (hd : isLineSeparator d = true) :
      Misread ['\\', c, d]

/-- How an escape is read, with `own` as the units that it stands for. -/
inductive Reading (body : List Char) (own : List Nat) : Prop
  | right (hnot : ¬ Misread ('\\' :: body)) (h : own = units (cookedEscape ('\\' :: body)))
  /-- A separator is lost. -/
  | behind (h : Misread ('\\' :: body)) (hcooked : cookedEscape ('\\' :: body) = [])
      (hown : own = [0x2028] ∨ own = [0x2029])
  /-- The text begins with another unit than the value. -/
  | apart {u v : Nat} {us vs : List Nat} (h : Misread ('\\' :: body))
      (hcooked : units (cookedEscape ('\\' :: body)) = u :: us) (hown : own = v :: vs)
      (hne : u ≠ v) (hu : u < 0x2028)

/-- A literal of an escape and the rest of the text has a value of what the escape stands for
and a value of the rest. -/
def IsRead (body rest : List Char) (value : List Nat) : Prop :=
  ∃ own value', value = own ++ value' ∧ StringValue rest value' ∧ Reading body own

/-! ### Codes -/

variable {body rest digits cs : List Char} {value own : List Nat} {base n : Nat} {c d : Char}

/-- What is decoded adds its characters. -/
theorem units_cookedEscape_of_some (h : decoded? body = some cs) :
    units (cookedEscape ('\\' :: body)) = units cs := by
  rw [show cookedEscape ('\\' :: body) = (decoded? body).getD ('\\' :: body) from rfl, h,
    Option.getD_some]

/-- What is not decoded is kept as it is written. -/
theorem units_cookedEscape_of_none (h : decoded? body = none) :
    units (cookedEscape ('\\' :: body)) = 0x5c :: units body := by
  rw [show cookedEscape ('\\' :: body) = (decoded? body).getD ('\\' :: body) from rfl, h,
    Option.getD_none, units_cons]
  rfl

/-- An escape by a code is read well unless the code is that of half a pair. -/
theorem Reading.of_code
    (hdecoded : decoded? body = ((number? base digits).bind char?).map fun c => [c])
    (hn : number? base digits = some n) (hlt : n < 0x110000)
    (hmisread : Misread ('\\' :: body) ↔ IsHalf n) : Reading body (codeUnits n) := by
  rw [hn, Option.bind_some] at hdecoded
  by_cases hhalf : IsHalf n
  · obtain ⟨hfrom, hto⟩ := hhalf
    have hvalid : ¬ n.isValidChar := by
      unfold Nat.isValidChar
      omega
    rw [char?_of_not_isValidChar hvalid] at hdecoded
    exact .apart (hmisread.2 ⟨hfrom, hto⟩) (units_cookedEscape_of_none hdecoded)
      (codeUnits_of_lt (by omega)) (by omega) (by decide)
  · have hvalid : n.isValidChar := by
      unfold IsHalf at hhalf
      unfold Nat.isValidChar
      omega
    obtain ⟨c, hc, rfl⟩ := char?_of_isValidChar hvalid
    rw [hc] at hdecoded
    refine .right (fun h => hhalf (hmisread.1 h)) ?_
    rw [units_cookedEscape_of_some hdecoded, units_cons, units_nil, List.append_nil]

theorem misread_half_iff {code : List Char} (hn : number? 16 (withoutBraces code) = some n) :
    Misread ('\\' :: 'u' :: code) ↔ IsHalf n := by
  refine ⟨fun h => ?_, fun h => .half hn h⟩
  cases h with
  | half hm hhalf => exact Option.some.inj (hm.symm.trans hn) ▸ hhalf
  | octal ha h => exact absurd (h 'u' List.mem_cons_self) (by decide)
  | line hc => exact absurd hc (by decide)

theorem dropWhile_of_not_mem (h : c ∉ cs) : cs.dropWhile (· == c) = cs := by
  cases cs with
  | nil => rfl
  | cons d cs =>
    refine List.dropWhile_cons_of_neg fun hd => h ?_
    rw [beq_iff_eq.1 hd]
    exact List.mem_cons_self

theorem withoutBraces_of_isOf (h : ∀ d ∈ digits, isOf 16 d = true) :
    withoutBraces digits = digits := by
  have hfront : '{' ∉ digits := fun hd => absurd (h _ hd) (by decide)
  have hback : '}' ∉ digits.reverse :=
    fun hd => absurd (h _ (List.mem_reverse.1 hd)) (by decide)
  rw [withoutBraces, dropWhile_of_not_mem hfront, dropWhile_of_not_mem hback, List.reverse_reverse]

/-- Braces are taken off digits. -/
theorem withoutBraces_braced (h : ∀ d ∈ digits, isOf 16 d = true) :
    withoutBraces ('{' :: (digits ++ ['}'])) = digits := by
  have hfront : '{' ∉ digits ++ ['}'] := by
    intro hd
    rcases List.mem_append.1 hd with hd | hd
    · exact absurd (h _ hd) (by decide)
    · exact absurd hd (by decide)
  have hback : '}' ∉ digits.reverse :=
    fun hd => absurd (h _ (List.mem_reverse.1 hd)) (by decide)
  rw [withoutBraces, List.dropWhile_cons_of_pos rfl, dropWhile_of_not_mem hfront,
    List.reverse_append, List.reverse_singleton, List.singleton_append,
    List.dropWhile_cons_of_pos rfl, dropWhile_of_not_mem hback, List.reverse_reverse]

/-! ### Each form -/

theorem decoded?_single (hx : c ≠ 'x') (hu : c ≠ 'u') (hdigit : isOf 8 c = false)
    (hline : ¬ (c = '\n' ∨ c = '\r' ∨ isLineSeparator c = true)) :
    ∃ d, decoded? [c] = some [d] ∧ d.toNat = characterCode c := by
  unfold decoded?
  split
  case h_1 h => cases h
  case h_8 h => exact absurd (List.cons.inj h).1 hx
  case h_9 h => exact absurd (List.cons.inj h).1 hu
  case h_10 hn ht hr hb hf hv _ _ h =>
    obtain ⟨rfl, rfl⟩ := List.cons.inj h
    have hoctal : ¬ ('0' ≤ c ∧ c ≤ '7') := by simp [← isOf_eight_iff, hdigit]
    have hend : ¬ (c = '\n' ∨ c = '\r' ∨ c = '\u2028' ∨ c = '\u2029') := by
      simpa [isLineSeparator] using hline
    refine ⟨c, by rw [if_neg hoctal, if_neg hend]; rfl, ?_⟩
    unfold characterCode
    split <;> first | rfl | contradiction
  all_goals
    obtain ⟨rfl, rfl⟩ := List.cons.inj ‹_›
    exact ⟨_, rfl, rfl⟩

theorem escapeValue?_single (hx : c ≠ 'x') (hu : c ≠ 'u') (hdigit : isOf 8 c = false)
    (hrest : rest.head? ≠ some '\n') :
    escapeValue? (c :: rest) = some (units (cookedEscape ['\\', c]), rest) := by
  have hpair (tail : List Char) (_ : c = '\r') : rest ≠ '\n' :: tail := by
    rintro rfl
    exact hrest rfl
  rw [escapeValue?]
  · by_cases hline : c = '\n' ∨ c = '\r' ∨ isLineSeparator c = true
    · rw [if_pos hline]
      simp only [isLineSeparator, Bool.or_eq_true, beq_iff_eq] at hline
      obtain rfl | rfl | rfl | rfl := hline <;> rfl
    · obtain ⟨d, hd, hcode⟩ := decoded?_single hx hu hdigit hline
      rw [if_neg hline, hdigit, units_cookedEscape_of_some hd, units_cons, hcode, units_nil,
        List.append_nil]
      rfl
  · exact hpair
  · exact fun _ _ _ h => absurd h hx
  · exact hx
  · exact hu

theorem decoded?_octal (h : isOf 8 c = true) (rest : List Char) :
    decoded? (c :: rest) = ((number? 8 (c :: rest)).bind char?).map fun c => [c] := by
  rw [decoded?, if_pos (isOf_eight_iff.1 h)]
  all_goals exact ne_of_isOf h (by decide)

theorem escapeValue?_octal (h : isOf 8 c = true) (rest : List Char) :
    escapeValue? (c :: rest) =
      (number? 8 (((c :: rest).takeWhile (isOf 8)).take (octalLimit c))).map fun code =>
        (codeUnits code, (c :: rest).drop
          (((c :: rest).takeWhile (isOf 8)).take (octalLimit c)).length) := by
  have hline : ¬ (c = '\n' ∨ c = '\r' ∨ isLineSeparator c = true) := by
    rw [isLineSeparator_iff]
    simp only [not_or]
    exact ⟨ne_of_isOf h (by decide), ne_of_isOf h (by decide), ne_of_isOf h (by decide),
      ne_of_isOf h (by decide)⟩
  rw [escapeValue?, if_neg hline, if_pos h]
  · exact fun _ hc => absurd hc (ne_of_isOf h (by decide))
  · exact fun _ _ _ hc => absurd hc (ne_of_isOf h (by decide))
  · exact ne_of_isOf h (by decide)
  · exact ne_of_isOf h (by decide)

/-- Octal digits are read to their end, but no further than the limit. -/
theorem take_takeWhile_octal {limit : Nat} (h : ∀ d ∈ digits, isOf 8 d = true)
    (hend : digits.length = limit ∨
      digits.length < limit ∧ ∀ d ∈ rest.head?, isOf 8 d = false) :
    ((digits ++ rest).takeWhile (isOf 8)).take limit = digits := by
  rw [List.takeWhile_append_of_pos h]
  obtain rfl | ⟨hlt, hhead⟩ := hend
  · exact List.take_left
  · have hnone : rest.takeWhile (isOf 8) = [] := by
      cases rest with
      | nil => rfl
      | cons d rest => exact List.takeWhile_cons_of_neg (by simp [hhead d rfl])
    rw [hnone, List.append_nil, List.take_of_length_le (Nat.le_of_lt hlt)]

theorem IsRead.of_reading (hown : escapeValue? (body ++ rest) = some (own, rest))
    (hread : Reading body own) (hvalue : StringValue ('\\' :: (body ++ rest)) value) :
    IsRead body rest value := by
  obtain ⟨value', rfl, hrest⟩ := hvalue.of_escapeValue? hown
  exact ⟨own, value', rfl, hrest, hread⟩

theorem not_misread_of_isOf_eight (h : ∀ d ∈ digits, isOf 8 d = true)
    (hend : digits.length = 3 → ∃ d ∈ digits.head?, d ≤ '3') : ¬ Misread ('\\' :: digits) := by
  intro hmisread
  cases hmisread with
  | half => exact absurd (h 'u' List.mem_cons_self) (by decide)
  | octal ha =>
    obtain ⟨d, hd, hle⟩ := hend rfl
    exact ha (Option.some.inj hd ▸ hle)
  | @line c d hc =>
    have hdigit := h c List.mem_cons_self
    obtain rfl | rfl := hc <;> exact absurd hdigit (by decide)

/-- Octal digits no more than an escape can have are all of those that belong to it. -/
theorem length_octal (hlength : (c :: digits).length ≤ 3)
    (hend : (c :: digits).length = 3 → c ≤ '3') :
    (c :: digits).length = octalLimit c ∨
      (c :: digits).length < octalLimit c ∧ (c :: digits).length < 3 := by
  unfold octalLimit
  split
  · omega
  · next hfirst =>
    have hne : (c :: digits).length ≠ 3 := fun h3 => hfirst (hend h3)
    omega

/-- Octal digits no more than an escape can have are read well. -/
theorem isRead_octal (hlength : (c :: digits).length ≤ 3)
    (h : ∀ d ∈ c :: digits, isOf 8 d = true) (hend : (c :: digits).length = 3 → c ≤ '3')
    (hwhole : Whole (c :: digits) rest)
    (hvalue : StringValue ('\\' :: (c :: digits ++ rest)) value) :
    IsRead (c :: digits) rest value := by
  have hc := h c List.mem_cons_self
  obtain ⟨n, hn, hlt⟩ := exists_number? (List.cons_ne_nil c digits) h
  have hsmall : n < 0x200 := Nat.lt_of_lt_of_le hlt (Nat.pow_le_pow_right (by decide) hlength)
  have hlimit : (c :: digits).length = octalLimit c ∨
      (c :: digits).length < octalLimit c ∧ ∀ d ∈ rest.head?, isOf 8 d = false :=
    (length_octal hlength hend).imp_right fun ⟨hlt, hmore⟩ => ⟨hlt, hwhole h hmore⟩
  have hown : escapeValue? (c :: digits ++ rest) = some (codeUnits n, rest) := by
    rw [List.cons_append, escapeValue?_octal hc, ← List.cons_append,
      take_takeWhile_octal h hlimit, hn, List.drop_left]
    rfl
  have hnot : ¬ IsHalf n := by
    unfold IsHalf
    omega
  have hmisread : Misread ('\\' :: c :: digits) ↔ IsHalf n :=
    iff_of_false (not_misread_of_isOf_eight h fun h3 => ⟨c, rfl, hend h3⟩) hnot
  exact IsRead.of_reading hown (.of_code (decoded?_octal hc digits) hn (by omega) hmisread) hvalue

/-- Of three octal digits that begin with one greater than 3, two are read. -/
theorem isRead_of_three {a b : Char} (ha : ¬ a ≤ '3') (h : ∀ d ∈ [a, b, c], isOf 8 d = true)
    (hvalue : StringValue ('\\' :: a :: b :: c :: rest) value) :
    IsRead [a, b, c] rest value := by
  obtain ⟨hda, hdb, hdc⟩ : isOf 8 a = true ∧ isOf 8 b = true ∧ isOf 8 c = true := by simpa using h
  have htwo : ∀ d ∈ [a, b], isOf 8 d = true := by simp [hda, hdb]
  have htext : escapeValue? (a :: b :: c :: rest) =
      some (codeUnits (digit a * 8 + digit b), c :: rest) := by
    have hlimit : octalLimit a = 2 := if_neg ha
    have htake : ((a :: b :: c :: rest).takeWhile (isOf 8)).take 2 = [a, b] :=
      take_takeWhile_octal htwo (.inl rfl)
    rw [escapeValue?_octal hda, hlimit, htake, number?_eq (List.cons_ne_nil a [b]) htwo]
    simp
  have hc : c ≠ '\\' := ne_of_isOf hdc (by decide)
  obtain ⟨-, value', rfl, hrest⟩ := hvalue.of_escapeValue?_cons htext hc
  refine ⟨_, value', rfl, hrest, ?_⟩
  -- All three are taken for one code, and two digits do not come up to it.
  have hfour := four_le_digit hda ha
  have hla := (value?_of_isOf hda).2
  have hlb := (value?_of_isOf hdb).2
  have hlc := (value?_of_isOf hdc).2
  have hvalid : ((digit a * 8 + digit b) * 8 + digit c).isValidChar := .inl (by omega)
  obtain ⟨d, hd, hcode⟩ := char?_of_isValidChar hvalid
  have hdecoded : decoded? [a, b, c] = some [d] := by
    rw [decoded?_octal hda, number?_eq (List.cons_ne_nil a [b, c]) h]
    simp [hd]
  have hcooked : units (cookedEscape ['\\', a, b, c]) =
      [(digit a * 8 + digit b) * 8 + digit c] := by
    rw [units_cookedEscape_of_some hdecoded, units_cons, hcode, codeUnits_of_lt (by omega)]
    rfl
  have hown : codeUnits (digit a * 8 + digit b) ++ codeUnits c.toNat =
      (digit a * 8 + digit b) :: codeUnits c.toNat := by
    rw [codeUnits_of_lt (by omega)]
    rfl
  exact .apart (.octal ha h) hcooked hown (by omega) (by omega)

/-- Four hexadecimal digits are read for their code, unless it is that of half a pair. -/
theorem isRead_code {a b : Char} (h : ∀ e ∈ [a, b, c, d], isOf 16 e = true)
    (hvalue : StringValue ('\\' :: 'u' :: a :: b :: c :: d :: rest) value) :
    IsRead ['u', a, b, c, d] rest value := by
  obtain ⟨n, hn, hlt⟩ := exists_number? (List.cons_ne_nil a [b, c, d]) h
  have hsmall : n < 0x10000 := by simpa using hlt
  have ha : a ≠ '{' := ne_of_isOf (h a List.mem_cons_self) (by decide)
  have hown : escapeValue? ('u' :: a :: b :: c :: d :: rest) = some (codeUnits n, rest) := by
    rw [escapeValue?, unicodeEscape?, hn]
    · rfl
    · exact ha
  have hcode : withoutBraces [a, b, c, d] = [a, b, c, d] := withoutBraces_of_isOf h
  refine IsRead.of_reading hown (.of_code ?_ hn (Nat.lt_trans hsmall (by decide)) ?_) hvalue
  · rw [decoded?, hcode]
  · exact misread_half_iff (by rw [hcode, hn])

/-- Digits in braces, as many as they are, are read like four. -/
theorem isRead_braced (hne : digits ≠ []) (h : ∀ d ∈ digits, isOf 16 d = true)
    (hvalue : StringValue ('\\' :: ('u' :: '{' :: (digits ++ ['}']) ++ rest)) value) :
    IsRead ('u' :: '{' :: (digits ++ ['}'])) rest value := by
  obtain ⟨n, hn, -⟩ := exists_number? hne h
  have hcode : withoutBraces ('{' :: (digits ++ ['}'])) = digits := withoutBraces_braced h
  have hclose : isOf 16 '}' = false := by decide
  have hfront : (digits ++ '}' :: rest).takeWhile (isOf 16) = digits := by
    rw [List.takeWhile_append_of_pos h, List.takeWhile_cons_of_neg (by simp [hclose]),
      List.append_nil]
  have hback : (digits ++ '}' :: rest).dropWhile (isOf 16) = '}' :: rest := by
    rw [List.dropWhile_append_of_pos h, List.dropWhile_cons_of_neg (by simp [hclose])]
  have htext : escapeValue? ('u' :: '{' :: (digits ++ ['}']) ++ rest) =
      if n ≤ 0x10ffff then some (codeUnits n, rest) else none := by
    simp only [List.cons_append, List.append_assoc, List.nil_append, escapeValue?, unicodeEscape?,
      hfront, hback, hn]
    split <;> rfl
  by_cases hle : n ≤ 0x10ffff
  · rw [if_pos hle] at htext
    refine IsRead.of_reading htext (.of_code ?_ hn (Nat.lt_succ_of_le hle) ?_) hvalue
    · rw [decoded?, hcode]
    · exact misread_half_iff (by rw [hcode, hn])
  · obtain ⟨own, rest', _, hown, -, -⟩ := hvalue.of_escape
    rw [htext, if_neg hle] at hown
    cases hown

/-- A carriage return or question mark is read by itself, unless the two are one line end. -/
theorem isRead_line (hc : c = '\r' ∨ c = '?') (hd : d = '\n' ∨ isLineSeparator d = true)
    (hvalue : StringValue ('\\' :: c :: d :: rest) value) :
    IsRead [c, d] rest value := by
  have hne : d ≠ '\\' := by
    rintro rfl
    exact absurd hd (by decide)
  obtain rfl | rfl := hc
  · obtain rfl | hsep := hd
    · have hown : escapeValue? ('\r' :: '\n' :: rest) = some ([], rest) := rfl
      refine IsRead.of_reading hown (.right ?_ rfl) hvalue
      intro h
      cases h with
      | line _ hsep => exact absurd hsep (by decide)
    · have hown : escapeValue? ('\r' :: d :: rest) = some ([], d :: rest) := by
        obtain rfl | rfl := isLineSeparator_iff.1 hsep <;> rfl
      obtain ⟨-, value', rfl, hrest⟩ := hvalue.of_escapeValue?_cons hown hne
      refine ⟨_, value', rfl, hrest, .behind (.line (.inl rfl) hsep) rfl ?_⟩
      obtain rfl | rfl := isLineSeparator_iff.1 hsep
      · exact .inl rfl
      · exact .inr rfl
  · have hown : escapeValue? ('?' :: d :: rest) = some ([0x3f], d :: rest) := rfl
    obtain ⟨hline, value', rfl, hrest⟩ := hvalue.of_escapeValue?_cons hown hne
    have hsep : isLineSeparator d = true := hd.resolve_left hline.1
    exact ⟨_, value', rfl, hrest, .apart (.line (.inr rfl) hsep) (units_cookedEscape_of_none rfl)
      rfl (by decide) (by decide)⟩

/-- **An escape is read well unless it is one of those that are misread.** -/
theorem EscapeBody.isRead (h : EscapeBody body) (hwhole : Whole body rest)
    (hrest : rest.head? ≠ some '\n') (hvalue : StringValue ('\\' :: (body ++ rest)) value) :
    IsRead body rest value := by
  cases h with
  | single hx hu hdigit =>
    refine IsRead.of_reading (escapeValue?_single hx hu hdigit hrest) (.right ?_ rfl) hvalue
    intro h
    cases h
    exact hu rfl
  | octal hne hlength h =>
    obtain ⟨c, digits, rfl⟩ := List.exists_cons_of_ne_nil hne
    by_cases hend : (c :: digits).length = 3 → c ≤ '3'
    · exact isRead_octal hlength h hend hwhole hvalue
    · obtain ⟨h3, ha⟩ := Classical.not_imp.1 hend
      match digits, h3 with
      | [_, _], _ => exact isRead_of_three ha h hvalue
  | @byte a b h =>
    obtain ⟨n, hn, (hlt : n < 0x100)⟩ := exists_number? (List.cons_ne_nil a [b]) h
    have hown : escapeValue? ('x' :: a :: b :: rest) = some (codeUnits n, rest) := by
      simp [escapeValue?, hn]
    have hmisread : ¬ Misread ('\\' :: ['x', a, b]) := by
      intro hm
      cases hm with
      | octal _ h => exact absurd (h 'x' List.mem_cons_self) (by decide)
    refine IsRead.of_reading hown (.of_code rfl hn (Nat.lt_trans hlt (by decide)) ?_) hvalue
    refine iff_of_false hmisread ?_
    unfold IsHalf
    omega
  | code h => exact isRead_code h hvalue
  | braced hne h => exact isRead_braced hne h hvalue
  | line hc hd => exact isRead_line hc hd hvalue

end Syntax

end ModuleGraph
