/-
# Lines, written and read again

A text of TOML that is written line by line is read line by line: a pair adds its value to the
table of the last header (`Toml.lines?_line`), a header opens a table (`Toml.lines?_header`), and
so sections with their entries come out as the tables that they were written from
(`Toml.parse?_sections`).

The lemmas about one line leave open what follows it, and how much fuel is left; it is enough
that there is more of it than text.

Key definitions: `Toml.BareName`, `Toml.Writable`, `Toml.readBack`.
Key theorems: `Toml.value?_valueText`, `Toml.lines?_line`, `Toml.lines?_header`,
`Toml.parse?_sections`.
-/
import ModuleGraph.Proofs.TomlNames
import ModuleGraph.Proofs.TomlStrings
import ModuleGraph.Settings.Text
import ModuleGraph.Toml.Reader

namespace ModuleGraph

namespace Table

variable {κ α : Type} [DecidableEq κ] {key : κ} {front : Table κ α}

theorem get?_concat (h : key ∉ front.keys) (value : α) :
    get? (front ++ [(key, value)]) key = some value := by
  rw [← put_of_get?_eq_none (get?_eq_none_iff.2 h), get?_put, if_pos rfl]

theorem put_concat (h : key ∉ front.keys) (value value' : α) :
    put key value' (front ++ [(key, value)]) = front ++ [(key, value')] := by
  induction front with
  | nil => simp [put]
  | cons entry front ih =>
    obtain ⟨hne, hfront⟩ : key ≠ entry.1 ∧ key ∉ keys front := by
      simpa [keys] using h
    simp [put, hne.symm, ih hfront]

end Table

namespace Toml

variable {rest cs : List Char} {fuel n : Nat}

/-- A character of a kind is none that is not. -/
theorem ne_of_kind {kind : Char → Bool} {c d : Char} (hc : kind c = true) (hd : kind d = false) :
    c ≠ d := by
  rintro rfl
  rw [hc] at hd
  cases hd

/-! ### Numbers -/

theorem value?_digitChar (h : n < 10) : Digit.value? n.digitChar = some n := by
  revert n
  decide

theorem toDigits_ne_nil (n : Nat) : Nat.toDigits 10 n ≠ [] :=
  List.ne_nil_of_length_pos Nat.length_toDigits_pos

/-- A number is read from its digits. -/
theorem number?_toDigits (n : Nat) : Digit.number? 10 (Nat.toDigits 10 n) = some n := by
  induction n using Nat.strongRecOn with
  | ind n ih =>
    by_cases hn : n < 10
    · simp [Nat.toDigits_of_lt_base hn, Digit.number?, value?_digitChar hn, hn]
    · have hlt : n % 10 < 10 := Nat.mod_lt _ (by decide)
      have hfront := ih (n / 10) (by omega)
      have hsum : n / 10 * 10 + n % 10 = n := by omega
      simp only [Digit.number?, List.isEmpty_iff, toDigits_ne_nil, if_false] at hfront
      rw [Digit.number?, Nat.toDigits_of_base_le (by decide) (by omega), if_neg (by simp),
        List.foldlM_append, hfront]
      simp [value?_digitChar hlt, hlt, hsum]

theorem isDecimal_of_mem_toDigits {c : Char} (h : c ∈ Nat.toDigits 10 n) :
    Digit.isDecimal c = true := by
  have hcode : 48 ≤ c.val ∧ c.val ≤ 57 := by
    simpa [Char.isDigit] using Nat.isDigit_of_mem_toDigits (by decide) (by decide) h
  have hdigit : '0' ≤ c ∧ c ≤ '9' := hcode
  simp [Digit.isDecimal, hdigit]

theorem exists_cons_toDigits (n : Nat) :
    ∃ c cs, Nat.toDigits 10 n = c :: cs ∧ Digit.isDecimal c = true := by
  obtain ⟨c, cs, hcs⟩ := List.exists_cons_of_ne_nil (toDigits_ne_nil n)
  exact ⟨c, cs, hcs, isDecimal_of_mem_toDigits (hcs ▸ List.mem_cons_self)⟩

/-- A number does not begin with a zero, unless it is one. -/
theorem head?_toDigits (h : 0 < n) : (Nat.toDigits 10 n).head? ≠ some '0' := by
  induction n using Nat.strongRecOn with
  | ind n ih =>
    by_cases hn : n < 10
    · have hdigit : ∀ d < 10, 0 < d → d.digitChar ≠ '0' := by decide
      simpa [Nat.toDigits_of_lt_base hn] using hdigit n hn h
    · have hfront := ih (n / 10) (by omega) (by omega)
      rw [Nat.toDigits_of_base_le (by decide) (by omega)]
      cases hdigits : Nat.toDigits 10 (n / 10) with
      | nil => exact absurd hdigits (toDigits_ne_nil _)
      | cons c cs => simpa [hdigits] using hfront

section

variable {ds : List Char} (hdigits : ∀ c ∈ ds, Digit.isDecimal c = true)
include hdigits

theorem go_digits (read rest : List Char) : digitRow?.go Digit.isDecimal read (ds ++ '\n' :: rest) =
    (read.reverse ++ ds, '\n' :: rest) := by
  induction ds generalizing read with
  | nil => simp [digitRow?.go, Digit.isDecimal]
  | cons d ds ih =>
    have hd : Digit.isDecimal d = true := hdigits d List.mem_cons_self
    have hmark : d ≠ '_' := by
      rintro rfl
      cases hd
    have hrest := ih (fun c hc => hdigits c (List.mem_cons_of_mem _ hc)) (d :: read)
    rw [List.cons_append, digitRow?.go.eq_def]
    split
    · next he => exact absurd (List.cons.inj he).1 hmark
    · next he =>
      obtain ⟨rfl, rfl⟩ := List.cons.inj he
      simpa [hd] using hrest
    · next he => cases he

theorem head?_digits_append (rest : List Char) :
    ∃ c, (ds ++ '\n' :: rest).head? = some c ∧ (Digit.isDecimal c = true ∨ c = '\n') := by
  cases ds with
  | nil => exact ⟨'\n', rfl, .inr rfl⟩
  | cons d ds => exact ⟨d, rfl, .inl (hdigits d List.mem_cons_self)⟩

/-- Digits at the end of a line are followed by digits or by the line's end. -/
theorem decimal_or_end {n low high : Nat} {r : Nat × List Char}
    (h : field? n low high (ds ++ '\n' :: rest) = some r) :
    ∃ c, r.2.head? = some c ∧ (Digit.isDecimal c = true ∨ c = '\n') := by
  simp only [field?] at h
  split at h
  · next hfield =>
    obtain ⟨-, hall, -, -⟩ := hfield
    obtain rfl := Option.some.inj h
    have hle : n ≤ ds.length := by
      refine Nat.le_of_not_lt fun hlt => ?_
      obtain ⟨k, rfl⟩ := Nat.exists_eq_add_of_lt hlt
      have hline : '\n' ∈ (ds ++ '\n' :: rest).take (ds.length + k + 1) := by
        simp [List.take_append, Nat.add_assoc]
      simpa [Digit.isDecimal] using List.all_eq_true.1 hall '\n' hline
    rw [List.drop_append_of_le_length hle]
    exact head?_digits_append (fun c hc => hdigits c (List.mem_of_mem_drop hc)) rest
  · cases h

theorem isTimeLike_digits : isTimeLike (ds ++ '\n' :: rest) = false := by
  have hfield (n low high : Nat) {mark : Char} (hmark : Digit.isDecimal mark = false)
      (hline : mark ≠ '\n') :
      (field? n low high (ds ++ '\n' :: rest)).any (fun r => r.2.head? == some mark) = false := by
    cases h : field? n low high (ds ++ '\n' :: rest) with
    | none => rfl
    | some r =>
      obtain ⟨c, hc, hdecimal | rfl⟩ := decimal_or_end hdigits h
      · simp [hc, ne_of_kind hdecimal hmark]
      · simp [hc, hline.symm]
  rw [isTimeLike, hfield 4 0 9999 (by decide) (by decide), hfield 2 0 99 (by decide) (by decide)]
  rfl

theorem decimal?_digits (hds : ds ≠ []) (hzero : ds.head? = some '0' → ds = ['0'])
    (hbound : Digit.natOf ds < Nat.pow 2 63) (rest : List Char) :
    decimal? false (ds ++ '\n' :: rest) = some (.signed (Digit.natOf ds), '\n' :: rest) := by
  have hwhole : wholeRow? (ds ++ '\n' :: rest) = some (ds, '\n' :: rest) := by
    cases ds with
    | nil => exact absurd rfl hds
    | cons d ds =>
      by_cases hd : d = '0'
      · subst hd
        rw [hzero rfl]
        rfl
      · have hgo := go_digits (fun c hc => hdigits c (List.mem_cons_of_mem _ hc)) [d] rest
        rw [wholeRow?.eq_def]
        split
        · next he => exact absurd (List.cons.inj he).1 hd
        · simpa [digitRow?, hdigits d List.mem_cons_self] using hgo
  have hrow : fractionRow? ('\n' :: rest) = none ∧ exponentRow? ('\n' :: rest) = none := ⟨rfl, rfl⟩
  simp [decimal?, hwhole, hrow, integer, hbound]

theorem number?_digits (hds : ds ≠ []) (hzero : ds.head? = some '0' → ds = ['0'])
    (hbound : Digit.natOf ds < Nat.pow 2 63) (rest : List Char) :
    number? (ds ++ '\n' :: rest) = some (.signed (Digit.natOf ds), '\n' :: rest) := by
  have hdecimal := decimal?_digits hdigits hds hzero hbound rest
  have htime : isTimeLike (ds ++ '\n' :: rest) = false := isTimeLike_digits hdigits
  obtain ⟨d, ds, rfl⟩ := List.exists_cons_of_ne_nil hds
  have hd : Digit.isDecimal d = true := hdigits d List.mem_cons_self
  have hsecond {c : Char} {more : List Char} (he : d :: ds ++ '\n' :: rest = '0' :: c :: more) :
      c = '\n' := by
    obtain ⟨rfl, htail⟩ := List.cons.inj he
    obtain rfl : ds = [] := (List.cons.inj (hzero rfl)).2
    exact (List.cons.inj htail).1.symm
  have hsign : sign (d :: ds ++ '\n' :: rest) = (false, d :: ds ++ '\n' :: rest) := by
    have hminus : d ≠ '-' := ne_of_kind hd rfl
    have hplus : d ≠ '+' := ne_of_kind hd rfl
    rw [sign.eq_def]
    split <;> simp_all
  have hspecial : special? false (d :: ds ++ '\n' :: rest) = none := by
    have hi : d ≠ 'i' := ne_of_kind hd rfl
    have hn : d ≠ 'n' := ne_of_kind hd rfl
    simp [special?, word?, hi.symm, hn.symm]
  rw [number?.eq_def]
  split
  · next he => cases hsecond he
  · next he => cases hsecond he
  · next he => cases hsecond he
  · simp only [htime, hsign, hspecial, hdecimal, Bool.false_eq_true, if_false]

end

/-- A number at the end of a line is read from its digits. -/
theorem number?_toDigits_append (h : n < Nat.pow 2 63) (rest : List Char) :
    number? (Nat.toDigits 10 n ++ '\n' :: rest) = some (.signed n, '\n' :: rest) := by
  have hnat : Digit.natOf (Nat.toDigits 10 n) = n := by
    rw [Digit.natOf, number?_toDigits]
    rfl
  have hzero : (Nat.toDigits 10 n).head? = some '0' → Nat.toDigits 10 n = ['0'] := by
    intro hhead
    rcases Nat.eq_zero_or_pos n with rfl | hpos
    · rfl
    · exact absurd hhead (head?_toDigits hpos)
  have hread := number?_digits (fun _ => isDecimal_of_mem_toDigits) (toDigits_ne_nil n) hzero
    (by rwa [hnat]) rest
  rwa [hnat] at hread

/-! ### Values -/

/-- A document that can be written as the value of a pair: a text, a truth value, or a number
that has a sign bit to spare. -/
def Writable : Document → Prop
  | .text _ | .bool _ => True
  | .unsigned n => n < Nat.pow 2 63
  | _ => False

/-- What is read where a document was written: numbers are signed. -/
def readBack : Document → Document
  | .unsigned n => .signed n
  | v => v

theorem toList_valueText_text (s : String) : (Settings.valueText (.text s)).toList =
    quotedText s.toList (styleOf s.toList) := by
  simp [Settings.valueText, writeString]

theorem toList_valueText_unsigned (n : Nat) :
    (Settings.valueText (.unsigned n)).toList = Nat.toDigits 10 n := by
  simp [Settings.valueText]

theorem exists_cons_quotedText (cs : List Char) :
    ∃ c rest, quotedText cs (styleOf cs) = c :: rest ∧ (c = '"' ∨ c = '\'') := by
  cases styleOf cs with
  | basic | basicLines => exact ⟨_, _, rfl, .inl rfl⟩
  | literal | literalLines => exact ⟨_, _, rfl, .inr rfl⟩

theorem value?_of_quote {c : Char} (hc : c = '"' ∨ c = '\'') (fuel : Nat) (cs : List Char) :
    value? (fuel + 1) (c :: cs) = (string? (c :: cs)).map fun r => (.text r.1, r.2) := by
  rcases hc with rfl | rfl <;> rfl

theorem value?_of_decimal {c : Char} (hc : Digit.isDecimal c = true) (fuel : Nat) (cs : List Char) :
    value? (fuel + 1) (c :: cs) = number? (c :: cs) := by
  have hmarks : c ≠ '"' ∧ c ≠ '\'' ∧ c ≠ '[' ∧ c ≠ '\x7b' ∧ c ≠ 't' ∧ c ≠ 'f' :=
    ⟨ne_of_kind hc rfl, ne_of_kind hc rfl, ne_of_kind hc rfl, ne_of_kind hc rfl,
      ne_of_kind hc rfl, ne_of_kind hc rfl⟩
  rw [value?.eq_def]
  simp only
  split <;> simp_all

theorem apart_newline (rest : List Char) : Apart ('\n' :: rest) := ⟨by simp, by simp⟩

/-- **A value is read as it was written,** up to the end of its line. -/
theorem value?_valueText {v : Document} (h : Writable v) (fuel : Nat) (rest : List Char) :
    value? (fuel + 1) ((Settings.valueText v).toList ++ '\n' :: rest) =
      some (readBack v, '\n' :: rest) := by
  cases v with
  | text s =>
    have hread := string?_quotedText (apart_newline rest) s.toList
    obtain ⟨c, cs, hcs, hquote⟩ := exists_cons_quotedText s.toList
    rw [hcs, List.cons_append] at hread
    rw [toList_valueText_text, hcs, List.cons_append, value?_of_quote hquote, hread]
    simp [readBack]
  | bool b => cases b <;> rfl
  | unsigned n =>
    have hread := number?_toDigits_append h rest
    obtain ⟨c, cs, hcs, hc⟩ := exists_cons_toDigits n
    rw [hcs, List.cons_append] at hread
    rw [toList_valueText_unsigned, hcs, List.cons_append, value?_of_decimal hc, hread]
    rfl
  | _ => exact h.elim

/-! ### Lines -/

/-- A name that is written as it is. -/
def BareName (name : String) : Prop := name ≠ "" ∧ ∀ c ∈ name.toList, isBare c = true

instance (name : String) : Decidable (BareName name) :=
  decidable_of_iff (name ≠ "" ∧ name.toList.all isBare = true) (and_congr_right' List.all_eq_true)

variable {name : String} {v : Document} {r : Reading}

theorem BareName.exists_cons (h : BareName name) :
    ∃ c cs, name.toList = c :: cs ∧ isBare c = true := by
  cases hname : name.toList with
  | nil => exact absurd (String.toList_inj.1 hname) h.1
  | cons c cs => exact ⟨c, cs, rfl, h.2 c (hname ▸ List.mem_cons_self)⟩

theorem skipBlanks_bare (h : BareName name) (rest : List Char) :
    skipBlanks (name.toList ++ rest) = name.toList ++ rest := by
  obtain ⟨c, cs, hname, hc⟩ := h.exists_cons
  have hspace : c ≠ ' ' := ne_of_kind hc rfl
  have htab : c ≠ '\t' := ne_of_kind hc rfl
  simp [skipBlanks, hname, isBlank, hspace, htab]

/-- A bare name is read up to what is not part of one. -/
theorem name?_bare (h : BareName name) {c : Char} (hc : isBare c = false) (rest : List Char) :
    name? (name.toList ++ c :: rest) = some (name, c :: rest) := by
  have hname : (name.toList ++ c :: rest).takeWhile isBare = name.toList := by
    rw [List.takeWhile_append_of_pos h.2]
    simp [hc]
  have hrest : (name.toList ++ c :: rest).dropWhile isBare = c :: rest := by
    rw [List.dropWhile_append_of_pos h.2]
    simp [hc]
  obtain ⟨d, cs, hcons, hd⟩ := h.exists_cons
  have hdouble : d ≠ '"' := ne_of_kind hd rfl
  have hsingle : d ≠ '\'' := ne_of_kind hd rfl
  rw [name?.eq_def]
  split
  · next he =>
    rw [hcons] at he
    exact absurd (List.cons.inj he).1 hdouble
  · next he =>
    rw [hcons] at he
    exact absurd (List.cons.inj he).1 hsingle
  · simp only [hname, hrest]
    simp [hcons, ← String.toList_inj]

theorem names?_bare (h : BareName name) {c : Char} (hc : isBare c = false)
    (hpoint : (skipBlanks (c :: rest)).head? ≠ some '.') :
    names? (fuel + 1) (name.toList ++ c :: rest) = some ([name], skipBlanks (c :: rest)) := by
  simp only [names?, skipBlanks_bare h, name?_bare h hc, Option.bind_eq_bind, Option.bind_some]
  split
  · next he => simp [he] at hpoint
  · rfl

theorem lineEnd?_newline (rest : List Char) : lineEnd? ('\n' :: rest) = some rest := rfl

theorem toList_line (name : String) (v : Document) : (Settings.line (name, v)).toList =
    name.toList ++ ' ' :: '=' :: ' ' :: ((Settings.valueText v).toList ++ ['\n']) := by
  simp [Settings.line]

/-- What is written as a value does not begin with a blank. -/
theorem exists_cons_valueText (hv : Writable v) :
    ∃ c cs, (Settings.valueText v).toList = c :: cs ∧ isBlank c = false := by
  cases v with
  | text s =>
    obtain ⟨c, cs, hcs, hquote⟩ := exists_cons_quotedText s.toList
    rw [toList_valueText_text]
    exact ⟨c, cs, hcs, by rcases hquote with rfl | rfl <;> rfl⟩
  | bool b => cases b <;> exact ⟨_, _, rfl, rfl⟩
  | unsigned n =>
    obtain ⟨c, cs, hcs, hc⟩ := exists_cons_toDigits n
    have hspace : c ≠ ' ' := ne_of_kind hc rfl
    have htab : c ≠ '\t' := ne_of_kind hc rfl
    rw [toList_valueText_unsigned]
    exact ⟨c, cs, hcs, by simp [isBlank, hspace, htab]⟩
  | _ => exact hv.elim

theorem pairLine?_line (hname : BareName name) (hv : Writable v) (r : Reading) (rest : List Char) :
    pairLine? r ((Settings.line (name, v)).toList ++ rest) =
      (insertAt r.header [] name (readBack v) r.entries).map fun entries =>
        ({ r with entries }, rest) := by
  have htext : (Settings.line (name, v)).toList ++ rest = name.toList ++
      ' ' :: '=' :: ' ' :: ((Settings.valueText v).toList ++ '\n' :: rest) := by
    simp [toList_line]
  have hblank : skipBlanks (' ' :: ((Settings.valueText v).toList ++ '\n' :: rest)) =
      (Settings.valueText v).toList ++ '\n' :: rest := by
    obtain ⟨c, cs, hcs, hc⟩ := exists_cons_valueText hv
    have hspace : isBlank ' ' = true := rfl
    simp [skipBlanks, hcs, hc, hspace]
  have hequals : skipBlanks (' ' :: '=' :: ' ' :: ((Settings.valueText v).toList ++ '\n' :: rest)) =
      '=' :: ' ' :: ((Settings.valueText v).toList ++ '\n' :: rest) := rfl
  have hkey : splitKey [name] = ([], name) := rfl
  rw [htext, pairLine?, names?_bare hname (by decide) (by simp [hequals])]
  simp only [hequals, Option.bind_eq_bind, Option.bind_some, hblank, value?_valueText hv,
    lineEnd?_newline, hkey]
  cases insertAt r.header [] name (readBack v) r.entries <;> rfl

/-! ### Texts -/

theorem lines?_of_isBare {c : Char} (hc : isBare c = true) (fuel : Nat) (r : Reading)
    (cs : List Char) : lines? (fuel + 1) r (c :: cs) =
      (pairLine? r (c :: cs)).bind fun next => lines? fuel next.1 next.2 := by
  have hblank : skipBlanks (c :: cs) = c :: cs := by
    have hspace : c ≠ ' ' := ne_of_kind hc rfl
    have htab : c ≠ '\t' := ne_of_kind hc rfl
    simp [skipBlanks, isBlank, hspace, htab]
  have hmarks : c ≠ '#' ∧ c ≠ '\n' ∧ c ≠ '\r' :=
    ⟨ne_of_kind hc rfl, ne_of_kind hc rfl, ne_of_kind hc rfl⟩
  rw [lines?, hblank]
  split
  · next he => cases he
  · next he => exact absurd (List.cons.inj he).1 (ne_of_kind hc rfl)
  · next he =>
    obtain ⟨rfl, rfl⟩ := List.cons.inj he
    simp [hmarks]

/-- **A line adds its value to the table of the last header.** -/
theorem lines?_line (hname : BareName name) (hv : Writable v) (r : Reading)
    (hfuel : ((Settings.line (name, v)).toList ++ rest).length < fuel) :
    ∃ fuel', rest.length < fuel' ∧ lines? fuel r ((Settings.line (name, v)).toList ++ rest) =
      (insertAt r.header [] name (readBack v) r.entries).bind fun entries =>
        lines? fuel' { r with entries } rest := by
  obtain ⟨fuel, rfl⟩ := Nat.exists_eq_succ_of_ne_zero (Nat.ne_zero_of_lt hfuel)
  refine ⟨fuel, ?_, ?_⟩
  · simp [toList_line] at hfuel
    omega
  · obtain ⟨c, cs, hcs, hc⟩ := hname.exists_cons
    obtain ⟨tail, htail⟩ : ∃ tail, (Settings.line (name, v)).toList ++ rest = c :: tail :=
      ⟨_, by rw [toList_line, hcs]; rfl⟩
    have hpair := pairLine?_line hname hv r rest
    rw [htail] at hpair ⊢
    rw [lines?_of_isBare hc, hpair]
    cases insertAt r.header [] name (readBack v) r.entries <;> rfl

theorem headerLine?_bare (hname : BareName name) (r : Reading) (rest : List Char) :
    headerLine? r (name.toList ++ ']' :: '\n' :: rest) =
      (openTable name r.entries).map fun entries => (⟨entries, [name]⟩, rest) := by
  have hnames : names? ((name.toList ++ ']' :: '\n' :: rest).length + 1)
      (name.toList ++ ']' :: '\n' :: rest) = some ([name], ']' :: '\n' :: rest) :=
    names?_bare hname (by decide) (by simp [skipBlanks, isBlank])
  have hkey : splitKey [name] = ([], name) := rfl
  obtain ⟨c, cs, hcs, hc⟩ := hname.exists_cons
  rw [headerLine?.eq_def]
  split
  · next he =>
    rw [hcs] at he
    exact absurd (List.cons.inj he).1 (ne_of_kind hc rfl)
  · simp only [hnames, Option.bind_eq_bind, Option.bind_some, hkey, changeAt, lineEnd?_newline]
    cases openTable name r.entries <;> rfl

/-- **A header opens a table,** behind an empty line. -/
theorem lines?_header (hname : BareName name) (r : Reading)
    (hfuel : ('\n' :: '[' :: (name.toList ++ ']' :: '\n' :: rest)).length < fuel) :
    ∃ fuel', rest.length < fuel' ∧
      lines? fuel r ('\n' :: '[' :: (name.toList ++ ']' :: '\n' :: rest)) =
        (openTable name r.entries).bind fun entries => lines? fuel' ⟨entries, [name]⟩ rest := by
  simp only [List.length_cons, List.length_append] at hfuel
  obtain ⟨fuel, rfl⟩ : ∃ k, fuel = k + 2 := ⟨fuel - 2, by omega⟩
  refine ⟨fuel, by omega, ?_⟩
  have hempty : lines? (fuel + 2) r ('\n' :: '[' :: (name.toList ++ ']' :: '\n' :: rest)) =
      lines? (fuel + 1) r ('[' :: (name.toList ++ ']' :: '\n' :: rest)) := rfl
  have hheader : lines? (fuel + 1) r ('[' :: (name.toList ++ ']' :: '\n' :: rest)) =
      (headerLine? r (name.toList ++ ']' :: '\n' :: rest)).bind fun next =>
        lines? fuel next.1 next.2 := rfl
  rw [hempty, hheader, headerLine?_bare hname]
  cases openTable name r.entries <;> rfl

/-- Entries that can be written line by line. -/
def Lines (entries : List (String × Document)) : Prop :=
  ∀ entry ∈ entries, BareName entry.1 ∧ Writable entry.2

/-- The item that is read where an entry was written. -/
def itemOf (entry : String × Document) : String × Item := (entry.1, .value (readBack entry.2))

def sectionItem (p : String × List (String × Document)) : String × Item :=
  (p.1, .table .header (p.2.map itemOf))

theorem insertAt_section {front below : Entries} {header : String}
    (hheader : header ∉ Table.keys front) (hname : name ∉ Table.keys below) (v : Document) :
    insertAt [header] [] name v (front ++ [(header, .table .header below)]) =
      some (front ++ [(header, .table .header (below ++ [(name, .value v)]))]) := by
  have hfree := Table.get?_eq_none_iff.2 hname
  simp [insertAt, changeAt, Table.get?_concat hheader, Table.put_concat hheader, insertDotted,
    hfree]

theorem not_mem_keys_of_nodup {front entries : Entries} {entry : String × Item}
    (h : (Table.keys (front ++ entry :: entries)).Nodup) : entry.1 ∉ Table.keys front := by
  intro hmem
  simp only [Table.keys, List.map_append, List.map_cons] at h hmem
  exact (List.nodup_append.1 h).2.2 _ hmem _ List.mem_cons_self rfl

/-- Lines under a header come out as the entries of its table. -/
theorem lines?_entries {entries : List (String × Document)} {front : Entries} {header : String}
    (below : Entries) (hheader : header ∉ Table.keys front) (hlines : Lines entries)
    (hdistinct : (Table.keys (below ++ entries.map itemOf)).Nodup)
    (hfuel : (entries.flatMap (fun e => (Settings.line e).toList) ++ rest).length < fuel) :
    ∃ fuel', rest.length < fuel' ∧
      lines? fuel ⟨front ++ [(header, .table .header below)], [header]⟩
          (entries.flatMap (fun e => (Settings.line e).toList) ++ rest) =
        lines? fuel' ⟨front ++ [(header, .table .header (below ++ entries.map itemOf))], [header]⟩
          rest := by
  induction entries generalizing below fuel with
  | nil => exact ⟨fuel, hfuel, by simp⟩
  | cons entry entries ih =>
    obtain ⟨hname, hvalue⟩ := hlines entry List.mem_cons_self
    have hfree : entry.1 ∉ Table.keys below := not_mem_keys_of_nodup hdistinct
    rw [List.flatMap_cons, List.append_assoc] at hfuel ⊢
    obtain ⟨fuel₁, hfuel₁, hline⟩ := lines?_line hname hvalue
      ⟨front ++ [(header, .table .header below)], [header]⟩ hfuel
    have hdistinct' : (Table.keys (below ++ [itemOf entry] ++ entries.map itemOf)).Nodup := by
      simpa using hdistinct
    obtain ⟨fuel₂, hfuel₂, hrest⟩ :=
      ih _ (fun e he => hlines e (List.mem_cons_of_mem _ he)) hdistinct' hfuel₁
    refine ⟨fuel₂, hfuel₂, ?_⟩
    rw [hline, insertAt_section hheader hfree, Option.bind_some]
    simpa [itemOf] using hrest

theorem toList_sectionText (p : String × List (String × Document)) :
    (Settings.sectionText p).toList = '\n' :: '[' :: (p.1.toList ++ ']' :: '\n' ::
      p.2.flatMap fun e => (Settings.line e).toList) := by
  simp [Settings.sectionText, String.toList_join, List.flatMap_map]

/-- Sections that can be written one after another. -/
def Sections (sections : List (String × List (String × Document))) : Prop :=
  ∀ p ∈ sections, BareName p.1 ∧ Lines p.2 ∧ (Table.keys p.2).Nodup

theorem keys_map_itemOf (entries : List (String × Document)) :
    Table.keys (entries.map itemOf) = Table.keys entries := by
  simp [Table.keys, itemOf]

/-- **Sections come out as tables.** -/
theorem lines?_sections {sections : List (String × List (String × Document))} {r : Reading}
    (hsections : Sections sections)
    (hdistinct : (Table.keys (r.entries ++ sections.map sectionItem)).Nodup)
    (hfuel : (sections.flatMap fun p => (Settings.sectionText p).toList).length < fuel) :
    (lines? fuel r (sections.flatMap fun p => (Settings.sectionText p).toList)).map
      Reading.entries = some (r.entries ++ sections.map sectionItem) := by
  induction sections generalizing r fuel with
  | nil =>
    obtain ⟨fuel, rfl⟩ := Nat.exists_eq_succ_of_ne_zero (Nat.ne_zero_of_lt hfuel)
    simp [lines?, skipBlanks]
  | cons p sections ih =>
    obtain ⟨hname, hlines, hentries⟩ := hsections p List.mem_cons_self
    have hfree : p.1 ∉ Table.keys r.entries := not_mem_keys_of_nodup hdistinct
    have hopen : openTable p.1 r.entries = some (r.entries ++ [(p.1, .table .header [])]) := by
      rw [openTable, Table.get?_eq_none_iff.2 hfree]
    have hdistinct' :
        (Table.keys (r.entries ++ [sectionItem p] ++ sections.map sectionItem)).Nodup := by
      simpa using hdistinct
    rw [List.flatMap_cons, toList_sectionText] at hfuel ⊢
    simp only [List.cons_append, List.append_assoc] at hfuel ⊢
    obtain ⟨fuel₁, hfuel₁, hheader⟩ := lines?_header hname r hfuel
    obtain ⟨fuel₂, hfuel₂, hread⟩ := lines?_entries [] hfree hlines
      (by simpa [keys_map_itemOf] using hentries) hfuel₁
    have hrest := ih (r := ⟨r.entries ++ [sectionItem p], [p.1]⟩)
      (fun q hq => hsections q (List.mem_cons_of_mem _ hq)) hdistinct' hfuel₂
    rw [hheader, hopen, Option.bind_some, hread]
    simpa [sectionItem] using hrest

theorem parse?_of_no_mark {text : String} (h : ∀ more, text.toList ≠ '\ufeff' :: more) :
    parse? text = (lines? (text.toList.length + 1) {} text.toList).map fun r =>
      Item.documents r.entries := by
  simp only [parse?]

/-- **A text is read as it was written:** one pair, and behind it sections, each with a header and
its pairs. -/
theorem parse?_sections {sections : List (String × List (String × Document))}
    (hname : BareName name) (hv : Writable v) (hsections : Sections sections)
    (hdistinct : (name :: Table.keys sections).Nodup) :
    parse? (Settings.line (name, v) ++ String.join (sections.map Settings.sectionText)) =
      some ((name, readBack v) :: sections.map fun p =>
        (p.1, .table (p.2.map fun e => (e.1, readBack e.2)))) := by
  have htext : (Settings.line (name, v) ++
      String.join (sections.map Settings.sectionText)).toList = (Settings.line (name, v)).toList ++
        sections.flatMap fun p => (Settings.sectionText p).toList := by
    simp [String.toList_join, List.flatMap_map]
  obtain ⟨fuel, hfuel, hline⟩ := lines?_line hname hv {} (Nat.lt_succ_self
    ((Settings.line (name, v)).toList ++
      sections.flatMap fun p => (Settings.sectionText p).toList).length)
  have hkeys : (Table.keys ([itemOf (name, v)] ++ sections.map sectionItem)).Nodup := by
    simpa [Table.keys, itemOf, sectionItem, Function.comp_def] using hdistinct
  have hread := lines?_sections (r := ⟨[itemOf (name, v)], []⟩) hsections hkeys hfuel
  have hmark : ∀ more, (Settings.line (name, v)).toList ++
      (sections.flatMap fun p => (Settings.sectionText p).toList) ≠ '\ufeff' :: more := by
    intro more he
    obtain ⟨c, cs, hcs, hc⟩ := hname.exists_cons
    rw [toList_line, hcs] at he
    exact absurd (List.cons.inj he).1 (ne_of_kind hc rfl)
  have hadd : insertAt [] [] name (readBack v) [] = some [itemOf (name, v)] := rfl
  rw [parse?_of_no_mark (by rwa [htext]), htext, hline, hadd, Option.bind_some]
  cases hlines : lines? fuel ⟨[itemOf (name, v)], []⟩
      (sections.flatMap fun p => (Settings.sectionText p).toList) with
  | none => simp [hlines] at hread
  | some r =>
    have hentries : r.entries = itemOf (name, v) :: sections.map sectionItem := by
      simpa [hlines] using hread
    simp [hentries, documents_eq, itemOf, sectionItem, Item.document]

end Toml

end ModuleGraph
