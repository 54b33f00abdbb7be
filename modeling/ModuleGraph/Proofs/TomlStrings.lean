/-
# Strings, written and read again

A string is read as it was written (`Toml.string?_writeString`), in whichever of the notations
it was written: nothing that stands in it is taken for its end, and every escape is read as the
character that it was written for.

On several lines up to two quotes in a row stand for themselves, and the reader takes them in
one step, the three that close the string among them. So what is read from the middle of such a
string on is stated with the quotes that were passed last still to be read
(`linesRest?_escapedText`).

Key theorems: `Toml.escape?_escapedChar`, `Toml.lineRest?_escapedText`,
`Toml.linesRest?_escapedText`, `Toml.string?_writeString`.
-/
import ModuleGraph.Toml.Text

namespace ModuleGraph.Toml

variable {c quote : Char} {escapes lines : Bool} {fuel : Nat} {text cs rest escape : List Char}

/-! ### Escapes -/

theorem coded?_append (ds rest : List Char) :
    coded? ds.length (ds ++ rest) = ((Digit.number? 16 ds).bind Digit.char?).map (·, rest) := by
  simp [coded?]

/-- The code of a control character is read as the character. -/
theorem char?_hexDigits (h : c < ' ' ∨ c = '\x7f') :
    (Digit.number? 16 ['0', '0', hexDigit (c.toNat / 16), hexDigit (c.toNat % 16)]).bind
      Digit.char? = some c := by
  have hcodes : ∀ n < 128,
      (Digit.number? 16 ['0', '0', hexDigit (n / 16), hexDigit (n % 16)]).bind Digit.char? =
        some (Char.ofNat n) := by
    decide +kernel
  have hlt : c.toNat < 128 := by
    rcases h with h | rfl
    · have hcode : c.toNat < ' '.toNat := h
      have hspace : ' '.toNat = 32 := rfl
      omega
    · decide
  rw [hcodes _ hlt, Char.ofNat_toNat]

/-- Characters that are read as an escape for another, up to what follows them. -/
def Escapes (escape : List Char) (c : Char) : Prop :=
  ∃ e tail, escape = '\\' :: e :: tail ∧ (isBlank e || e == '\n' || e == '\r') = false ∧
    ∀ rest, escape? (e :: tail ++ rest) = some (c, rest)

/-- **An escape is read as the character that it was written for.** -/
theorem escapes_of_escapedChar? (h : escapedChar? lines c = some escape) : Escapes escape c := by
  have hletter {d e : Char} (hd : (c == d) = true) (hescape : some ['\\', e] = some escape)
      (he : (isBlank e || e == '\n' || e == '\r') = false)
      (hread : ∀ rest, escape? (e :: rest) = some (d, rest)) : Escapes escape c := by
    obtain rfl := Option.some.inj hescape
    exact ⟨e, [], rfl, he, fun rest => by simpa [beq_iff_eq.1 hd] using hread rest⟩
  unfold escapedChar? at h
  split at h
  · next hc => exact hletter hc h (by decide) fun _ => rfl
  split at h
  · next hc => exact hletter hc h (by decide) fun _ => rfl
  split at h
  · next hc =>
    split at h
    · cases h
    · exact hletter hc h (by decide) fun _ => rfl
  split at h
  · next hc => exact hletter hc h (by decide) fun _ => rfl
  split at h
  · next hc => exact hletter hc h (by decide) fun _ => rfl
  split at h
  · next hc => exact hletter hc h (by decide) fun _ => rfl
  split at h
  · next hc =>
    obtain rfl := Option.some.inj h
    refine ⟨'u', _, rfl, by decide, fun rest => ?_⟩
    have hcode := coded?_append
      ['0', '0', hexDigit (c.toNat / 16), hexDigit (c.toNat % 16)] rest
    rw [char?_hexDigits (by simpa using hc)] at hcode
    exact hcode
  · cases h

/-- What is not escaped can stand as it is. -/
theorem plain_of_escapedChar? (h : escapedChar? lines c = none) :
    c ≠ '\\' ∧ c ≠ '\r' ∧ (isPlain c = true ∨ c = '\n' ∧ lines = true) := by
  have hbackslash : c ≠ '\\' := by
    rintro rfl
    cases h
  have hreturn : c ≠ '\r' := by
    rintro rfl
    cases h
  refine ⟨hbackslash, hreturn, ?_⟩
  by_cases hnewline : c = '\n'
  · subst hnewline
    cases lines with
    | true => exact .inr ⟨rfl, rfl⟩
    | false => cases h
  · have hcontrol : ¬(c < ' ' ∨ c = '\x7f') := by
      intro hcontrol
      simp only [escapedChar?] at h
      grind
    obtain ⟨hspace, hdelete⟩ := not_or.1 hcontrol
    simp [isPlain, hdelete, Char.not_lt.1 hspace]

/-- **How a text between quotes goes on:** with a quote, if two in a row may stand and have not
yet, with an escape, or with a character that stands for itself. -/
theorem escapedText_cons (lines : Bool) (quotes : Nat) (c : Char) (cs : List Char) :
    (lines = true ∧ quotes < 2 ∧ c = '"' ∧
      escapedText lines quotes (c :: cs) = '"' :: escapedText lines (quotes + 1) cs) ∨
    (∃ escape, Escapes escape c ∧
      escapedText lines quotes (c :: cs) = escape ++ escapedText lines 0 cs) ∨
    (c ≠ '"' ∧ escapedChar? lines c = none ∧
      escapedText lines quotes (c :: cs) = c :: escapedText lines 0 cs) := by
  by_cases hc : c = '"'
  · subst hc
    by_cases hraw : lines = true ∧ quotes < 2
    · exact .inl ⟨hraw.1, hraw.2, rfl, by simp [escapedText, hraw]⟩
    · refine .inr (.inl ⟨['\\', '"'], ⟨'"', [], rfl, by decide, fun rest => rfl⟩, ?_⟩)
      simp only [escapedText, beq_self_eq_true, Bool.and_eq_true, decide_eq_true_eq, hraw,
        if_true, if_false, List.cons_append, List.nil_append]
  · right
    cases hescape : escapedChar? lines c with
    | some escape =>
      exact .inl ⟨escape, escapes_of_escapedChar? hescape, by simp [escapedText, hc, hescape]⟩
    | none => exact .inr ⟨hc, rfl, by simp [escapedText, hc, hescape]⟩

/-- What is no control character can stand as it is, also without escapes. -/
theorem plain_of_not_control (h : isControl c = false) :
    c ≠ '\r' ∧ (isPlain c = true ∨ c = '\n') := by
  have hreturn : c ≠ '\r' := by
    rintro rfl
    cases h
  refine ⟨hreturn, ?_⟩
  by_cases htab : c = '\t'
  · exact .inl (by simp [isPlain, htab])
  · by_cases hline : c = '\n'
    · exact .inr hline
    · left
      simpa [isControl, isPlain, htab, hline] using h

/-! ### Strings on one line -/

theorem lineRest?_quote : lineRest? quote escapes (fuel + 1) text (quote :: rest) =
    some (String.ofList text.reverse, rest) := by
  simp [lineRest?]

theorem lineRest?_plain (hquote : c ≠ quote) (hescape : c = '\\' → escapes = false)
    (hplain : isPlain c = true) : lineRest? quote escapes (fuel + 1) text (c :: rest) =
      lineRest? quote escapes fuel (c :: text) rest := by
  have hno : (c == '\\' && escapes) = false := by
    by_cases hc : c = '\\' <;> simp [hc, hescape]
  simp [lineRest?, hquote, hno, hplain]

theorem lineRest?_escape (h : Escapes escape c) :
    lineRest? '"' true (fuel + 1) text (escape ++ rest) =
      lineRest? '"' true fuel (c :: text) rest := by
  obtain ⟨e, tail, rfl, -, hread⟩ := h
  have hread' : escape? (e :: (tail ++ rest)) = some (c, rest) := hread rest
  simp [lineRest?, hread']

theorem length_lt_of_escapes (h : Escapes escape c) : rest.length < (escape ++ rest).length := by
  obtain ⟨e, tail, rfl, -, -⟩ := h
  simp
  omega

/-- A text with escapes is read up to the quote behind it. -/
theorem lineRest?_escapedText (rest cs text : List Char) {quotes fuel : Nat}
    (hfuel : (escapedText false quotes cs ++ '"' :: rest).length < fuel) :
    lineRest? '"' true fuel text (escapedText false quotes cs ++ '"' :: rest) =
      some (String.ofList (text.reverse ++ cs), rest) := by
  induction cs generalizing text quotes fuel with
  | nil =>
    obtain ⟨fuel, rfl⟩ := Nat.exists_eq_succ_of_ne_zero (Nat.ne_zero_of_lt hfuel)
    simpa [escapedText] using lineRest?_quote
  | cons c cs ih =>
    obtain ⟨fuel, rfl⟩ := Nat.exists_eq_succ_of_ne_zero (Nat.ne_zero_of_lt hfuel)
    have hread (hlength : (escapedText false 0 cs ++ '"' :: rest).length < fuel) :
        lineRest? '"' true fuel (c :: text) (escapedText false 0 cs ++ '"' :: rest) =
          some (String.ofList (text.reverse ++ c :: cs), rest) := by
      simpa using ih (c :: text) hlength
    rcases escapedText_cons false quotes c cs with
      ⟨hlines, -⟩ | ⟨escape, hescape, htext⟩ | ⟨hc, hnone, htext⟩
    · cases hlines
    · rw [htext, List.append_assoc] at hfuel ⊢
      rw [lineRest?_escape hescape]
      exact hread (Nat.lt_of_lt_of_le (length_lt_of_escapes hescape) (Nat.lt_succ_iff.1 hfuel))
    · rw [htext, List.cons_append] at hfuel ⊢
      obtain ⟨hbackslash, -, hplain | ⟨-, hlines⟩⟩ := plain_of_escapedChar? hnone
      · rw [lineRest?_plain hc (fun he => absurd he hbackslash) hplain]
        exact hread (Nat.lt_of_succ_lt_succ hfuel)
      · cases hlines

/-- A text without its quote or a control character is read as it is. -/
theorem lineRest?_literal (rest : List Char) (hcs : ∀ c ∈ cs, c ≠ quote ∧ isPlain c = true)
    (text : List Char) (hfuel : (cs ++ quote :: rest).length < fuel) :
    lineRest? quote false fuel text (cs ++ quote :: rest) =
      some (String.ofList (text.reverse ++ cs), rest) := by
  induction cs generalizing text fuel with
  | nil =>
    obtain ⟨fuel, rfl⟩ := Nat.exists_eq_succ_of_ne_zero (Nat.ne_zero_of_lt hfuel)
    simpa using lineRest?_quote
  | cons c cs ih =>
    obtain ⟨fuel, rfl⟩ := Nat.exists_eq_succ_of_ne_zero (Nat.ne_zero_of_lt hfuel)
    obtain ⟨hquote, hplain⟩ := hcs c List.mem_cons_self
    have hrest := ih (fun d hd => hcs d (List.mem_cons_of_mem _ hd)) (c :: text)
      (Nat.lt_of_succ_lt_succ hfuel)
    rw [List.cons_append, lineRest?_plain hquote (fun _ => rfl) hplain, hrest]
    simp

/-! ### Strings on several lines -/

theorem length_takeWhile_quotes (n : Nat) (h : rest.head? ≠ some quote) :
    ((List.replicate n quote ++ rest).takeWhile (· == quote)).length = n := by
  have hrest : rest.takeWhile (· == quote) = [] := by
    cases rest with
    | nil => rfl
    | cons c rest =>
      have hc : c ≠ quote := by simpa using h
      simp [hc]
  rw [List.takeWhile_append_of_pos (by simp), hrest]
  simp

/-- Three quotes close a text, behind at most two that belong to it. -/
theorem linesRest?_close {n : Nat} (hn : n ≤ 2) (hrest : rest.head? ≠ some quote) :
    linesRest? quote escapes (fuel + 1) text
        (List.replicate n quote ++ quote :: quote :: quote :: rest) =
      some (String.ofList (text.reverse ++ List.replicate n quote), rest) := by
  have hquotes : List.replicate n quote ++ quote :: quote :: quote :: rest =
      quote :: (List.replicate (n + 2) quote ++ rest) := by
    have hthree : quote :: quote :: quote :: rest = List.replicate 3 quote ++ rest := rfl
    rw [hthree, ← List.append_assoc, List.replicate_append_replicate]
    rfl
  have hcount : min 5 (1 + (n + 2)) = n + 3 := by omega
  rw [hquotes, linesRest?, if_pos (by simp), length_takeWhile_quotes _ hrest]
  simp [hcount]

/-- Up to two quotes are passed in one step. -/
theorem linesRest?_quotes {n : Nat} (hn : n ≤ 2) (hrest : rest.head? ≠ some quote)
    (hfuel : (List.replicate n quote ++ rest).length < fuel) :
    ∃ fuel', rest.length < fuel' ∧
      linesRest? quote escapes fuel text (List.replicate n quote ++ rest) =
        linesRest? quote escapes fuel' (List.replicate n quote ++ text) rest := by
  cases n with
  | zero => exact ⟨fuel, hfuel, rfl⟩
  | succ n =>
    obtain ⟨fuel, rfl⟩ := Nat.exists_eq_succ_of_ne_zero (Nat.ne_zero_of_lt hfuel)
    refine ⟨fuel, by simp at hfuel; omega, ?_⟩
    have hcount : min 5 (1 + n) = n + 1 := by omega
    have hfew : ¬3 ≤ n + 1 := by omega
    rw [List.replicate_succ, List.cons_append, linesRest?, if_pos (by simp),
      length_takeWhile_quotes _ hrest]
    simp only [hcount, hfew, if_false]
    simp [List.replicate_succ]

theorem newline?_eq_none (hline : rest.head? ≠ some '\n') (hreturn : rest.head? ≠ some '\r') :
    newline? rest = none := by
  unfold newline?
  split <;> simp_all

theorem linesRest?_escape (h : Escapes escape c) :
    linesRest? '"' true (fuel + 1) text (escape ++ rest) =
      linesRest? '"' true fuel (c :: text) rest := by
  obtain ⟨e, tail, rfl, he, hread⟩ := h
  have hread' : escape? (e :: (tail ++ rest)) = some (c, rest) := hread rest
  simp only [Bool.or_eq_false_iff, beq_eq_false_iff_ne] at he
  have hline : newline? (skipBlanks (e :: (tail ++ rest))) = none := by
    rw [skipBlanks, List.dropWhile_cons_of_neg (by simp [he.1.1])]
    exact newline?_eq_none (by simp [he.1.2]) (by simp [he.2])
  simp [linesRest?, hline, hread']

theorem linesRest?_plain (hquote : c ≠ quote) (hescape : c = '\\' → escapes = false)
    (hreturn : c ≠ '\r') (hplain : isPlain c = true ∨ c = '\n') :
    linesRest? quote escapes (fuel + 1) text (c :: rest) =
      linesRest? quote escapes fuel (c :: text) rest := by
  have hno : (c == '\\' && escapes) = false := by
    by_cases hc : c = '\\' <;> simp [hc, hescape]
  by_cases hline : c = '\n'
  · subst hline
    simp [linesRest?, hquote, newline?]
  · have hnone : newline? (c :: rest) = none :=
      newline?_eq_none (by simpa using hline) (by simpa using hreturn)
    simp [linesRest?, hquote, hno, hnone, hplain.resolve_right hline]

/-- A text with escapes on several lines is read up to the quotes behind it. -/
theorem linesRest?_escapedText (hrest : rest.head? ≠ some '"') (cs text : List Char)
    {quotes fuel : Nat} (hquotes : quotes ≤ 2)
    (hfuel : (List.replicate quotes '"' ++
      (escapedText true quotes cs ++ '"' :: '"' :: '"' :: rest)).length < fuel) :
    linesRest? '"' true fuel text (List.replicate quotes '"' ++
        (escapedText true quotes cs ++ '"' :: '"' :: '"' :: rest)) =
      some (String.ofList (text.reverse ++ List.replicate quotes '"' ++ cs), rest) := by
  induction cs generalizing text quotes fuel with
  | nil =>
    obtain ⟨fuel, rfl⟩ := Nat.exists_eq_succ_of_ne_zero (Nat.ne_zero_of_lt hfuel)
    simpa [escapedText] using linesRest?_close hquotes hrest
  | cons c cs ih =>
    have hread {fuel : Nat} (hlength : (escapedText true 0 cs ++ '"' :: '"' :: '"' :: rest).length <
        fuel) : linesRest? '"' true fuel (c :: (List.replicate quotes '"' ++ text))
          (escapedText true 0 cs ++ '"' :: '"' :: '"' :: rest) =
        some (String.ofList (text.reverse ++ List.replicate quotes '"' ++ c :: cs), rest) := by
      simpa using ih (c :: (List.replicate quotes '"' ++ text)) (Nat.zero_le 2) hlength
    rcases escapedText_cons true quotes c cs with
      ⟨-, hraw, rfl, htext⟩ | ⟨escape, hescape, htext⟩ | ⟨hc, hnone, htext⟩
    · have hmore : List.replicate quotes '"' ++ ('"' :: escapedText true (quotes + 1) cs ++
          '"' :: '"' :: '"' :: rest) = List.replicate (quotes + 1) '"' ++
          (escapedText true (quotes + 1) cs ++ '"' :: '"' :: '"' :: rest) := by
        simp [List.replicate_succ']
      rw [htext, hmore] at hfuel ⊢
      rw [ih text (by omega) hfuel]
      simp [List.replicate_succ']
    · rw [htext, List.append_assoc] at hfuel ⊢
      have hhead : (escape ++ (escapedText true 0 cs ++ '"' :: '"' :: '"' :: rest)).head? ≠
          some '"' := by
        obtain ⟨e, tail, rfl, -, -⟩ := hescape
        simp
      obtain ⟨fuel', hfuel', hstep⟩ := linesRest?_quotes hquotes hhead hfuel
      obtain ⟨fuel', rfl⟩ := Nat.exists_eq_succ_of_ne_zero (Nat.ne_zero_of_lt hfuel')
      rw [hstep, linesRest?_escape hescape]
      exact hread (Nat.lt_of_lt_of_le (length_lt_of_escapes hescape) (Nat.lt_succ_iff.1 hfuel'))
    · rw [htext, List.cons_append] at hfuel ⊢
      obtain ⟨hbackslash, hreturn, hplain⟩ := plain_of_escapedChar? hnone
      obtain ⟨fuel', hfuel', hstep⟩ := linesRest?_quotes hquotes (by simpa using hc) hfuel
      obtain ⟨fuel', rfl⟩ := Nat.exists_eq_succ_of_ne_zero (Nat.ne_zero_of_lt hfuel')
      rw [hstep, linesRest?_plain hc (fun he => absurd he hbackslash) hreturn
        (hplain.imp_right And.left)]
      exact hread (Nat.lt_of_succ_lt_succ hfuel')

/-- A text without control characters or three quotes in a row is read as it is. -/
theorem linesRest?_literal (hrest : rest.head? ≠ some quote) (hcs : ∀ c ∈ cs, isControl c = false)
    (text : List Char) {quotes : Nat} (hruns : longestRun quote quotes cs ≤ 2)
    (hfuel : (List.replicate quotes quote ++ (cs ++ quote :: quote :: quote :: rest)).length <
      fuel) :
    linesRest? quote false fuel text
        (List.replicate quotes quote ++ (cs ++ quote :: quote :: quote :: rest)) =
      some (String.ofList (text.reverse ++ List.replicate quotes quote ++ cs), rest) := by
  induction cs generalizing text quotes fuel with
  | nil =>
    obtain ⟨fuel, rfl⟩ := Nat.exists_eq_succ_of_ne_zero (Nat.ne_zero_of_lt hfuel)
    have hquotes : quotes ≤ 2 := hruns
    simpa using linesRest?_close hquotes hrest
  | cons c cs ih =>
    have hcs' : ∀ d ∈ cs, isControl d = false := fun d hd => hcs d (List.mem_cons_of_mem _ hd)
    by_cases hc : c = quote
    · subst hc
      have hmore : List.replicate quotes c ++ (c :: cs ++ c :: c :: c :: rest) =
          List.replicate (quotes + 1) c ++ (cs ++ c :: c :: c :: rest) := by
        simp [List.replicate_succ']
      have hruns' : longestRun c (quotes + 1) cs ≤ 2 := by simpa [longestRun] using hruns
      rw [hmore] at hfuel ⊢
      rw [ih hcs' text hruns' hfuel]
      simp [List.replicate_succ']
    · obtain ⟨hquotes, hruns'⟩ : quotes ≤ 2 ∧ longestRun quote 0 cs ≤ 2 := by
        simpa [longestRun, hc, Nat.max_le] using hruns
      obtain ⟨fuel', hfuel', hstep⟩ := linesRest?_quotes hquotes (by simpa using hc) hfuel
      obtain ⟨fuel', rfl⟩ := Nat.exists_eq_succ_of_ne_zero (Nat.ne_zero_of_lt hfuel')
      obtain ⟨hreturn, hplain⟩ := plain_of_not_control (hcs c List.mem_cons_self)
      rw [hstep, List.cons_append, linesRest?_plain hc (fun _ => rfl) hreturn hplain]
      simpa using ih hcs' (c :: (List.replicate quotes quote ++ text)) hruns'
        (Nat.lt_of_succ_lt_succ hfuel')

/-! ### Strings in any notation -/

/-- What follows a string: it does not go on with a quote. -/
def Apart (rest : List Char) : Prop := rest.head? ≠ some '"' ∧ rest.head? ≠ some '\''

theorem string?_of_not_tripled (h : ∀ more, rest ≠ quote :: quote :: more) :
    string? (quote :: rest) = lineString? (quote :: rest) := by
  unfold string?
  split
  · next he =>
    obtain ⟨rfl, rfl⟩ := List.cons.inj he
    exact absurd rfl (h _)
  · next he =>
    obtain ⟨rfl, rfl⟩ := List.cons.inj he
    exact absurd rfl (h _)
  · rfl

/-- Two quotes at the beginning are all of an empty string. -/
theorem not_tripled (hrest : rest.head? ≠ some quote) (hcs : cs.head? ≠ some quote)
    (more : List Char) : cs ++ quote :: rest ≠ quote :: quote :: more := by
  cases cs with
  | nil =>
    intro he
    simp [(List.cons.inj he).2] at hrest
  | cons c cs =>
    intro he
    simp [(List.cons.inj he).1] at hcs

theorem head?_escapedText (cs : List Char) : (escapedText false 0 cs).head? ≠ some '"' := by
  cases cs with
  | nil => simp [escapedText]
  | cons c cs =>
    rcases escapedText_cons false 0 c cs with
      ⟨hlines, -⟩ | ⟨_, ⟨e, tail, rfl, -, -⟩, htext⟩ | ⟨hc, -, htext⟩
    · cases hlines
    · simp [htext]
    · simpa [htext] using hc

theorem string?_basic (h : Apart rest) (cs : List Char) :
    string? (quotedText cs .basic ++ rest) = some (String.ofList cs, rest) := by
  have htext : quotedText cs .basic ++ rest = '"' :: (escapedText false 0 cs ++ '"' :: rest) :=
    List.append_assoc ..
  rw [htext, string?_of_not_tripled (not_tripled h.1 (head?_escapedText cs)), lineString?]
  simpa using lineRest?_escapedText rest cs [] (Nat.lt_succ_self _)

theorem string?_literal (h : Apart rest) (hcs : ∀ c ∈ cs, c ≠ '\'' ∧ isPlain c = true) :
    string? (quotedText cs .literal ++ rest) = some (String.ofList cs, rest) := by
  have htext : quotedText cs .literal ++ rest = '\'' :: (cs ++ '\'' :: rest) :=
    List.append_assoc ..
  have hhead : cs.head? ≠ some '\'' := fun he => (hcs _ (List.mem_of_mem_head? he)).1 rfl
  rw [htext, string?_of_not_tripled (not_tripled h.2 hhead), lineString?]
  simpa using lineRest?_literal rest hcs [] (Nat.lt_succ_self _)

/-- A line end right behind the quotes is written in front of a text on several lines, so that
none of its own is lost. -/
theorem linesString?_opening {body : List Char} (h : '\n' ∉ cs → newline? body = none) :
    linesString? quote (opening cs ++ body) =
      linesRest? quote (quote == '"') (body.length + 1) [] body := by
  unfold linesString? opening
  by_cases hline : '\n' ∈ cs
  · simp [hline, newline?]
  · simp [hline, h hline]

theorem string?_basicLines (h : Apart rest) (cs : List Char) :
    string? (quotedText cs .basicLines ++ rest) = some (String.ofList cs, rest) := by
  have htext : quotedText cs .basicLines ++ rest = '"' :: '"' :: '"' ::
      (opening cs ++ (escapedText true 0 cs ++ '"' :: '"' :: '"' :: rest)) := by
    unfold quotedText
    simp only [List.append_assoc]
    rfl
  have hopening (hline : '\n' ∉ cs) :
      newline? (escapedText true 0 cs ++ '"' :: '"' :: '"' :: rest) = none := by
    cases cs with
    | nil => rfl
    | cons c cs =>
      rcases escapedText_cons true 0 c cs with
        ⟨-, -, -, htext⟩ | ⟨_, ⟨e, tail, rfl, -, -⟩, htext⟩ | ⟨-, hnone, htext⟩
      · simp [htext, newline?]
      · simp [htext, newline?]
      · have hreturn := (plain_of_escapedChar? hnone).2.1
        have hne : c ≠ '\n' := fun he => hline (he ▸ List.mem_cons_self)
        exact newline?_eq_none (by simpa [htext] using hne) (by simpa [htext] using hreturn)
  have hread := linesRest?_escapedText h.1 cs [] (Nat.zero_le 2) (Nat.lt_succ_self _)
  rw [htext, string?, linesString?_opening hopening]
  simpa using hread

theorem string?_literalLines (h : Apart rest) (hcs : ∀ c ∈ cs, isControl c = false)
    (hruns : longestRun '\'' 0 cs ≤ 2) :
    string? (quotedText cs .literalLines ++ rest) = some (String.ofList cs, rest) := by
  have htext : quotedText cs .literalLines ++ rest = '\'' :: '\'' :: '\'' ::
      (opening cs ++ (cs ++ '\'' :: '\'' :: '\'' :: rest)) := by
    unfold quotedText
    simp only [List.append_assoc]
    rfl
  have hopening (hline : '\n' ∉ cs) : newline? (cs ++ '\'' :: '\'' :: '\'' :: rest) = none := by
    cases cs with
    | nil => rfl
    | cons c cs =>
      have hreturn := (plain_of_not_control (hcs c List.mem_cons_self)).1
      have hne : c ≠ '\n' := fun he => hline (he ▸ List.mem_cons_self)
      exact newline?_eq_none (by simpa using hne) (by simpa using hreturn)
  have hread := linesRest?_literal h.2 hcs [] hruns (Nat.lt_succ_self _)
  rw [htext, string?, linesString?_opening hopening]
  simpa using hread

theorem of_styleOf_literal (h : styleOf cs = .literal) : ∀ c ∈ cs, c ≠ '\'' ∧ isPlain c = true := by
  have hcs : cs.any isControl = false ∧ '\'' ∉ cs ∧ '\n' ∉ cs := by
    simp only [styleOf] at h
    split at h
    · cases h
    split at h
    · next hliteral => simpa [and_assoc] using hliteral
    · (repeat' split at h) <;> cases h
  intro c hc
  have hcontrol : isControl c = false := by
    simpa using List.any_eq_false.1 hcs.1 c hc
  have hline : c ≠ '\n' := fun he => hcs.2.2 (he ▸ hc)
  exact ⟨fun he => hcs.2.1 (he ▸ hc), (plain_of_not_control hcontrol).2.resolve_right hline⟩

theorem of_styleOf_literalLines (h : styleOf cs = .literalLines) :
    (∀ c ∈ cs, isControl c = false) ∧ longestRun '\'' 0 cs ≤ 2 := by
  simp only [styleOf] at h
  split at h
  · cases h
  split at h
  · cases h
  split at h
  · cases h
  split at h
  · next hliteral => simpa using hliteral
  · split at h <;> cases h

/-- **A string is read as it was written,** in the notation that was chosen for it. -/
theorem string?_quotedText (h : Apart rest) (cs : List Char) :
    string? (quotedText cs (styleOf cs) ++ rest) = some (String.ofList cs, rest) := by
  cases hstyle : styleOf cs with
  | basic => exact string?_basic h cs
  | literal => exact string?_literal h (of_styleOf_literal hstyle)
  | basicLines => exact string?_basicLines h cs
  | literalLines =>
    obtain ⟨hcs, hruns⟩ := of_styleOf_literalLines hstyle
    exact string?_literalLines h hcs hruns

end ModuleGraph.Toml
