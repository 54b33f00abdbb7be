/-
# Cooked literals

A literal is cooked piece by piece: fragments as they are written, and a character for each
escape. If its value is a text, the cooked text is that value exactly if no escape is misread
(`cooked_eq_iff`).

At the first misread escape the two go apart for good, or the cooked text is behind by a
separator. It stays behind over all that is read well, though it may be other units that are
missing then (`exists_shift`), and so it never comes to agree again (`not_misread_of_behind`).

Key definitions: `Concrete.text`, `Pieces`.
Key theorems: `units_cookedPieces`, `not_misread_of_behind`, `cooked_eq_iff`.
-/
import Mathlib.Data.List.Perm.Basic
import ModuleGraph.Proofs.Escape

namespace ModuleGraph.Syntax

/-- The text of a piece of a literal. -/
def Concrete.text (piece : Concrete) : List Char := piece.label.lexeme.toList

/-- The pieces that a literal is cut into: fragments without a backslash or line feed, and
escapes, each read to its end. -/
inductive Pieces : List Concrete → Prop
  | nil : Pieces []
  | fragment {piece : Concrete} {pieces : List Concrete} (hkind : piece.kind = "string_fragment")
      (hescape : '\\' ∉ piece.text) (hline : '\n' ∉ piece.text) (h : Pieces pieces) :
      Pieces (piece :: pieces)
  | escape {piece : Concrete} {pieces : List Concrete} {body : List Char}
      (hkind : piece.kind = "escape_sequence") (htext : piece.text = '\\' :: body)
      (hbody : EscapeBody body) (hwhole : Whole body (pieces.flatMap Concrete.text))
      (h : Pieces pieces) : Pieces (piece :: pieces)

variable {piece : Concrete} {pieces : List Concrete} {body : List Char} {value skipped : List Nat}

theorem cookedPiece_fragment (h : piece.kind = "string_fragment") :
    cookedPiece piece = piece.text := if_pos h

theorem cookedPiece_escape (h : piece.kind = "escape_sequence")
    (htext : piece.text = '\\' :: body) : cookedPiece piece = cookedEscape ('\\' :: body) := by
  rw [cookedPiece, h, ← htext]
  rfl

/-- Text without backslashes is no escape. -/
theorem not_misread_of_not_mem {text : List Char} (h : '\\' ∉ text) : ¬ Misread text := by
  intro hmisread
  cases hmisread <;> exact h List.mem_cons_self

/-- No piece begins with a line feed. -/
theorem Pieces.head?_text (h : Pieces pieces) :
    (pieces.flatMap Concrete.text).head? ≠ some '\n' := by
  induction h with
  | nil => exact nofun
  | @fragment piece pieces _ _ hline _ ih =>
    rw [List.flatMap_cons, List.head?_append]
    cases htext : piece.text with
    | nil => exact ih
    | cons c text =>
      rintro ⟨⟩
      exact hline (htext ▸ List.mem_cons_self)
  | escape _ htext =>
    rw [List.flatMap_cons, htext]
    exact nofun

/-- **Pieces that are read well make the value.** -/
theorem units_cookedPieces (h : Pieces pieces)
    (hvalue : StringValue (pieces.flatMap Concrete.text) value)
    (hread : ∀ piece ∈ pieces, ¬ Misread piece.text) :
    units (pieces.flatMap cookedPiece) = value := by
  induction h generalizing value with
  | nil =>
    cases hvalue
    rfl
  | fragment hkind hescape _ _ ih =>
    rw [List.flatMap_cons] at hvalue
    obtain ⟨value', rfl, hrest⟩ := hvalue.of_append hescape
    rw [List.flatMap_cons, units_append, cookedPiece_fragment hkind,
      ih hrest fun p hp => hread p (List.mem_cons_of_mem _ hp)]
  | @escape piece pieces body hkind htext hbody hwhole hpieces ih =>
    rw [List.flatMap_cons, htext, List.cons_append] at hvalue
    obtain ⟨own, value', rfl, hrest, hown⟩ := hbody.isRead hwhole hpieces.head?_text hvalue
    have hnot : ¬ Misread ('\\' :: body) := htext ▸ hread piece List.mem_cons_self
    rw [List.flatMap_cons, units_append, cookedPiece_escape hkind htext,
      ih hrest fun p hp => hread p (List.mem_cons_of_mem _ hp)]
    cases hown with
    | right _ h => rw [h]
    | behind h => exact absurd h hnot
    | apart h => exact absurd h hnot

/-- What is missing in front of something is missing behind it. -/
theorem exists_shift {α : Type*} {own missing cooked value : List α}
    (h : own ++ cooked = missing ++ (own ++ value)) :
    ∃ missing', missing'.Perm missing ∧ cooked = missing' ++ value := by
  rw [← List.append_assoc] at h
  obtain ⟨front, hfront, hback⟩ | ⟨front, hfront, hback⟩ := List.append_eq_append_iff.1 h
  · refine ⟨front, ?_, hback⟩
    have hperm : (own ++ front).Perm (own ++ missing) := hfront ▸ List.perm_append_comm
    exact (List.perm_append_left_iff own).1 hperm
  · have hnil : missing = [] ∧ front = [] := by
      have := congrArg List.length hfront
      simp only [List.length_append] at this
      exact ⟨List.length_eq_zero_iff.1 (by omega), List.length_eq_zero_iff.1 (by omega)⟩
    obtain ⟨rfl, rfl⟩ := hnil
    exact ⟨[], .refl _, hback.symm⟩

/-- **A text that is behind stays behind.** What is cooked of the pieces comes after the skipped
separators only if there are none and no piece is misread. -/
theorem not_misread_of_behind (h : Pieces pieces)
    (hvalue : StringValue (pieces.flatMap Concrete.text) value)
    (hskipped : ∀ u ∈ skipped, u = 0x2028 ∨ u = 0x2029)
    (heq : units (pieces.flatMap cookedPiece) = skipped ++ value) :
    skipped = [] ∧ ∀ piece ∈ pieces, ¬ Misread piece.text := by
  induction h generalizing value skipped with
  | nil =>
    cases hvalue
    have hnil : skipped = [] := by simpa using heq.symm
    exact ⟨hnil, nofun⟩
  | @fragment piece pieces hkind hescape _ _ ih =>
    rw [List.flatMap_cons] at hvalue
    obtain ⟨value', rfl, hrest⟩ := hvalue.of_append hescape
    rw [List.flatMap_cons, units_append, cookedPiece_fragment hkind] at heq
    obtain ⟨skipped', hperm, heq'⟩ := exists_shift heq
    obtain ⟨rfl, hnot⟩ := ih hrest (fun u hu => hskipped u (hperm.mem_iff.1 hu)) heq'
    exact ⟨hperm.nil_eq.symm, List.forall_mem_cons.2 ⟨not_misread_of_not_mem hescape, hnot⟩⟩
  | @escape piece pieces body hkind htext hbody hwhole hpieces ih =>
    rw [List.flatMap_cons, htext, List.cons_append] at hvalue
    obtain ⟨own, value', rfl, hrest, hown⟩ := hbody.isRead hwhole hpieces.head?_text hvalue
    rw [List.flatMap_cons, units_append, cookedPiece_escape hkind htext] at heq
    cases hown with
    | right hnot h =>
      rw [← h] at heq
      obtain ⟨skipped', hperm, heq'⟩ := exists_shift heq
      obtain ⟨rfl, hnots⟩ := ih hrest (fun u hu => hskipped u (hperm.mem_iff.1 hu)) heq'
      exact ⟨hperm.nil_eq.symm, List.forall_mem_cons.2 ⟨htext ▸ hnot, hnots⟩⟩
    | behind _ hcooked hsep =>
      have hskipped' : ∀ u ∈ skipped ++ own, u = 0x2028 ∨ u = 0x2029 := by
        intro u hu
        rcases List.mem_append.1 hu with hu | hu
        · exact hskipped u hu
        · obtain rfl | rfl := hsep
          · exact .inl (List.mem_singleton.1 hu)
          · exact .inr (List.mem_singleton.1 hu)
      rw [hcooked, units_nil, List.nil_append, ← List.append_assoc] at heq
      obtain ⟨hnil, -⟩ := ih hrest hskipped' heq
      obtain rfl | rfl := hsep <;> simp at hnil
    | @apart u v us vs _ hcooked hstands hne hsmall =>
      rw [hcooked, hstands] at heq
      cases skipped with
      | nil => exact absurd (List.cons.inj heq).1 hne
      | cons w skipped =>
        have hsep := hskipped w List.mem_cons_self
        have : u = w := (List.cons.inj heq).1
        omega

/-- **The cooked text is the value exactly if no escape is misread.** -/
theorem cooked_eq_iff {children : List Concrete} {value : String}
    (h : Pieces (children.filter Concrete.named))
    (hvalue : StringValue ((children.filter Concrete.named).flatMap Concrete.text)
      (units value.toList)) :
    cooked children = value ↔ ∀ piece ∈ children.filter Concrete.named, ¬ Misread piece.text := by
  constructor
  · rintro rfl
    rw [cooked, String.toList_ofList] at hvalue
    have hskipped : ∀ u ∈ ([] : List Nat), u = 0x2028 ∨ u = 0x2029 := nofun
    exact (not_misread_of_behind h hvalue hskipped rfl).2
  · intro hread
    have hunits := units_cookedPieces h hvalue hread
    rw [cooked, units_injective hunits, String.ofList_toList]

/-! ### Two literals -/

/-- A named piece of a literal, at an offset. -/
def pieceAt (start : Nat) (kind lexeme : String) : Concrete :=
  .node { kind, start, stop := start + lexeme.utf8ByteSize, lexeme } []

/-- A quote around a literal, at an offset. -/
def quoteAt (start : Nat) : Concrete :=
  .node { kind := "'", named := false, start, stop := start + 1, lexeme := "'" } []

/-- A path whose slash and face are written as codes. -/
def faceLiteral : List Concrete :=
  [quoteAt 7, pieceAt 8 "string_fragment" ".", pieceAt 9 "escape_sequence" "\\x2f",
    pieceAt 13 "escape_sequence" "\\u\x7b1F600\x7d", quoteAt 22]

/-- The same face as a pair of codes, and one octal digit too many. -/
def pairLiteral : List Concrete :=
  [quoteAt 7, pieceAt 8 "escape_sequence" "\\ud83d", pieceAt 14 "escape_sequence" "\\ude00",
    pieceAt 20 "escape_sequence" "\\400", quoteAt 24]

/-- No piece of the path is misread. -/
theorem cooked_faceLiteral :
    Pieces (faceLiteral.filter Concrete.named) ∧
      StringValue ((faceLiteral.filter Concrete.named).flatMap Concrete.text)
        (units "./😀".toList) ∧
      ∀ piece ∈ faceLiteral.filter Concrete.named, ¬ Misread piece.text := by
  have hbraced : Pieces [pieceAt 13 "escape_sequence" "\\u\x7b1F600\x7d"] := by
    have htext : (pieceAt 13 "escape_sequence" "\\u\x7b1F600\x7d").text =
        '\\' :: 'u' :: '{' :: (['1', 'F', '6', '0', '0'] ++ ['}']) := by decide +kernel
    exact .escape rfl htext (.braced (by decide) (List.all_eq_true.1 (by decide))) nofun .nil
  have hbyte : Pieces [pieceAt 9 "escape_sequence" "\\x2f",
      pieceAt 13 "escape_sequence" "\\u\x7b1F600\x7d"] := by
    have htext : (pieceAt 9 "escape_sequence" "\\x2f").text = '\\' :: ['x', '2', 'f'] := by
      decide +kernel
    exact .escape rfl htext (.byte (List.all_eq_true.1 (by decide)))
      (fun h => absurd (h 'x' List.mem_cons_self) (by decide)) hbraced
  have hpieces : Pieces (faceLiteral.filter Concrete.named) :=
    .fragment rfl (by decide +kernel) (by decide +kernel) hbyte
  have hvalue : StringValue ((faceLiteral.filter Concrete.named).flatMap Concrete.text)
      (units "./😀".toList) := by
    rw [show (faceLiteral.filter Concrete.named).flatMap Concrete.text =
        ['.', '\\', 'x', '2', 'f', '\\', 'u', '{', '1', 'F', '6', '0', '0', '}'] by decide +kernel,
      show units "./😀".toList = codeUnits '.'.toNat ++ ([0x2f] ++ ([0xd83d, 0xde00] ++ [])) by
        decide +kernel]
    exact .char (by decide) (by decide) (.escape rfl (.escape rfl .nil))
  exact ⟨hpieces, hvalue, (cooked_eq_iff hpieces hvalue).1 (by decide +kernel)⟩

/-- **Two codes of a pair are left as they are written**, and three octal digits are taken for
one code. -/
theorem not_cooked_pairLiteral :
    Pieces (pairLiteral.filter Concrete.named) ∧
      StringValue ((pairLiteral.filter Concrete.named).flatMap Concrete.text)
        (units "😀 0".toList) ∧
      cooked pairLiteral ≠ "😀 0" := by
  have hoctal : Pieces [pieceAt 20 "escape_sequence" "\\400"] := by
    have htext : (pieceAt 20 "escape_sequence" "\\400").text = '\\' :: ['4', '0', '0'] := by
      decide +kernel
    exact .escape rfl htext (.octal (by decide) (by decide) (List.all_eq_true.1 (by decide))) nofun .nil
  have hback : Pieces [pieceAt 14 "escape_sequence" "\\ude00",
      pieceAt 20 "escape_sequence" "\\400"] := by
    have htext : (pieceAt 14 "escape_sequence" "\\ude00").text =
        '\\' :: ['u', 'd', 'e', '0', '0'] := by decide +kernel
    exact .escape rfl htext (.code (List.all_eq_true.1 (by decide)))
      (fun h => absurd (h 'u' List.mem_cons_self) (by decide)) hoctal
  have hfront : Pieces (pairLiteral.filter Concrete.named) := by
    have htext : (pieceAt 8 "escape_sequence" "\\ud83d").text =
        '\\' :: ['u', 'd', '8', '3', 'd'] := by decide +kernel
    exact .escape rfl htext (.code (List.all_eq_true.1 (by decide)))
      (fun h => absurd (h 'u' List.mem_cons_self) (by decide)) hback
  have hvalue : StringValue ((pairLiteral.filter Concrete.named).flatMap Concrete.text)
      (units "😀 0".toList) := by
    rw [show (pairLiteral.filter Concrete.named).flatMap Concrete.text =
        ['\\', 'u', 'd', '8', '3', 'd', '\\', 'u', 'd', 'e', '0', '0', '\\', '4', '0', '0']
        by decide +kernel,
      show units "😀 0".toList = [0xd83d] ++ ([0xde00] ++ ([0x20] ++ (codeUnits '0'.toNat ++ [])))
        by decide +kernel]
    exact .escape rfl (.escape rfl (.escape rfl (.char (by decide) (by decide) .nil)))
  exact ⟨hfront, hvalue, by decide +kernel⟩

end ModuleGraph.Syntax
