/-
# What options refuse

The options of parsing decide whether a tree is kept, never what it looks like: a text has the
lowered tree, or none. Without recovery it has none if the text is no program, or if an import
or export stands where the options forbid one (`Refused`): a script forbids all of them, and
unless they may stand anywhere, a module forbids those that the program does not hold itself.
With recovery every tree is kept.

So to switch something on (recovery, modules in place of scripts, declarations anywhere) never
takes a tree away (`options_filter`). This holds however the texts of a dialect are read
(`treeBy`).

Misplaced declarations are counted; there are none exactly if no declaration that is reached
through named nodes is forbidden (`misplaced_eq_zero_iff`).

Key definitions: `Reached`, `Options.Forbids`, `Refused`, `Options.Opens`.
Key theorems: `misplaced_eq_zero_iff`, `accepts_iff`, `treeBy_eq_some_iff`, `options_filter`.
-/
import ModuleGraph.Proofs.Parts

namespace ModuleGraph.Syntax

/-! ### Forbidden declarations -/

/-- A node is reached from a tree through named nodes and held by a node of some kind, where
the tree itself is held by one of kind `holder`, if by any. -/
inductive Reached : (holder : Option String) → Concrete → Option String → Concrete → Prop
  | self (holder : Option String) (tree : Concrete) : Reached holder tree holder tree
  | part {holder holder' : Option String} {tree part node : Concrete} (hpart : part ∈ tree.parts)
      (h : Reached (some tree.kind) part holder' node) : Reached holder tree holder' node

/-- An import or export must not stand within a node of kind `holder`. -/
def Options.Forbids (options : Options) (holder : Option String) : Prop :=
  options.sourceType = .script ∨
    options.allowImportExportEverywhere = false ∧ holder ≠ some "program"

/-- Somewhere in the tree stands an import or export that the options forbid. -/
def Refused (options : Options) (tree : Concrete) : Prop :=
  ∃ holder node, Reached none tree holder node ∧ node.kind ∈ linkageKinds ∧ options.Forbids holder

variable {options options' : Options} {holder : Option String}

theorem allowsWithin_iff : options.allowsWithin holder = true ↔ ¬ options.Forbids holder := by
  unfold Options.allowsWithin Options.Forbids
  cases options.sourceType <;> cases options.allowImportExportEverywhere <;> simp

/-- **The search misses nothing:** no declaration is counted as misplaced exactly if none that
is reached is forbidden. -/
theorem misplaced_eq_zero_iff (holder : Option String) (tree : Concrete) :
    misplaced options holder tree = 0 ↔
      ∀ holder' node, Reached holder tree holder' node → node.kind ∈ linkageKinds →
        ¬ options.Forbids holder' := by
  induction tree using Concrete.induction generalizing holder with
  | step tree ih =>
    have hself : (if linkageKinds.contains tree.kind && !options.allowsWithin holder then 1 else 0)
        = 0 ↔ (tree.kind ∈ linkageKinds → ¬ options.Forbids holder) := by
      rw [← allowsWithin_iff]
      cases options.allowsWithin holder <;> simp
    have hparts : (tree.parts.map (misplaced options (some tree.kind))).sum = 0 ↔
        ∀ part ∈ tree.parts, misplaced options (some tree.kind) part = 0 := by
      rw [List.sum_eq_zero_iff_forall_eq_nat, List.forall_mem_map]
    rw [misplaced_eq, Nat.add_eq_zero_iff, hself, hparts]
    constructor
    · rintro ⟨htree, hbelow⟩ holder' node hreached
      cases hreached with
      | self => exact htree
      | part hpart h => exact (ih _ hpart _).1 (hbelow _ hpart) _ _ h
    · intro h
      refine ⟨h _ _ (.self ..), fun part hpart => (ih part hpart _).2 fun holder' node hr => ?_⟩
      exact h _ _ (.part hpart hr)

theorem accepts_iff (parsed : Parse) :
    accepts options parsed = true ↔ options.errorRecovery = true ∨
      parsed.hasError = false ∧ ¬ Refused options parsed.root := by
  have hcount : misplaced options none parsed.root = 0 ↔ ¬ Refused options parsed.root := by
    rw [misplaced_eq_zero_iff]
    exact ⟨fun h ⟨holder, node, hr, hkind, hforbids⟩ => h holder node hr hkind hforbids,
      fun h holder node hr hkind hforbids => h ⟨holder, node, hr, hkind, hforbids⟩⟩
  simp only [accepts, Bool.or_eq_true, Bool.and_eq_true, Bool.not_eq_true', beq_iff_eq, hcount]

/-! ### Trees under options -/

/-- The second options are the first with something switched on. -/
structure Options.Opens (options options' : Options) : Prop where
  dialect : options'.dialect = options.dialect
  recovery : options.errorRecovery = true → options'.errorRecovery = true
  sourceType : options.sourceType = .module → options'.sourceType = .module
  everywhere : options.allowImportExportEverywhere = true →
    options'.allowImportExportEverywhere = true

/-- What the wider options forbid, the narrower ones forbid. -/
theorem Options.Opens.forbids (h : options.Opens options') (hforbids : options'.Forbids holder) :
    options.Forbids holder := by
  rcases hforbids with hscript | ⟨htop, hholder⟩
  · cases htype : options.sourceType with
    | script => exact .inl htype
    | module => rw [h.sourceType htype] at hscript; cases hscript
  · cases heverywhere : options.allowImportExportEverywhere with
    | false => exact .inr ⟨heverywhere, hholder⟩
    | true => rw [h.everywhere heverywhere] at htop; cases htop

/-- Wider options keep what narrower ones keep. -/
theorem Options.Opens.accepts (h : options.Opens options') {parsed : Parse}
    (haccepts : Syntax.accepts options parsed = true) : Syntax.accepts options' parsed = true := by
  rw [accepts_iff] at haccepts ⊢
  rcases haccepts with hrecovery | ⟨hclean, hnot⟩
  · exact .inl (h.recovery hrecovery)
  · refine .inr ⟨hclean, fun ⟨holder, node, hr, hkind, hforbids⟩ => ?_⟩
    exact hnot ⟨holder, node, hr, hkind, h.forbids hforbids⟩

variable {reader : Reader} {text : String} {tree : Json}

theorem lowered_eq_some_iff {parsed : Parse} : lowered options parsed = some tree ↔
    tree = lower parsed.root ∧ accepts options parsed = true := by
  unfold lowered
  cases accepts options parsed <;> simp [eq_comm]

theorem treeBy_eq_some_iff : treeBy reader options text = some tree ↔
    text ≠ "" ∧ tree = lower (reader options.dialect text).root ∧
      accepts options (reader options.dialect text) = true := by
  unfold treeBy
  by_cases hempty : text = ""
  · simp [hempty]
  · simp [hempty, lowered_eq_some_iff]

/-- **Options only filter:** a text has no other tree than the lowered one, which is the same
under all options of one dialect. It has that tree with recovery, and without recovery exactly
if there is no error and nothing that is reached stands where it is forbidden; an empty text
has none. Hence to switch something on takes no tree away and changes none. -/
theorem options_filter (reader : Dialect → String → Parse) (options : Options) (text : String) :
    (∀ tree, treeBy reader options text = some tree ↔ text ≠ "" ∧
      tree = lower (reader options.dialect text).root ∧
      (options.errorRecovery = true ∨ (reader options.dialect text).hasError = false ∧
        ¬ Refused options (reader options.dialect text).root)) ∧
    (∀ options', options.Opens options' → ∀ tree, treeBy reader options text = some tree →
      treeBy reader options' text = some tree) ∧
    treeBy parse options text = parseTree options text := by
  refine ⟨fun tree => ?_, fun options' hopens tree htree => ?_, rfl⟩
  · rw [treeBy_eq_some_iff, accepts_iff]
  · obtain ⟨htext, hlower, haccepts⟩ := treeBy_eq_some_iff.1 htree
    rw [treeBy_eq_some_iff, hopens.dialect]
    exact ⟨htext, hlower, hopens.accepts haccepts⟩

/-- An import within a block, with declarations only at the top and then anywhere. -/
example :
    let top : Options := { errorRecovery := false, allowImportExportEverywhere := false }
    let anywhere : Options := { top with allowImportExportEverywhere := true }
    (parseTree top "\x7bimport''\x7d").isNone = true ∧
      (parseTree anywhere "\x7bimport''\x7d").isSome = true := by
  decide +kernel

end ModuleGraph.Syntax
