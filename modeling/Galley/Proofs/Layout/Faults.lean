import Galley.Proofs.Layout.Composition
import Galley.Proofs.Layout.Rendering

/-!
# Faults of renderings

Whatever characters the strings of a tree hold, only looking up held code can stop a
rendering: a text may spell a placeholder whose index belongs to no code, or is too long
to be read.  Without NUL no text does.
-/

namespace Galley
namespace Layout

open Text

/-- Faults of looking up held code. -/
def HeldFault (fault : Fault) : Prop :=
  fault = .outOfRange ∨ ∃ digits, fault = .value (.longNumeral digits)

/-- From no workspace is a computation stopped but by looking up held code. -/
def Safe (action : Render α) : Prop :=
  ∀ workspace, Meets action workspace HeldFault fun _ _ => True

namespace Safe

variable {α β : Type}

theorem pure (value : α) : Safe (Pure.pure value) :=
  fun _ => Meets.give trivial

theorem bind {action : Render α} {next : α → Render β} (first : Safe action)
    (second : ∀ value, Safe (next value)) : Safe (action >>= next) :=
  fun workspace => Meets.bind (first workspace) fun value after _ => second value after

theorem modify (update : Workspace → Workspace) : Safe (modify update) :=
  fun _ => Meets.change trivial

theorem report (event : LogEvent) : Safe (report event) :=
  modify _

theorem hold (code : List Char) : Safe (hold code) :=
  fun _ => Meets.read (Meets.write (Meets.give trivial))

end Safe

theorem heldFault_of_heldAt {held : List (List Char)} {digits : List Char} {fault : Fault}
    (stopped : heldAt held digits = .error fault) : HeldFault fault := by
  unfold heldAt at stopped
  split at stopped
  · exact Or.inr ⟨_, (Except.error.inj stopped).symm⟩
  · split at stopped
    · cases stopped
    · exact Or.inl (Except.error.inj stopped).symm

theorem heldFault_of_assemble {options : Options} {held : List (List Char)} {indent : Nat}
    {wraps : Bool} {assembly : Assembly} {others : List (List Char × List Char)} {fault : Fault}
    (stopped : assemble options held indent wraps assembly others = .error fault) :
    HeldFault fault := by
  induction others generalizing assembly with
  | nil => cases stopped
  | cons entry rest inductionHypothesis =>
      obtain ⟨digits, piece⟩ := entry
      rw [assemble] at stopped
      cases read : heldAt held digits with
      | error other =>
          rw [read] at stopped
          obtain rfl := Except.error.inj stopped
          exact heldFault_of_heldAt read
      | ok code =>
          rw [read] at stopped
          exact inductionHypothesis stopped

/-- Laying out span text is safe. -/
theorem safe_flush (setting : Setting) (indent : Nat) (wraps : Bool) (text : List Char) :
    Safe (flush setting indent wraps text) := by
  intro workspace
  unfold flush
  refine Meets.read (Meets.lift (fun _ _ => trivial) fun fault stopped => ?_)
  rw [layoutSpan] at stopped
  dsimp only at stopped
  cases assembled : assemble setting.options workspace.held indent wraps
      (Assembly.addPiece setting.options indent wraps {} (splitHeld text).1) (splitHeld text).2 with
  | error other =>
      rw [assembled] at stopped
      obtain rfl := Except.error.inj stopped
      exact heldFault_of_assemble assembled
  | ok assembly =>
      rw [assembled] at stopped
      cases stopped

theorem safe_substitute (table : List (String × String)) (key : String)
    (unknown : String → LogEvent) : Safe (substitute table key unknown) := by
  unfold substitute
  split
  · exact Safe.pure _
  · exact (Safe.report _).bind fun _ => Safe.pure _

theorem safe_referenceText (setting : Setting) (node : Node) (place : Place) :
    Safe (referenceText setting node place) := by
  unfold referenceText
  split
  · exact (Safe.report _).bind fun _ => Safe.pure _
  · rename_i numbered _
    dsimp only
    cases (numbered.lookUp place node.payload.content).2 with
    | none => exact Safe.pure _
    | some event => exact (Safe.report _).bind fun _ => Safe.pure _

theorem safe_linkText {node : Node} (attributes : node.TextAttributes) (setting : Setting) :
    Safe (linkText setting node) := by
  rw [linkText_eq attributes]
  exact Safe.pure _

theorem safe_imageText {node : Node} (attributes : node.TextAttributes) (setting : Setting) :
    Safe (imageText setting node) := by
  rw [imageText_eq attributes]
  exact Safe.pure _

theorem safe_leafText {node : Node} (attributes : node.TextAttributes) (setting : Setting)
    (place : Place) (indent : Nat) : Safe (leafText setting node place indent) := by
  unfold leafText
  split <;> first
    | exact Safe.pure _
    | exact safe_substitute _ _ _
    | exact safe_referenceText _ _ _
    | exact safe_linkText attributes _
    | exact safe_imageText attributes _

/-! ## The conversion -/

section Conversion

variable {setting : Setting}

/-- The conversion of a node is safe at every place. -/
def SafeNode (setting : Setting) (node : Node) : Prop :=
  ∀ place indent, Safe (convert setting node place indent)

/-- The steps of a conversion are safe at nodes of known kinds whose attributes are
texts. -/
theorem safe_steps {separator : String}
    (flattens : setting.options.nesting = .flatten)
    (separated : setting.options.cellSeparator = some separator) :
    Compositional setting (fun inner => inner.kind.isKnown = true ∧ inner.TextAttributes)
      fun {_} action => Safe action where
  give := Safe.pure
  bind first second := first.bind second
  hold := Safe.hold
  flush := safe_flush setting
  leaf proper := safe_leafText proper.2 setting
  unknown proper unknown := by rw [proper.1] at unknown; cases unknown
  separator missing := by rw [separated] at missing; cases missing
  reject _ _ _ _ rejects := by rw [flattens] at rejects; cases rejects
  flatten _ _ _ _ _ := Safe.report _

/-- A tree of known kinds whose attributes are texts is converted safely, whatever its
strings hold. -/
theorem safe_convert {separator : String}
    (flattens : setting.options.nesting = .flatten)
    (separated : setting.options.cellSeparator = some separator)
    (node : Node)
    (proper : node.Everywhere fun inner => inner.kind.isKnown = true ∧ inner.TextAttributes) :
    SafeNode setting node :=
  (safe_steps flattens separated).convert node proper

end Conversion

/-- Whatever characters the strings of a tree hold, a rendering is stopped by nothing
but looking up held code; and where no string holds NUL it gives a text, unless more
code is held than the longest numerals can count. -/
theorem renderTree_returns
    {options : Options} {separator : String} {tree : Node}
    (numberable : tree.Everywhere Numbering.Numberable)
    (attributes : tree.Everywhere Node.TextAttributes)
    (separated : options.cellSeparator = some separator)
    (flattens : options.nesting = .flatten) :
    (∀ fault, (renderTree options tree).1 = .error fault → HeldFault fault) ∧
      (tree.Everywhere Node.NulFree → NulFree separator.toList →
        tree.codeCount ≤ 10 ^ numeralLimit → ∃ text, (renderTree options tree).1 = .ok text) := by
  obtain ⟨numbered, returned⟩ := Numbering.resolve_ok numberable
  obtain ⟨stands, -⟩ := Numbering.resolve_keeps returned
  have proper := stands.everywhere attributes fun _ _ annotates => known_annotated annotates
  have safely : Meets (render options tree) {} HeldFault fun _ _ => True :=
    render_meets returned (proper.imp fun _ each => each.1) fun log =>
      safe_convert flattens separated numbered.tree proper Place.root 0 _
  refine ⟨fun fault stopped => ?_, fun plain separatorPlain few => ?_⟩
  · have held := renderTree_of_meets safely
    rw [stopped] at held
    exact held
  · have plainly : FlattensPlainly options tree := by
      refine FlattensPlainly.of_nulFree fun other found => ?_
      rw [separated] at found
      cases found
      exact separatorPlain
    have full := renderTree_of_meets (render_flat returned separated plainly plain
      attributes (fun absurdly : False => absurdly.elim) fun absurdly => absurdly.elim)
    cases ended : (renderTree options tree).1 with
    | ok text => exact ⟨text, rfl⟩
    | error fault =>
        rw [ended] at full
        exact absurd (full.overfull flattens).1 (Nat.not_lt.mpr few)

/-- The note of a word and a command is rendered. -/
theorem renderTree_returns_commandNote :
    ∃ text, (renderTree { ruleWidth := 3 } commandNote).1 = .ok text := by
  have separated : ({ ruleWidth := 3 } : Options).cellSeparator = some " | " := rfl
  have numberable : commandNote.Everywhere Numbering.Numberable := by
    refine note_everywhere ⟨rfl, nofun, nofun⟩ ⟨rfl, nofun, nofun⟩ (by simp) ?_
    exact List.forall_mem_cons.mpr ⟨⟨rfl, nofun, nofun⟩,
      List.forall_mem_cons.mpr ⟨⟨rfl, nofun, nofun⟩, nofun⟩⟩
  have few : commandNote.codeCount ≤ 10 ^ numeralLimit :=
    Nat.one_le_pow _ _ (by decide)
  exact (renderTree_returns numberable commandNote_textAttributes separated rfl).2
    commandNote_nulFree (by decide) few

/-- A text that spells a placeholder, although no code is held. -/
def placeholderNote : Node :=
  note [{ kind := .text, payload := .text "\x000\x00" }]

/-- A text that spells a placeholder stops the rendering of a proper tree. -/
theorem renderTree_placeholderNote :
    placeholderNote.Everywhere Numbering.Numberable ∧
      placeholderNote.Everywhere Node.TextAttributes ∧
      (renderTree {} placeholderNote).1 = .error .outOfRange := by
  refine ⟨note_everywhere ⟨rfl, nofun, nofun⟩ ⟨rfl, nofun, nofun⟩ (by simp) ?_,
    note_everywhere (textAttributes_bare rfl) (textAttributes_bare rfl) (by simp) ?_, rfl⟩
  · exact List.forall_mem_cons.mpr ⟨⟨rfl, nofun, nofun⟩, nofun⟩
  · exact List.forall_mem_cons.mpr ⟨textAttributes_bare rfl, nofun⟩

end Layout
end Galley
