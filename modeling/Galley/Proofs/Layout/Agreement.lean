import Galley.Proofs.Layout.Faults
import Galley.Proofs.Layout.Policies

/-!
# The policies agree

What may stop a rendering under the lax policy is known, and none of it is a refusal of
the tree.  So the strict policy refuses a tree exactly where the lax one reports a
flattening, for the block that is reported first, and otherwise both renderings are one
and the same.
-/

namespace Galley
namespace Layout

open Text

/-! ## What stops a lax conversion -/

/-- Faults that may stop a conversion that flattens blocks in spans. -/
inductive ConversionFault : Fault → Prop
  /-- There is no rule for the kind of a node. -/
  | unknownKind (shown : String) : ConversionFault (.failure (.noConversion shown))
  /-- The value of an attribute is no text. -/
  | attribute : ConversionFault .wrongType
  /-- The separator of cells is no text. -/
  | separator : ConversionFault .noField
  /-- Held code cannot be looked up. -/
  | held {fault : Fault} : HeldFault fault → ConversionFault fault

/-- None of these refuses the tree. -/
theorem ConversionFault.not_isRefusal {fault : Fault} (stops : ConversionFault fault) :
    ¬ IsRefusal fault := by
  rintro ⟨report, rfl, refused⟩
  cases stops with
  | unknownKind shown => cases refused
  | held lookUp => rcases lookUp with stopped | ⟨digits, stopped⟩ <;> cases stopped

/-- From no workspace is a computation stopped by any other fault. -/
def Lenient (action : Render α) : Prop :=
  ∀ workspace, Meets action workspace ConversionFault fun _ _ => True

namespace Lenient

variable {α β : Type}

theorem of_safe {action : Render α} (safe : Safe action) : Lenient action :=
  fun workspace => (safe workspace).mono (fun _ => .held) fun _ _ _ => trivial

theorem pure (value : α) : Lenient (Pure.pure value) :=
  of_safe (Safe.pure value)

theorem stop {fault : Fault} (stops : ConversionFault fault) : Lenient (throw fault : Render α) :=
  fun _ => Meets.stop stops

theorem bind {action : Render α} {next : α → Render β} (first : Lenient action)
    (second : ∀ value, Lenient (next value)) : Lenient (action >>= next) :=
  fun workspace => Meets.bind (first workspace) fun value after _ => second value after

end Lenient

section Conversions

variable {setting : Setting}

theorem lenient_attributeText (value : Datum) : Lenient (attributeText setting value) := by
  unfold attributeText
  split
  · exact Lenient.pure _
  · split
    · exact Lenient.pure _
    · exact Lenient.stop .attribute

theorem lenient_leafText (node : Node) (place : Place) (indent : Nat) :
    Lenient (leafText setting node place indent) := by
  have link : Lenient (linkText setting node) := by
    unfold linkText
    split
    · split
      · exact Lenient.pure _
      · exact lenient_attributeText _
    · exact lenient_attributeText _
  have image : Lenient (imageText setting node) := lenient_attributeText _
  unfold leafText
  split <;> first
    | exact Lenient.pure _
    | exact link
    | exact image
    | exact Lenient.of_safe (safe_substitute _ _ _)
    | exact Lenient.of_safe (safe_referenceText _ _ _)

/-- The conversion of a node is lenient at every place. -/
def LenientNode (setting : Setting) (node : Node) : Prop :=
  ∀ place indent, Lenient (convert setting node place indent)

/-- The steps of a conversion are lenient where the strict policy finds no block in a
span. -/
theorem lenient_steps (setting : Setting) :
    Compositional setting
      (fun node => setting.options.nesting = .reject → isFormatting node.kind = true →
        ∀ child ∈ node.children, child.isBlock = false)
      fun {_} action => Lenient action where
  give := Lenient.pure
  bind first second := first.bind second
  hold code := Lenient.of_safe (Safe.hold code)
  flush indent wraps text := Lenient.of_safe (safe_flush setting indent wraps text)
  leaf _ := lenient_leafText _
  unknown _ _ := Lenient.stop (.unknownKind _)
  separator _ := Lenient.stop .separator
  reject := by
    intro node child spans formatting member block rejects
    rw [spans rejects formatting child member] at block
    cases block
  flatten _ _ _ _ _ := Lenient.of_safe (Safe.report _)

/-- Whatever tree is converted under the lax policy, only faults of conversions stop
it. -/
theorem lenient_convert (flattens : setting.options.nesting = .flatten) (node : Node) :
    LenientNode setting node := by
  refine (lenient_steps setting).convert node fun inner _ rejects => ?_
  rw [flattens] at rejects
  cases rejects

end Conversions

/-! ## Renderings under both policies -/

section Renderings

variable {options : Options} {tree : Node} {numbered : Numbering.Numbered}

/-- A numbered tree is never refused under the lax policy. -/
theorem not_isRefusal_of_flatten (returned : (Numbering.resolve tree).1 = .ok numbered)
    (flattens : options.nesting = .flatten) {fault : Fault}
    (stopped : (renderTree options tree).1 = .error fault) : ¬ IsRefusal fault := by
  have meets : Meets (render options tree) {} ConversionFault fun _ _ => True :=
    render_meets returned (known_numbered returned) fun log =>
      lenient_convert flattens numbered.tree Place.root 0 { held := [], log := log }
  have ended := renderTree_of_meets meets
  rw [stopped] at ended
  exact ended.not_isRefusal

theorem mem_flattenings {log : Log} {outer inner : Kind} :
    (outer, inner) ∈ flattenings log ↔ LogEvent.blockFlattened outer inner ∈ log := by
  unfold flattenings
  rw [List.mem_filterMap]
  constructor
  · rintro ⟨event, present, flattened⟩
    cases event with
    | blockFlattened outer' inner' =>
        cases flattened
        exact present
    | _ => cases flattened
  · exact fun present => ⟨_, present, rfl⟩

/-- The policies agree: the strict one refuses a tree exactly if the lax one reports a
flattening, and then for the block that is reported first; otherwise both do the same
and report the same.  Without NUL, in a tree whose attributes are texts and with some
text between cells, both then give a text, unless more code is held than the longest
numerals can count. -/
theorem renderTree_policies (returned : (Numbering.resolve tree).1 = .ok numbered) :
    let lax := renderTree (options.withNesting .flatten) tree
    let strict := renderTree (options.withNesting .reject) tree
    ((∃ fault, strict.1 = .error fault ∧ IsRefusal fault) ↔
        ∃ outer inner, LogEvent.blockFlattened outer inner ∈ lax.2) ∧
      (∀ outer inner, (flattenings lax.2).head? = some (outer, inner) →
        ∃ report, strict.1 = .error (.failure report) ∧
          report.detail = .malformedTree (some inner.name)) ∧
      ((∀ outer inner, LogEvent.blockFlattened outer inner ∉ lax.2) → strict = lax ∧
        ∀ separator, options.cellSeparator = some separator →
          tree.Everywhere Node.NulFree → tree.Everywhere Node.TextAttributes →
          tree.codeCount ≤ 10 ^ numeralLimit → ∃ text, strict.1 = .ok text) := by
  intro lax strict
  have mirrored := renderTree_mirrors options tree
  have lenient {fault : Fault} (stopped : lax.1 = .error fault) : ¬ IsRefusal fault :=
    not_isRefusal_of_flatten returned rfl stopped
  simp only [← mem_flattenings]
  cases first : (flattenings lax.2).head? with
  | none =>
      have met : (flattenings (renderTree (options.withNesting .flatten) tree).2).head? =
          none := first
      rw [met] at mirrored
      have same : strict = lax := mirrored
      have none : flattenings lax.2 = [] := List.head?_eq_none_iff.mp first
      rw [none]
      refine ⟨iff_of_false ?_ (by simp), by simp, fun _ => ⟨same, ?_⟩⟩
      · rintro ⟨fault, stopped, refused⟩
        exact lenient (same ▸ stopped) refused
      · -- The strict rendering never lays out a row again, so nothing is asked of the separator.
        intro separator separated plain attributes few
        have strictSeparated : (options.withNesting .reject).cellSeparator =
            some separator := separated
        have ended :=
          renderTree_of_meets (render_flat returned strictSeparated (.of_reject rfl) plain
          attributes (fun absurdly : False => absurdly.elim) fun absurdly => absurdly.elim)
        cases rendered : strict.1 with
        | ok text => exact ⟨text, rfl⟩
        | error fault =>
            have admitted : Admitted (options.withNesting .reject) tree.codeCount fault := by
              change (renderTree (options.withNesting .reject) tree).1 = .error fault at rendered
              rwa [rendered] at ended
            rcases admitted with overfull | ⟨-, refused⟩
            · exact absurd overfull.1 (Nat.not_lt.mpr few)
            · exact absurd refused (lenient (same ▸ rendered))
  | some pair =>
      have met : (flattenings (renderTree (options.withNesting .flatten) tree).2).head? =
          some pair := first
      rw [met] at mirrored
      have listed : pair ∈ flattenings lax.2 := List.mem_of_head? first
      refine ⟨iff_of_true ⟨_, mirrored, _, rfl, rfl⟩ ⟨pair.1, pair.2, listed⟩, ?_,
        fun absent => absurd listed (absent pair.1 pair.2)⟩
      rintro outer inner same
      cases same
      exact ⟨_, mirrored, rfl⟩

end Renderings

/-- A quote in an emphasis, with a paragraph in a strong span of the quote. -/
def twiceNested : Node :=
  note [{
    kind := .emphasis
    children := [
      { kind := .text, payload := .text "so " },
      { kind := .blockquote
        children := [{
          kind := .strong
          children := [
            { kind := .paragraph,
              children := [{ kind := .text, payload := .text "there" }] }] }] }] }]

/-- Both blocks are flattened under the one policy, and the outer one is refused under
the other. -/
theorem renderTree_policies_twiceNested :
    flattenings (renderTree (Options.withNesting {} .flatten) twiceNested).2 =
        [(.emphasis, .blockquote), (.strong, .paragraph)] ∧
      ∃ report, (renderTree (Options.withNesting {} .reject) twiceNested).1 =
          .error (.failure report) ∧
        report.detail = .malformedTree (some "blockquote") := by
  have resolved : (Numbering.resolve twiceNested).1 =
      .ok { tree := twiceNested, labels := [], headings := {}, items := {} } := rfl
  have flattened : flattenings (renderTree (Options.withNesting {} .flatten) twiceNested).2 =
      [(.emphasis, .blockquote), (.strong, .paragraph)] := by decide +kernel
  obtain ⟨-, refused, -⟩ := renderTree_policies resolved
  exact ⟨flattened, refused .emphasis .blockquote (by rw [flattened]; rfl)⟩

end Layout
end Galley
