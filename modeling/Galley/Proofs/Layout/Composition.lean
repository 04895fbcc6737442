import Galley.Proofs.Document.Everywhere
import Galley.Proofs.Layout.Traced

/-!
# Conversions from their steps

A conversion is a sequence of a few sorts of steps: code is held, span text is laid out,
a leaf is shown, a node is refused.  A property of computations that each of these steps
has, and that sequences take over from their parts, is therefore a property of every
conversion.
-/

namespace Galley
namespace Layout

/-- A property of computations that goes from the steps of a conversion to the
conversion, where the nodes of the tree are admitted. -/
structure Compositional (setting : Setting) (admitted : Node → Prop)
    (holds : ∀ {α : Type}, Render α → Prop) : Prop where
  /-- Giving a value. -/
  give {α : Type} (value : α) : holds (pure value)
  /-- Doing one thing after another. -/
  bind {α β : Type} {action : Render α} {next : α → Render β} :
    holds action → (∀ value, holds (next value)) → holds (action >>= next)
  /-- Holding code. -/
  hold (code : List Char) : holds (hold code)
  /-- Laying out span text. -/
  flush (indent : Nat) (wraps : Bool) (text : List Char) : holds (flush setting indent wraps text)
  /-- Showing a leaf. -/
  leaf {node : Node} : admitted node →
    ∀ place indent, holds (leafText setting node place indent)
  /-- Refusing a node whose kind has no rule. -/
  unknown {node : Node} : admitted node → node.kind.isKnown = false →
    holds (throw (.failure (.noConversion (shownKind node.kind))) : Render (List Char))
  /-- Stopping at a row, where no text separates cells. -/
  separator : setting.options.cellSeparator = none → holds (throw .noField : Render (List Char))
  /-- Refusing a block in a span. -/
  reject {node child : Node} : admitted node → isFormatting node.kind = true →
    child ∈ node.children → child.isBlock = true → setting.options.nesting = .reject →
    holds (throw (.failure (.blockInSpan node.kind.name child.kind.name)) : Render (List Char))
  /-- Reporting that a block in a span is flattened. -/
  flatten {node child : Node} : admitted node → isFormatting node.kind = true →
    child ∈ node.children → child.isBlock = true → setting.options.nesting = .flatten →
    holds (report (.blockFlattened node.kind child.kind))

namespace Compositional

variable {setting : Setting} {admitted : Node → Prop} {holds : ∀ {α : Type}, Render α → Prop}
  (steps : Compositional setting admitted holds)

include steps

section Siblings

variable {siblings : List Node}
  (each : ∀ child ∈ siblings, ∀ place indent, holds (convert setting child place indent))

include each

theorem flow (parent : Node) (place : Place) (index inner : Nat) (wraps : Bool)
    (waiting : List Char) :
    holds (flow setting siblings parent place index inner wraps waiting) := by
  induction siblings generalizing index waiting with
  | nil =>
      rw [Layout.flow]
      exact steps.flush inner wraps waiting
  | cons child rest inductionHypothesis =>
      obtain ⟨first, others⟩ := List.forall_mem_cons.mp each
      rw [Layout.flow]
      apply steps.bind (first _ inner)
      intro text
      split
      · apply steps.bind (steps.hold text)
        intro stand
        exact inductionHypothesis others _ _
      · split
        · exact inductionHypothesis others _ _
        · apply steps.bind (steps.flush inner wraps waiting)
          intro before
          apply steps.bind (inductionHypothesis others _ _)
          intro after
          exact steps.give _

theorem convertCells (parent : Node) (place : Place) (index : Nat) :
    holds (convertCells setting siblings parent place index) := by
  induction siblings generalizing index with
  | nil => exact steps.give _
  | cons child rest inductionHypothesis =>
      obtain ⟨first, others⟩ := List.forall_mem_cons.mp each
      rw [Layout.convertCells]
      apply steps.bind (first _ 0)
      intro text
      apply steps.bind (inductionHypothesis others _)
      intro cells
      exact steps.give _

/-- Below a formatting node, only a block may be refused or flattened. -/
theorem convertInline {parent : Node} (allowed : admitted parent)
    (formatting : isFormatting parent.kind = true)
    (inside : ∀ child ∈ siblings, child ∈ parent.children)
    (place : Place) (index indent : Nat) :
    holds (convertInline setting siblings parent place index indent) := by
  induction siblings generalizing index with
  | nil => exact steps.give _
  | cons child rest inductionHypothesis =>
      obtain ⟨first, others⟩ := List.forall_mem_cons.mp each
      obtain ⟨member, members⟩ := List.forall_mem_cons.mp inside
      have piece : holds
          (inlinePiece setting child parent (place.enter parent index) indent) := by
        unfold inlinePiece
        split
        · apply steps.bind (first _ _)
          intro text
          exact steps.hold text
        · split
          · rename_i block
            cases policy : setting.options.nesting with
            | reject => exact steps.reject allowed formatting member block policy
            | flatten =>
                apply steps.bind (steps.flatten allowed formatting member block policy)
                intro _
                apply steps.bind (first _ _)
                intro text
                exact steps.give _
          · exact first _ _
      rw [convertInline_cons]
      apply steps.bind piece
      intro text
      apply steps.bind (inductionHypothesis others members _)
      intro more
      exact steps.give _

end Siblings

/-- By induction on the tree, what holds of every step of a conversion holds of the
conversion. -/
theorem convert (node : Node) (all : node.Everywhere admitted) (place : Place) (indent : Nat) :
    holds (convert setting node place indent) := by
  induction node using Node.induction_on_children generalizing place indent with
  | step node below =>
      have each : ∀ child ∈ node.children, ∀ place indent,
          holds (Layout.convert setting child place indent) := by
        intro child member
        exact below child member (all.below member)
      cases known : node.kind.isKnown with
      | false =>
          rw [convert_of_unknown setting place indent known]
          exact steps.unknown all.here known
      | true =>
          have spans (formatting : isFormatting node.kind = true) :
              holds (Layout.convertInline setting node.children node place 0 indent) :=
            steps.convertInline each all.here formatting (fun _ member => member) place 0 indent
          rw [convert_eq_bareText setting place indent known]
          refine steps.bind ?_ fun text => steps.give _
          unfold bareText
          cases shaped : shape setting.options node with
          | region extra => exact steps.bind (steps.flow each _ _ _ _ _ _) fun body => steps.give _
          | hanging bullet =>
              exact steps.bind (steps.flow each _ _ _ _ _ _) fun body => steps.give _
          | quote => exact steps.bind (steps.flow each _ _ _ _ _ _) fun body => steps.give _
          | row =>
              apply steps.bind (steps.convertCells each _ _ _)
              intro cells
              cases separated : setting.options.cellSeparator with
              | none => exact steps.separator separated
              | some separator => exact steps.give _
          | inline =>
              exact steps.bind (spans (isFormatting_of_inline (Or.inl shaped))) fun content =>
                steps.give _
          | math =>
              apply steps.bind (spans (isFormatting_of_inline (Or.inr shaped)))
              intro content
              dsimp only
              split
              · exact steps.flush _ _ _
              · exact steps.give _
          | leaf => exact steps.leaf all.here place indent

end Compositional
end Layout
end Galley
