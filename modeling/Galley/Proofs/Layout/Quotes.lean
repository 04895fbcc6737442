import Galley.Proofs.Document.Everywhere
import Galley.Proofs.Layout.Shapes

/-!
# Quotes are not wrapped

The column budget and the choice of wrapping show in wrapped text and in horizontal
rules only.  Whether text is wrapped is told by what encloses it, at each depth anew:
everywhere below a quote it is not.  So neither setting shows in a quote without
horizontal rules.
-/

namespace Galley
namespace Layout

/-- Options with another column budget and another choice of wrapping. -/
def Options.withFlow (options : Options) (column : Nat) (positive : 0 < column)
    (wraps : Bool) : Options :=
  { options with maxColumn := column, maxColumn_pos := positive, wraps := wraps }

/-- A setting with another column budget and another choice of wrapping. -/
def Setting.withFlow (setting : Setting) (column : Nat) (positive : 0 < column) (wraps : Bool) :
    Setting :=
  { setting with options := setting.options.withFlow column positive wraps }

/-! ## Places in quotes -/

/-- A node is a quote or stands in one. -/
def Quoted (node : Node) (place : Place) : Prop :=
  node.kind = .blockquote ∨ place.within .blockquote = true

theorem wrapsAt_of_quoted {node : Node} {place : Place} (quoted : Quoted node place) :
    wrapsAt node place = false := by
  rcases quoted with quote | inside
  · simp [wrapsAt, quote]
  · simp [wrapsAt, inside]

/-- What stands in a quoted node is quoted. -/
theorem Quoted.enter {node child : Node} {place : Place} (quoted : Quoted node place)
    (linked : place.linked = true) (index : Nat) : Quoted child (place.enter node index) := by
  refine Or.inr ?_
  have entered : (place.enter node index).ancestors = node :: place.ancestors := by
    simp [Place.enter, linked]
  rw [Place.within, entered, List.any_cons, Bool.or_eq_true, beq_iff_eq]
  exact quoted

/-! ## Conversions in quotes -/

section Conversions

variable (setting : Setting) (column : Nat) (positive : 0 < column) (wraps : Bool)

theorem fill_withFlow (options : Options) (indent : Nat) :
    fill (options.withFlow column positive wraps) indent false = fill options indent false := by
  funext text
  simp only [fill, Bool.false_and, Bool.false_eq_true, if_false]
  rfl

/-- Text that is not wrapped is laid out the same within any budget. -/
theorem flush_withFlow (indent : Nat) (text : List Char) :
    flush (setting.withFlow column positive wraps) indent false text =
      flush setting indent false text :=
  flush_congr setting (setting.withFlow column positive wraps) rfl
    (fill_withFlow column positive wraps setting.options indent) text

/-- Of the leaves, only horizontal rules are measured against the budget. -/
theorem leafText_withFlow {node : Node} (noRule : node.kind ≠ .horizontalRule) (place : Place)
    (indent : Nat) :
    leafText (setting.withFlow column positive wraps) node place indent =
      leafText setting node place indent := by
  obtain ⟨kind, payload, attributes, options, children⟩ := node
  cases kind with
  | horizontalRule => exact absurd rfl noRule
  | _ => rfl

variable {setting} {siblings : List Node}

/-- Wherever the node is quoted, its conversion is the same within any budget. -/
def Unmeasured (setting : Setting) (node : Node) : Prop :=
  ∀ column positive wraps place indent, place.linked = true → Quoted node place →
    convert (setting.withFlow column positive wraps) node place indent =
      convert setting node place indent

theorem spanPiece_withFlow {child : Node} (unmeasured : Unmeasured setting child) {place : Place}
    (linked : place.linked = true) (quoted : Quoted child place) (indent : Nat) :
    spanPiece (setting.withFlow column positive wraps) child place indent =
      spanPiece setting child place indent := by
  unfold spanPiece
  rw [unmeasured column positive wraps place indent linked quoted]

theorem inlinePiece_withFlow {child : Node} (unmeasured : Unmeasured setting child) (parent : Node)
    {place : Place} (linked : place.linked = true) (quoted : Quoted child place) (indent : Nat) :
    inlinePiece (setting.withFlow column positive wraps) child parent place indent =
      inlinePiece setting child parent place indent := by
  cases placed : child.isBlock with
  | false =>
      rw [inlinePiece_of_span placed, inlinePiece_of_span placed]
      exact spanPiece_withFlow column positive wraps unmeasured linked quoted indent
  | true =>
      have policy : (setting.withFlow column positive wraps).options.nesting =
          setting.options.nesting := rfl
      rw [inlinePiece_of_block placed, inlinePiece_of_block placed, policy,
        unmeasured column positive wraps place 0 linked quoted]

section Siblings

variable {parent : Node} {place : Place} (linked : place.linked = true)
  (quoted : Quoted parent place)
  (each : ∀ child ∈ siblings, Unmeasured setting child)

include linked in
theorem linked_enter (index : Nat) : (place.enter parent index).linked = true := by
  simp [Place.enter, linked]

include linked quoted each

/-- The children of a quoted block are laid out the same. -/
theorem flow_withFlow (index inner : Nat) (waiting : List Char) :
    flow (setting.withFlow column positive wraps) siblings parent place index inner false waiting =
      flow setting siblings parent place index inner false waiting := by
  induction siblings generalizing index waiting with
  | nil =>
      rw [flow, flow]
      exact flush_withFlow setting column positive wraps inner waiting
  | cons child rest inductionHypothesis =>
      obtain ⟨first, others⟩ := List.forall_mem_cons.mp each
      have entered : (place.enter parent index).linked = true := linked_enter linked index
      have inside : Quoted child (place.enter parent index) := quoted.enter linked index
      cases placed : child.isBlock with
      | false =>
          rw [flow_cons_of_span placed, flow_cons_of_span placed,
            spanPiece_withFlow column positive wraps first entered inside]
          exact congrArg _ (funext fun piece => inductionHypothesis others (index + 1) _)
      | true =>
          rw [flow_cons_of_block placed, flow_cons_of_block placed,
            first column positive wraps _ inner entered inside, flush_withFlow,
            inductionHypothesis others]

/-- So are the children of a quoted span. -/
theorem convertInline_withFlow (index indent : Nat) :
    convertInline (setting.withFlow column positive wraps) siblings parent place index indent =
      convertInline setting siblings parent place index indent := by
  induction siblings generalizing index with
  | nil => rfl
  | cons child rest inductionHypothesis =>
      obtain ⟨first, others⟩ := List.forall_mem_cons.mp each
      rw [convertInline_cons, convertInline_cons,
        inlinePiece_withFlow column positive wraps first parent (linked_enter linked index)
          (quoted.enter linked index), inductionHypothesis others]

/-- And the cells of a quoted row. -/
theorem convertCells_withFlow (index : Nat) :
    convertCells (setting.withFlow column positive wraps) siblings parent place index =
      convertCells setting siblings parent place index := by
  induction siblings generalizing index with
  | nil => rfl
  | cons child rest inductionHypothesis =>
      obtain ⟨first, others⟩ := List.forall_mem_cons.mp each
      rw [convertCells, convertCells,
        first column positive wraps _ 0 (linked_enter linked index) (quoted.enter linked index),
        inductionHypothesis others]

end Siblings

/-- The text of a quoted node before its tags is the same. -/
theorem bareText_withFlow {node : Node} (noRule : node.kind ≠ .horizontalRule)
    (each : ∀ child ∈ node.children, Unmeasured setting child) {place : Place}
    (linked : place.linked = true) (quoted : Quoted node place) (indent : Nat) :
    bareText (setting.withFlow column positive wraps) node place indent =
      bareText setting node place indent := by
  have flowed := flow_withFlow column positive wraps linked quoted each 0
  have inlined := convertInline_withFlow column positive wraps linked quoted each 0 indent
  have shaped : shape (setting.withFlow column positive wraps).options node =
      shape setting.options node := rfl
  unfold bareText
  rw [shaped, wrapsAt_of_quoted quoted]
  cases shape setting.options node with
  | region extra => simp only [flowed]; rfl
  | hanging bullet => simp only [flowed]; rfl
  | quote => simp only [flowed]; rfl
  | row =>
      simp only [convertCells_withFlow column positive wraps linked quoted each 0]
      rfl
  | inline => simp only [inlined]
  | math => simp only [inlined, flush_withFlow]
  | leaf => exact leafText_withFlow setting column positive wraps noRule place indent

/-- By induction on the tree, no conversion in a quote is measured against the budget. -/
theorem convert_unmeasured {node : Node}
    (noRule : node.Everywhere fun inner => inner.kind ≠ .horizontalRule) :
    Unmeasured setting node := by
  induction node using Node.induction_on_children with
  | step node below =>
      have each (child : Node) (present : child ∈ node.children) : Unmeasured setting child :=
        below child present (noRule.below present)
      intro column positive wraps place indent linked quoted
      cases known : node.kind.isKnown with
      | false =>
          rw [convert_of_unknown _ place indent known, convert_of_unknown _ place indent known]
      | true =>
          rw [convert_eq_bareText _ place indent known, convert_eq_bareText _ place indent known,
            bareText_withFlow column positive wraps noRule.here each linked quoted]
          rfl

end Conversions

/-- Nothing in a quote is wrapped: where a quote without horizontal rules knows what
encloses it, its conversion does the same within any column budget and whether text is
to be wrapped or not, at any indentation.  From the same workspace it gives the same
text or stops at the same fault, holds the same code and reports the same events. -/
theorem convert_quote_withFlow (setting : Setting) {quote : Node}
    (isQuote : quote.kind = .blockquote)
    (noRule : quote.Everywhere fun inner => inner.kind ≠ .horizontalRule) {place : Place}
    (linked : place.linked = true) (indent column : Nat) (positive : 0 < column) (wraps : Bool) :
    convert (setting.withFlow column positive wraps) quote place indent =
      convert setting quote place indent :=
  convert_unmeasured noRule column positive wraps place indent linked (Or.inl isQuote)

/-- A quote of an item, a row and a paragraph with a block in its emphasis. -/
def longQuote : Node :=
  { kind := .blockquote
    children := [
      { kind := .listItem, children := [{ kind := .text, payload := .text "one two three" }] },
      { kind := .tableRow
        children := [
          { kind := .tableCell, children := [{ kind := .text, payload := .text "four five" }] },
          { kind := .tableCell, children := [{ kind := .text, payload := .text "six" }] }] },
      { kind := .paragraph
        children := [{
          kind := .emphasis
          children := [
            { kind := .text, payload := .text "seven " },
            { kind := .paragraph,
              children := [{ kind := .text, payload := .text "eight nine" }] }] }] }] }

/-- A document of an item with the quote in it. -/
def quotingItem : Node :=
  { kind := .root, children := [{ kind := .listItem, children := [longQuote] }] }

/-- The setting of a rendering without wrapping. -/
def unwrappedSetting : Setting :=
  { options := { (default : Options) with ruleWidth := 3, wraps := false } }

/-- The lines of the quote are as long within five columns as without a budget. -/
theorem convert_quote_withFlow_longQuote :
    quotingItem.at? [0, 0] = some longQuote ∧
      (outcome (convert (unwrappedSetting.withFlow 5 (by decide) true) longQuote
        (Place.ofPath quotingItem [0, 0]) 1) {}).1 =
        .ok
          (" ---\n     * one two three\n     four five | six\n     seven eight nine\n ---\n").toList := by
  have noRule : longQuote.Everywhere fun inner => inner.kind ≠ .horizontalRule := by
    have each : ∀ inner ∈ longQuote.walk, inner.kind ≠ .horizontalRule := by decide +kernel
    exact each
  refine ⟨rfl, ?_⟩
  rw [convert_quote_withFlow unwrappedSetting rfl noRule rfl 1 5 (by decide) true]
  exact eq_ok_of_toOption (by decide +kernel)

end Layout
end Galley
