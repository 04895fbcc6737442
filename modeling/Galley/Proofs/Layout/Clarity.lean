import Galley.Proofs.Layout.Assembling
import Galley.Proofs.Layout.Faithful
import Galley.Proofs.Layout.Joinable
import Galley.Proofs.Layout.Rows

/-!
# Where tags change nothing

Tags are transparent at a node where no text reads as a marker, where no tag stands
between characters that wrapping or joining keeps together, and where no blanks wait
before a tag that only a plain line would lose.
-/

namespace Galley
namespace Layout

open Marker Text

/-- Whether the content of a node hangs under a bullet. -/
def hangs (options : Options) (node : Node) : Bool :=
  match shape options node with
  | .hanging _ => true
  | _ => false

/-- Whether a place stands under a bullet. -/
def underBullet (options : Options) (place : Place) : Bool :=
  place.ancestors.any (hangs options)

/-- Whether the text of a node is span text: of all spans but code, and of math on lines
of its own. -/
def isFlowing (node : Node) : Bool :=
  node.kind == .math || node.isSpan && node.kind != .inlineCode

theorem isFlowing_of_formatting {node : Node} (formatting : isFormatting node.kind = true) :
    isFlowing node = true := by
  obtain ⟨kind, payload, attributes, fields, children⟩ := node
  cases kind <;> first | rfl | cases formatting

/-- Whether a node lays out the span text below it. -/
def gathers (options : Options) (node : Node) : Bool :=
  match shape options node with
  | .region _ | .hanging _ => true
  | _ => false

/-- The text that a node adds to that of the nodes below it. -/
def ownText (options : Options) (numbered : Numbering.Numbered) (node : Node) (place : Place) :
    List Char :=
  match shape options node with
  | .hanging bullet => bullet
  | .inline | .math => if node.children.isEmpty then node.payload.content.toList else []
  | .leaf =>
      match node.kind with
      | .codeblock | .inlineCode => node.payload.content.toList
      | _ => leafShown numbered node place
  | _ => []

/-- The text of formatting without children is its own. -/
theorem ownText_of_childless {options : Options} {numbered : Numbering.Numbered} {node : Node}
    (childless : node.children.isEmpty = true) (formatting : isFormatting node.kind = true)
    (place : Place) : ownText options numbered node place = node.payload.content.toList := by
  rcases (isFormatting_iff_shape options node).mp formatting with inline | math
  · simp [ownText, inline, childless]
  · simp [ownText, math, childless]

/-- A whole rendering of a numbered tree, with or without tags. -/
def tagging (options : Options) (numbered : Numbering.Numbered) (debug : Bool) : Setting where
  options := { options with debug := debug }
  numbered := some numbered

/-! ## Rows -/

section Rows

variable (options : Options) (numbered : Numbering.Numbered)

/-- The lines that a cell is laid out to without tags. -/
def cellLines (cell : Node) (place : Place) : List (List Char) :=
  match layoutOf (tagging options numbered false) cell place 0 with
  | .ok text => (lines text).dropLast
  | .error _ => []

/-- The contents of the cells of a row without tags. -/
def cellContents (row : Node) (place : Place) : List (List Char) :=
  match cellsBelow (tagging options numbered false) row.children row place 0 with
  | .ok contents => contents
  | .error _ => []

/-- A cell has the same content on one line with tags and without. -/
structure ClearCell (cell : Node) (place : Place) : Prop where
  /-- The node is a cell. -/
  kind : cell.kind = .tableCell
  /-- No string in the cell holds NUL, so its text can be told from the tree. -/
  settled : cell.Everywhere (Settled (tagging options numbered false))
  /-- Each line of the cell begins and ends with what is not blank: no blanks are
  collapsed along with a newline, and none are trimmed before or behind the tags of the
  cell. -/
  tight : ∀ line ∈ cellLines options numbered cell place, Tight line

/-- Tags are transparent on the line of a row. -/
structure ClearRow (row : Node) (place : Place) : Prop where
  /-- The separator holds no marker, and stands on one line. -/
  separator : ∀ separator ∈ options.cellSeparator,
    Unmarked separator.toList ∧ '\n' ∉ separator.toList
  /-- The cells are clear. -/
  cells : ∀ entry ∈ row.children.zipIdx,
    ClearCell options numbered entry.1 (place.enter row entry.2)
  /-- A row of cells shows something, and no blanks are trimmed at its end, where only
  the row with tags would keep them. -/
  ends : row.children ≠ [] → ∀ separator ∈ options.cellSeparator,
    allBlank (separator.toList.intercalate (cellContents options numbered row place)) = false ∧
      Text.trimEnd (separator.toList.intercalate (cellContents options numbered row place)) =
        separator.toList.intercalate (cellContents options numbered row place)

instance (cell : Node) (place : Place) : Decidable (ClearCell options numbered cell place) :=
  decidable_of_iff
    (cell.kind = .tableCell ∧ cell.Everywhere (Settled (tagging options numbered false)) ∧
      ∀ line ∈ cellLines options numbered cell place, Tight line)
    ⟨fun ⟨kind, settled, tight⟩ => ⟨kind, settled, tight⟩,
      fun clear => ⟨clear.kind, clear.settled, clear.tight⟩⟩

instance (row : Node) (place : Place) : Decidable (ClearRow options numbered row place) :=
  decidable_of_iff
    ((∀ separator ∈ options.cellSeparator, Unmarked separator.toList ∧ '\n' ∉ separator.toList) ∧
      (∀ entry ∈ row.children.zipIdx,
        ClearCell options numbered entry.1 (place.enter row entry.2)) ∧
      (row.children ≠ [] → ∀ separator ∈ options.cellSeparator,
        allBlank (separator.toList.intercalate (cellContents options numbered row place)) =
            false ∧
          Text.trimEnd (separator.toList.intercalate (cellContents options numbered row place)) =
            separator.toList.intercalate (cellContents options numbered row place)))
    ⟨fun ⟨separator, cells, ends⟩ => ⟨separator, cells, ends⟩,
      fun clear => ⟨clear.separator, clear.cells, clear.ends⟩⟩

end Rows

/-! ## Nodes -/

/-- Tags are transparent at a node. -/
structure Clear (options : Options) (numbered : Numbering.Numbered) (node : Node) (place : Place) :
    Prop where
  /-- The text of the node holds no marker. -/
  unmarked : Unmarked (ownText options numbered node place)
  /-- Span text holds no NUL, so it is not mistaken for a placeholder. -/
  nulFree : isFlowing node = true → NulFree (ownText options numbered node place)
  /-- The blanks of span text are those that are trimmed before a tag: spaces and tabs. -/
  blanks : isFlowing node = true → PlainBlanks (ownText options numbered node place)
  /-- A bullet stands on one line. -/
  bullet : ∀ text, shape options node = .hanging text → '\n' ∉ text
  /-- Quotes and code stand between rules that show. -/
  ruled : node.kind = .blockquote ∨ node.kind = .codeblock ∨ node.kind = .inlineCode →
    0 < options.ruleWidth
  /-- Where span text is wrapped, tags part no word and no run of blanks. -/
  wraps : gathers options node = true → wrapsAt node place = true → options.wraps = true →
    Wrap.Wrappable (openCodes (tracedBelow numbered node.children node place 0))
  /-- Under the lax policy formatting holds no block.  The words of a block would be put
  together anew, and a tag that stands alone between blanks would count as a word. -/
  spans : options.nesting = .flatten → SpansOnly node
  /-- The lines of formatting may be joined before or after its tags are erased. -/
  joins : isFormatting node.kind = true → Joinable (tracedContent numbered node place)
  /-- Under a bullet, a flexible block is math that shows something. -/
  shows : node.isBlock = true → node.kind.placement = .flexible →
    underBullet options place = true →
      node.kind = .math ∧ allBlank (erase (joinLines (tracedContent numbered node place))) = false
  /-- The first line of raw text shows something, and nothing is trimmed at its end. -/
  raw : node.kind = .rawPassthrough → node.isBlock = true →
    Text.trimEnd (ownText options numbered node place) = ownText options numbered node place ∧
      ∀ line ∈ (lines (ownText options numbered node place)).head?,
        line = [] ∨ allBlank line = false
  /-- The line of a row is clear. -/
  row : node.kind = .tableRow → ClearRow options numbered node place

set_option synthInstance.maxSize 400 in
instance (options : Options) (numbered : Numbering.Numbered) (node : Node) (place : Place) :
    Decidable (Clear options numbered node place) :=
  decidable_of_iff
    (Unmarked (ownText options numbered node place) ∧
      (isFlowing node = true → NulFree (ownText options numbered node place) ∧
        PlainBlanks (ownText options numbered node place)) ∧
      '\n' ∉ (shape options node).bullet ∧
      (node.kind = .blockquote ∨ node.kind = .codeblock ∨ node.kind = .inlineCode →
        0 < options.ruleWidth) ∧
      (gathers options node = true → wrapsAt node place = true → options.wraps = true →
        Wrap.Wrappable (openCodes (tracedBelow numbered node.children node place 0))) ∧
      (options.nesting = .flatten → SpansOnly node) ∧
      (isFormatting node.kind = true → Joinable (tracedContent numbered node place)) ∧
      (node.isBlock = true → node.kind.placement = .flexible →
        underBullet options place = true →
          node.kind = .math ∧
            allBlank (erase (joinLines (tracedContent numbered node place))) = false) ∧
      (node.kind = .rawPassthrough → node.isBlock = true →
        Text.trimEnd (ownText options numbered node place) = ownText options numbered node place ∧
          ∀ line ∈ (lines (ownText options numbered node place)).head?,
            line = [] ∨ allBlank line = false) ∧
      (node.kind = .tableRow → ClearRow options numbered node place))
    ⟨fun ⟨unmarked, flowing, bullet, ruled, wraps, spans, joins, shows, raw, row⟩ =>
        { unmarked, ruled, wraps, spans, joins, shows, raw, row
          nulFree := fun flows => (flowing flows).1
          blanks := fun flows => (flowing flows).2
          bullet := not_mem_bullet_iff.mp bullet },
      fun clear => ⟨clear.unmarked, fun flows => ⟨clear.nulFree flows, clear.blanks flows⟩,
        not_mem_bullet_iff.mpr clear.bullet, clear.ruled, clear.wraps, clear.spans, clear.joins,
        clear.shows, clear.raw, clear.row⟩⟩

end Layout
end Galley
