import Galley.Layout.Render
import Galley.Proofs.Outcome

/-!
# Conversion by shapes

The conversion of a node is the text that its shape asks for, tagged where debugging is
on.
-/

namespace Galley
namespace Layout

/-- The text of a node before tags are put around it. -/
def bareText (setting : Setting) (node : Node) (place : Place) (indent : Nat) :
    Render (List Char) :=
  match shape setting.options node with
  | .region extra => do
      let body ← flow setting node.children node place 0 (indent + extra) (wrapsAt node place) []
      return trimTail setting.options.debug body ++ ['\n']
  | .hanging bullet => do
      let inner := indent + Columns.ofText bullet + 1
      let body ← flow setting node.children node place 0 inner (wrapsAt node place) []
      return trimTail setting.options.debug
        (hang setting.options.debug bullet indent inner body) ++ ['\n']
  | .quote => do
      let body ← flow setting node.children node place 0 (indent + setting.options.quoteIndent)
        (wrapsAt node place) []
      let bar := rule setting.options.ruleWidth indent
      return bar ++ '\n' :: trimTail setting.options.debug body ++ '\n' :: bar ++ ['\n']
  | .row => do
      let cells ← convertCells setting node.children node place 0
      match setting.options.cellSeparator with
      | some separator => return rowLine separator.toList indent cells
      | none => throw .noField
  | .inline => do
      let content ← convertInline setting node.children node place 0 indent
      return joinLines (if node.children.isEmpty then node.payload.content.toList else content)
  | .math => do
      let content ← convertInline setting node.children node place 0 indent
      let line := joinLines
        (if node.children.isEmpty then node.payload.content.toList else content)
      if node.isBlock then flush setting indent false line else return line
  | .leaf => leafText setting node place indent

/-- A node of a known kind is converted by its shape. -/
theorem convert_eq_bareText
    (setting : Setting) {node : Node} (place : Place) (indent : Nat)
    (known : node.kind.isKnown = true) :
    convert setting node place indent =
      bareText setting node place indent >>= fun text => pure (finish setting node text) := by
  obtain ⟨kind, payload, attributes, options, children⟩ := node
  have known : kind.isKnown = true := known
  rw [convert, bareText]
  simp only [known, Bool.not_true, Bool.false_eq_true, if_false, pure_bind]
  cases shape setting.options ⟨kind, payload, attributes, options, children⟩ with
  | region extra => simp
  | hanging bullet => simp
  | quote => simp
  | row =>
      cases setting.options.cellSeparator with
      | none => simp
      | some separator => simp
  | inline => simp
  | math =>
      cases Node.isBlock ⟨kind, payload, attributes, options, children⟩ with
      | true => simp
      | false => simp
  | leaf => simp

/-- A node of another kind is refused. -/
theorem convert_of_unknown
    (setting : Setting) {node : Node} (place : Place) (indent : Nat)
    (unknown : node.kind.isKnown = false) :
    convert setting node place indent = throw (.failure (.noConversion (shownKind node.kind))) := by
  obtain ⟨kind, payload, attributes, options, children⟩ := node
  have unknown : kind.isKnown = false := unknown
  rw [convert]
  simp only [unknown, Bool.not_false, if_true]
  rfl

/-! ## Children -/

/-- What a span adds to the text around it: a placeholder for code, or its own text. -/
def spanPiece (setting : Setting) (child : Node) (place : Place) (indent : Nat) :
    Render (List Char) :=
  if child.kind == .inlineCode then do
    let text ← convert setting child place indent
    hold text
  else convert setting child place indent

/-- A span among the children of a block joins the span text that waits. -/
theorem flow_cons_of_span {setting : Setting} {child : Node} (span : child.isBlock = false)
    (rest : List Node) (parent : Node) (place : Place) (index inner : Nat) (wraps : Bool)
    (waiting : List Char) :
    flow setting (child :: rest) parent place index inner wraps waiting = (do
      let piece ← spanPiece setting child (place.enter parent index) inner
      flow setting rest parent place (index + 1) inner wraps (waiting ++ piece)) := by
  rw [flow, spanPiece]
  by_cases code : child.kind = .inlineCode
  · simp [code]
  · simp [code, Node.isSpan, span]

theorem noCode_of_block {node : Node} (block : node.isBlock = true) : node.kind ≠ .inlineCode := by
  intro code
  simp [Node.isBlock, code, Kind.placement] at block

/-- The span text that waits before a block is laid out once the block is converted. -/
theorem flow_cons_of_block {setting : Setting} {child : Node} (block : child.isBlock = true)
    (rest : List Node) (parent : Node) (place : Place) (index inner : Nat) (wraps : Bool)
    (waiting : List Char) :
    flow setting (child :: rest) parent place index inner wraps waiting = (do
      let text ← convert setting child (place.enter parent index) inner
      let before ← flush setting inner wraps waiting
      let after ← flow setting rest parent place (index + 1) inner wraps []
      return before ++ text ++ after) := by
  rw [flow]
  simp [noCode_of_block block, Node.isSpan, block]

/-- What a child adds to the text of a span: a placeholder for code, the words of a
block, or the text of another span. -/
def inlinePiece (setting : Setting) (child parent : Node) (place : Place) (indent : Nat) :
    Render (List Char) :=
  if child.kind == .inlineCode then do
    let text ← convert setting child place indent
    hold text
  else if child.isBlock then
    match setting.options.nesting with
    | .reject => throw (.failure (.blockInSpan parent.kind.name child.kind.name))
    | .flatten => do
        report (.blockFlattened parent.kind child.kind)
        let text ← convert setting child place 0
        return unwords (Text.words text)
  else convert setting child place indent

theorem inlinePiece_of_span {setting : Setting} {child : Node} (span : child.isBlock = false)
    (parent : Node) (place : Place) (indent : Nat) :
    inlinePiece setting child parent place indent = spanPiece setting child place indent := by
  simp [inlinePiece, spanPiece, span]

theorem inlinePiece_of_block {setting : Setting} {child : Node} (block : child.isBlock = true)
    (parent : Node) (place : Place) (indent : Nat) :
    inlinePiece setting child parent place indent =
      match setting.options.nesting with
      | .reject => throw (.failure (.blockInSpan parent.kind.name child.kind.name))
      | .flatten => do
          report (.blockFlattened parent.kind child.kind)
          let text ← convert setting child place 0
          return unwords (Text.words text) := by
  simp [inlinePiece, noCode_of_block block, block]

/-- Under the strict policy a block is refused. -/
theorem inlinePiece_of_reject {setting : Setting} {child : Node}
    (rejects : setting.options.nesting = .reject) (block : child.isBlock = true) (parent : Node)
    (place : Place) (indent : Nat) :
    inlinePiece setting child parent place indent =
      throw (.failure (.blockInSpan parent.kind.name child.kind.name)) := by
  rw [inlinePiece_of_block block, rejects]

/-- Where the lax policy has spans only, a block is met under the strict policy. -/
theorem rejects_of_block {options : Options} {child : Node}
    (spans : options.nesting = .flatten → child.isBlock = false) (block : child.isBlock = true) :
    options.nesting = .reject := by
  cases policy : options.nesting with
  | reject => rfl
  | flatten =>
      rw [spans policy] at block
      cases block

/-- The children of a span are joined piece by piece. -/
theorem convertInline_cons
    (setting : Setting) (child : Node) (rest : List Node) (parent : Node) (place : Place)
    (index indent : Nat) :
    convertInline setting (child :: rest) parent place index indent = do
      let piece ← inlinePiece setting child parent (place.enter parent index) indent
      let others ← convertInline setting rest parent place (index + 1) indent
      return piece ++ others := by
  rw [convertInline, inlinePiece]
  split
  · simp
  · split
    · cases setting.options.nesting <;> simp
    · rfl

/-- Formatting that is no math is no block. -/
theorem isBlock_of_inline {options : Options} {node : Node}
    (inline : shape options node = .inline) : node.isBlock = false := by
  obtain ⟨kind, payload, attributes, fields, children⟩ := node
  cases kind with
  | header =>
      simp only [shape] at inline
      split at inline <;> cases inline
  | _ => first | rfl | cases inline

/-! ## What shapes tell -/

/-- The bullet that a node hangs under, empty where it has none: of a heading its
section number and a parenthesis, of an ordered item its ordinal in parentheses, and of
any other item an asterisk. -/
def bulletShown (node : Node) : List Char :=
  match node.kind with
  | .header =>
      match node.fullMark? with
      | none | some "" => []
      | some mark => mark.toList ++ [')']
  | .listItem =>
      match node.payload with
      | .item marks => '(' :: marks.mark.toList ++ [')']
      | _ => ['*']
  | _ => []

/-- The bullet of a shape, empty where nothing hangs. -/
def Shape.bullet : Shape → List Char
  | .hanging text => text
  | _ => []

section Shapes

variable {options : Options} {node : Node}

theorem noCode_of_shape {form : Shape} (shaped : shape options node = form)
    (inner : form ≠ .leaf) : node.kind ≠ .inlineCode := by
  intro code
  obtain rfl : .leaf = form := by simpa [shape, code] using shaped
  exact inner rfl

theorem kind_of_quote (quote : shape options node = .quote) : node.kind = .blockquote := by
  obtain ⟨kind, payload, attributes, fields, children⟩ := node
  cases kind with
  | blockquote => rfl
  | header =>
      simp only [shape] at quote
      split at quote <;> cases quote
  | _ => cases quote

theorem kind_of_row (row : shape options node = .row) : node.kind = .tableRow := by
  obtain ⟨kind, payload, attributes, fields, children⟩ := node
  cases kind with
  | tableRow => rfl
  | header =>
      simp only [shape] at row
      split at row <;> cases row
  | _ => cases row

theorem kind_of_math (math : shape options node = .math) : node.kind = .math := by
  obtain ⟨kind, payload, attributes, fields, children⟩ := node
  cases kind with
  | math => rfl
  | header =>
      simp only [shape] at math
      split at math <;> cases math
  | _ => cases math

/-- The bullet of a heading is its section number and a parenthesis. -/
theorem eq_of_headingBullet? {bullet : List Char} (found : headingBullet? node = some bullet) :
    ∃ mark, node.fullMark? = some mark ∧ bullet = mark.toList ++ [')'] := by
  unfold headingBullet? at found
  split at found
  · rename_i mark numbered
    split at found
    · cases found
    · obtain rfl := Option.some.inj found
      exact ⟨mark, numbered, String.toList_append⟩
  · cases found

/-- A bullet is that of a heading or that of an item. -/
theorem bullet_of_hanging {bullet : List Char} (hanging : shape options node = .hanging bullet) :
    (node.kind = .header ∧ headingBullet? node = some bullet) ∨
      node.kind = .listItem ∧ itemBullet node = bullet := by
  obtain ⟨kind, payload, attributes, fields, children⟩ := node
  cases kind with
  | header =>
      simp only [shape] at hanging
      split at hanging
      · rename_i found
        cases hanging
        exact Or.inl ⟨rfl, found⟩
      · cases hanging
  | listItem =>
      cases hanging
      exact Or.inr ⟨rfl, rfl⟩
  | _ => cases hanging

/-- The bullet of the shape of a node is the one that the node hangs under. -/
theorem bullet_shape (options : Options) (node : Node) :
    (shape options node).bullet = bulletShown node := by
  obtain ⟨kind, payload, attributes, fields, children⟩ := node
  cases kind with
  | header =>
      cases numbered : Node.fullMark? ⟨.header, payload, attributes, fields, children⟩ with
      | none => simp [shape, headingBullet?, bulletShown, numbered, Shape.bullet]
      | some mark =>
          by_cases empty : mark = ""
          · simp [shape, headingBullet?, bulletShown, numbered, empty, Shape.bullet]
          · simp [shape, headingBullet?, bulletShown, numbered, empty, Shape.bullet]
  | listItem =>
      simp only [shape, itemBullet, bulletShown]
      split <;> simp [Shape.bullet]
  | _ => rfl

theorem bulletShown_of_shape {form : Shape} (shaped : shape options node = form) :
    bulletShown node = form.bullet := by
  rw [← bullet_shape options, shaped]

theorem bulletShown_of_hanging {bullet : List Char}
    (hanging : shape options node = .hanging bullet) :
    bulletShown node = bullet :=
  bulletShown_of_shape hanging

/-- A node with a bullet hangs under it. -/
theorem shape_of_bulletShown (options : Options) (bulleted : bulletShown node ≠ []) :
    shape options node = .hanging (bulletShown node) := by
  rw [← bullet_shape options] at bulleted ⊢
  cases shaped : shape options node with
  | hanging bullet => rfl
  | _ => simp [shaped, Shape.bullet] at bulleted

theorem not_mem_bullet_iff {character : Char} : character ∉ (shape options node).bullet ↔
    ∀ text, shape options node = .hanging text → character ∉ text := by
  cases shape options node with
  | hanging bullet => simp [Shape.bullet]
  | _ => simp [Shape.bullet]

/-- A bullet ends with a character that is not blank. -/
theorem exists_last_of_hanging {bullet : List Char}
    (hanging : shape options node = .hanging bullet) :
    ∃ front last, bullet = front ++ [last] ∧ Text.isBlank last = false := by
  rcases bullet_of_hanging hanging with ⟨-, found⟩ | ⟨-, rfl⟩
  · obtain ⟨mark, -, rfl⟩ := eq_of_headingBullet? found
    exact ⟨mark.toList, ')', rfl, by decide⟩
  · unfold itemBullet
    split
    · exact ⟨_, ')', String.toList_append, by decide⟩
    · exact ⟨[], '*', rfl, by decide⟩

/-- A bullet shows something. -/
theorem shown_of_hanging {bullet : List Char} (hanging : shape options node = .hanging bullet) :
    Text.allBlank bullet = false := by
  obtain ⟨front, last, rfl, shown⟩ := exists_last_of_hanging hanging
  simp [Text.allBlank, shown]

/-- Kinds that may be blocks and show nothing. -/
def Suppressed (kind : Kind) : Prop :=
  kind.placement = .flexible ∧ kind ≠ .math ∧ kind ≠ .rawPassthrough

theorem leafText_of_suppressed (suppressed : Suppressed node.kind) (setting : Setting)
    (place : Place) (indent : Nat) : leafText setting node place indent = pure [] := by
  obtain ⟨flexible, noMath, noRaw⟩ := suppressed
  obtain ⟨kind, payload, attributes, fields, children⟩ := node
  cases kind with
  | math => exact absurd rfl noMath
  | rawPassthrough => exact absurd rfl noRaw
  | _ => first | rfl | cases flexible

/-- A block that is a leaf shows a rule, verbatim content, raw content or nothing. -/
theorem leaf_of_block (block : node.isBlock = true) (leaf : shape options node = .leaf) :
    node.kind = .horizontalRule ∨ node.kind = .codeblock ∨ node.kind = .rawPassthrough ∨
      Suppressed node.kind := by
  obtain ⟨kind, payload, attributes, fields, children⟩ := node
  cases kind with
  | horizontalRule => exact Or.inl rfl
  | codeblock => exact Or.inr (Or.inl rfl)
  | rawPassthrough => exact Or.inr (Or.inr (Or.inl rfl))
  | header =>
      simp only [shape] at leaf
      split at leaf <;> cases leaf
  | rawHtmlElement => exact Or.inr (Or.inr (Or.inr ⟨rfl, by simp, by simp⟩))
  | xmlComment => exact Or.inr (Or.inr (Or.inr ⟨rfl, by simp, by simp⟩))
  | xmlProcessingInstruction => exact Or.inr (Or.inr (Or.inr ⟨rfl, by simp, by simp⟩))
  | foreign name => exact Or.inr (Or.inr (Or.inr ⟨rfl, by simp, by simp⟩))
  | _ => first | (cases block; done) | cases leaf

end Shapes

/-! ## What laying out depends on -/

/-- Settings that agree on debugging and on how a run of text fills a region lay out
span text alike. -/
theorem flush_congr (setting setting' : Setting) {indent : Nat} {wraps : Bool}
    (debugs : setting'.options.debug = setting.options.debug)
    (fills : fill setting'.options indent wraps = fill setting.options indent wraps)
    (text : List Char) : flush setting' indent wraps text = flush setting indent wraps text := by
  have added (assembly : Assembly) (piece : List Char) :
      assembly.addPiece setting'.options indent wraps piece =
        assembly.addPiece setting.options indent wraps piece := by
    simp only [Assembly.addPiece, debugs, fills]
  have assembled (held : List (List Char)) (assembly : Assembly)
      (others : List (List Char × List Char)) :
      assemble setting'.options held indent wraps assembly others =
        assemble setting.options held indent wraps assembly others := by
    induction others generalizing assembly with
    | nil => rfl
    | cons entry rest inductionHypothesis =>
        obtain ⟨digits, piece⟩ := entry
        rw [assemble, assemble]
        refine congrArg _ (funext fun code => ?_)
        rw [added, inductionHypothesis]
  unfold flush layoutSpan
  simp only [added, assembled]

/-! ## What leaves do -/

/-- A computation that does no more than give a value or stop, and may report something
before, but no flattening. -/
inductive Terse {α : Type} : Render α → Prop
  | give (value : α) : Terse (pure value)
  | stop (fault : Fault) : Terse (throw fault)
  | report {event : LogEvent} (unlike : ∀ outer inner,
      event ≠ .blockFlattened outer inner) (value : α) :
      Terse (report event >>= fun _ => pure value)

namespace Terse

variable (setting : Setting)

theorem substitute (table : List (String × String)) (key : String) {unknown : String → LogEvent}
    (unlike : ∀ outer inner, unknown key ≠ .blockFlattened outer inner) :
    Terse (Layout.substitute table key unknown) := by
  unfold Layout.substitute
  split
  · exact give _
  · exact report unlike _

theorem attributeText (value : Datum) : Terse (Layout.attributeText setting value) := by
  unfold Layout.attributeText
  split
  · exact give _
  · split
    · exact give _
    · exact stop _

theorem linkText (node : Node) : Terse (Layout.linkText setting node) := by
  unfold Layout.linkText
  split
  · split
    · exact give _
    · exact attributeText setting _
  · exact attributeText setting _

/-- What is to be reported of a reference is no flattening. -/
theorem ne_blockFlattened_of_lookUp {numbered : Numbering.Numbered} {place : Place}
    {expression text : String} {event : LogEvent}
    (found : numbered.lookUp place expression = (text, some event)) (outer inner : Kind) :
    event ≠ .blockFlattened outer inner := by
  rintro rfl
  unfold Numbering.Numbered.lookUp at found
  split at found
  · split at found <;> cases found
  · split at found
    · cases found
    · split at found <;> cases found

theorem referenceText (node : Node) (place : Place) :
    Terse (Layout.referenceText setting node place) := by
  unfold Layout.referenceText
  split
  · refine report ?_ _
    exact nofun
  · rename_i numbered _
    rcases found : numbered.lookUp place node.payload.content with ⟨text, event | event⟩
    · exact give _
    · exact report (ne_blockFlattened_of_lookUp found) _

/-- A leaf gives its text at once. -/
theorem leafText (node : Node) (place : Place) (indent : Nat) :
    Terse (Layout.leafText setting node place indent) := by
  unfold Layout.leafText
  split <;> first
    | exact give _
    | exact substitute _ _ nofun
    | exact linkText setting node
    | exact attributeText setting _
    | exact referenceText setting node place

end Terse

/-- A reference is looked up, and what is to be reported of it enters the log. -/
theorem outcome_referenceText
    (options : Options) (numbered : Numbering.Numbered) (node : Node) (place : Place)
    (workspace : Workspace) :
    outcome (referenceText { options := options, numbered := some numbered } node place)
        workspace =
      (.ok (numbered.lookUp place node.payload.content).1.toList,
        { workspace with
          log := workspace.log ++ (numbered.lookUp place node.payload.content).2.toList }) := by
  unfold referenceText
  dsimp only
  rcases numbered.lookUp place node.payload.content with ⟨text, event | event⟩
  · simp only [Option.toList_none, List.append_nil]
    rfl
  · rfl

end Layout
end Galley
