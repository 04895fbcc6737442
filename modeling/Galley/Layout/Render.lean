import Galley.Document.Listing
import Galley.Layout.Held
import Galley.Numbering.Lookup

/-!
# Rendering

A tree is laid out in two stages: the numbering pass annotates it, then every node is
converted to text from the top down.  A block node gives lines that are already indented
and end with one newline; a span node gives raw text that flows with its neighbours
until the enclosing block lays it out.

A renderer keeps the held code of earlier conversions, which placeholders in later text
may refer to; a whole rendering starts with none.
-/

namespace Galley
namespace Layout

/-- What a renderer keeps between conversions, and what it has reported. -/
structure Workspace where
  /-- Held code, in order of conversion. -/
  held : List (List Char) := []
  /-- Events, in order. -/
  log : Log := []

/-- A computation of a renderer.  What it kept remains when it stops at a fault. -/
abbrev Render := ExceptT Fault (StateM Workspace)

/-- What a conversion is governed by. -/
structure Setting where
  /-- The options. -/
  options : Options
  /-- The tables that references are looked up in, during a whole rendering. -/
  numbered : Option Numbering.Numbered := none

/-- Report an event. -/
def report (event : LogEvent) : Render Unit :=
  modify fun workspace => { workspace with log := workspace.log ++ [event] }

/-- Hold code and give what stands for it. -/
def hold (code : List Char) : Render (List Char) := do
  let workspace ← get
  set { workspace with held := workspace.held ++ [code] }
  return placeholder workspace.held.length

/-- Lay out span text with the code held so far. -/
def flush (setting : Setting) (indent : Nat) (wraps : Bool) (text : List Char) :
    Render (List Char) := do
  let workspace ← get
  (layoutSpan setting.options workspace.held indent wraps text : Except Fault (List Char))

/-- Substitutes of typographic symbols. -/
def symbolSubstitutes : List (String × String) := [
  ("mdash", "---"), ("ndash", "--"), ("hellip", "..."),
  ("laquo_space", "<<"), ("raquo_space", ">>"), ("laquo", "<< "), ("raquo", " >>")]

/-- Substitutes of quotes. -/
def quoteSubstitutes : List (String × String) := [
  ("lsquo", "'"), ("rsquo", "'"), ("ldquo", "\""), ("rdquo", "\"")]

/-- The substitute of a key, or nothing but a report. -/
def substitute (table : List (String × String)) (key : String) (unknown : String → LogEvent) :
    Render (List Char) :=
  match table.lookup key with
  | some text => pure text.toList
  | none => do
      report (unknown key)
      return []

/-- The text of an attribute.  Anything but a text can be shown only between debug
tags. -/
def attributeText (setting : Setting) (value : Datum) : Render (List Char) :=
  match value with
  | .text text => pure text.toList
  | other => if setting.options.debug then pure other.display.toList else throw .wrongType

/-- A link shows the text that is its only child, or else its target. -/
def linkText (setting : Setting) (node : Node) : Render (List Char) :=
  match node.children with
  | [⟨.text, payload, _, _, _⟩] =>
      if payload.isTruthy then pure ("[" ++ payload.display ++ "]").toList
      else attributeText setting (node.attributes.getD "href" (.text ""))
  | _ => attributeText setting (node.attributes.getD "href" (.text ""))

/-- An image shows its source, or else its target. -/
def imageText (setting : Setting) (node : Node) : Render (List Char) :=
  let source := node.attributes.getD "src" .null
  attributeText setting
    (if source.isTruthy then source else node.attributes.getD "href" (.text ""))

/-- A reference shows the mark of its target. -/
def referenceText (setting : Setting) (node : Node) (place : Place) : Render (List Char) :=
  match setting.numbered with
  | none => do
      report (.referenceAlone node.payload)
      return Numbering.unresolvedText.toList
  | some numbered => do
      let (text, event) := numbered.lookUp place node.payload.content
      match event with
      | some event => report event
      | none => pure ()
      return text.toList

/-- An issue link shows what it matched. -/
def issueText (node : Node) : List Char :=
  match node.options.get? "match" with
  | some .null => []
  | some value => value.display.toList
  | none => node.payload.content.toList

/-- The text of a node that is shown by itself, whatever its children. -/
def leafText (setting : Setting) (node : Node) (place : Place) (indent : Nat) :
    Render (List Char) :=
  match node.kind with
  | .horizontalRule => pure (horizontalRule setting.options.maxColumn indent)
  | .codeblock | .inlineCode =>
      pure (verbatim setting.options.ruleWidth indent node.payload.content.toList)
  | .text => pure node.payload.content.toList
  | .lineBreak => pure ['\n']
  | .link => linkText setting node
  | .image => imageText setting node
  | .typographicSymbol => substitute symbolSubstitutes node.payload.display .unknownSymbol
  | .smartQuote => substitute quoteSubstitutes node.payload.display .unknownQuote
  | .reference => referenceText setting node place
  | .actionItem =>
      pure ("-->(" ++ (node.options.getD "assignee" (.text "")).display ++ ")").toList
  | .issueLink => pure (issueText node)
  | .rawPassthrough =>
      pure (node.payload.content.toList ++ if node.isBlock then ['\n'] else [])
  | _ => pure []

/-- How the text of a node comes from its children. -/
inductive Shape where
  /-- Lines at an extra indentation. -/
  | region (extra : Nat)
  /-- Lines that hang under a bullet. -/
  | hanging (bullet : List Char)
  /-- Lines between two rules. -/
  | quote
  /-- Cells on one line. -/
  | row
  /-- Span text without newlines. -/
  | inline
  /-- Span text without newlines; as a block it takes lines of its own. -/
  | math
  /-- Text that does not come from the children. -/
  | leaf
  deriving DecidableEq, Repr

/-- The bullet of a heading: its section number and a parenthesis. -/
def headingBullet? (node : Node) : Option (List Char) :=
  match node.fullMark? with
  | some mark => if mark.isEmpty then none else some (mark ++ ")").toList
  | none => none

/-- The bullet of a list item: its ordinal in parentheses, or an asterisk. -/
def itemBullet (node : Node) : List Char :=
  match node.payload with
  | .item marks => ("(" ++ marks.mark ++ ")").toList
  | _ => ['*']

/-- The shape of a node. -/
def shape (options : Options) (node : Node) : Shape :=
  match node.kind with
  | .root | .blank | .paragraph | .unorderedList | .orderedList | .table | .tableHead | .tableBody
  | .tableFoot | .tableCell | .definitionList | .definitionTerm => .region 0
  | .definitionDescription => .region options.indentStep
  | .header =>
      match headingBullet? node with
      | some bullet => .hanging bullet
      | none => .region 0
  | .listItem => .hanging (itemBullet node)
  | .blockquote => .quote
  | .tableRow => .row
  | .emphasis | .strong | .entity | .abbreviation => .inline
  | .math => .math
  | _ => .leaf

/-- Whether the span text of a block is wrapped: not inside a quote. -/
def wrapsAt (node : Node) (place : Place) : Bool :=
  node.kind != .blockquote && !place.within .blockquote

/-- A text between the tags of a kind in a class. -/
def enclose (tagClass kind text : List Char) : List Char :=
  Marker.opening tagClass kind ++ text ++ Marker.closing tagClass kind

/-- The text of a node between its debug tags.  The tags of a block stand behind its
indentation and before its last newline. -/
def tag (node : Node) (text : List Char) : List Char :=
  let kind := node.kind.name.toList
  if node.isSpan && node.kind != .inlineCode then enclose Marker.spanClass kind text
  else
    let lead := text.takeWhile (· == ' ')
    let body := text.dropWhile (· == ' ')
    if body.getLast? = some '\n' then
      lead ++ enclose Marker.blockClass kind body.dropLast ++ ['\n']
    else lead ++ enclose Marker.blockClass kind body

/-- The text of a node, tagged where debugging is on. -/
def finish (setting : Setting) (node : Node) (text : List Char) : List Char :=
  if setting.options.debug then tag node text else text

/-- A kind as messages about missing rules show it. -/
def shownKind (kind : Kind) : String :=
  match kind with
  | .foreign name => Text.quoted name
  | known =>
      let constant := known.name.toList.map fun character =>
        if character = '-' then '_' else character.toUpper
      "<NodeType." ++ String.ofList constant ++ ": " ++ Text.quoted known.name ++ ">"

mutual

/-- Convert a node and all nodes below it at an indentation. -/
def convert (setting : Setting) (node : Node) (place : Place) (indent : Nat) :
    Render (List Char) :=
  match node with
  | ⟨kind, payload, attributes, options, children⟩ => do
      let bare : Node := ⟨kind, payload, attributes, options, children⟩
      if !kind.isKnown then throw (.failure (.noConversion (shownKind kind)))
      let wraps := wrapsAt bare place
      let debug := setting.options.debug
      let text ←
        match shape setting.options bare with
        | .region extra => do
            let body ← flow setting children bare place 0 (indent + extra) wraps []
            pure (trimTail debug body ++ ['\n'])
        | .hanging bullet => do
            let inner := indent + Columns.ofText bullet + 1
            let body ← flow setting children bare place 0 inner wraps []
            pure (trimTail debug (hang debug bullet indent inner body) ++ ['\n'])
        | .quote => do
            let body ← flow setting children bare place 0 (indent + setting.options.quoteIndent)
              wraps []
            let bar := rule setting.options.ruleWidth indent
            pure (bar ++ '\n' :: trimTail debug body ++ '\n' :: bar ++ ['\n'])
        | .row => do
            let cells ← convertCells setting children bare place 0
            match setting.options.cellSeparator with
            | some separator => pure (rowLine separator.toList indent cells)
            | none => throw .noField
        | .inline => do
            let content ← convertInline setting children bare place 0 indent
            pure (joinLines (if children.isEmpty then payload.content.toList else content))
        | .math => do
            let content ← convertInline setting children bare place 0 indent
            let line := joinLines (if children.isEmpty then payload.content.toList else content)
            if bare.isBlock then flush setting indent false line else pure line
        | .leaf => leafText setting bare place indent
      return finish setting bare text
termination_by structural node

/-- Convert the children of a block.  Spans are gathered until a block or the end; then
they are laid out with the code held among them. -/
def flow (setting : Setting) (siblings : List Node) (parent : Node) (place : Place) (index : Nat)
    (inner : Nat) (wraps : Bool) (span : List Char) : Render (List Char) :=
  match siblings with
  | [] => flush setting inner wraps span
  | child :: rest => do
      let text ← convert setting child (place.enter parent index) inner
      if child.kind == .inlineCode then
        let stand ← hold text
        flow setting rest parent place (index + 1) inner wraps (span ++ stand)
      else if child.isSpan then
        flow setting rest parent place (index + 1) inner wraps (span ++ text)
      else
        let before ← flush setting inner wraps span
        let after ← flow setting rest parent place (index + 1) inner wraps []
        return before ++ text ++ after
termination_by structural siblings

/-- Convert the children of a span.  A block among them is flattened to its words or
refused. -/
def convertInline (setting : Setting) (siblings : List Node) (parent : Node) (place : Place)
    (index : Nat) (indent : Nat) : Render (List Char) :=
  match siblings with
  | [] => pure []
  | child :: rest => do
      let inside := place.enter parent index
      let piece ←
        if child.kind == .inlineCode then do
          let text ← convert setting child inside indent
          hold text
        else if child.isBlock then do
          match setting.options.nesting with
          | .reject =>
              throw (.failure (.blockInSpan parent.kind.name child.kind.name))
          | .flatten => do
              report (.blockFlattened parent.kind child.kind)
              let text ← convert setting child inside 0
              pure (unwords (Text.words text))
        else convert setting child inside indent
      let others ← convertInline setting rest parent place (index + 1) indent
      return piece ++ others
termination_by structural siblings

/-- Convert the cells of a row. -/
def convertCells (setting : Setting) (siblings : List Node) (parent : Node) (place : Place)
    (index : Nat) : Render (List (List Char)) :=
  match siblings with
  | [] => pure []
  | cell :: rest => do
      let text ← convert setting cell (place.enter parent index) 0
      let others ← convertCells setting rest parent place (index + 1)
      return cellContent text :: others
termination_by structural siblings

end

/-- Convert a node by itself, outside a whole rendering.  Indentations below zero count
as zero. -/
def convertAlone (options : Options) (node : Node) (place : Place) (indent : Int) :
    Render String := do
  let text ← convert { options := options } node place indent.toNat
  return String.ofList text

/-- Number a tree as part of a rendering. -/
def numberTree (tree : Node) : Render Numbering.Numbered := do
  let (outcome, events) := Numbering.resolve tree
  modify fun workspace => { workspace with log := workspace.log ++ events }
  outcome

/-- Render a tree to text.  Held code of earlier conversions is forgotten once the tree
is numbered. -/
def render (options : Options) (tree : Node) : Render String := do
  let numbered ← numberTree tree
  if options.debug then
    let listing ← Listing.format numbered.tree
    report (.treeListed listing)
  modify fun workspace => { workspace with held := [] }
  let text ← convert { options := options, numbered := some numbered } numbered.tree Place.root 0
  report .rendered
  return String.ofList text

/-- Visit a node by the rule for kinds without a rule. -/
def refuse (node : Node) : Render String :=
  throw (.failure (.noConversion (shownKind node.kind)))

/-- Render a tree with a new renderer: the outcome and the events. -/
def renderTree (options : Options) (tree : Node) : Except Fault String × Log :=
  let (outcome, workspace) := (render options tree).run {}
  (outcome, workspace.log)

end Layout
end Galley
