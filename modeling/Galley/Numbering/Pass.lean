import Galley.Document.Place
import Galley.Log
import Galley.Numbering.PositionTable
import Galley.Ordinal

/-!
# Numbering pass

One traversal, each node before its children, gives every heading and every list item
its position among its siblings, its mark where the reader supplied none, and an entry
in a position table; it also collects the labels.  The result is an annotated tree with
tables of paths into it.

Headings are counted by one stack of counters for the whole document.  Ordered items are
marked by their position and by the depth of ordered lists around them.
-/

namespace Galley
namespace Numbering

/-- Labels in the order of their first declaration, each with the path of the node it
names. -/
abbrev LabelTable := List (String × Path)

/-- What the pass has gathered so far. -/
structure State where
  /-- The labels declared so far. -/
  labels : LabelTable := []
  /-- The headings met so far, by the path of their parent. -/
  headings : PositionTable (Option Path) Path := {}
  /-- The list items met so far, by the path of their parent. -/
  items : PositionTable (Option Path) Path := {}
  /-- Headings counted at each level since the last heading of a smaller level. -/
  counters : List Nat := []
  /-- Marks of the enclosing marked items, outermost first. -/
  openMarks : List String := []
  /-- Events, in order. -/
  log : Log := []
  deriving Repr

/-- A computation of the pass.  What it gathered remains when it stops at a fault. -/
abbrev Pass := ExceptT Fault (StateM State)

/-- Declare a label; a later declaration replaces an earlier one. -/
def LabelTable.declare : LabelTable → String → Path → LabelTable
  | [], label, path => [(label, path)]
  | (known, place) :: rest, label, path =>
      if known = label then (known, path) :: rest else (known, place) :: declare rest label path

/-- Count one more heading of a level: deeper counts start over, missing counts are
zero. -/
def advance (counters : List Nat) (depth : Nat) : List Nat :=
  let before := counters.take (depth - 1)
  before ++ List.replicate (depth - 1 - before.length) 0 ++ [(counters[depth - 1]?).getD 0 + 1]

/-- The dotted number of a section, without the leading counts that are zero. -/
def sectionNumber (counters : List Nat) : String :=
  ".".intercalate ((counters.dropWhile (· == 0)).map toString)

/-- A text, or another where it is missing or empty. -/
def orIfEmpty (text : Option String) (fallback : String) : String :=
  match text with
  | some present => if present.isEmpty then fallback else present
  | none => fallback

/-- Marks of a heading after it was counted; a supplied section number is kept. -/
def markHeading (counters : List Nat) (marks : HeadingMark) : HeadingMark :=
  match marks.fullMark with
  | some _ => marks
  | none =>
      { marks with
        mark := some (orIfEmpty marks.mark (toString (counters.getLast?.getD 0)))
        fullMark := some (sectionNumber counters) }

/-- Marks of a heading before it was counted: those of the reader, else the level that
the payload or the options give. -/
def headingMarks (payload : Payload) (options : Fields) : Except Fault HeadingMark :=
  match payload with
  | .heading marks => .ok marks
  | .data value =>
      match value.number? with
      | some number => .ok { level := .clamp number }
      | none => do
          let number ← (options.getD "level" (.int 1)).toInteger
          return { level := .clamp number }
  | .item _ => do
      let number ← (options.getD "level" (.int 1)).toInteger
      return { level := .clamp number }

/-- Number of ordered lists around a place. -/
def orderedDepth (place : Place) : Nat :=
  place.ancestors.countP fun node => node.kind == .orderedList

/-- Marks of a list item: a text of the reader, the ordinal of an item of an ordered
list, or none. -/
def itemPayload (payload : Payload) (place : Place) (position : Nat) : Except Fault Payload :=
  match payload with
  | .data (.text mark) =>
      .ok (if mark.isEmpty then payload else .item { mark := mark })
  | .data .null =>
      match place.parent? with
      | some parent =>
          if parent.kind == .orderedList then do
            let start ← (parent.options.getD "start" (.int 1)).toInteger
            return .item
              { mark := Ordinal.format (start + position)
                  (.atDepth (orderedDepth place - 1)) }
          else .ok payload
      | none => .ok payload
  | _ => .ok payload

/-- Complete the marks of an item by the chain of the marks around it; a supplied chain
is kept. -/
def chainMarks (openMarks : List String) : Payload → Payload
  | .item marks =>
      match marks.fullMark with
      | some _ => .item marks
      | none =>
          .item { marks with fullMark := some (".".intercalate (openMarks ++ [marks.mark])) }
  | payload => payload

/-- Report an event. -/
def report (event : LogEvent) : Pass Unit :=
  modify fun state => { state with log := state.log ++ [event] }

/-- Make a label name the node at a path. -/
def declareLabel (label : String) (path : Path) : Pass Unit := do
  let state ← get
  match state.labels.lookup label with
  | some previous => if previous ≠ path then report (.labelRedefined label)
  | none => pure ()
  modify fun state => { state with labels := state.labels.declare label path }

/-- Declare the label that a heading or an item carries in its options. -/
def declareOwnLabel (node : Node) (path : Path) : Pass Unit :=
  match node.label? with
  | some label => declareLabel label path
  | none => pure ()

/-- Number a heading. -/
def visitHeading (node : Node) (place : Place) : Pass Node := do
  let scope := place.parentPath?
  let position := (← get).headings.nextPosition scope
  modify fun state => { state with headings := state.headings.add scope place.path }
  let options := node.options.set Node.positionKey (.int position)
  let marks ← (headingMarks node.payload options : Except Fault HeadingMark)
  modify fun state => { state with counters := advance state.counters marks.level.depth }
  let payload := Payload.heading (markHeading (← get).counters marks)
  let numbered := { node with payload := payload, options := options }
  declareOwnLabel numbered place.path
  return numbered

/-- Number a list item. -/
def visitItem (node : Node) (place : Place) : Pass Node := do
  let scope := place.parentPath?
  let position := (← get).items.nextPosition scope
  modify fun state => { state with items := state.items.add scope place.path }
  let options := node.options.set Node.positionKey (.int position)
  let payload ← (itemPayload node.payload place position : Except Fault Payload)
  let numbered :=
    { node with payload := chainMarks (← get).openMarks payload, options := options }
  declareOwnLabel numbered place.path
  return numbered

/-- Make a label node name the nearest heading or item around it, or else its parent. -/
def visitLabel (node : Node) (place : Place) : Pass Node := do
  if node.payload.isTruthy then
    match (place.nearest? [.header, .listItem]).or place.parentPath? with
    | some target => declareLabel node.payload.display target
    | none => report (.labelHomeless node.payload)
  return node

/-- Number a node by itself. -/
def visit (node : Node) (place : Place) : Pass Node :=
  match node.kind with
  | .header => visitHeading node place
  | .listItem => visitItem node place
  | .label => visitLabel node place
  | .foreign name => throw (.value (.unknownKind name))
  | _ => pure node

/-- The mark that a node opens for the items below it. -/
def openedMark? (node : Node) : Option String :=
  match node.kind, node.payload with
  | .listItem, .item marks => some marks.mark
  | _, _ => none

/-- Put a mark behind the open ones. -/
def openMark (mark : Option String) : Pass Unit :=
  modify fun state => { state with openMarks := state.openMarks ++ mark.toList }

/-- Take back a mark that was opened. -/
def closeMark (mark : Option String) : Pass Unit :=
  modify fun state =>
    { state with openMarks := state.openMarks.take (state.openMarks.length - mark.toList.length) }

mutual

/-- Annotate a node and all nodes below it. -/
def annotate (node : Node) (place : Place) : Pass Node :=
  match node with
  | ⟨kind, payload, attributes, options, children⟩ => do
      let bare : Node := ⟨kind, payload, attributes, options, children⟩
      let numbered ← visit bare place
      let mark := openedMark? numbered
      openMark mark
      let below ← annotateSiblings children bare place 0
      closeMark mark
      return { numbered with children := below }
termination_by structural node

/-- Annotate siblings, the first of which has the given position under its parent. -/
def annotateSiblings (siblings : List Node) (parent : Node) (place : Place) (index : Nat) :
    Pass (List Node) :=
  match siblings with
  | [] => pure []
  | child :: rest => do
      let first ← annotate child (place.enter parent index)
      let others ← annotateSiblings rest parent place (index + 1)
      return first :: others
termination_by structural siblings

end

/-- An annotated tree and the tables of paths into it. -/
structure Numbered where
  /-- The annotated tree. -/
  tree : Node
  /-- The labels and what they name. -/
  labels : LabelTable
  /-- The headings in document order. -/
  headings : PositionTable (Option Path) Path
  /-- The list items in document order. -/
  items : PositionTable (Option Path) Path
  deriving Repr

/-- Number a tree from a given state.  Whatever an earlier run left behind is forgotten,
except the events it reported. -/
def traverse (tree : Node) : Pass Numbered := do
  modify fun state => { log := state.log }
  let annotated ← annotate tree Place.root
  let state ← get
  report (.numbered state.labels.length state.headings.entries.length state.items.entries.length)
  return ⟨annotated, state.labels, state.headings, state.items⟩

/-- Number a tree: the outcome and the events. -/
def resolve (tree : Node) : Except Fault Numbered × Log :=
  let (outcome, state) := (traverse tree).run {}
  (outcome, state.log)

end Numbering
end Galley
