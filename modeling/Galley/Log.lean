import Galley.Document.Node

/-!
# Log events

What the library reports beside its results.  An event knows its wording, whether it is
a warning, and the part of the library that it comes from.
-/

namespace Galley

/-- The parts of the library that report events. -/
inductive LogSource where
  | numbering
  | lookup
  | layout
  | reader
  | pipeline
  deriving DecidableEq, Repr

/-- Something that the library reports. -/
inductive LogEvent where
  /-- A label was declared again by another node. -/
  | labelRedefined (label : String)
  /-- A label stands at the root and has nothing to name. -/
  | labelHomeless (value : Payload)
  /-- The numbering pass is complete. -/
  | numbered (labels headings items : Nat)
  /-- A reference names a node that has no mark. -/
  | unmarkedTarget (expression : String)
  /-- A reference is neither a known label nor a run of signs. -/
  | unresolved (expression : String)
  /-- A run of signs leads out of the group of its anchor. -/
  | noRelativeTarget (expression : String)
  /-- The tree that is about to be laid out. -/
  | treeListed (listing : String)
  /-- A block in a span was flattened. -/
  | blockFlattened (outer inner : Kind)
  /-- A symbol key without a substitute. -/
  | unknownSymbol (key : String)
  /-- A quote key without a substitute. -/
  | unknownQuote (key : String)
  /-- A reference was laid out on its own, with no tables at hand. -/
  | referenceAlone (value : Payload)
  /-- A rendering is complete. -/
  | rendered
  /-- The reader built a document from so many blocks. -/
  | blocksRead (count : Nat)
  /-- A block token without counterpart was left out. -/
  | blockTokenSkipped (kind : Datum)
  /-- An inline token without counterpart was left out. -/
  | inlineTokenSkipped (kind : Datum)
  /-- A source text was read. -/
  | sourceRead
  deriving Repr

namespace LogEvent

/-- The part of the library that an event comes from. -/
def source : LogEvent → LogSource
  | .labelRedefined _ | .labelHomeless _ | .numbered _ _ _ => .numbering
  | .unmarkedTarget _ | .unresolved _ | .noRelativeTarget _ => .lookup
  | .treeListed _ | .blockFlattened _ _ | .unknownSymbol _ | .unknownQuote _
  | .referenceAlone _ | .rendered => .layout
  | .blocksRead _ | .blockTokenSkipped _ | .inlineTokenSkipped _ => .reader
  | .sourceRead => .pipeline

/-- Whether an event is a warning; all others are for debugging. -/
def isWarning : LogEvent → Bool
  | .unmarkedTarget _ | .unresolved _ | .noRelativeTarget _ | .blockFlattened _ _
  | .unknownSymbol _ | .unknownQuote _ | .referenceAlone _ => true
  | _ => false

/-- The wording of an event.  Durations are not part of it. -/
def message : LogEvent → String
  | .labelRedefined label =>
      "Label " ++ Text.quoted label ++ " redefined; the later definition wins"
  | .labelHomeless value => "Label " ++ value.quoted ++ " has no enclosing node to name"
  | .numbered labels headings items =>
      "Reference pass: " ++ toString labels ++ " labels, " ++ toString headings ++ " headers, "
        ++ toString items ++ " list items"
  | .unmarkedTarget expression =>
      "Reference " ++ Text.quoted expression ++ " names a node without a mark"
  | .unresolved expression => "Unresolved reference " ++ Text.quoted expression
  | .noRelativeTarget expression =>
      "Relative reference " ++ Text.quoted expression ++ " has no target"
  | .treeListed listing => "Document tree:\n" ++ listing
  | .blockFlattened outer inner =>
      "Span node '" ++ outer.name ++ "' contains block node '" ++ inner.name
        ++ "'; flattening its text"
  | .unknownSymbol key => "Unknown typographic symbol " ++ Text.quoted key
  | .unknownQuote key => "Unknown smart quote " ++ Text.quoted key
  | .referenceAlone value =>
      "Reference " ++ value.quoted ++ " rendered outside render_to_string; left unresolved"
  | .rendered => "ASCII rendering completed in Ts"
  | .blocksRead count => "Parsed " ++ toString count ++ " top-level blocks"
  | .blockTokenSkipped kind => "Skipping mistune block token " ++ kind.quoted
  | .inlineTokenSkipped kind => "Skipping mistune inline token " ++ kind.quoted
  | .sourceRead => "Parsing (markdown) completed in Ts"

end LogEvent

/-- Reported events, in order. -/
abbrev Log := List LogEvent

/-- A computation that may stop at a fault and reports events on its way. -/
abbrev Reporting := ExceptT Fault (StateM Log)

namespace Reporting

/-- Report an event. -/
def event (reported : LogEvent) : Reporting Unit :=
  modify fun log => log ++ [reported]

/-- Carry on with an outcome and the events that were reported before it. -/
def ofOutcome (outcome : Except Fault α × Log) : Reporting α := do
  modify fun log => log ++ outcome.2
  outcome.1

end Reporting

end Galley
