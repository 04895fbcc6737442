import Galley.Failure

/-!
# Markdown options

Which extensions of Markdown the reader recognises.  Each extension has a setting and is
switched on unless the setting says otherwise.
-/

namespace Galley
namespace Markdown

/-- Settings of the Markdown reader. -/
structure Options where
  /-- Pipe tables. -/
  tables : Datum := .bool true
  /-- Footnotes. -/
  footnotes : Datum := .bool true
  /-- Math between dollar signs. -/
  math : Datum := .bool true
  /-- Definition lists. -/
  definitionLists : Datum := .bool true
  /-- Text struck through between tildes. -/
  strikethrough : Datum := .bool true
  /-- Abbreviations and their definitions. -/
  abbreviations : Datum := .bool true
  /-- Labels, references, action items and issue links. -/
  extensions : Datum := .bool true
  deriving Repr, Inhabited

/-- An extension of Markdown. -/
inductive Extension where
  | strikethrough
  | tables
  | footnotes
  | math
  | definitionLists
  | abbreviations
  | crossReferences
  deriving DecidableEq, Repr

namespace Options

/-- The settings as named values. -/
def toFields (options : Options) : Fields :=
  [("parse_tables", options.tables),
    ("parse_footnotes", options.footnotes),
    ("parse_math", options.math),
    ("parse_definition_lists", options.definitionLists),
    ("parse_strikethrough", options.strikethrough),
    ("parse_abbreviations", options.abbreviations),
    ("parse_extensions", options.extensions)]

/-- Update settings by named values; a name of no setting is refused. -/
def update (options : Options) (changes : Fields) : Except Fault Options :=
  let fields := options.toFields
  if changes.all fun change => (fields.get? change.1).isSome then
    let changed := changes.foldl (fun fields change => fields.set change.1 change.2) fields
    let setting (name : String) : Datum := changed.getD name .null
    .ok {
      tables := setting "parse_tables"
      footnotes := setting "parse_footnotes"
      math := setting "parse_math"
      definitionLists := setting "parse_definition_lists"
      strikethrough := setting "parse_strikethrough"
      abbreviations := setting "parse_abbreviations"
      extensions := setting "parse_extensions" }
  else .error .wrongType

/-- The extensions that settings switch on, in the order in which the reader takes
them. -/
def enabled (options : Options) : List Extension :=
  let choices : List (Extension × Datum) := [
    (.strikethrough, options.strikethrough),
    (.tables, options.tables),
    (.footnotes, options.footnotes),
    (.math, options.math),
    (.definitionLists, options.definitionLists),
    (.abbreviations, options.abbreviations),
    (.crossReferences, options.extensions)]
  (choices.filter fun choice => choice.2.isTruthy).map (·.1)

end Options

end Markdown
end Galley
