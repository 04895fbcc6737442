import Galley.Failure

/-!
# Layout options

The settings of a rendering: column budget, indentations, width of the rules around
quotes and code, wrapping, cell separator, nesting policy and debug tags.  Settings are
read from named values, which are checked in a fixed order, and a set of settings can be
updated by further named values.
-/

namespace Galley
namespace Layout

/-- What to do with a block node directly inside a span node. -/
inductive NestingPolicy where
  /-- Collapse its text into the span. -/
  | flatten
  /-- Refuse the tree. -/
  | reject
  deriving DecidableEq, Repr

/-- The name of a nesting policy. -/
def NestingPolicy.name : NestingPolicy → String
  | .flatten => "flatten"
  | .reject => "reject"

/-- Settings of a rendering. -/
structure Options where
  /-- Column budget of wrapped text and of horizontal rules. -/
  maxColumn : Nat := 80
  /-- There is room for at least one column. -/
  maxColumn_pos : 0 < maxColumn := by decide
  /-- Extra indentation of definition descriptions. -/
  indentStep : Nat := 2
  /-- Extra indentation of quoted content. -/
  quoteIndent : Nat := 4
  /-- Number of dashes in the rules around quotes and code. -/
  ruleWidth : Nat := 23
  /-- Whether span text is wrapped. -/
  wraps : Bool := true
  /-- What stands between the cells of a table row; a setting that is no text cannot
  stand there. -/
  cellSeparator : Option String := some " | "
  /-- What happens to a block inside a span. -/
  nesting : NestingPolicy := .flatten
  /-- Whether the output shows which node each part comes from. -/
  debug : Bool := false
  deriving Repr

namespace Options

instance : Inhabited Options := ⟨{}⟩

/-- The names of the settings. -/
def names : List String :=
  ["max_column", "indent_step", "blockquote_indent", "separator_width", "wrap_text",
    "table_cell_separator", "nesting_policy", "debug"]

/-- The settings as named values. -/
def toFields (options : Options) : Fields :=
  [("max_column", .int options.maxColumn),
    ("indent_step", .int options.indentStep),
    ("blockquote_indent", .int options.quoteIndent),
    ("separator_width", .int options.ruleWidth),
    ("wrap_text", .bool options.wraps),
    ("table_cell_separator", options.cellSeparator.elim .null .text),
    ("nesting_policy", .text options.nesting.name),
    ("debug", .bool options.debug)]

/-- A setting that counts columns and may be zero. -/
def readWidth (fields : Fields) (name : String) : Except Fault Nat :=
  let value := fields.getD name .null
  match value.number? with
  | none => .error .wrongType
  | some number =>
      if number < 0 then .error (.value (.negativeSetting name value)) else .ok number.toNat

/-- Settings from a complete set of named values: the column budget is checked first,
then the widths, then the nesting policy. -/
def ofFields (fields : Fields) : Except Fault Options := do
  let column := fields.getD "max_column" .null
  match column.number? with
  | none => .error .wrongType
  | some number =>
      if positive : 0 < number.toNat then do
        let indentStep ← readWidth fields "indent_step"
        let quoteIndent ← readWidth fields "blockquote_indent"
        let ruleWidth ← readWidth fields "separator_width"
        let nesting ←
          match fields.getD "nesting_policy" .null with
          | .text "flatten" => .ok NestingPolicy.flatten
          | .text "reject" => .ok NestingPolicy.reject
          | other => .error (.value (.unknownPolicy other))
        return {
          maxColumn := number.toNat
          maxColumn_pos := positive
          indentStep := indentStep
          quoteIndent := quoteIndent
          ruleWidth := ruleWidth
          wraps := (fields.getD "wrap_text" .null).isTruthy
          cellSeparator := (fields.getD "table_cell_separator" .null).text?
          nesting := nesting
          debug := (fields.getD "debug" .null).isTruthy }
      else .error (.value (.columnNotPositive column))

/-- Change a complete set of named values and read settings from it; a name of no
setting is refused. -/
def change (fields changes : Fields) : Except Fault (Fields × Options) :=
  if changes.all fun change => names.contains change.1 then
    let changed := changes.foldl (fun fields change => fields.set change.1 change.2) fields
    (ofFields changed).map fun options => (changed, options)
  else .error .wrongType

/-- Update settings by named values; a name of no setting is refused. -/
def update (options : Options) (changes : Fields) : Except Fault Options :=
  (change options.toFields changes).map (·.2)

/-- Settings from named values, with the debug setting of the environment as default. -/
def make (environmentDebug : Bool) (changes : Fields) : Except Fault Options :=
  update { debug := environmentDebug } changes

/-- Whether the value of the environment variable turns debugging on: one of four words
in any case, with blanks around it.  Only ASCII letters have a small form that occurs in
these words. -/
def debugFromEnvironment (value : String) : Bool :=
  let word := String.ofList ((Text.trim value.toList).map Char.toLower)
  ["1", "true", "yes", "on"].contains word

/-- Update settings by the overrides of one call.  Names of no setting are reported
together, in increasing order. -/
def override (options : Options) (changes : Fields) : Except Fault Options :=
  let unknown := ((changes.map (·.1)).filter fun name => !names.contains name).mergeSort
    fun left right => decide (left ≤ right)
  match unknown with
  | [] => update options changes
  | first :: _ =>
      .error (.failure (.unknownOptions unknown (some first) (changes.getD first .null)))

end Options

end Layout
end Galley
