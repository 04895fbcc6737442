import Galley.Datum

/-!
# Failures and faults

A failure is one of the library's own error reports, with its wording and the facts it
carries.  A fault is anything that stops a computation: a failure, a refused value, or a
value of the wrong shape.  Faults are causes; the wording of each is in one place.
-/

namespace Galley

/-- The two groups of settings: of the renderer and of the Markdown reader. -/
inductive OptionsFamily where
  | ascii
  | markdown
  deriving DecidableEq, Repr

/-- The name under which messages show a group of settings. -/
def OptionsFamily.label : OptionsFamily → String
  | .ascii => "AsciiRendererOptions"
  | .markdown => "MarkdownParserOptions"

/-- The classes of failures. -/
inductive FailureClass where
  | general
  | validation
  | invalidOptions
  | parsing
  | rendering
  | malformedTree
  | dependency
  deriving DecidableEq, Repr

/-- A class and all wider ones, narrowest first. -/
def FailureClass.lineage : FailureClass → List FailureClass
  | .general => [.general]
  | .validation => [.validation, .general]
  | .parsing => [.parsing, .general]
  | .rendering => [.rendering, .general]
  | .dependency => [.dependency, .general]
  | .invalidOptions => [.invalidOptions, .validation, .general]
  | .malformedTree => [.malformedTree, .rendering, .general]

/-- The facts that a failure carries beside its wording. -/
inductive FailureDetail where
  | general
  | validation (parameter : Option String) (value : Datum)
  | invalidOptions (converter : String) (expected received : OptionsFamily)
  | parsing (stage : Option String)
  | rendering (stage : Option String)
  | malformedTree (nodeKind : Option String)
  | dependency (converter : String) (missing : List String)
  deriving Repr

/-- The class of a failure with the given facts. -/
def FailureDetail.class : FailureDetail → FailureClass
  | .general => .general
  | .validation _ _ => .validation
  | .invalidOptions _ _ _ => .invalidOptions
  | .parsing _ => .parsing
  | .rendering _ => .rendering
  | .malformedTree _ => .malformedTree
  | .dependency _ _ => .dependency

/-- What a failure was caused by: a package that is not installed, or an error of a
named kind. -/
inductive FailureCause where
  | missingPackage
  | named (kind : String)
  deriving DecidableEq, Repr

/-- An error report of the library. -/
structure Failure where
  /-- The facts of its class. -/
  detail : FailureDetail
  /-- The wording. -/
  message : String
  /-- The error behind it, if there was one. -/
  cause : Option FailureCause := none
  deriving Repr

namespace Failure

/-- Settings of one group were given where another was expected. -/
def wrongOptions (converter : String) (expected received : OptionsFamily) : Failure where
  detail := .invalidOptions converter expected received
  message := converter ++ " expected options of type '" ++ expected.label ++ "' but received '"
    ++ received.label ++ "'."

/-- Packages that a component needs are not installed. -/
def missingPackages (converter : String) (missing : List String) : Failure where
  detail := .dependency converter missing
  message := converter ++ " requires the following packages: "
    ++ ", ".intercalate (missing.map fun name => "'" ++ name ++ "'")
    ++ "\nInstall with: pip install " ++ " ".intercalate missing

/-- Names that are no rendering options, in increasing order. -/
def unknownOptions (names : List String) (first : Option String) (value : Datum) : Failure where
  detail := .validation first value
  message := "Unknown rendering option(s): " ++ ", ".intercalate names

/-- The tokenizer gave up. -/
def untokenized (reason kind : String) : Failure where
  detail := .parsing (some "tokenize")
  message := "Failed to parse Markdown: " ++ reason
  cause := some (.named kind)

/-- A node kind has no conversion rule; the kind is given as messages show it. -/
def noConversion (shown : String) : Failure where
  detail := .rendering (some "dispatch")
  message := "No conversion rule for node kind " ++ shown

/-- A span node holds a block node and the nesting policy forbids it. -/
def blockInSpan (outer inner : String) : Failure where
  detail := .malformedTree (some inner)
  message := "Span node '" ++ outer ++ "' contains block node '" ++ inner ++ "'"

end Failure

/-- Why a value is refused. -/
inductive ValueFault where
  | unknownKind (name : String)
  | levelNotPositive (level : Datum)
  | malformedNumeral (text : String)
  | longNumeral (digits : Nat)
  | columnNotPositive (value : Datum)
  | negativeSetting (name : String) (value : Datum)
  | unknownPolicy (value : Datum)
  | zeroStep
  deriving Repr

/-- How much of the quoted form of a malformed numeral a message shows. -/
def shownNumeralLimit : Nat := 200

/-- The wording of a refusal. -/
def ValueFault.message : ValueFault → String
  | .unknownKind name => Text.quoted name ++ " is not a valid NodeType"
  | .levelNotPositive level => "Heading level must be positive, got " ++ level.display
  | .malformedNumeral text =>
      "invalid literal for int() with base 10: "
        ++ String.ofList ((Text.quoted text).toList.take shownNumeralLimit)
  | .longNumeral digits =>
      "Exceeds the limit (" ++ toString Text.numeralLimit
        ++ " digits) for integer string conversion: value has " ++ toString digits
        ++ " digits; use sys.set_int_max_str_digits() to increase the limit"
  | .columnNotPositive value => "max_column must be positive, got " ++ value.display
  | .negativeSetting name value => name ++ " must be non-negative, got " ++ value.display
  | .unknownPolicy value =>
      "nesting_policy must be 'flatten' or 'reject', got " ++ value.quoted
  | .zeroStep => "slice step cannot be zero"

/-- What stops a computation. -/
inductive Fault where
  /-- A failure of the library. -/
  | failure (report : Failure)
  /-- A value outside its range. -/
  | value (reason : ValueFault)
  /-- A value of the wrong type. -/
  | wrongType
  /-- A position beyond the end of a sequence. -/
  | outOfRange
  /-- A field was asked of a value that has none. -/
  | noField
  /-- A name that a table does not hold. -/
  | unknownName
  /-- An operation that a component does not offer. -/
  | unsupported (component : String)
  deriving Repr

/-- The wording of an operation that a renderer does not offer. -/
def Fault.unsupportedMessage (component : String) : String :=
  component ++ " does not support rendering to a string."

/-- The whole number that a value stands for: numbers, truth values and numerals are
read, all else has the wrong type. -/
def Datum.toInteger : Datum → Except Fault Int
  | .int value => .ok value
  | .bool value => .ok (Datum.ofTruth value)
  | .text numeral =>
      match Text.readNumeral numeral.toList with
      | .number value => .ok value
      | .malformed => .error (.value (.malformedNumeral numeral))
      | .tooLong digits => .error (.value (.longNumeral digits))
  | _ => .error .wrongType

end Galley
