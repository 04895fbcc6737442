import Galley.Text.Blank
import Galley.Text.Numeral
import Galley.Text.WordChar

/-!
# Inline rules of cross references

Four forms of inline text beside those of Markdown: a label declares a name, a reference
uses one, an action item names somebody, and an issue link names an issue by its number.
Each rule says where its form stands in a text and which part of it is the raw text of
the token.
-/

namespace Galley
namespace Markdown

/-- The rules. -/
inductive InlineRule where
  | label
  | reference
  | action
  | issue
  deriving DecidableEq, Repr

namespace InlineRule

/-- The rules in the order in which they are tried. -/
def all : List InlineRule := [.label, .reference, .action, .issue]

/-- The name of the tokens of a rule. -/
def tokenName : InlineRule → String
  | .label => "asciimark_label"
  | .reference => "asciimark_reference"
  | .action => "asciimark_action_item"
  | .issue => "asciimark_issue_link"

/-- The form of a rule at the start of a text: its length and its raw text. -/
structure Match where
  /-- Number of characters of the form. -/
  length : Nat
  /-- The raw text of the token. -/
  raw : List Char
  deriving DecidableEq, Repr

/-- A form that is an opening, a run of inner characters, and a closing character. -/
def delimited? (opening : List Char) (inner : Char → Bool) (least : Nat) (closing : Char)
    (text : List Char) : Option Match :=
  (opening.isPrefixOf? text).bind fun rest =>
    let raw := rest.takeWhile inner
    if least ≤ raw.length ∧ (rest.drop raw.length).head? = some closing then
      some ⟨opening.length + raw.length + 1, raw⟩
    else none

/-- Characters of a name in a label or a reference. -/
def isNameChar (character : Char) : Bool :=
  character != ']' && !Text.isBlank character

/-- Characters of the name in an action item. -/
def isAssigneeChar (character : Char) : Bool :=
  character != ')' && character != '\n'

/-- Characters of the owner and of the repository in an issue link. -/
def isProjectChar (character : Char) : Bool :=
  Text.isWordChar character || character == '.' || character == '-'

/-- Characters that may not stand before an issue link. -/
def blocksIssue (character : Char) : Bool :=
  isProjectChar character || character == '/' || character == '#'

/-- The project before the number of an issue link: nothing, or an owner and a
repository. -/
def project? (text : List Char) : Option (List Char) :=
  if text.head? = some '#' then some []
  else
    let owner := text.takeWhile isProjectChar
    match text.drop owner.length with
    | '/' :: rest =>
        let repository := rest.takeWhile isProjectChar
        if owner.isEmpty || repository.isEmpty then none
        else some (owner ++ '/' :: repository)
    | _ => none

/-- The form of an issue link at the start of a text: a project, a number sign and
digits that no word character follows. -/
def issueForm? (text : List Char) : Option Match :=
  (project? text).bind fun project =>
    match text.drop project.length with
    | '#' :: rest =>
        let digits := rest.takeWhile Text.isDigit
        let follows := (rest.drop digits.length).head?
        if digits.isEmpty || follows.any Text.isWordChar then none
        else
          let raw := project ++ '#' :: digits
          some ⟨raw.length, raw⟩
    | _ => none

/-- The form of a rule at the start of a text, given the character before it. -/
def match? (rule : InlineRule) (before : Option Char) (text : List Char) : Option Match :=
  match rule with
  | .label => delimited? "[label:".toList isNameChar 1 ']' text
  | .reference => delimited? "[ref:".toList isNameChar 1 ']' text
  | .action => delimited? "-->(".toList isAssigneeChar 0 ')' text
  | .issue => if before.any blocksIssue then none else issueForm? text

/-- A form found in a text. -/
structure Found where
  /-- Position of its first character. -/
  start : Nat
  /-- Position behind its last character. -/
  stop : Nat
  /-- The raw text of the token. -/
  raw : List Char
  deriving DecidableEq, Repr

/-- All forms of a rule from a position on, after a number of characters that belong to
a form already found. -/
def scanFrom (rule : InlineRule) (position : Nat) (before : Option Char) :
    Nat → List Char → List Found
  | _, [] => []
  | skipped + 1, character :: rest =>
      scanFrom rule (position + 1) (some character) skipped rest
  | 0, character :: rest =>
      match rule.match? before (character :: rest) with
      | some found =>
          ⟨position, position + found.length, found.raw⟩
            :: scanFrom rule (position + 1) (some character) (found.length - 1) rest
      | none => scanFrom rule (position + 1) (some character) 0 rest

/-- All forms of a rule in a text, from left to right and without overlap. -/
def scan (rule : InlineRule) (text : List Char) : List Found :=
  scanFrom rule 0 none 0 text

end InlineRule

end Markdown
end Galley
