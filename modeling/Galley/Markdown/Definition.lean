import Galley.Markdown.BlockForm
import Galley.Markdown.Inline

/-!
# Definitions in a document

Lines that define what a name stands for: a link, a footnote, an abbreviation, or a term
with its descriptions.  A reader takes the text from the first of these lines on and
returns what they say and the lines after them.
-/

namespace Galley
namespace Markdown
namespace Definition

open BlockForm (cutLine cutWholeLine indented? leadingLines startsBlank)

/-- What follows the rest of a line that holds spaces and tabs only. -/
def afterLineEnd? (text : List Char) : Option (List Char) :=
  match text.dropWhile Link.isGap with
  | '\n' :: rest => some rest
  | _ => none

/-! ## Links -/

/-- The label of a link that a line defines, and what follows its colon. -/
def linkLabel? (text : List Char) : Option (List Char × List Char) :=
  (indented? 3 text).bind fun (_, rest) =>
    (['['].isPrefixOf? rest).bind fun inner =>
      (Link.label? inner).bind fun (label, behind) =>
        ([':'].isPrefixOf? behind).map fun follows => (label, follows)

/-- A text up to the first blank line after its first line. -/
def untilBlank (text : List Char) : List Char :=
  let (line, rest) := cutWholeLine text
  line ++ (leadingLines (fun lines => !startsBlank lines) rest).1

/-- What a link definition leads to, and the lines after it.  The title may stand on a
line of its own; where something follows it on its line, it is no title. -/
def linkTarget? (text : List Char) : Option (Target × List Char) :=
  (Link.definedAddress? text).bind fun (address, behind) =>
    let url := targetText (unescape address)
    let limited := untilBlank behind
    let titled := (Link.title? limited).bind fun (title, follows) =>
      (afterLineEnd? (behind.drop (limited.length - follows.length))).map fun rest =>
        (⟨url, Link.titleOf (some title)⟩, rest)
    titled <|> (afterLineEnd? behind).map fun rest => (⟨url, none⟩, rest)

/-! ## Footnotes -/

/-- Whether a line goes on with a footnote that a number of spaces stands before: it has
one to three spaces more. -/
def continuesNote (spaces : Nat) (text : List Char) : Bool :=
  let width := InlineForm.run ' ' text
  spaces < width && width ≤ spaces + 3 && text.contains '\n'

/-- What follows the further lines of a footnote, at most a number of them.  Empty lines
after each belong to it. -/
def afterNoteLines (spaces : Nat) : Nat → List Char → List Char
  | 0, text => text
  | count + 1, text =>
      if continuesNote spaces text then
        afterNoteLines spaces count ((cutLine text).2.dropWhile (· == '\n'))
      else text

/-- The key of a footnote, and what follows it. -/
def note? (text : List Char) : Option (List Char × List Char) :=
  (indented? 3 text).bind fun (spaces, rest) =>
    (['[', '^'].isPrefixOf? rest).bind fun inner =>
      (Link.label? inner).bind fun (label, behind) =>
        match behind with
        | ':' :: gap :: content =>
            if Link.isGap gap then
              let lines := (cutLine content).2.dropWhile (· == '\n')
              some (Link.key label, afterNoteLines spaces lines.length lines)
            else none
        | _ => none

/-! ## Abbreviations -/

/-- A meaning on the line after the name, indented by three spaces or a tab. -/
def meaningBelow? (text : List Char) : Option (List Char × List Char) :=
  (afterLineEnd? text).bind fun below =>
    let (line, rest) := cutLine below
    let isIndented := (3 ≤ InlineForm.run ' ' line && 3 < line.length)
      || (line.head? == some '\t' && 1 < line.length)
    if isIndented then some (line, rest) else none

/-- A name, its meaning, and what follows them. -/
def abbreviation? (text : List Char) : Option (List Char × List Char × List Char) :=
  (indented? 3 text).bind fun (_, rest) =>
    (['*', '['].isPrefixOf? rest).bind fun inner =>
      let name := inner.takeWhile (· != ']')
      ([']', ':'].isPrefixOf? (inner.drop name.length)).bind fun behind =>
        if name.isEmpty then none
        else
          let (meaning, follows) := (meaningBelow? behind).getD (cutLine behind)
          some (name, Text.trim meaning, follows)

/-! ## Terms -/

/-- Whether a description starts: a colon and a space or a tab. -/
def startsDescription (text : List Char) : Bool :=
  match text with
  | ':' :: gap :: rest => Link.isGap gap && rest.contains '\n'
  | _ => false

/-- Whether a line holds something and is ended. -/
def isFullLine (text : List Char) : Bool :=
  text.head? != some '\n' && text.contains '\n'

/-- The lines of terms, at most a number of them, and the descriptions after them.  An
empty line may stand between. -/
def terms? : Nat → List Char → Option (List Char × List Char)
  | 0, _ => none
  | count + 1, text =>
      if isFullLine text then
        let (line, rest) := cutWholeLine text
        if startsDescription rest then some (line, rest)
        else if rest.head? = some '\n' ∧ startsDescription (rest.drop 1) then
          some (line, rest.drop 1)
        else (terms? count rest).map fun (lines, follows) => (line ++ lines, follows)
      else none

/-- What follows blank lines and indented lines, at most a number of them. -/
def afterIndented : Nat → List Char → List Char
  | 0, text => text
  | count + 1, text =>
      let rest := (leadingLines startsBlank text).2
      let line := (cutLine rest).1
      if line.head?.any Link.isGap && decide (1 < line.length) && rest.contains '\n' then
        afterIndented count (cutLine rest).2
      else rest

/-- What follows the descriptions at the start of a text, at most a number of them. -/
def afterDescriptions : Nat → List Char → List Char
  | 0, text => text
  | count + 1, text =>
      let lines := (leadingLines isFullLine (cutLine text).2).2
      let rest := afterIndented lines.length lines
      if startsDescription rest then afterDescriptions count rest else rest

/-- The descriptions in lines of text, each with its colon. -/
def descriptions (lines : List (List Char)) : List (List Char) :=
  match lines with
  | [] => []
  | line :: rest =>
      let follows := match rest with
        | next :: _ => startsDescription (next ++ ['\n'])
        | [] => true
      match descriptions rest with
      | text :: others =>
          if follows then (line ++ ['\n']) :: text :: others
          else (line ++ '\n' :: text) :: others
      | [] => [line]

/-- A description without its colon, without indentation and without blank lines at its
end. -/
def descriptionText (text : List Char) : List Char :=
  let opened := match text with
    | ':' :: rest => ' ' :: rest
    | other => other
  BlockForm.trimBlankEnd (BlockForm.mapLines (BlockForm.outdent 4) opened)

/-- Terms and the texts of their descriptions. -/
structure Entry where
  /-- The terms, one a line. -/
  terms : List (List Char)
  /-- The texts of the descriptions. -/
  descriptions : List (List Char)

/-- Terms with their descriptions, and what follows them. -/
def entry? (text : List Char) : Option (Entry × List Char) :=
  (terms? text.length text).map fun (head, body) =>
    let rest := afterDescriptions body.length body
    let spanned := body.take (body.length - rest.length)
    let heads := (Text.boundedLines head).map (Text.dropEndWhile Text.isLineBoundary)
    (⟨heads, (descriptions (Text.lines spanned)).map descriptionText⟩, rest)

/-- All terms with their descriptions at the start of a text, at most a number of
groups, and what follows them. -/
def entries : Nat → List Char → List Entry × List Char
  | 0, text => ([], text)
  | count + 1, text =>
      match entry? text with
      | some (entry, rest) =>
          let (others, follows) := entries count rest
          (entry :: others, follows)
      | none => ([], text)

end Definition
end Markdown
end Galley
