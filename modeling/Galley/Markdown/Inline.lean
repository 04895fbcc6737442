import Galley.Markdown.InlineRule
import Galley.Markdown.Link
import Galley.Markdown.Token

/-!
# Inline content

What the text of a block is made of, and the tokens that stand for it.  The definitions
of a document say where named links lead, which footnotes there are and what
abbreviations mean.
-/

namespace Galley
namespace Markdown

/-- What a document defines by name. -/
structure Definitions where
  /-- Links by the key of their label; the first definition counts. -/
  links : List (List Char × Target) := []
  /-- The keys of the footnotes. -/
  notes : List (List Char) := []
  /-- Abbreviations and their meanings, in the order of their first definitions. -/
  abbreviations : List (List Char × List Char) := []
  deriving Repr, Inhabited

namespace Definitions

/-- Define a link unless its key is known. -/
def addLink (definitions : Definitions) (key : List Char) (target : Target) : Definitions :=
  match definitions.links.lookup key with
  | some _ => definitions
  | none => { definitions with links := definitions.links ++ [(key, target)] }

/-- Define a footnote. -/
def addNote (definitions : Definitions) (key : List Char) : Definitions :=
  if definitions.notes.contains key then definitions
  else { definitions with notes := definitions.notes ++ [key] }

/-- Define an abbreviation; the last meaning counts. -/
def addAbbreviation (definitions : Definitions) (name meaning : List Char) : Definitions :=
  let known := definitions.abbreviations
  { definitions with
    abbreviations :=
      if (known.lookup name).isSome then
        known.map fun entry => if entry.1 = name then (name, meaning) else entry
      else known ++ [(name, meaning)] }

end Definitions

/-- A piece of inline content. -/
inductive Inline where
  | text (raw : List Char)
  | softBreak
  | hardBreak
  | emphasis (children : List Inline)
  | strong (children : List Inline)
  | struck (children : List Inline)
  | code (raw : List Char)
  | link (target : Target) (children : List Inline)
  | image (target : Target) (children : List Inline)
  | markup (raw : List Char)
  | math (raw : List Char)
  | footnote (key : List Char)
  | abbreviation (name meaning : List Char)
  | crossReference (rule : InlineRule) (raw : List Char)
  deriving Repr, Inhabited

namespace Inline

/-- A token with a text and no children. -/
def rawToken (kind : String) (raw : List Char) : Token :=
  .make kind (some (String.ofList raw)) [] none

/-- The attributes of a token. -/
def attributes (entries : Fields) : Fields :=
  [("attrs", .dict entries)]

/-- The attributes of a link or an image. -/
def targetFields (target : Target) : Fields :=
  attributes (("url", .text (String.ofList target.url))
    :: (target.title.toList.map fun title => ("title", .text (String.ofList title))))

mutual

/-- The token of a piece of inline content. -/
def token (piece : Inline) : Token :=
  match piece with
  | .text raw => rawToken "text" raw
  | .softBreak => .make "softbreak" none [] none
  | .hardBreak => .make "linebreak" none [] none
  | .emphasis children => .make "emphasis" none [] (some (tokens children))
  | .strong children => .make "strong" none [] (some (tokens children))
  | .struck children => .make "strikethrough" none [] (some (tokens children))
  | .code raw => rawToken "codespan" raw
  | .link target children => .make "link" none (targetFields target) (some (tokens children))
  | .image target children => .make "image" none (targetFields target) (some (tokens children))
  | .markup raw => rawToken "inline_html" raw
  | .math raw => rawToken "inline_math" raw
  | .footnote key => rawToken "footnote_ref" key
  | .abbreviation name meaning =>
      .make "abbr" none (attributes [("title", .text (String.ofList meaning))])
        (some [rawToken "text" name])
  | .crossReference rule raw => rawToken rule.tokenName raw
termination_by structural piece

/-- The tokens of inline content. -/
def tokens (pieces : List Inline) : List Token :=
  match pieces with
  | [] => []
  | piece :: rest => piece.token :: tokens rest
termination_by structural pieces

end

end Inline

end Markdown
end Galley
