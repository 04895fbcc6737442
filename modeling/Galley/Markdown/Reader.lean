import Galley.Markdown.BlockReading
import Galley.Markdown.Tree
import Galley.Requirement

/-!
# Reading Markdown

The text of a document is cut into tokens and the tokens become a tree.  Any tokenizer
can stand in front of the tree: it hands over a forest or gives up, and it may not be
installed at all.
-/

namespace Galley
namespace Markdown

/-- Why a tokenizer gave up. -/
structure Trouble where
  /-- The kind of the error that it met. -/
  kind : String
  /-- The wording of that error. -/
  reason : String
  deriving DecidableEq, Repr

/-- The package that holds the tokenizer. -/
def tokenizerPackage (installed : Bool) : Requirement :=
  ⟨"mistune", "mistune", installed⟩

/-- The document of what a tokenizer handed over. -/
def documentFrom (installed : Bool) (tokenized : Except Trouble (List Token)) : Reporting Node :=
  withRequirements "markdown" [tokenizerPackage installed] do
    match tokenized with
    | .error trouble => throw (.failure (.untokenized trouble.reason trouble.kind))
    | .ok tokens => documentOf tokens

/-- Make newlines of carriage returns, of one and a newline together too. -/
def joinReturns : List Char → List Char
  | '\r' :: '\n' :: rest => '\n' :: joinReturns rest
  | '\r' :: rest => '\n' :: joinReturns rest
  | character :: rest => character :: joinReturns rest
  | [] => []

/-- A text whose lines all end in a newline. -/
def normalized (text : List Char) : List Char :=
  let unified := joinReturns text
  if unified.getLast? = some '\n' then unified else unified ++ ['\n']

/-- The tokens of a document.  Where a footnote is referred to, the footnotes come last;
they are one token, as nothing is made of them. -/
def tokensOf (options : Options) (text : String) : List Token :=
  let (blocks, definitions) :=
    BlockReading.readDocument options.enabled (normalized text.toList)
  let setting : InlineReading.Setting := ⟨options.enabled, definitions⟩
  let tokens := Block.tokens setting blocks
  if Token.mention "footnote_ref" tokens then tokens ++ [.make "footnotes" none [] none]
  else tokens

/-- Read a document. -/
def read (options : Options) (text : String) : Reporting Node :=
  documentFrom true (.ok (tokensOf options text))

end Markdown
end Galley
