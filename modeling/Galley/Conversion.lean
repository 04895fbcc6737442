import Galley.Layout.Render
import Galley.Markdown.Reader
import Galley.Output

/-!
# Conversion

The whole way from a source to rendered text: the options of the call are settled first,
then the source is read, then its tree is rendered.
-/

namespace Galley

/-- What can be converted. -/
inductive Source where
  /-- A document tree. -/
  | tree (document : Node)
  /-- The text of a Markdown document. -/
  | markdown (text : String)

/-- The document of a source.  A tree needs no reading. -/
def Source.document (options : Markdown.Options) : Source → Reporting Node
  | .tree document => pure document
  | .markdown text => do
      let document ← Markdown.read options text
      Reporting.event .sourceRead
      return document

/-- Convert a source to text, with layout options that the overrides of the call
change. -/
def convert (options : Layout.Options) (reading : Markdown.Options) (overrides : Fields)
    (source : Source) : Reporting String := do
  let options ← options.override overrides
  let document ← source.document reading
  Reporting.ofOutcome (Layout.renderTree options document)

end Galley
