import Galley.Document.Node

/-!
# Building trees

Functions that make one node each.  Optional facts that are missing or empty leave no
trace in the node.
-/

namespace Galley
namespace Build

/-- An option that is left out where it is missing or empty. -/
def textOption (name : String) (value : Option String) : Fields :=
  match value with
  | some text => if text.isEmpty then [] else [(name, .text text)]
  | none => []

/-- A node that is its children. -/
def parent (kind : Kind) (children : List Node) : Node :=
  { kind := kind, children := children }

/-- A node that is its text. -/
def leaf (kind : Kind) (content : String) : Node :=
  { kind := kind, payload := .text content }

/-- The last part of a dotted mark. -/
def lastPart (mark : String) : String :=
  String.ofList (mark.toList.reverse.takeWhile (· != '.')).reverse

/-- A heading; its section number may be given.  Levels below one are refused. -/
def header (level : Datum) (children : List Node) (label fullMark : Option String) :
    Except Fault Node := do
  let depth ← Level.ofDatum level
  let mark :=
    match fullMark with
    | some whole => if whole.isEmpty then none else some (lastPart whole)
    | none => none
  return {
    kind := .header
    payload := .heading { level := depth, mark := mark, fullMark := fullMark }
    options := textOption "label" label
    children := children }

/-- An ordered list; the number of its first item is kept where it is not one. -/
def orderedList (items : List Node) (start : Datum) : Node :=
  { kind := .orderedList
    options := if start.same (.int 1) then [] else [("start", start)]
    children := items }

/-- A list item, with a mark and a label where they are given. -/
def listItem (children : List Node) (mark label : Option String) : Node :=
  { kind := .listItem
    payload :=
      match mark with
      | some text => if text.isEmpty then .none else .item { mark := text }
      | none => .none
    options := textOption "label" label
    children := children }

/-- A code block in a language. -/
def codeblock (content : String) (language : Option String) : Node :=
  { leaf .codeblock content with options := textOption "language" language }

/-- A link to a target. -/
def link (target : String) (children : List Node) : Node :=
  { kind := .link, attributes := [("href", .text target)], children := children }

/-- An image with an alternative text. -/
def image (source alternative : String) : Node :=
  { kind := .image
    attributes := ("src", .text source) :: textOption "alt" (some alternative) }

/-- A text of a flexible kind in a category. -/
def flexible (kind : Kind) (content category : String) : Node :=
  { leaf kind content with options := [("category", .text category)] }

/-- An action item for somebody. -/
def actionItem (assignee : String) (children : List Node) : Node :=
  { kind := .actionItem, options := [("assignee", .text assignee)], children := children }

/-- A link to an issue. -/
def issueLink (matched : String) : Node :=
  { kind := .issueLink, options := [("match", .text matched)] }

end Build
end Galley
