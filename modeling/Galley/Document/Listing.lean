import Galley.Document.Node

/-!
# Tree listings

A listing shows one node a line, each before its children: two spaces for each level of
depth, the kind, the category, and the payload with its newlines escaped.
-/

namespace Galley
namespace Listing

/-- A text with every newline written as an escape. -/
def escapeNewlines (text : List Char) : List Char :=
  text.flatMap fun character => if character = '\n' then ['\\', 'n'] else [character]

/-- The line of a node at a depth. -/
def line (node : Node) (depth : Nat) : String :=
  String.ofList (List.replicate (2 * depth) ' ') ++ node.kind.name ++ "(" ++ node.category ++ ") <<"
    ++ String.ofList (escapeNewlines node.payload.content.toList) ++ ">>"

mutual

/-- The lines of a node and of all nodes below it.  A kind outside the closed set cannot
be listed. -/
def lines (node : Node) (depth : Nat) : Except Fault (List String) :=
  match node with
  | ⟨kind, payload, attributes, options, children⟩ =>
      if kind.isKnown then do
        let below ← linesBelow children (depth + 1)
        return line ⟨kind, payload, attributes, options, children⟩ depth :: below
      else .error .unknownName
termination_by structural node

/-- The lines of siblings. -/
def linesBelow (siblings : List Node) (depth : Nat) : Except Fault (List String) :=
  match siblings with
  | [] => .ok []
  | child :: rest => do
      let first ← lines child depth
      let others ← linesBelow rest depth
      return first ++ others
termination_by structural siblings

end

/-- The listing of a tree, each line closed by a newline. -/
def format (tree : Node) : Except Fault String := do
  let found ← lines tree 0
  return "\n".intercalate found ++ "\n"

end Listing
end Galley
