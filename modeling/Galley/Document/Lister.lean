import Galley.Document.Listing

/-!
# Listers

A lister lists one tree after another.  While it goes down a tree it collects lines and
keeps the depth of the nodes to come.  Where it stops at a kind that cannot be listed
both stay as they are; the next listing starts afresh.
-/

namespace Galley

/-- What a lister keeps from one listing to the next. -/
structure Lister where
  /-- The lines collected so far. -/
  lines : List String := []
  /-- The depth of the nodes to come. -/
  depth : Nat := 0
  deriving Repr

/-- A computation of a lister.  What it collected remains when it stops at a fault. -/
abbrev Listed := ExceptT Fault (StateM Lister)

namespace Lister

mutual

/-- Collect the lines of a node and of all nodes below it. -/
def visit (node : Node) : Listed Unit :=
  match node with
  | ⟨kind, payload, attributes, options, children⟩ =>
      if kind.isKnown then do
        let line := Listing.line ⟨kind, payload, attributes, options, children⟩ (← get).depth
        modify fun lister => { lines := lister.lines ++ [line], depth := lister.depth + 1 }
        visitBelow children
        modify fun lister => { lister with depth := lister.depth - 1 }
      else throw .unknownName
termination_by structural node

/-- Collect the lines of siblings. -/
def visitBelow (siblings : List Node) : Listed Unit :=
  match siblings with
  | [] => pure ()
  | child :: rest => do
      visit child
      visitBelow rest
termination_by structural siblings

end

/-- List a tree, each line closed by a newline.  Whatever an earlier listing left behind
is forgotten. -/
def format (tree : Node) : Listed String := do
  modify fun _ => {}
  visit tree
  return "\n".intercalate (← get).lines ++ "\n"

end Lister
end Galley
