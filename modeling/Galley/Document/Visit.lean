import Galley.Document.Node

/-!
# Visits

A visitor handles some kinds and passes over the others: at a kind it handles it stops,
at any other it goes on to the children.  Every kind has a handler name, and a visitor
that promises to handle every kind is refused where handlers are missing.
-/

namespace Galley
namespace Visit

/-- The name of the handler of a kind. -/
def handlerName (kind : Kind) : String :=
  "visit_" ++ String.ofList (kind.name.toList.map fun character =>
    if character = '-' then '_' else character)

/-- The handlers that a visitor lacks, by name in increasing order. -/
def missingHandlers (handled : Kind → Bool) : List String :=
  ((Kind.all.filter fun kind => !handled kind).map handlerName).mergeSort fun left right =>
    decide (left ≤ right)

/-- Why a visitor that promises to handle every kind is refused. -/
def rejection (name : String) (handled : Kind → Bool) : Option String :=
  let missing := missingHandlers handled
  if missing.isEmpty then none
  else some (name ++ " does not handle every node kind; missing: " ++ ", ".intercalate missing)

mutual

/-- The nodes at which a visitor stops, in document order. -/
def stops (handled : Kind → Bool) (node : Node) : Except Fault (List Node) :=
  match node with
  | ⟨kind, payload, attributes, options, children⟩ =>
      if !kind.isKnown then .error .unknownName
      else if handled kind then .ok [⟨kind, payload, attributes, options, children⟩]
      else stopsBelow handled children
termination_by structural node

/-- The nodes among siblings and below at which a visitor stops. -/
def stopsBelow (handled : Kind → Bool) (siblings : List Node) : Except Fault (List Node) :=
  match siblings with
  | [] => .ok []
  | child :: rest => do
      let first ← stops handled child
      let others ← stopsBelow handled rest
      return first ++ others
termination_by structural siblings

end

end Visit
end Galley
