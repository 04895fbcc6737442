import Galley.Document.Node

/-!
# Places

The place of a node is its path from the root together with the nodes that enclose it.
A node that is handled on its own has no place: it knows nothing of what encloses it,
and neither do the nodes below it.
-/

namespace Galley

/-- Where a node stands. -/
structure Place where
  /-- Child positions from the root. -/
  path : Path := []
  /-- The enclosing nodes, nearest first. -/
  ancestors : List Node := []
  /-- Whether nodes know what encloses them. -/
  linked : Bool := true
  deriving Repr, Inhabited

namespace Place

/-- The place of the root of a linked tree. -/
def root : Place := {}

/-- The place of a node on its own. -/
def alone : Place := { linked := false }

/-- The place of a child; below a node on its own nothing is known. -/
def enter (place : Place) (parent : Node) (index : Nat) : Place :=
  if place.linked then
    { place with path := place.path ++ [index], ancestors := parent :: place.ancestors }
  else place

/-- The place of the node at a path of a tree. -/
def ofPath (tree : Node) (path : Path) : Place :=
  { path := path, ancestors := tree.ancestorsAt path }

/-- The nearest enclosing node. -/
def parent? (place : Place) : Option Node :=
  place.ancestors.head?

/-- The path of the nearest enclosing node. -/
def parentPath? (place : Place) : Option Path :=
  Path.parent? place.path

/-- Whether some enclosing node has a kind. -/
def within (place : Place) (kind : Kind) : Bool :=
  place.ancestors.any fun node => node.kind == kind

/-- The path of the nearest enclosing node that has one of some kinds. -/
def nearest? (place : Place) (kinds : List Kind) : Option Path :=
  (place.ancestors.findIdx? fun node => kinds.contains node.kind).map fun steps =>
    place.path.take (place.path.length - (steps + 1))

@[simp] theorem parent?_enter {place : Place} (linked : place.linked = true) (parent : Node)
    (index : Nat) : (place.enter parent index).parent? = some parent := by
  simp [enter, linked, parent?]

end Place

end Galley
