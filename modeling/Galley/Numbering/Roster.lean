import Galley.Document.Node
import Galley.Numbering.PositionTable

/-!
# Rosters

A roster holds nodes under names, each with its parent, and a position table of those
that were added to it.  An addition gives the position of a node in the group of its
parent, which the node may store.  A step starts from the position that its anchor has
stored.
-/

namespace Galley

/-- A node with its position among its siblings of the same kind. -/
def Node.withPosition (node : Node) (position : Nat) : Node :=
  { node with options := node.options.set Node.positionKey (.int position) }

@[simp] theorem Node.position?_withPosition (node : Node) (position : Nat) :
    (node.withPosition position).position? = some (.int position) :=
  Fields.get?_set_self _ _ _

/-- The addition of a node to a table. -/
structure Addition (Name : Type) where
  /-- The node that is added. -/
  name : Name
  /-- Whether the node stores the position that it is given. -/
  stores : Bool
  deriving DecidableEq, Repr

/-- Nodes under names, and a position table of those that were added. -/
structure Roster (Name : Type) where
  /-- The node under a name. -/
  node : Name → Node
  /-- The parent of a node, where it has one. -/
  parent? : Name → Option Name
  /-- The nodes that were added, each in the group of its parent. -/
  table : PositionTable (Option Name) Name := {}

namespace Roster

variable {Name : Type} [DecidableEq Name]

/-- Store a position in a node. -/
def store (roster : Roster Name) (name : Name) (position : Nat) : Roster Name :=
  { roster with
    node := fun other =>
      if other = name then (roster.node other).withPosition position else roster.node other }

/-- The position that the next node of a group gets. -/
def nextPosition (roster : Roster Name) (name : Name) : Nat :=
  roster.table.nextPosition (roster.parent? name)

/-- The roster after an addition. -/
def enter (roster : Roster Name) (addition : Addition Name) : Roster Name :=
  let listed :=
    { roster with table := roster.table.add (roster.parent? addition.name) addition.name }
  if addition.stores then listed.store addition.name (roster.nextPosition addition.name) else listed

/-- Add a node to the group of its parent and give its position there. -/
def add (addition : Addition Name) : StateM (Roster Name) Nat :=
  modifyGet fun roster => (roster.nextPosition addition.name, roster.enter addition)

/-- The node a number of places away from an anchor in the group of the anchor.  An
anchor that has no position leads nowhere; one whose position is no number is refused. -/
def relative (roster : Roster Name) (anchor : Name) (offset : Int) :
    Except Fault (Option Name) := do
  match ← (roster.node anchor).positionNumber? with
  | some position => return roster.table.relative (roster.parent? anchor) position offset
  | none => return none

@[simp] theorem parent?_enter (roster : Roster Name) (addition : Addition Name) :
    (roster.enter addition).parent? = roster.parent? := by
  unfold enter store
  split <;> rfl

@[simp] theorem table_enter (roster : Roster Name) (addition : Addition Name) :
    (roster.enter addition).table =
      roster.table.add (roster.parent? addition.name) addition.name := by
  unfold enter store
  split <;> rfl

theorem node_enter_self (roster : Roster Name) {addition : Addition Name}
    (stores : addition.stores = true) :
    (roster.enter addition).node addition.name =
      (roster.node addition.name).withPosition (roster.nextPosition addition.name) := by
  simp [enter, store, stores]

/-- An addition leaves all other nodes as they are. -/
theorem node_enter_of_ne (roster : Roster Name) (addition : Addition Name) {other : Name}
    (different : other ≠ addition.name) :
    (roster.enter addition).node other = roster.node other := by
  unfold enter store
  split <;> simp [different]

end Roster

end Galley
