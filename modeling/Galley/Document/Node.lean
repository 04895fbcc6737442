import Galley.Document.Kind

/-!
# Document trees

A document is a tree of uniform nodes.  A node has a kind, a payload, attributes,
options and children.  Headings and ordered list items carry their marks in the payload;
all other payloads are plain values.  Nodes are addressed by paths of child positions
from the root.
-/

namespace Galley

/-- The level of a heading.  Level one may have been given as a truth value. -/
structure Level where
  /-- The level as a number; one is outermost. -/
  depth : Nat
  /-- Levels start at one. -/
  depth_pos : 0 < depth
  /-- Whether the level was given as a truth value. -/
  asTruth : Bool := false
  deriving DecidableEq, Repr

namespace Level

/-- The outermost level. -/
def one : Level := ⟨1, by decide, false⟩

instance : Inhabited Level := ⟨one⟩

/-- The level with a number, raised to one where it is smaller. -/
def clamp (number : Int) : Level :=
  ⟨max 1 number.toNat, by omega, false⟩

/-- The level that a value denotes; numbers below one are refused. -/
def ofDatum (value : Datum) : Except Fault Level :=
  match value with
  | .int number =>
      if positive : 0 < number.toNat then .ok ⟨number.toNat, positive, false⟩
      else .error (.value (.levelNotPositive value))
  | .bool true => .ok ⟨1, by decide, true⟩
  | .bool false => .error (.value (.levelNotPositive value))
  | _ => .error .wrongType

/-- The value that denotes a level. -/
def toDatum (level : Level) : Datum :=
  if level.asTruth then .bool true else .int level.depth

end Level

/-- Marks of a heading. -/
structure HeadingMark where
  /-- The level of the heading. -/
  level : Level
  /-- The count at its own level. -/
  mark : Option String := none
  /-- The whole dotted section number. -/
  fullMark : Option String := none
  deriving DecidableEq, Repr, Inhabited

/-- Marks of an ordered list item. -/
structure ItemMark where
  /-- The ordinal of the item. -/
  mark : String
  /-- The dotted chain of the marks of the enclosing items and its own. -/
  fullMark : Option String := none
  deriving DecidableEq, Repr, Inhabited

/-- What a node carries beside its children. -/
inductive Payload where
  | data (value : Datum)
  | heading (marks : HeadingMark)
  | item (marks : ItemMark)
  deriving Repr, Inhabited

namespace Payload

/-- No payload. -/
def none : Payload := .data .null

/-- A text payload. -/
def text (content : String) : Payload := .data (.text content)

/-- The whole mark of a heading or of an ordered item. -/
def fullMark? : Payload → Option String
  | .data _ => Option.none
  | .heading marks => marks.fullMark
  | .item marks => marks.fullMark

/-- The text of a payload.  A heading shows its section number, an item its chain or its
ordinal. -/
def display : Payload → String
  | .data value => value.display
  | .heading marks => marks.fullMark.getD ""
  | .item marks =>
      match marks.fullMark with
      | some chain => if chain.isEmpty then marks.mark else chain
      | Option.none => marks.mark

/-- The text of a payload in a message. -/
def quoted : Payload → String
  | .data value => value.quoted
  | payload => payload.display

/-- The text of a payload, empty where there is none. -/
def content : Payload → String
  | .data .null => ""
  | payload => payload.display

/-- Marks are truthy; a plain payload is as truthy as its value. -/
def isTruthy : Payload → Bool
  | .data value => value.isTruthy
  | _ => true

/-- Equality of payloads. -/
def same : Payload → Payload → Bool
  | .data left, .data right => left.same right
  | .heading left, .heading right =>
      left.level.depth == right.level.depth && left.mark == right.mark
        && left.fullMark == right.fullMark
  | .item left, .item right => left == right
  | _, _ => false

@[simp] theorem content_none : none.content = "" := rfl

@[simp] theorem content_text (value : String) : (text value).content = value := rfl

end Payload

/-- A node of a document. -/
structure Node where
  /-- The kind of the node. -/
  kind : Kind
  /-- The payload. -/
  payload : Payload := Payload.none
  /-- Attributes such as a link target. -/
  attributes : Fields := []
  /-- Metadata of the reader and of the numbering pass. -/
  options : Fields := []
  /-- The nodes below, in order. -/
  children : List Node := []
  deriving Repr, Inhabited

/-- Child positions from the root to a node. -/
abbrev Path := List Nat

/-- The path of the parent; the root has none. -/
def Path.parent? (path : Path) : Option Path :=
  if path.isEmpty then none else some path.dropLast

namespace Node

/-- Whether a node starts a region of lines: a block kind, or a flexible kind that says
so. -/
def isBlock (node : Node) : Bool :=
  match node.kind.placement with
  | .block => true
  | .span => false
  | .flexible =>
      match node.options.get? "category" with
      | some (.text category) => category == "block"
      | _ => false

/-- Whether a node contributes to the line of its enclosing block. -/
def isSpan (node : Node) : Bool := !node.isBlock

/-- The name of the category of a node. -/
def category (node : Node) : String :=
  if node.isBlock then "block" else "span"

/-- The whole mark of a heading or of an ordered item. -/
def fullMark? (node : Node) : Option String :=
  node.payload.fullMark?

/-- The option that holds the place among siblings of the same kind. -/
def positionKey : String := "relative_position"

/-- The place among siblings of the same kind, once numbered. -/
def position? (node : Node) : Option Datum :=
  node.options.get? positionKey

/-- The place among siblings of the same kind as a number, where there is one. -/
def positionNumber? (node : Node) : Except Fault (Option Int) :=
  match node.position? with
  | none => .ok none
  | some .null => .ok none
  | some value =>
      match value.number? with
      | some number => .ok (some number)
      | none => .error .wrongType

/-- The label that a heading or an item declares through its options. -/
def label? (node : Node) : Option String :=
  match node.options.get? "label" with
  | some value => if value.isTruthy then some value.display else none
  | none => none

/-- The node at a path. -/
def at? (node : Node) : Path → Option Node
  | [] => some node
  | index :: rest => (node.children[index]?).bind fun child => child.at? rest

@[simp] theorem at?_nil (node : Node) : node.at? [] = some node := rfl

mutual

/-- A node and all nodes below it with their paths, each before its children. -/
def located (node : Node) (path : Path) : List (Path × Node) :=
  match node with
  | ⟨kind, payload, attributes, options, children⟩ =>
      (path, ⟨kind, payload, attributes, options, children⟩) :: locatedBelow children path 0
termination_by structural node

/-- The nodes of a list of siblings, the first of which has the given position. -/
def locatedBelow (siblings : List Node) (path : Path) (index : Nat) : List (Path × Node) :=
  match siblings with
  | [] => []
  | child :: rest => child.located (path ++ [index]) ++ locatedBelow rest path (index + 1)
termination_by structural siblings

end

/-- A node and all nodes below it, each before its children. -/
def walk (node : Node) : List Node :=
  (node.located []).map (·.2)

/-- The nodes on a path, without the one at its end: nearest first. -/
def ancestorsAt (node : Node) : Path → List Node
  | [] => []
  | index :: rest =>
      match node.children[index]? with
      | none => []
      | some child => child.ancestorsAt rest ++ [node]

mutual

/-- Equality of trees. -/
def same (left right : Node) : Bool :=
  match left with
  | ⟨kind, payload, attributes, options, children⟩ =>
      kind == right.kind && payload.same right.payload
        && sameSiblings children right.children
        && (Datum.dict attributes).same (.dict right.attributes)
        && (Datum.dict options).same (.dict right.options)
termination_by structural left

/-- Equality of lists of siblings, place by place. -/
def sameSiblings (lefts rights : List Node) : Bool :=
  match lefts, rights with
  | [], [] => true
  | left :: others, right :: rest => left.same right && sameSiblings others rest
  | _, _ => false
termination_by structural lefts

end

end Node

end Galley
