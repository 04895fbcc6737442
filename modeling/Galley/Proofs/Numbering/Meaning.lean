import Galley.Numbering.Lookup
import Galley.Proofs.Document.Paths
import Mathlib.Data.List.Induction

/-!
# What labels and references mean in a tree

The declarations of a tree, the anchor of a relative reference and the siblings it
counts are defined on the tree alone, without the tables of the numbering pass.
-/

namespace Galley
namespace Numbering

/-! ## Enclosing nodes -/

/-- The proper prefixes of a path, longest first. -/
def prefixesAbove (path : Path) : List Path :=
  (List.range path.length).reverse.map path.take

/-- The nearest node above a path that has one of some kinds. -/
def nearestAbove (tree : Node) (kinds : List Kind) (path : Path) : Option Path :=
  (prefixesAbove path).find? fun above =>
    (tree.at? above).any fun node => kinds.contains node.kind

@[simp] theorem nearestAbove_nil (tree : Node) (kinds : List Kind) :
    nearestAbove tree kinds [] = none := rfl

/-- The longest proper prefix of a path that goes on is what it goes on from. -/
theorem prefixesAbove_append_singleton (path : Path) (index : Nat) :
    prefixesAbove (path ++ [index]) = path :: prefixesAbove path := by
  unfold prefixesAbove
  rw [List.length_append, List.length_singleton, List.range_succ, List.reverse_append]
  simp only [List.reverse_singleton, List.singleton_append, List.map_cons, List.cons.injEq]
  constructor
  · simp
  · apply List.map_congr_left
    intro count present
    have shorter : count < path.length := by simpa using present
    rw [List.take_append_of_le_length (by omega)]

/-- The enclosing nodes of a place are searched like the prefixes of its path. -/
theorem nearest?_ofPath
    {tree node : Node} {path : Path}
    (kinds : List Kind)
    (found : tree.at? path = some node) :
    (Place.ofPath tree path).nearest? kinds = nearestAbove tree kinds path := by
  induction path using List.reverseRecOn generalizing node with
  | nil => rfl
  | append_singleton path index inductionHypothesis =>
      obtain ⟨parent, above, member⟩ := Node.exists_parent_of_at? found
      have deeper := inductionHypothesis above
      have steps := Node.length_ancestorsAt above
      unfold nearestAbove at deeper ⊢
      rw [prefixesAbove_append_singleton, Place.ofPath_append_singleton above member]
      simp only [Place.nearest?, Place.enter, Place.ofPath, if_true, List.findIdx?_cons,
        List.find?_cons, above, Option.any_some] at deeper ⊢
      by_cases matching : kinds.contains parent.kind
      · simp only [matching, if_true, Option.map_some]
        simp
      · simp only [matching, Bool.false_eq_true, if_false] at deeper ⊢
        rw [← deeper, Option.map_map]
        cases search : (tree.ancestorsAt path).findIdx? fun node => kinds.contains node.kind with
        | none => rfl
        | some position =>
            have inside : position < (tree.ancestorsAt path).length :=
              (List.findIdx?_eq_some_iff_getElem.mp search).1
            simp only [Option.map_some, Function.comp_apply, Option.some.injEq,
              List.length_append, List.length_singleton]
            rw [List.take_append_of_le_length (by omega)]
            congr 1
            omega

/-! ## Declarations -/

/-- The name that a node declares at a place, with the path of the node it stands for.
Headings and items declare the label of their options for themselves; a label node
declares its text for the nearest heading or item around it, or else for its parent. -/
def declared? (node : Node) (place : Place) : Option (String × Path) :=
  match node.kind with
  | .header | .listItem => node.label?.map fun label => (label, place.path)
  | .label =>
      if node.payload.isTruthy then
        ((place.nearest? [.header, .listItem]).or place.parentPath?).map
          fun target => (node.payload.display, target)
      else none
  | _ => none

/-- The same name, read off the tree. -/
def declaration? (tree : Node) (path : Path) (node : Node) : Option (String × Path) :=
  match node.kind with
  | .header | .listItem => node.label?.map fun label => (label, path)
  | .label =>
      if node.payload.isTruthy then
        ((nearestAbove tree [.header, .listItem] path).or (Path.parent? path)).map
          fun target => (node.payload.display, target)
      else none
  | _ => none

/-- The declarations of a tree in document order. -/
def declarations (tree : Node) : List (String × Path) :=
  (tree.located []).filterMap fun entry => declaration? tree entry.1 entry.2

/-- What the last declaration of a label stands for. -/
def lastDeclared? (tree : Node) (label : String) : Option Path :=
  (declarations tree).reverse.lookup label

theorem declared?_ofPath
    {tree node : Node} {path : Path}
    (found : tree.at? path = some node) :
    declared? node (Place.ofPath tree path) = declaration? tree path node := by
  unfold declared? declaration?
  rw [nearest?_ofPath _ found]
  rfl

/-! ## Relative references -/

/-- The children with a kind of the node at a path, in order. -/
def membersOf (tree : Node) (kind : Kind) (scope : Path) : List Path :=
  match tree.at? scope with
  | some parent =>
      (parent.children.zipIdx.filter fun entry => entry.1.kind == kind).map
        fun entry => scope ++ [entry.2]
  | none => []

/-- The node a number of places after an anchor, or before it, among the children of the
anchor's parent that have a kind. -/
def siblingAt? (tree : Node) (kind : Kind) (anchor : Path) (forward : Bool) (count : Nat) :
    Option Path :=
  (Path.parent? anchor).bind fun scope =>
    let members := membersOf tree kind scope
    ((if forward then members else members.reverse).dropWhile (· != anchor))[count]?

/-- The anchor of a relative reference: the nearest heading above it, or the nearest
list item where no heading is above it. -/
def anchor? (tree : Node) (path : Path) : Option (Kind × Path) :=
  match nearestAbove tree [.header] path with
  | some heading => some (.header, heading)
  | none => (nearestAbove tree [.listItem] path).map fun item => (.listItem, item)

/-- What a relative reference at a path leads to. -/
def relativeAt? (tree : Node) (path : Path) (forward : Bool) (count : Nat) : Option Path :=
  (anchor? tree path).bind fun anchor => siblingAt? tree anchor.1 anchor.2 forward count

/-- The mark of the node at a path in parentheses, or a fixed text where there is no
node or no mark to show. -/
def shownMark (tree : Node) (target : Option Path) : String :=
  match (target.bind tree.at?).bind Node.fullMark? with
  | some mark => if mark = "" then "(???)" else "(" ++ mark ++ ")"
  | none => "(???)"

/-- An expression is a run of one sign, with at most one newline behind it. -/
def IsRun (sign : Char) (count : Nat) (expression : String) : Prop :=
  0 < count ∧
    (expression.toList = List.replicate count sign ∨
      expression.toList = List.replicate count sign ++ ['\n'])

/-- A text is what a reference at a path means: the mark of the node that its expression
declares, else the mark of a sibling of its anchor, else a fixed text. -/
structure ReferenceMeaning (tree : Node) (path : Path) (expression text : String) : Prop where
  /-- A declared label wins. -/
  ofLabel : ∀ target, lastDeclared? tree expression = some target →
    text = shownMark tree (some target)
  /-- Plus signs lead forward. -/
  ofPlus : lastDeclared? tree expression = none → ∀ count, IsRun '+' count expression →
    text = shownMark tree (relativeAt? tree path true count)
  /-- Minus signs lead backward. -/
  ofMinus : lastDeclared? tree expression = none → ∀ count, IsRun '-' count expression →
    text = shownMark tree (relativeAt? tree path false count)
  /-- Nothing else leads anywhere. -/
  ofOther : lastDeclared? tree expression = none →
    (∀ count, ¬ IsRun '+' count expression ∧ ¬ IsRun '-' count expression) → text = "(???)"

end Numbering
end Galley
