import Galley.Numbering.Pass

/-!
# Looking up references

A reference is the name of a label or a run of signs.  A label leads to the node it
names; a run of plus or minus signs leads as many places forward or backward from the
nearest enclosing heading, or from the nearest enclosing list item where no heading
encloses the reference.  A reference that leads to no marked node shows a fixed text and
is reported.
-/

namespace Galley
namespace Numbering

/-- What stands for a reference that leads nowhere. -/
def unresolvedText : String := "(???)"

/-- The text of a reference to a node with a whole mark. -/
def formatReference (fullMark : Option String) : Option String :=
  match fullMark with
  | some mark => if mark.isEmpty then none else some ("(" ++ mark ++ ")")
  | none => none

/-- A text without one newline at its end. -/
def dropFinalNewline (text : List Char) : List Char :=
  if text.getLast? = some '\n' then text.dropLast else text

/-- The offset that a run of plus or minus signs denotes; one final newline is
tolerated. -/
def offset? (expression : String) : Option Int :=
  match dropFinalNewline expression.toList with
  | [] => none
  | sign :: rest =>
      let run := sign :: rest
      if run.all (· == '+') then some run.length
      else if run.all (· == '-') then some (-(run.length : Int))
      else none

namespace Numbered

/-- The whole mark of the node at a path. -/
def markAt? (numbered : Numbered) (path : Path) : Option String :=
  (numbered.tree.at? path).bind Node.fullMark?

/-- The position of the node at a path among its siblings of the same kind. -/
def positionAt? (numbered : Numbered) (path : Path) : Option Int :=
  ((numbered.tree.at? path).bind Node.position?).bind Datum.number?

/-- The node a number of places away from an anchor in a table. -/
def stepFrom? (numbered : Numbered) (table : PositionTable (Option Path) Path) (anchor : Path)
    (offset : Int) : Option Path :=
  (numbered.positionAt? anchor).bind fun position =>
    table.relative (Path.parent? anchor) position offset

/-- The node that a relative reference at a place leads to. -/
def relativeTarget? (numbered : Numbered) (place : Place) (offset : Int) : Option Path :=
  match place.nearest? [.header] with
  | some anchor => numbered.stepFrom? numbered.headings anchor offset
  | none =>
      match place.nearest? [.listItem] with
      | some anchor => numbered.stepFrom? numbered.items anchor offset
      | none => none

/-- The text of a reference at a place, and what is to be reported of it. -/
def lookUp (numbered : Numbered) (place : Place) (expression : String) :
    String × Option LogEvent :=
  match numbered.labels.lookup expression with
  | some path =>
      match formatReference (numbered.markAt? path) with
      | some text => (text, none)
      | none => (unresolvedText, some (.unmarkedTarget expression))
  | none =>
      match offset? expression with
      | none => (unresolvedText, some (.unresolved expression))
      | some offset =>
          match formatReference ((numbered.relativeTarget? place offset).bind numbered.markAt?) with
          | some text => (text, none)
          | none => (unresolvedText, some (.noRelativeTarget expression))

end Numbered

end Numbering
end Galley
