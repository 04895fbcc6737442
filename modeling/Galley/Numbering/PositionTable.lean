import Galley.Failure

/-!
# Position tables

A position table lists entries in the order in which they were added and groups them by
scope.  The position of an entry is its place in its group; a relative step stays inside
the group of its anchor.
-/

namespace Galley

/-- Entries in order of addition, and the same entries grouped by scope. -/
structure PositionTable (Scope Entry : Type) where
  /-- All entries, in order of addition. -/
  entries : List Entry := []
  /-- The groups, each with its scope. -/
  groups : List (Scope × List Entry) := []
  deriving Repr

namespace PositionTable

variable {Scope Entry : Type} [BEq Scope]

/-- The table without entries. -/
def empty : PositionTable Scope Entry := {}

/-- The entries of a scope, in order of addition. -/
def group (table : PositionTable Scope Entry) (scope : Scope) : List Entry :=
  (table.groups.lookup scope).getD []

/-- Add an entry to the group of a scope, which is opened where it is new. -/
def extend (scope : Scope) (entry : Entry) : List (Scope × List Entry) → List (Scope × List Entry)
  | [] => [(scope, [entry])]
  | (known, members) :: rest =>
      if scope == known then (known, members ++ [entry]) :: rest
      else (known, members) :: extend scope entry rest

/-- Add an entry to a scope. -/
def add (table : PositionTable Scope Entry) (scope : Scope) (entry : Entry) :
    PositionTable Scope Entry where
  entries := table.entries ++ [entry]
  groups := extend scope entry table.groups

/-- The position that the next entry of a scope gets. -/
def nextPosition (table : PositionTable Scope Entry) (scope : Scope) : Nat :=
  (table.group scope).length

/-- The entry a number of steps away from a position of a scope. -/
def relative (table : PositionTable Scope Entry) (scope : Scope) (position offset : Int) :
    Option Entry :=
  let target := position + offset
  if target < 0 then none else (table.group scope)[target.toNat]?

/-- The list of marks by which a table shows itself. -/
def listing (marks : List (Option String)) : String :=
  "PositionTable(" ++ (Datum.list (marks.map fun mark => .text (mark.getD "None"))).quoted ++ ")"

@[simp] theorem group_empty (scope : Scope) :
    (empty : PositionTable Scope Entry).group scope = [] := rfl

@[simp] theorem entries_add (table : PositionTable Scope Entry) (scope : Scope) (entry : Entry) :
    (table.add scope entry).entries = table.entries ++ [entry] := rfl

variable [LawfulBEq Scope]

/-- The group of a scope gains what is added to it. -/
@[simp] theorem group_add_self (table : PositionTable Scope Entry) (scope : Scope)
    (entry : Entry) : (table.add scope entry).group scope = table.group scope ++ [entry] := by
  unfold group add
  induction table.groups with
  | nil => simp [extend]
  | cons first rest inductionHypothesis =>
      obtain ⟨known, members⟩ := first
      by_cases same : scope = known
      · subst same
        simp [extend]
      · have apart : (scope == known) = false := by simpa using same
        simpa [extend, apart, List.lookup_cons] using inductionHypothesis

/-- The groups of other scopes stay as they are. -/
theorem group_add_of_ne (table : PositionTable Scope Entry) {scope other : Scope} (entry : Entry)
    (different : other ≠ scope) : (table.add scope entry).group other = table.group other := by
  unfold group add
  induction table.groups with
  | nil =>
      have apart : (other == scope) = false := by simpa using different
      simp [extend, List.lookup_cons, apart]
  | cons first rest inductionHypothesis =>
      obtain ⟨known, members⟩ := first
      by_cases same : scope = known
      · subst same
        have apart : (other == scope) = false := by simpa using different
        simp [extend, List.lookup_cons, apart]
      · have apart : (scope == known) = false := by simpa using same
        by_cases found : other = known
        · subst found
          simp [extend, apart]
        · have missed : (other == known) = false := by simpa using found
          simpa [extend, apart, List.lookup_cons, missed] using inductionHypothesis

end PositionTable

end Galley
