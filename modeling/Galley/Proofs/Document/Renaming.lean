import Galley.Document.Place
import Galley.Numbering.PositionTable
import Mathlib.Logic.Function.Basic

/-!
# Renaming paths

Where nodes are taken out of a tree, or put in, paths change: the child positions on the
way move, each by a rule that depends on the path up to it.  If no two positions of a
node are mixed up, such a renaming keeps the length of paths and what lies above what,
and position tables can be renamed entry by entry.
-/

namespace Galley

/-- A path with every child position moved by a rule, which is told the path above it. -/
def Path.rename (steps : Path → Nat → Nat) (base : Path) : Path → Path
  | [] => []
  | index :: rest => steps base index :: Path.rename steps (base ++ [index]) rest

namespace Path

variable {steps : Path → Nat → Nat} {base : Path}

@[simp] theorem rename_nil : rename steps base [] = [] := rfl

@[simp] theorem rename_cons (index : Nat) (rest : Path) :
    rename steps base (index :: rest) =
      steps base index :: rename steps (base ++ [index]) rest := rfl

@[simp] theorem length_rename (path : Path) : (rename steps base path).length = path.length := by
  induction path generalizing base with
  | nil => rfl
  | cons index rest inductionHypothesis => simp [inductionHypothesis]

/-- The child positions behind a path are moved as the rule says below that path. -/
theorem rename_append (first second : Path) :
    rename steps base (first ++ second) =
      rename steps base first ++ rename steps (base ++ first) second := by
  induction first generalizing base with
  | nil => simp
  | cons index rest inductionHypothesis => simp [inductionHypothesis]

/-- The path of a child is renamed by moving its last position. -/
theorem rename_append_singleton (path : Path) (index : Nat) :
    rename steps [] (path ++ [index]) = rename steps [] path ++ [steps path index] := by
  rw [rename_append, rename_cons, rename_nil, List.nil_append]

theorem take_rename (path : Path) (count : Nat) :
    (rename steps base path).take count = rename steps base (path.take count) := by
  induction path generalizing base count with
  | nil => simp
  | cons index rest inductionHypothesis =>
      cases count with
      | zero => rfl
      | succ count => simp [inductionHypothesis]

/-- The parent of a renamed path is the renamed parent. -/
theorem parent?_rename (path : Path) :
    parent? (rename steps base path) = (parent? path).map (rename steps base) := by
  unfold parent?
  cases path with
  | nil => rfl
  | cons index rest =>
      simp only [rename_cons, List.isEmpty_cons, Bool.false_eq_true, if_false, Option.map_some]
      rw [← rename_cons, List.dropLast_eq_take, List.dropLast_eq_take, take_rename, length_rename]

/-- If no two positions of a node are mixed up, no two paths are. -/
theorem rename_injective (apart : ∀ base, Function.Injective (steps base)) :
    Function.Injective (rename steps base) := by
  intro first second same
  induction first generalizing base second with
  | nil =>
      cases second with
      | nil => rfl
      | cons index rest => cases same
  | cons index rest inductionHypothesis =>
      cases second with
      | nil => cases same
      | cons other others =>
          obtain ⟨here, below⟩ := List.cons.inj same
          obtain rfl := apart base here
          rw [inductionHypothesis below]

end Path

namespace PositionTable

variable {Scope Entry Scope' Entry' : Type}

/-- A table with all scopes and entries renamed. -/
def rename (table : PositionTable Scope Entry) (scopes : Scope → Scope') (names : Entry → Entry') :
    PositionTable Scope' Entry' where
  entries := table.entries.map names
  groups := table.groups.map fun group => (scopes group.1, group.2.map names)

variable [BEq Scope] [LawfulBEq Scope] [BEq Scope'] [LawfulBEq Scope'] {scopes : Scope → Scope'}
  (apart : Function.Injective scopes) (names : Entry → Entry')

include apart

/-- The group of a renamed scope holds the renamed entries. -/
theorem group_rename (table : PositionTable Scope Entry) (scope : Scope) :
    (table.rename scopes names).group (scopes scope) = (table.group scope).map names := by
  unfold group rename
  dsimp only
  induction table.groups with
  | nil => rfl
  | cons first rest inductionHypothesis =>
      obtain ⟨known, members⟩ := first
      rw [List.map_cons, List.lookup_cons, List.lookup_cons]
      by_cases same : scope = known
      · subst same
        simp
      · have different : (scope == known) = false := by simpa using same
        have differentNow : (scopes scope == scopes known) = false := by
          simpa using fun together => same (apart together)
        simpa [different, differentNow] using inductionHypothesis

/-- A renamed entry gets the position that the entry gets. -/
theorem nextPosition_rename (table : PositionTable Scope Entry) (scope : Scope) :
    (table.rename scopes names).nextPosition (scopes scope) = table.nextPosition scope := by
  rw [nextPosition, nextPosition, group_rename apart, List.length_map]

/-- Adding a renamed entry is renaming what an addition gives. -/
theorem add_rename (table : PositionTable Scope Entry) (scope : Scope) (entry : Entry) :
    (table.rename scopes names).add (scopes scope) (names entry) =
      (table.add scope entry).rename scopes names := by
  have extended (groups : List (Scope × List Entry)) :
      extend (scopes scope) (names entry)
          (groups.map fun group => (scopes group.1, group.2.map names)) =
        (extend scope entry groups).map fun group => (scopes group.1, group.2.map names) := by
    induction groups with
    | nil => rfl
    | cons first rest inductionHypothesis =>
        obtain ⟨known, members⟩ := first
        by_cases same : scope = known
        · subst same
          simp [extend]
        · have different : (scope == known) = false := by simpa using same
          have differentNow : (scopes scope == scopes known) = false := by
            simpa using fun together => same (apart together)
          simp [extend, different, differentNow, inductionHypothesis]
  unfold add rename
  simp [extended]

/-- A relative step among renamed entries leads to the renamed entry. -/
theorem relative_rename (table : PositionTable Scope Entry) (scope : Scope)
    (position offset : Int) :
    (table.rename scopes names).relative (scopes scope) position offset =
      (table.relative scope position offset).map names := by
  unfold relative
  rw [group_rename apart]
  dsimp only
  split
  · rfl
  · rw [List.getElem?_map]

end PositionTable
end Galley
