import Galley.Proofs.Document.Everywhere
import Mathlib.Data.List.Forall2

/-!
# Trees of one shape

Two trees match if a path leads to a node of the one exactly where it leads to a node of
the other, and the two nodes are related.  Matching trees have listings of the same
paths, and what enclosing nodes have in common with those they are related to can be
read off either tree.
-/

namespace Galley
namespace Node

/-- Every path leads to related nodes of both trees or to a node of neither. -/
def Matches (related : Path → Node → Node → Prop) (node new : Node) : Prop :=
  ∀ path, Option.Rel (related path) (node.at? path) (new.at? path)

namespace Matches

variable {related : Path → Node → Node → Prop} {node new : Node}

/-- Trees match if their roots are related and their children match in order. -/
theorem of_children
    (here : related [] node new)
    (below : ∀ index, Option.Rel (Matches fun rest => related (index :: rest))
      node.children[index]? new.children[index]?) :
    node.Matches related new := by
  intro path
  cases path with
  | nil => exact Option.Rel.some here
  | cons index rest =>
      have entered := below index
      rw [at?_cons, at?_cons]
      cases given : node.children[index]? <;> cases now : new.children[index]? <;>
        simp only [given, now, Option.rel_some_some, Option.not_rel_some_none,
          Option.not_rel_none_some] at entered
      · exact Option.Rel.none
      · exact entered rest

theorem here (matching : node.Matches related new) : related [] node new :=
  Option.rel_some_some.mp (matching [])

/-- The children of matching trees match in order. -/
theorem child (matching : node.Matches related new) (index : Nat) :
    Option.Rel (Matches fun rest => related (index :: rest))
      node.children[index]? new.children[index]? := by
  have entered (rest : Path) := matching (index :: rest)
  simp only [at?_cons] at entered
  cases given : node.children[index]? <;> cases now : new.children[index]? <;>
    simp only [given, now, Option.bind_some, Option.bind_none] at entered
  · exact Option.Rel.none
  · simpa using entered []
  · simpa using entered []
  · exact Option.Rel.some entered

/-- A node of the second tree is related to the node at the same path of the first. -/
theorem exists_given
    (matching : node.Matches related new)
    {path : Path} {now : Node}
    (found : new.at? path = some now) :
    ∃ given, node.at? path = some given ∧ related path given now := by
  have both := matching path
  rw [found] at both
  cases there : node.at? path with
  | none => simp [there] at both
  | some given => exact ⟨given, rfl, by simpa [there] using both⟩

/-- A node of the first tree is related to the node at the same path of the second. -/
theorem exists_now
    (matching : node.Matches related new)
    {path : Path} {given : Node}
    (found : node.at? path = some given) :
    ∃ now, new.at? path = some now ∧ related path given now := by
  have both := matching path
  rw [found] at both
  cases there : new.at? path with
  | none => simp [there] at both
  | some now => exact ⟨now, rfl, by simpa [there] using both⟩

/-- What stands at a path of matching trees matches. -/
theorem at_path
    (matching : node.Matches related new)
    {path : Path} {given now : Node}
    (found : node.at? path = some given)
    (foundNow : new.at? path = some now) :
    given.Matches (fun rest => related (path ++ rest)) now := by
  intro rest
  have deeper := matching (path ++ rest)
  rwa [at?_append, at?_append, found, foundNow] at deeper

/-- What related nodes have in common, the children have in common. -/
theorem map_children
    {β : Type} {feature : Node → β}
    (matching : node.Matches related new)
    (kept : ∀ path given now, related path given now → feature now = feature given) :
    new.children.map feature = node.children.map feature := by
  refine List.ext_getElem? fun index => ?_
  have entered := matching.child index
  rw [List.getElem?_map, List.getElem?_map]
  cases given : node.children[index]? <;> cases now : new.children[index]? <;>
    simp only [given, now, Option.rel_some_some, Option.not_rel_some_none,
      Option.not_rel_none_some] at entered
  · rfl
  · exact congrArg some (kept _ _ _ entered.here)

/-- What holds everywhere of a tree is carried over node by node. -/
theorem everywhere
    {property carried : Node → Prop}
    (matching : node.Matches related new)
    (all : node.Everywhere property)
    (carry : ∀ path given now, related path given now → property given → carried now) :
    new.Everywhere carried := by
  intro now present
  obtain ⟨path, found⟩ := mem_walk_iff.mp present
  obtain ⟨given, there, same⟩ := matching.exists_given found
  exact carry path given now same (all given (mem_walk_iff.mpr ⟨path, there⟩))

/-- What related nodes have in common, the enclosing nodes of a path have in common. -/
theorem map_ancestorsAt
    {β : Type} {feature : Node → β}
    (matching : node.Matches related new)
    (kept : ∀ path given now, related path given now → feature now = feature given)
    (path : Path) :
    (new.ancestorsAt path).map feature = (node.ancestorsAt path).map feature := by
  induction path generalizing node new related with
  | nil => rfl
  | cons index rest inductionHypothesis =>
      have entered := matching.child index
      have roots := kept [] node new matching.here
      simp only [ancestorsAt]
      cases given : node.children[index]? <;> cases now : new.children[index]? <;>
        simp only [given, now, Option.rel_some_some, Option.not_rel_some_none,
          Option.not_rel_none_some] at entered
      · rfl
      · have deeper := inductionHypothesis entered fun path => kept (index :: path)
        simp [deeper, roots]

/-- A test of what related nodes have in common has one answer for the nodes around a
path. -/
theorem all_ancestorsAt
    {β : Type} {feature : Node → β}
    (matching : node.Matches related new)
    (kept : ∀ path given now, related path given now → feature now = feature given)
    (test : β → Bool) (path : Path) :
    (new.ancestorsAt path).all (test ∘ feature) = (node.ancestorsAt path).all (test ∘ feature) := by
  rw [← List.all_map, ← List.all_map, matching.map_ancestorsAt kept path]

/-- Matching trees have listings of related nodes at the same paths. -/
theorem forall₂_located (matching : node.Matches related new) (base : Path) :
    List.Forall₂
      (fun old now => ∃ path, old.1 = base ++ path ∧ now.1 = base ++ path ∧
        related path old.2 now.2)
      (node.located base) (new.located base) := by
  induction node using induction_on_children generalizing new related base with
  | step node below =>
      have siblings (members found : List Node) (index : Nat)
          (known : ∀ child ∈ members, child ∈ node.children)
          (each : ∀ step, Option.Rel (Matches fun rest => related ((index + step) :: rest))
            members[step]? found[step]?) :
          List.Forall₂
            (fun old now => ∃ path, old.1 = base ++ path ∧ now.1 = base ++ path ∧
              related path old.2 now.2)
            (locatedBelow members base index) (locatedBelow found base index) := by
        induction members generalizing found index with
        | nil =>
            cases found with
            | nil => exact List.Forall₂.nil
            | cons now _ => simpa using each 0
        | cons child rest inductionHypothesis =>
            cases found with
            | nil => simpa using each 0
            | cons now others =>
                rw [locatedBelow_cons, locatedBelow_cons]
                refine List.rel_append ?_ ?_
                · have inside : Matches (fun rest => related (index :: rest)) child now := by
                    simpa using each 0
                  refine (below child (known child (by simp)) inside (base ++ [index])).imp ?_
                  rintro old new ⟨path, oldPath, newPath, both⟩
                  exact ⟨index :: path, by simp [oldPath], by simp [newPath], both⟩
                · refine inductionHypothesis others (index + 1)
                    (fun other present => known other (by simp [present])) fun step => ?_
                  have later := each (step + 1)
                  rwa [show index + (step + 1) = index + 1 + step by omega] at later
      rw [located_eq, located_eq]
      refine List.Forall₂.cons ⟨[], by simp, by simp, matching.here⟩
        (siblings node.children new.children 0 (fun _ present => present) fun step => ?_)
      rw [Nat.zero_add]
      exact matching.child step

/-- What is read off related nodes alike is read off the listings alike. -/
theorem filterMap_located
    {β : Type} {read readNow : Path × Node → Option β}
    (matching : node.Matches related new)
    (same : ∀ path given now, related path given now → readNow (path, now) = read (path, given)) :
    (new.located []).filterMap readNow = (node.located []).filterMap read := by
  have along {olds nows : List (Path × Node)}
      (each : List.Forall₂
        (fun old now => ∃ path, old.1 = [] ++ path ∧ now.1 = [] ++ path ∧ related path old.2 now.2)
        olds nows) :
      nows.filterMap readNow = olds.filterMap read := by
    induction each with
    | nil => rfl
    | @cons old now _ _ both _ inductionHypothesis =>
        obtain ⟨path, atOld, atNow, holds⟩ := both
        rw [List.nil_append] at atOld atNow
        have alike : readNow now = read old :=
          calc readNow now = readNow (path, now.2) := by rw [← atNow]
            _ = read (path, old.2) := same path old.2 now.2 holds
            _ = read old := by rw [← atOld]
        rw [List.filterMap_cons, List.filterMap_cons, inductionHypothesis, alike]
  exact along (matching.forall₂_located [])

end Matches

end Node
end Galley
