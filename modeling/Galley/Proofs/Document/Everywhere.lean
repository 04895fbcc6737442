import Galley.Proofs.Document.Paths
import Mathlib.Algebra.GroupWithZero.Nat

/-!
# Properties of all nodes

A property holds everywhere in a tree if every node of the tree has it: the root and all
nodes below its children.  The codes of a tree are its nodes of inline code.
-/

namespace Galley
namespace Node

/-- The paths of a listing do not change which nodes are listed. -/
theorem map_snd_located (node : Node) (path : Path) :
    (node.located path).map (·.2) = node.walk := by
  have independent : ∀ (node : Node) (first second : Path),
      (node.located first).map (·.2) = (node.located second).map (·.2) := by
    intro node
    induction node using induction_on_children with
    | step node below =>
        have siblings (members : List Node) (known : ∀ child ∈ members, child ∈ node.children)
            (first second : Path) (index : Nat) :
            (locatedBelow members first index).map (·.2) =
              (locatedBelow members second index).map (·.2) := by
          induction members generalizing index with
          | nil => rfl
          | cons child rest inductionHypothesis =>
              rw [locatedBelow_cons, locatedBelow_cons, List.map_append, List.map_append,
                below child (known child (by simp)) (first ++ [index]) (second ++ [index]),
                inductionHypothesis fun other present => known other (by simp [present])]
        intro first second
        rw [located_eq, located_eq, List.map_cons, List.map_cons,
          siblings node.children (fun _ present => present) first second 0]
  exact independent node path []

/-- A walk visits a node and then all nodes below its children. -/
theorem walk_eq (node : Node) : node.walk = node :: node.children.flatMap walk := by
  have siblings (members : List Node) (path : Path) (index : Nat) :
      (locatedBelow members path index).map (·.2) = members.flatMap walk := by
    induction members generalizing index with
    | nil => rfl
    | cons child rest inductionHypothesis =>
        rw [locatedBelow_cons, List.map_append, map_snd_located, inductionHypothesis,
          List.flatMap_cons]
  rw [walk, located_eq, List.map_cons, siblings]

/-- A walk visits the nodes that paths lead to. -/
theorem mem_walk_iff {node inner : Node} :
    inner ∈ node.walk ↔ ∃ path, node.at? path = some inner := by
  constructor
  · intro present
    obtain ⟨⟨path, _⟩, listed, rfl⟩ := List.mem_map.mp present
    obtain ⟨rest, -, found⟩ := mem_located_iff.mp listed
    exact ⟨rest, found⟩
  · rintro ⟨path, found⟩
    exact List.mem_map.mpr ⟨(path, inner), mem_located_iff.mpr ⟨path, by simp, found⟩, rfl⟩

/-- A property holds of a node and of all nodes below it. -/
def Everywhere (property : Node → Prop) (node : Node) : Prop :=
  ∀ inner ∈ node.walk, property inner

instance (property : Node → Prop) [DecidablePred property] :
    DecidablePred (Everywhere property) :=
  fun node => inferInstanceAs (Decidable (∀ inner ∈ node.walk, property inner))

theorem everywhere_iff {property : Node → Prop} {node : Node} :
    node.Everywhere property ↔
      property node ∧ ∀ child ∈ node.children, child.Everywhere property := by
  unfold Everywhere
  rw [walk_eq]
  constructor
  · intro all
    exact ⟨all node (by simp), fun child present inner inside =>
      all inner (List.mem_cons_of_mem _ (List.mem_flatMap.mpr ⟨child, present, inside⟩))⟩
  · rintro ⟨here, below⟩ inner present
    rcases List.mem_cons.mp present with rfl | deeper
    · exact here
    · obtain ⟨child, member, inside⟩ := List.mem_flatMap.mp deeper
      exact below child member inner inside

theorem Everywhere.here {property : Node → Prop} {node : Node}
    (all : node.Everywhere property) : property node :=
  (everywhere_iff.mp all).1

theorem Everywhere.below {property : Node → Prop} {node child : Node}
    (all : node.Everywhere property) (member : child ∈ node.children) :
    child.Everywhere property :=
  (everywhere_iff.mp all).2 child member

theorem Everywhere.imp {property weaker : Node → Prop} {node : Node}
    (all : node.Everywhere property) (implied : ∀ inner, property inner → weaker inner) :
    node.Everywhere weaker :=
  fun inner present => implied inner (all inner present)

theorem Everywhere.of_mem_located {property : Node → Prop} {node : Node} {path : Path}
    {entry : Path × Node} (all : node.Everywhere property) (listed : entry ∈ node.located path) :
    property entry.2 :=
  all entry.2 (map_snd_located node path ▸ List.mem_map_of_mem listed)

/-- A property holds everywhere if all nodes have it that are listed with their places. -/
theorem Everywhere.of_placed {property : Node → Prop} {node : Node} {place : Place}
    (each : ∀ entry ∈ node.placed place, property entry.2) : node.Everywhere property := by
  induction node using induction_on_children generalizing place with
  | step node below =>
      rw [placed_eq] at each
      obtain ⟨here, others⟩ := List.forall_mem_cons.mp each
      refine everywhere_iff.mpr ⟨here, fun child member => ?_⟩
      obtain ⟨position, inside⟩ := exists_placed_subset member node place 0
      exact below child member fun entry listed => others entry (inside listed)

/-- The number of nodes of inline code in a tree. -/
def codeCount (node : Node) : Nat :=
  node.walk.countP fun inner => inner.kind == .inlineCode

/-- The number of nodes of inline code below a list of siblings, the siblings included. -/
def codeCountBelow (siblings : List Node) : Nat :=
  (siblings.map codeCount).sum

@[simp] theorem codeCountBelow_nil : codeCountBelow [] = 0 := rfl

@[simp] theorem codeCountBelow_cons (child : Node) (rest : List Node) :
    codeCountBelow (child :: rest) = child.codeCount + codeCountBelow rest := by
  simp [codeCountBelow]

theorem codeCount_eq (node : Node) :
    node.codeCount =
      (if node.kind = .inlineCode then 1 else 0) + codeCountBelow node.children := by
  have siblings (members : List Node) :
      (members.flatMap walk).countP (fun inner => inner.kind == .inlineCode) =
        codeCountBelow members := by
    induction members with
    | nil => rfl
    | cons child rest inductionHypothesis =>
        rw [List.flatMap_cons, List.countP_append, inductionHypothesis, codeCountBelow_cons]
        rfl
  rw [codeCount, walk_eq, List.countP_cons, siblings]
  by_cases code : node.kind = .inlineCode <;> simp [code, Nat.add_comm]

end Node
end Galley
