import Galley.Document.Place

/-!
# Navigation by paths

A node of a tree is reached by its path.  The pre-order listing of a tree holds every
node once, with the path that leads to it, and the enclosing nodes of a path are what
its proper prefixes lead to.
-/

namespace Galley
namespace Node

/-- A property of nodes holds of every node if it passes from the children to their
parent. -/
theorem induction_on_children
    {motive : Node → Prop}
    (node : Node)
    (step : ∀ node, (∀ child ∈ node.children, motive child) → motive node) :
    motive node :=
  @Node.rec motive (fun siblings => ∀ child ∈ siblings, motive child)
    (fun _ _ _ _ _ below => step _ below)
    (fun _ absent => by simp at absent)
    (fun _ _ first others child present => by
      rcases List.mem_cons.mp present with rfl | later
      · exact first
      · exact others child later)
    node

/-! ## Descending -/

@[simp] theorem at?_cons (node : Node) (index : Nat) (rest : Path) :
    node.at? (index :: rest) = (node.children[index]?).bind fun child => child.at? rest := rfl

/-- A path through a node continues from that node. -/
theorem at?_append (node : Node) (first second : Path) :
    node.at? (first ++ second) = (node.at? first).bind fun inner => inner.at? second := by
  induction first generalizing node with
  | nil => rfl
  | cons index rest inductionHypothesis =>
      simp only [List.cons_append, at?_cons]
      cases node.children[index]? with
      | none => rfl
      | some child => exact inductionHypothesis child

theorem at?_append_singleton
    {node parent : Node} {path : Path}
    (found : node.at? path = some parent)
    (index : Nat) :
    node.at? (path ++ [index]) = parent.children[index]? := by
  simp [at?_append, found]

/-- Every prefix of a path of the tree leads to a node. -/
theorem exists_at?_of_append
    {node inner : Node} {first second : Path}
    (found : node.at? (first ++ second) = some inner) :
    ∃ above, node.at? first = some above ∧ above.at? second = some inner := by
  rw [at?_append] at found
  exact Option.bind_eq_some_iff.mp found

/-- A path that goes on leads to a child of what its beginning leads to. -/
theorem exists_parent_of_at?
    {node child : Node} {path : Path} {index : Nat}
    (found : node.at? (path ++ [index]) = some child) :
    ∃ parent, node.at? path = some parent ∧ parent.children[index]? = some child := by
  obtain ⟨parent, above, below⟩ := exists_at?_of_append found
  refine ⟨parent, above, ?_⟩
  simpa using below

/-! ## The pre-order listing -/

theorem located_eq (node : Node) (path : Path) :
    node.located path = (path, node) :: locatedBelow node.children path 0 := by
  cases node
  rfl

@[simp] theorem locatedBelow_nil (path : Path) (index : Nat) :
    locatedBelow [] path index = [] := rfl

@[simp] theorem locatedBelow_cons (child : Node) (rest : List Node) (path : Path) (index : Nat) :
    locatedBelow (child :: rest) path index =
      child.located (path ++ [index]) ++ locatedBelow rest path (index + 1) := rfl

/-- The nodes listed from a base are those that the tree leads to, at their paths behind
it. -/
theorem mem_located_iff
    {node inner : Node} {base path : Path} :
    (path, inner) ∈ node.located base ↔
      ∃ rest, path = base ++ rest ∧ node.at? rest = some inner := by
  induction node using induction_on_children generalizing base path inner with
  | step node below =>
      have siblings (members : List Node) (index : Nat)
          (known : ∀ child ∈ members, child ∈ node.children) :
          (path, inner) ∈ locatedBelow members base index ↔
            ∃ step rest child, members[step]? = some child ∧
              path = base ++ (index + step) :: rest ∧ child.at? rest = some inner := by
        induction members generalizing index with
        | nil => simp
        | cons first others inductionHypothesis =>
            rw [locatedBelow_cons, List.mem_append, below first (known first (by simp)),
              inductionHypothesis (index + 1) fun child present => known child (by simp [present])]
            constructor
            · rintro (⟨rest, rfl, found⟩ | ⟨step, rest, child, member, rfl, found⟩)
              · exact ⟨0, rest, first, rfl, by simp, found⟩
              · exact ⟨step + 1, rest, child, by simpa using member,
                  by rw [Nat.add_assoc, Nat.add_comm 1 step], found⟩
            · rintro ⟨step, rest, child, member, rfl, found⟩
              cases step with
              | zero =>
                  obtain rfl : first = child := by simpa using member
                  exact Or.inl ⟨rest, by simp, found⟩
              | succ step =>
                  exact Or.inr ⟨step, rest, child, by simpa using member,
                    by rw [Nat.add_assoc, Nat.add_comm 1 step], found⟩
      rw [located_eq, List.mem_cons, siblings node.children 0 fun _ present => present]
      constructor
      · rintro (same | ⟨step, rest, child, member, rfl, found⟩)
        · obtain ⟨rfl, rfl⟩ := Prod.mk.inj same
          exact ⟨[], by simp, rfl⟩
        · exact ⟨step :: rest, by simp, by simp [member, found]⟩
      · rintro ⟨rest, rfl, found⟩
        cases rest with
        | nil => exact Or.inl (by simpa using found.symm)
        | cons step rest =>
            obtain ⟨child, member, deeper⟩ := Option.bind_eq_some_iff.mp found
            exact Or.inr ⟨step, rest, child, member, by simp, deeper⟩

/-- What is listed from a sibling on lies behind that sibling or a later one. -/
theorem exists_le_of_mem_locatedBelow
    {siblings : List Node} {base path : Path} {index : Nat} {inner : Node}
    (present : (path, inner) ∈ locatedBelow siblings base index) :
    ∃ step rest, index ≤ step ∧ path = base ++ step :: rest := by
  induction siblings generalizing index with
  | nil => simp at present
  | cons first others inductionHypothesis =>
      rw [locatedBelow_cons, List.mem_append, mem_located_iff] at present
      rcases present with ⟨rest, rfl, -⟩ | later
      · exact ⟨index, rest, Nat.le_refl index, by simp⟩
      · obtain ⟨step, rest, further, rfl⟩ := inductionHypothesis later
        exact ⟨step, rest, by omega, rfl⟩

/-- What is listed below a node lies behind its path. -/
theorem exists_of_mem_locatedBelow
    {siblings : List Node} {base path : Path} {index : Nat} {inner : Node}
    (present : (path, inner) ∈ locatedBelow siblings base index) :
    ∃ step rest, path = base ++ step :: rest := by
  obtain ⟨step, rest, -, place⟩ := exists_le_of_mem_locatedBelow present
  exact ⟨step, rest, place⟩

/-- The pre-order listing follows the lexicographic order of paths, in which a path
comes before the paths that go on from it. -/
theorem pairwise_lt_located (node : Node) (base : Path) :
    ((node.located base).map (·.1)).Pairwise (· < ·) := by
  induction node using induction_on_children generalizing base with
  | step node below =>
      have siblings (members : List Node) (index : Nat)
          (known : ∀ child ∈ members, child ∈ node.children) :
          ((locatedBelow members base index).map (·.1)).Pairwise (· < ·) := by
        induction members generalizing index with
        | nil => exact List.Pairwise.nil
        | cons first others inductionHypothesis =>
            rw [locatedBelow_cons, List.map_append, List.pairwise_append]
            refine ⟨below first (known first (by simp)) _, inductionHypothesis (index + 1)
              fun child present => known child (by simp [present]), ?_⟩
            simp only [List.mem_map, forall_exists_index, and_imp]
            rintro _ ⟨earlier, inner⟩ listed rfl _ ⟨later, other⟩ listedLater rfl
            obtain ⟨rest, rfl, -⟩ := mem_located_iff.mp listed
            obtain ⟨step, further, beyond, rfl⟩ := exists_le_of_mem_locatedBelow listedLater
            rw [List.append_assoc]
            exact List.append_left_lt (List.cons_lt_cons_iff.mpr (Or.inl (by omega)))
      rw [located_eq, List.map_cons, List.pairwise_cons]
      refine ⟨?_, siblings node.children 0 fun _ present => present⟩
      simp only [List.mem_map, forall_exists_index, and_imp]
      rintro _ ⟨path, inner⟩ listed rfl
      obtain ⟨step, rest, rfl⟩ := exists_of_mem_locatedBelow listed
      have longer : base ++ [] < base ++ step :: rest :=
        List.append_left_lt (List.nil_lt_cons step rest)
      rwa [List.append_nil] at longer

mutual

/-- A node and all nodes below it with their places, each before its children. -/
def placed (node : Node) (place : Place) : List (Place × Node) :=
  match node with
  | ⟨kind, payload, attributes, options, children⟩ =>
      let bare : Node := ⟨kind, payload, attributes, options, children⟩
      (place, bare) :: placedBelow children bare place 0
termination_by structural node

/-- The nodes of a list of siblings with their places, the first of which has the given
position. -/
def placedBelow (siblings : List Node) (parent : Node) (place : Place) (index : Nat) :
    List (Place × Node) :=
  match siblings with
  | [] => []
  | child :: rest =>
      child.placed (place.enter parent index) ++ placedBelow rest parent place (index + 1)
termination_by structural siblings

end

theorem placed_eq (node : Node) (place : Place) :
    node.placed place = (place, node) :: placedBelow node.children node place 0 := by
  cases node
  rfl

@[simp] theorem placedBelow_nil (parent : Node) (place : Place) (index : Nat) :
    placedBelow [] parent place index = [] := rfl

@[simp] theorem placedBelow_cons (child : Node) (rest : List Node) (parent : Node) (place : Place)
    (index : Nat) :
    placedBelow (child :: rest) parent place index =
      child.placed (place.enter parent index) ++ placedBelow rest parent place (index + 1) := rfl

/-- What is listed below siblings is listed below one of them. -/
theorem exists_of_mem_placedBelow {siblings : List Node} {parent : Node} {place : Place}
    {index : Nat}
    {entry : Place × Node} (listed : entry ∈ placedBelow siblings parent place index) :
    ∃ child position, child ∈ siblings ∧ entry ∈ child.placed (place.enter parent position) := by
  induction siblings generalizing index with
  | nil => cases listed
  | cons child rest inductionHypothesis =>
      rw [placedBelow_cons] at listed
      rcases List.mem_append.mp listed with here | later
      · exact ⟨child, index, List.mem_cons_self, here⟩
      · obtain ⟨other, position, present, inside⟩ := inductionHypothesis later
        exact ⟨other, position, List.mem_cons_of_mem child present, inside⟩

/-- What is listed below a sibling is listed below the siblings. -/
theorem exists_placed_subset {siblings : List Node} {child : Node} (member : child ∈ siblings)
    (parent : Node) (place : Place) (index : Nat) :
    ∃ position, child.placed (place.enter parent position) ⊆
      placedBelow siblings parent place index := by
  induction siblings generalizing index with
  | nil => cases member
  | cons first rest inductionHypothesis =>
      rw [placedBelow_cons]
      rcases List.mem_cons.mp member with rfl | later
      · exact ⟨index, List.subset_append_left _ _⟩
      · obtain ⟨position, inside⟩ := inductionHypothesis later (index + 1)
        exact ⟨position, fun _ listed => List.mem_append_right _ (inside listed)⟩

/-- Around a listed node stand the nodes around the place that the listing starts from. -/
theorem exists_ancestors_of_mem_placed {node : Node} {place : Place} {entry : Place × Node}
    (listed : entry ∈ node.placed place) :
    ∃ more, entry.1.ancestors = more ++ place.ancestors := by
  induction node using induction_on_children generalizing place with
  | step node below =>
      rw [placed_eq] at listed
      rcases List.mem_cons.mp listed with rfl | deeper
      · exact ⟨[], rfl⟩
      · obtain ⟨child, index, present, inside⟩ := exists_of_mem_placedBelow deeper
        obtain ⟨more, around⟩ := below child present inside
        rw [around, Place.enter]
        split
        · exact ⟨more ++ [node], by simp⟩
        · exact ⟨more, rfl⟩

/-! ## Enclosing nodes -/

/-- The parent of a node is its nearest enclosing node. -/
theorem ancestorsAt_append_singleton
    {node parent child : Node} {path : Path} {index : Nat}
    (found : node.at? path = some parent)
    (member : parent.children[index]? = some child) :
    node.ancestorsAt (path ++ [index]) = parent :: node.ancestorsAt path := by
  induction path generalizing node with
  | nil =>
      obtain rfl : node = parent := by simpa using found
      simp [ancestorsAt, member]
  | cons step rest inductionHypothesis =>
      obtain ⟨inner, entered, deeper⟩ := Option.bind_eq_some_iff.mp found
      simp [ancestorsAt, entered, inductionHypothesis deeper]

/-- A node has as many enclosing nodes as its path has steps. -/
theorem length_ancestorsAt
    {node inner : Node} {path : Path}
    (found : node.at? path = some inner) :
    (node.ancestorsAt path).length = path.length := by
  induction path generalizing node with
  | nil => rfl
  | cons step rest inductionHypothesis =>
      obtain ⟨child, entered, deeper⟩ := Option.bind_eq_some_iff.mp found
      simp [ancestorsAt, entered, inductionHypothesis deeper]

end Node

namespace Place

@[simp] theorem ofPath_nil (tree : Node) : ofPath tree [] = root := rfl

/-- The place of a child is entered from the place of its parent. -/
theorem ofPath_append_singleton
    {tree parent child : Node} {path : Path} {index : Nat}
    (found : tree.at? path = some parent)
    (member : parent.children[index]? = some child) :
    ofPath tree (path ++ [index]) = (ofPath tree path).enter parent index := by
  simp [ofPath, enter, Node.ancestorsAt_append_singleton found member]

end Place

/-- The listing with places is the listing with paths, each path taken as a place of the
tree. -/
theorem Node.placed_eq_located
    {tree node : Node} {base : Path}
    (found : tree.at? base = some node) :
    node.placed (Place.ofPath tree base) =
      (node.located base).map fun entry => (Place.ofPath tree entry.1, entry.2) := by
  induction node using induction_on_children generalizing base with
  | step node below =>
      have siblings (members : List Node) (index : Nat)
          (known : node.children.drop index = members) :
          placedBelow members node (Place.ofPath tree base) index =
            (locatedBelow members base index).map
              fun entry => (Place.ofPath tree entry.1, entry.2) := by
        induction members generalizing index with
        | nil => simp
        | cons first others inductionHypothesis =>
            have member : node.children[index]? = some first := by
              have opened : (node.children.drop index)[0]? = some first := by rw [known]; rfl
              rwa [List.getElem?_drop] at opened
            have later : node.children.drop (index + 1) = others := by
              simpa using congrArg List.tail known
            rw [placedBelow_cons, locatedBelow_cons, List.map_append,
              inductionHypothesis (index + 1) later,
              ← Place.ofPath_append_singleton found member,
              below first (List.mem_of_getElem? member)
                ((at?_append_singleton found index).trans member)]
      rw [placed_eq, located_eq, List.map_cons, siblings node.children 0 (by simp)]

end Galley
