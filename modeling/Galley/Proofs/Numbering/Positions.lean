import Galley.Proofs.Document.Equality
import Galley.Proofs.Numbering.Origins
import Galley.Proofs.Numbering.References

/-!
# Positions among siblings

The position of a heading or an item is the number of its kind before it under the same
parent, so the members of each group of siblings are counted from zero without gaps.
The position tables list these nodes in document order and step among siblings by their
positions.
-/

namespace Galley
namespace Numbering

/-! ## Siblings -/

/-- The node directly above a path. -/
def parentAt? (tree : Node) (path : Path) : Option Node :=
  (Path.parent? path).bind tree.at?

/-- The children before a node under the same parent; the root has none before it. -/
def earlierSiblings (tree : Node) (path : Path) : List Node :=
  match parentAt? tree path with
  | some parent => parent.children.take (path.getLast?.getD 0)
  | none => []

/-- The number of nodes of a kind before a node under the same parent. -/
def siblingsBefore (tree : Node) (kind : Kind) (path : Path) : Nat :=
  (earlierSiblings tree path).countP fun node => node.kind == kind

/-- The children of a kind under the parent of a node; the root stands for itself
alone. -/
def siblingsOf (tree : Node) (kind : Kind) (path : Path) : List Path :=
  match Path.parent? path with
  | some scope => membersOf tree kind scope
  | none => [path]

/-- A position table enumerates the nodes of a kind: it lists them in document order,
their positions count the siblings of their kind, and its steps are steps among those
siblings. -/
structure Enumerates
    (numbered : Numbered) (kind : Kind) (table : PositionTable (Option Path) Path) : Prop where
  /-- All nodes of the kind are listed and nothing else. -/
  listed : ∀ path, path ∈ table.entries ↔
    ∃ node, numbered.tree.at? path = some node ∧ node.kind = kind
  /-- Entries stand in document order, which is the lexicographic order of paths; none
  is listed twice. -/
  ordered : table.entries.Pairwise (· < ·)
  /-- A position is the number of earlier siblings of the kind. -/
  position : ∀ path ∈ table.entries,
    (numbered.tree.at? path).bind Node.position? =
      some (.int (siblingsBefore numbered.tree kind path))
  /-- The positions of a group are counted from zero without gaps. -/
  dense : ∀ path ∈ table.entries,
    (siblingsOf numbered.tree kind path).map numbered.positionAt? =
      (List.range (siblingsOf numbered.tree kind path).length).map fun count : Nat =>
        some (count : Int)
  /-- A step to a position of the group leads to the sibling there. -/
  within : ∀ anchor ∈ table.entries, ∀ (offset : Int) (count : Nat) (target : Path),
    siblingsBefore numbered.tree kind anchor + offset = count →
    (siblingsOf numbered.tree kind anchor)[count]? = some target →
    numbered.stepFrom? table anchor offset = some target
  /-- A step to any other position leads nowhere. -/
  beyond : ∀ anchor ∈ table.entries, ∀ offset : Int,
    (siblingsBefore numbered.tree kind anchor + offset < 0 ∨
      (siblingsOf numbered.tree kind anchor).length ≤
        siblingsBefore numbered.tree kind anchor + offset) →
    numbered.stepFrom? table anchor offset = none

@[simp] theorem siblingsBefore_nil (tree : Node) (kind : Kind) : siblingsBefore tree kind [] = 0 :=
  rfl

theorem siblingsBefore_append_singleton
    {tree parent : Node} {scope : Path}
    (found : tree.at? scope = some parent)
    (kind : Kind) (index : Nat) :
    siblingsBefore tree kind (scope ++ [index]) =
      (parent.children.take index).countP fun node => node.kind == kind := by
  simp [siblingsBefore, earlierSiblings, parentAt?, found]

theorem siblingsOf_nodup (tree : Node) (kind : Kind) (path : Path) :
    (siblingsOf tree kind path).Nodup := by
  unfold siblingsOf
  split
  · exact membersOf_nodup tree kind _
  · exact List.nodup_singleton path

/-- An element that is kept stands behind the elements kept before it. -/
theorem getElem?_filter_countP
    {α : Type} {members : List α} {index : Nat} {element : α}
    (kept : α → Bool)
    (found : members[index]? = some element)
    (holds : kept element = true) :
    (members.filter kept)[(members.take index).countP kept]? = some element := by
  have split : members = members.take index ++ element :: members.drop (index + 1) := by
    obtain ⟨inside, rfl⟩ := List.getElem?_eq_some_iff.mp found
    rw [← List.drop_eq_getElem_cons inside, List.take_append_drop]
  have front : (members.take index).countP kept = ((members.take index).filter kept).length :=
    List.countP_eq_length_filter
  rw [front]
  nth_rewrite 1 [split]
  rw [List.filter_append, List.filter_cons_of_pos holds]
  simp

/-- A node stands among its siblings behind those before it. -/
theorem getElem?_siblingsOf
    {tree node : Node} {path : Path}
    (found : tree.at? path = some node) :
    (siblingsOf tree node.kind path)[siblingsBefore tree node.kind path]? = some path := by
  rcases List.eq_nil_or_concat' path with rfl | ⟨scope, index, rfl⟩
  · rfl
  · obtain ⟨parent, above, member⟩ := Node.exists_parent_of_at? found
    have listed : parent.children.zipIdx[index]? = some (node, index) := by
      simp [List.getElem?_zipIdx, member]
    have counted : ((parent.children.zipIdx.take index).countP
        fun entry => entry.1.kind == node.kind) =
          siblingsBefore tree node.kind (scope ++ [index]) := by
      have firsts : (parent.children.zipIdx.take index).map (·.1) =
          parent.children.take index := by
        rw [List.map_take, List.zipIdx_map_fst]
      rw [siblingsBefore_append_singleton above, ← firsts, List.countP_map]
      rfl
    have place := getElem?_filter_countP (fun entry => entry.1.kind == node.kind) listed (by simp)
    rw [counted] at place
    simp [siblingsOf, Path.parent?, membersOf, above, place]

/-- The siblings of a node are the members of its scope in the listing. -/
theorem membersIn_eq_siblingsOf
    {tree node : Node} {path : Path}
    (found : tree.at? path = some node) :
    membersIn node.kind (Path.parent? path) (tree.located []) = siblingsOf tree node.kind path := by
  rcases List.eq_nil_or_concat' path with rfl | ⟨scope, index, rfl⟩
  · obtain rfl : tree = node := by simpa using found
    rw [show Path.parent? [] = none from rfl, membersIn_located_none, if_pos rfl]
    rfl
  · have above : Path.parent? (scope ++ [index]) = some scope := by simp [Path.parent?]
    rw [siblingsOf, above, membersIn_located]

/-- Siblings are nodes of one kind with the same siblings. -/
theorem exists_of_mem_siblingsOf
    {tree node : Node} {path target : Path}
    (found : tree.at? path = some node)
    (present : target ∈ siblingsOf tree node.kind path) :
    ∃ sibling, tree.at? target = some sibling ∧ sibling.kind = node.kind ∧
      siblingsOf tree node.kind target = siblingsOf tree node.kind path := by
  rw [← membersIn_eq_siblingsOf found] at present ⊢
  obtain ⟨sibling, listed, sameKind, sameScope⟩ := mem_membersIn_iff.mp present
  obtain ⟨rest, rfl, there⟩ := Node.mem_located_iff.mp listed
  refine ⟨sibling, there, sameKind, ?_⟩
  rw [← sameScope, ← sameKind]
  exact (membersIn_eq_siblingsOf there).symm

/-- The siblings of a node are counted from zero. -/
theorem siblingsBefore_of_getElem?
    {tree node : Node} {path target : Path} {count : Nat}
    (found : tree.at? path = some node)
    (member : (siblingsOf tree node.kind path)[count]? = some target) :
    siblingsBefore tree node.kind target = count := by
  obtain ⟨sibling, there, sameKind, sameSiblings⟩ :=
    exists_of_mem_siblingsOf found (List.mem_of_getElem? member)
  have place := getElem?_siblingsOf there
  rw [sameKind, sameSiblings] at place
  exact (List.getElem?_inj (List.getElem?_eq_some_iff.mp place).1
    (siblingsOf_nodup tree node.kind path)).mp (place.trans member.symm)

/-! ## Entries -/

theorem entries_enroll
    (kind : Kind)
    (table : PositionTable (Option Path) Path)
    (entries : List (Path × Node)) :
    (enroll kind table entries).entries =
      table.entries ++ (entries.filter fun entry => entry.2.kind == kind).map (·.1) := by
  induction entries generalizing table with
  | nil => simp [enroll]
  | cons entry rest inductionHypothesis =>
      have unfolded : enroll kind table (entry :: rest) =
          enroll kind
            (if entry.2.kind == kind then table.add (Path.parent? entry.1) entry.1 else table)
            rest := rfl
      rw [unfolded, inductionHypothesis]
      by_cases present : entry.2.kind == kind <;> simp [present]

/-- The tables are filled in the order of the listing. -/
theorem resolve_enrolled
    {tree : Node} {numbered : Numbered}
    (returned : (resolve tree).1 = .ok numbered) :
    numbered.headings = enroll .header {} (numbered.tree.located []) ∧
      numbered.items = enroll .listItem {} (numbered.tree.located []) := by
  refine resolve_meets
    (fun numbered => numbered.headings = enroll .header {} (numbered.tree.located []) ∧
      numbered.items = enroll .listItem {} (numbered.tree.located []))
    returned ((annotate_gathered tree Place.root {} rfl).imp ?_)
  rintro annotated after ⟨-, gathered⟩
  have found := gathered Place.root ⟨rfl, rfl, rfl, rfl⟩
  exact ⟨found.headings, found.items⟩

/-! ## The tables of a numbered tree -/

/-- The position of a node is the number of its siblings before it. -/
theorem position?_eq_siblingsBefore
    {tree node : Node} {kind : Kind} {table : PositionTable (Option Path) Path} {path : Path}
    (groups : ∀ scope, table.group scope = membersIn kind scope (tree.located []))
    (positions : PositionsIn kind table (tree.located []))
    (found : tree.at? path = some node)
    (sameKind : node.kind = kind) :
    node.position? = some (.int (siblingsBefore tree kind path)) := by
  subst sameKind
  have listed : (path, node) ∈ tree.located [] := Node.mem_located_iff.mpr ⟨path, by simp, found⟩
  obtain ⟨position, known, member⟩ := positions path node listed rfl
  rw [groups, membersIn_eq_siblingsOf found] at member
  rw [known, siblingsBefore_of_getElem? found member]

section Groups

variable {numbered : Numbered} {node : Node} {table : PositionTable (Option Path) Path}
  {path : Path}
  (groups : ∀ scope, table.group scope = membersIn node.kind scope (numbered.tree.located []))
  (positions : PositionsIn node.kind table (numbered.tree.located []))
  (found : numbered.tree.at? path = some node)

include groups positions found

/-- The position that steps start from is the number of siblings before the node. -/
theorem positionAt?_eq_siblingsBefore :
    numbered.positionAt? path = some (siblingsBefore numbered.tree node.kind path : Int) := by
  rw [Numbered.positionAt?, found, Option.bind_some,
    position?_eq_siblingsBefore groups positions found rfl]
  rfl

/-- The positions of the siblings of a node are counted from zero without gaps. -/
theorem map_positionAt?_siblingsOf :
    (siblingsOf numbered.tree node.kind path).map numbered.positionAt? =
      (List.range (siblingsOf numbered.tree node.kind path).length).map fun count : Nat =>
        some (count : Int) := by
  refine List.ext_getElem? fun count => ?_
  rw [List.getElem?_map, List.getElem?_map]
  cases member : (siblingsOf numbered.tree node.kind path)[count]? with
  | none =>
      have outside := List.getElem?_eq_none_iff.mp member
      rw [List.getElem?_eq_none (by simpa using outside)]
      rfl
  | some target =>
      obtain ⟨sibling, there, sameKind, -⟩ :=
        exists_of_mem_siblingsOf found (List.mem_of_getElem? member)
      have inside := (List.getElem?_eq_some_iff.mp member).1
      have groups' : ∀ scope, table.group scope =
          membersIn sibling.kind scope (numbered.tree.located []) := by rwa [sameKind]
      have positions' : PositionsIn sibling.kind table (numbered.tree.located []) := by
        rwa [sameKind]
      have place := positionAt?_eq_siblingsBefore groups' positions' there
      rw [sameKind, siblingsBefore_of_getElem? found member] at place
      rw [List.getElem?_range inside, Option.map_some, Option.map_some, place]

/-- A step counts from the position of the node among its siblings. -/
theorem stepFrom?_eq_getElem?_siblingsOf (offset : Int) :
    numbered.stepFrom? table path offset =
      if siblingsBefore numbered.tree node.kind path + offset < 0 then none
      else (siblingsOf numbered.tree node.kind path)[
        (siblingsBefore numbered.tree node.kind path + offset).toNat]? := by
  rw [Numbered.stepFrom?, positionAt?_eq_siblingsBefore groups positions found, Option.bind_some,
    PositionTable.relative, groups, membersIn_eq_siblingsOf found]

end Groups

/-- A table that is filled in the order of the listing enumerates the nodes of its
kind. -/
theorem enumerates_of_enrolled
    {numbered : Numbered} {kind : Kind} {table : PositionTable (Option Path) Path}
    (enrolled : table = enroll kind {} (numbered.tree.located []))
    (positions : PositionsIn kind table (numbered.tree.located [])) :
    Enumerates numbered kind table := by
  have groups (scope : Option Path) :
      table.group scope = membersIn kind scope (numbered.tree.located []) := by
    rw [enrolled, group_enroll]
    rfl
  have entries : table.entries =
      ((numbered.tree.located []).filter fun entry => entry.2.kind == kind).map (·.1) := by
    rw [enrolled, entries_enroll]
    rfl
  have listed (path : Path) : path ∈ table.entries ↔
      ∃ node, numbered.tree.at? path = some node ∧ node.kind = kind := by
    simp [entries, Node.mem_located_iff]
  refine ⟨listed, ?_, fun path present => ?_, fun path present => ?_, ?_, ?_⟩
  · rw [entries]
    exact (Node.pairwise_lt_located numbered.tree []).sublist (List.filter_sublist.map _)
  · obtain ⟨node, found, rfl⟩ := (listed path).mp present
    rw [found, Option.bind_some, position?_eq_siblingsBefore groups positions found rfl]
  · obtain ⟨node, found, rfl⟩ := (listed path).mp present
    exact map_positionAt?_siblingsOf groups positions found
  · intro anchor present offset count target reached member
    obtain ⟨node, found, rfl⟩ := (listed anchor).mp present
    have inside : ¬ siblingsBefore numbered.tree node.kind anchor + offset < 0 := by omega
    rw [stepFrom?_eq_getElem?_siblingsOf groups positions found, if_neg inside, reached,
      Int.toNat_natCast, member]
  · intro anchor present offset away
    obtain ⟨node, found, rfl⟩ := (listed anchor).mp present
    rw [stepFrom?_eq_getElem?_siblingsOf groups positions found]
    split
    · rfl
    · exact List.getElem?_eq_none (by omega)

/-- The tables of a numbered tree enumerate its headings and its items, and no other
node gains a position: its options are those of the given node. -/
theorem resolve_enumerates
    {tree : Node} {numbered : Numbered}
    (returned : (resolve tree).1 = .ok numbered) :
    Enumerates numbered .header numbered.headings ∧
      Enumerates numbered .listItem numbered.items ∧
      ∀ path now, numbered.tree.at? path = some now → now.kind ≠ .header → now.kind ≠ .listItem →
        ∃ given, tree.at? path = some given ∧ now.options = given.options := by
  have tabulated := resolve_tabulated returned
  obtain ⟨headings, items⟩ := resolve_enrolled returned
  refine ⟨enumerates_of_enrolled headings tabulated.headingPositions,
    enumerates_of_enrolled items tabulated.itemPositions, ?_⟩
  intro path now found notHeader notItem
  obtain ⟨given, there, becomes⟩ := (resolve_becomes returned).exists_given found
  rw [becomes.kind] at notHeader notItem
  exact ⟨given, there, becomes.options notHeader notItem⟩

/-- Two ordered items, a heading and a label.  The first item holds two more ordered
items, the second an item of an unordered list; the heading holds an item outside any
list. -/
def nestedItems : Node :=
  { kind := .root
    children := [
      { kind := .orderedList
        children := [
          { kind := .listItem
            options := [("label", .text "a")]
            children := [
              { kind := .orderedList
                options := [("start", .int 3)]
                children := [
                  { kind := .listItem },
                  { kind := .listItem
                    children := [{ kind := .label, payload := .text "b" }] }] }] },
          { kind := .listItem
            payload := .text "*"
            children := [
              { kind := .unorderedList
                children := [
                  { kind := .listItem
                    children := [{ kind := .label, payload := .text "a" }] }] }] }] },
      { kind := .header
        options := [("label", .text "b")]
        children := [{ kind := .listItem }] },
      { kind := .label, payload := .text "c" }] }

/-- What the pass makes of the nested items. -/
def nestedItemsNumbered : Numbered where
  tree :=
    { kind := .root
      children := [
        { kind := .orderedList
          children := [
            { kind := .listItem
              payload := .item { mark := "1", fullMark := some "1" }
              options := [("label", .text "a"), (Node.positionKey, .int 0)]
              children := [
                { kind := .orderedList
                  options := [("start", .int 3)]
                  children := [
                    { kind := .listItem
                      payload := .item { mark := "c", fullMark := some "1.c" }
                      options := [(Node.positionKey, .int 0)] },
                    { kind := .listItem
                      payload := .item { mark := "d", fullMark := some "1.d" }
                      options := [(Node.positionKey, .int 1)]
                      children := [{ kind := .label, payload := .text "b" }] }] }] },
            { kind := .listItem
              payload := .item { mark := "*", fullMark := some "*" }
              options := [(Node.positionKey, .int 1)]
              children := [
                { kind := .unorderedList
                  children := [
                    { kind := .listItem
                      options := [(Node.positionKey, .int 0)]
                      children := [{ kind := .label, payload := .text "a" }] }] }] }] },
        { kind := .header
          payload := .heading { level := .one, mark := some "1", fullMark := some "1" }
          options := [("label", .text "b"), (Node.positionKey, .int 0)]
          children := [
            { kind := .listItem
              options := [(Node.positionKey, .int 0)] }] },
        { kind := .label, payload := .text "c" }] }
  labels := [("a", [0, 1, 0, 0]), ("b", [1]), ("c", [])]
  headings := { entries := [[1]], groups := [(some [], [[1]])] }
  items :=
    { entries := [[0, 0], [0, 0, 0, 0], [0, 0, 0, 1], [0, 1], [0, 1, 0, 0], [1, 0]]
      groups := [
        (some [0], [[0, 0], [0, 1]]), (some [0, 0, 0], [[0, 0, 0, 0], [0, 0, 0, 1]]),
        (some [0, 1, 0], [[0, 1, 0, 0]]), (some [1], [[1, 0]])] }

theorem resolve_nestedItems : (resolve nestedItems).1 = .ok nestedItemsNumbered :=
  eq_ok_of_toOption (by decide +kernel)

/-- A step from the first of two ordered items passes over the items inside it, and the
last of those has none behind it. -/
theorem resolve_enumerates_nestedItems :
    (resolve nestedItems).1 = .ok nestedItemsNumbered ∧
      nestedItemsNumbered.stepFrom? nestedItemsNumbered.items [0, 0] 1 = some [0, 1] ∧
      nestedItemsNumbered.stepFrom? nestedItemsNumbered.items [0, 0, 0, 1] 1 = none := by
  obtain ⟨-, items, -⟩ := resolve_enumerates resolve_nestedItems
  refine ⟨resolve_nestedItems, items.within [0, 0] (by decide) 1 1 [0, 1] (by decide)
    (by decide), ?_⟩
  exact items.beyond [0, 0, 0, 1] (by decide) 1 (Or.inr (by decide))

end Numbering
end Galley
