import Galley.Proofs.Numbering.Tables
import Mathlib.Data.List.Nodup

/-!
# Scopes of the listing

The members of a scope in the pre-order listing of a tree are the children of the node
that the scope leads to, in their order.  Steps among them are counted from the place of
an anchor.
-/

namespace Galley
namespace Numbering

@[simp] theorem membersIn_nil (kind : Kind) (scope : Option Path) :
    membersIn kind scope [] = [] := rfl

theorem mem_membersIn_iff
    {kind : Kind} {scope : Option Path} {entries : List (Path × Node)} {path : Path} :
    path ∈ membersIn kind scope entries ↔
      ∃ node, (path, node) ∈ entries ∧ node.kind = kind ∧ Path.parent? path = scope := by
  simp only [membersIn, List.mem_map, List.mem_filter, Bool.and_eq_true, beq_iff_eq]
  constructor
  · rintro ⟨⟨_, node⟩, ⟨present, sameKind, sameScope⟩, rfl⟩
    exact ⟨node, present, sameKind, sameScope⟩
  · rintro ⟨node, present, sameKind, sameScope⟩
    exact ⟨(path, node), ⟨present, sameKind, sameScope⟩, rfl⟩

theorem membersIn_eq_nil
    {kind : Kind} {scope : Option Path} {entries : List (Path × Node)}
    (outside : ∀ entry ∈ entries, Path.parent? entry.1 ≠ scope) :
    membersIn kind scope entries = [] := by
  refine List.eq_nil_iff_forall_not_mem.mpr fun path present => ?_
  obtain ⟨node, listed, -, sameScope⟩ := mem_membersIn_iff.mp present
  exact outside _ listed sameScope

@[simp] theorem parent?_append_cons (path : Path) (index : Nat) (rest : Path) :
    Path.parent? (path ++ index :: rest) = some (path ++ (index :: rest).dropLast) := by
  simp [Path.parent?, List.dropLast_append_of_ne_nil]

/-- A node comes before the members below it. -/
theorem membersIn_located_split
    (kind : Kind) (scope : Option Path) (node : Node) (path : Path) :
    membersIn kind scope (node.located path) =
      membersIn kind scope [(path, node)] ++
        membersIn kind scope (Node.locatedBelow node.children path 0) := by
  rw [Node.located_eq, ← List.singleton_append, membersIn_append]

/-- The children of a child have the path of the child in front. -/
theorem membersOf_cons
    (node : Node) (kind : Kind) (index : Nat) (scope : Path) :
    membersOf node kind (index :: scope) =
      match node.children[index]? with
      | some child => (membersOf child kind scope).map (index :: ·)
      | none => [] := by
  unfold membersOf
  rw [Node.at?_cons]
  cases node.children[index]? with
  | none => rfl
  | some child =>
      dsimp only [Option.bind_some]
      cases child.at? scope <;> simp

/-- What is listed from one child of a node belongs to no scope that passes by the
child, except for the child itself. -/
theorem membersIn_located_of_outside
    (kind : Kind) (child : Node) (path : Path) (index : Nat) (scope : Path)
    (outside : ∀ rest, scope ≠ index :: rest) :
    membersIn kind (some (path ++ scope)) (child.located (path ++ [index])) =
      if scope = [] ∧ child.kind = kind then [path ++ [index]] else [] := by
  have below : membersIn kind (some (path ++ scope))
      (Node.locatedBelow child.children (path ++ [index]) 0) = [] := by
    refine membersIn_eq_nil fun entry present same => ?_
    obtain ⟨step, rest, place⟩ := Node.exists_of_mem_locatedBelow present
    rw [place, parent?_append_cons, List.append_assoc, Option.some.injEq,
      List.append_cancel_left_eq] at same
    exact outside _ same.symm
  rw [membersIn_located_split, below, List.append_nil]
  by_cases top : scope = []
  · subst top
    by_cases sameKind : child.kind = kind <;> simp [membersIn, Path.parent?, sameKind]
  · have apart : path ≠ path ++ scope := by simpa using Ne.symm top
    simp [membersIn, Path.parent?, apart, top]

/-- The members that a tree contributes to a scope at or below it. -/
theorem membersIn_locatedBelow
    (kind : Kind) (node : Node) (path scope : Path) :
    membersIn kind (some (path ++ scope)) (Node.locatedBelow node.children path 0) =
      (membersOf node kind scope).map (path ++ ·) := by
  induction node using Node.induction_on_children generalizing path scope with
  | step node below =>
      cases scope with
      | nil =>
          -- The scope of the node itself: each child contributes itself where its kind
          -- is right.
          have siblings (members : List Node) (index : Nat) :
              membersIn kind (some (path ++ [])) (Node.locatedBelow members path index) =
                ((members.zipIdx index).filter fun entry => entry.1.kind == kind).map
                  fun entry => path ++ [entry.2] := by
            induction members generalizing index with
            | nil => rfl
            | cons first others inductionHypothesis =>
                rw [Node.locatedBelow_cons, membersIn_append, inductionHypothesis,
                  membersIn_located_of_outside kind first path index [] (by simp)]
                by_cases sameKind : first.kind = kind <;> simp [sameKind]
          rw [siblings]
          simp [membersOf]
      | cons step rest =>
          -- A scope below one child: only that child contributes.
          have siblings (members : List Node) (index : Nat)
              (known : node.children.drop index = members) :
              membersIn kind (some (path ++ step :: rest)) (Node.locatedBelow members path index) =
                if index ≤ step then (membersOf node kind (step :: rest)).map (path ++ ·)
                else [] := by
            induction members generalizing index with
            | nil =>
                have beyond : node.children.length ≤ index := List.drop_eq_nil_iff.mp known
                by_cases reached : index ≤ step
                · have missing : node.children[step]? = none :=
                    List.getElem?_eq_none (by omega)
                  simp [membersOf_cons, missing]
                · simp [reached]
            | cons first others inductionHypothesis =>
                have member : node.children[index]? = some first := by
                  have opened : (node.children.drop index)[0]? = some first := by rw [known]; rfl
                  rwa [List.getElem?_drop] at opened
                have later : node.children.drop (index + 1) = others := by
                  simpa using congrArg List.tail known
                rw [Node.locatedBelow_cons, membersIn_append, inductionHypothesis (index + 1) later]
                by_cases here : step = index
                · subst here
                  have inside := below first (List.mem_of_getElem? member) (path ++ [step]) rest
                  rw [List.append_assoc, List.singleton_append] at inside
                  have itself : membersIn kind (some (path ++ step :: rest))
                      [(path ++ [step], first)] = [] := by
                    refine membersIn_eq_nil fun entry present => ?_
                    obtain rfl := List.mem_singleton.mp present
                    simp
                  rw [membersIn_located_split, itself, inside, membersOf_cons, member,
                    if_neg (by omega : ¬ step + 1 ≤ step), if_pos (Nat.le_refl step)]
                  simp [Function.comp_def]
                · rw [membersIn_located_of_outside kind first path index (step :: rest)
                    (by simp [here])]
                  by_cases reached : index ≤ step
                  · have passed : index + 1 ≤ step := by omega
                    simp [reached, passed]
                  · have passed : ¬ index + 1 ≤ step := by omega
                    simp [reached, passed]
          rw [siblings node.children 0 (by simp)]
          simp

/-- The members of a scope in the listing of a tree are the children of the node at the
scope. -/
theorem membersIn_located (tree : Node) (kind : Kind) (scope : Path) :
    membersIn kind (some scope) (tree.located []) = membersOf tree kind scope := by
  have below := membersIn_locatedBelow kind tree [] scope
  rw [List.nil_append] at below
  rw [membersIn_located_split, below]
  simp [membersIn, Path.parent?]

/-- Only the root has no parent. -/
theorem membersIn_located_none (tree : Node) (kind : Kind) :
    membersIn kind none (tree.located []) = if tree.kind = kind then [[]] else [] := by
  have below : membersIn kind none (Node.locatedBelow tree.children [] 0) = [] := by
    refine membersIn_eq_nil fun entry present => ?_
    obtain ⟨step, rest, place⟩ := Node.exists_of_mem_locatedBelow present
    rw [place, parent?_append_cons]
    simp
  rw [membersIn_located_split, below, List.append_nil]
  by_cases sameKind : tree.kind = kind <;> simp [membersIn, Path.parent?, sameKind]

/-! ## Steps among siblings -/

theorem membersOf_nodup (tree : Node) (kind : Kind) (scope : Path) :
    (membersOf tree kind scope).Nodup := by
  unfold membersOf
  split
  · rename_i parent found
    have places : (parent.children.zipIdx.map fun entry => scope ++ [entry.2]).Nodup := by
      have indexed : (parent.children.zipIdx.map fun entry => scope ++ [entry.2]) =
          (List.range parent.children.length).map fun index => scope ++ [index] := by
        have numbers : parent.children.zipIdx.map (·.2) = List.range parent.children.length := by
          rw [List.zipIdx_map_snd, List.range_eq_range']
        rw [← numbers, List.map_map]
        rfl
      rw [indexed]
      exact List.Nodup.map (fun left right same => by simpa using same) List.nodup_range
    exact places.sublist (List.filter_sublist.map _)
  · exact List.nodup_nil

/-- A list without repetitions, cut before one of its members, goes on from the place of
the member. -/
theorem dropWhile_ne_eq_drop
    {members : List Path} {anchor : Path} {position : Nat}
    (distinct : members.Nodup)
    (found : members[position]? = some anchor) :
    members.dropWhile (· != anchor) = members.drop position := by
  induction members generalizing position with
  | nil => simp at found
  | cons first others inductionHypothesis =>
      obtain ⟨fresh, distinctBelow⟩ := List.nodup_cons.mp distinct
      cases position with
      | zero =>
          obtain rfl : first = anchor := by simpa using found
          simp
      | succ position =>
          have later : others[position]? = some anchor := by simpa using found
          have apart : first ≠ anchor := by
            rintro rfl
            exact fresh (List.mem_of_getElem? later)
          simp [apart, inductionHypothesis distinctBelow later]

/-- Steps forward from an anchor. -/
theorem getElem?_dropWhile_ne
    {members : List Path} {anchor : Path} {position : Nat}
    (distinct : members.Nodup)
    (found : members[position]? = some anchor)
    (count : Nat) :
    (members.dropWhile (· != anchor))[count]? = members[position + count]? := by
  rw [dropWhile_ne_eq_drop distinct found, List.getElem?_drop]

/-- Steps backward from an anchor. -/
theorem getElem?_reverse_dropWhile_ne
    {members : List Path} {anchor : Path} {position : Nat}
    (distinct : members.Nodup)
    (found : members[position]? = some anchor)
    (count : Nat) :
    (members.reverse.dropWhile (· != anchor))[count]? =
      if count ≤ position then members[position - count]? else none := by
  have inside : position < members.length := (List.getElem?_eq_some_iff.mp found).1
  have mirrored : members.reverse[members.length - 1 - position]? = some anchor := by
    rw [List.getElem?_reverse (by omega), ← found]
    congr 1
    omega
  rw [getElem?_dropWhile_ne (List.nodup_reverse.mpr distinct) mirrored]
  by_cases reached : count ≤ position
  · rw [if_pos reached, List.getElem?_reverse (by omega)]
    congr 1
    omega
  · rw [if_neg reached]
    exact List.getElem?_eq_none (by simp; omega)

end Numbering
end Galley
