import Galley.Document.Lister
import Galley.Proofs.Document.Everywhere
import Galley.Proofs.Outcome
import Galley.Proofs.Text.Ink

/-!
# Reading a listing back

A lister gives the same listing whatever it listed before and wherever it stopped: one
line for each node, each before its children.  Depth, kind and category can be read off
each line, whatever payloads look like, and from the depths in document order one can
tell which node stands below which.
-/

namespace Galley

/-- The paths of a tree in document order, each with the kind and the category of the
node there. -/
def Node.outline (node : Node) (path : Path) : List (Path × Kind × String) :=
  (node.located path).map fun entry => (entry.1, entry.2.kind, entry.2.category)

namespace Listing

/-! ## Lines of a tree -/

/-- Every kind in a tree is known. -/
def isListable (node : Node) : Bool :=
  node.walk.all fun inner => inner.kind.isKnown

theorem isListable_eq (node : Node) :
    isListable node = (node.kind.isKnown && node.children.all isListable) := by
  rw [isListable, Node.walk_eq, List.all_cons, List.all_flatMap]
  rfl

/-- The lines of a tree are those of its nodes, each at the length of its path; a tree
with a kind that is not known has none. -/
theorem lines_eq (node : Node) (path : Path) :
    lines node path.length =
      if isListable node then .ok ((node.located path).map fun entry => line entry.2 entry.1.length)
      else .error .unknownName := by
  induction node using Node.induction_on_children generalizing path with
  | step node below =>
      have siblings (members : List Node) (inside : ∀ child ∈ members, child ∈ node.children)
          (index : Nat) : linesBelow members (path.length + 1) =
            if members.all isListable then
              .ok ((Node.locatedBelow members path index).map fun entry =>
                line entry.2 entry.1.length)
            else .error .unknownName := by
        induction members generalizing index with
        | nil => rfl
        | cons child rest inductionHypothesis =>
            have first := below child (inside child (by simp)) (path ++ [index])
            have others :=
              inductionHypothesis (fun other present => inside other (by simp [present]))
              (index + 1)
            rw [List.length_append, List.length_singleton] at first
            rw [linesBelow, first, others, List.all_cons, Node.locatedBelow_cons, List.map_append]
            cases isListable child with
            | false => rfl
            | true => cases rest.all isListable <;> rfl
      have found := siblings node.children (fun _ present => present) 0
      rw [isListable_eq, Node.located_eq]
      obtain ⟨kind, payload, attributes, options, children⟩ := node
      rw [lines, found]
      dsimp only
      cases kind.isKnown with
      | false => rfl
      | true => cases children.all isListable <;> rfl

/-! ## Reading a line -/

/-- What a line shows: two blanks for each level of depth, the kind, the category in
brackets, and the payload with its newlines escaped. -/
def row (depth : Nat) (node : Node) : List Char :=
  List.replicate (2 * depth) ' ' ++ (node.kind.name.toList ++ '(' :: (node.category.toList ++ ')' ::
    (" <<".toList ++ escapeNewlines node.payload.content.toList ++ ">>".toList)))

theorem toList_line (node : Node) (depth : Nat) : (line node depth).toList = row depth node := by
  have closing : ") <<".toList = ')' :: " <<".toList := by decide
  simp [line, row, closing]

/-- The name of a known kind is a word of its own. -/
theorem shown_of_mem_name {kind : Kind} (known : kind.isKnown = true) :
    ∀ character ∈ kind.name.toList, character ≠ ' ' ∧ character ≠ '(' ∧ character ≠ '\n' := by
  have shown : kind.name.toList.all (fun character =>
      character ≠ ' ' ∧ character ≠ '(' ∧ character ≠ '\n') = true := by
    cases kind with
    | foreign => cases known
    | _ => decide
  simpa using shown

theorem shown_of_mem_category (node : Node) :
    ∀ character ∈ node.category.toList, character ≠ ')' ∧ character ≠ '\n' := by
  have shown : node.category.toList.all
      (fun character => character ≠ ')' ∧ character ≠ '\n') = true := by
    unfold Node.category
    split <;> decide
  simpa using shown

theorem newline_not_mem_escapeNewlines (text : List Char) : '\n' ∉ escapeNewlines text := by
  intro present
  obtain ⟨character, -, inside⟩ := List.mem_flatMap.mp present
  split at inside
  · revert inside
    decide
  · rename_i other
    exact other (List.mem_singleton.mp inside).symm

theorem newline_not_mem_row {node : Node} (known : node.kind.isKnown = true) (depth : Nat) :
    '\n' ∉ row depth node := by
  have name : '\n' ∉ node.kind.name.toList := fun present =>
    (shown_of_mem_name known _ present).2.2 rfl
  have category : '\n' ∉ node.category.toList := fun present =>
    (shown_of_mem_category node _ present).2 rfl
  have payload := newline_not_mem_escapeNewlines node.payload.content.toList
  simp [row, name, category, payload]

/-- The depth, the kind and the category of a node can be read off its line. -/
theorem eq_of_row {node other : Node} {depth otherDepth : Nat} (known : node.kind.isKnown = true)
    (otherKnown : other.kind.isKnown = true) (same : row depth node = row otherDepth other) :
    depth = otherDepth ∧ node.kind = other.kind ∧ node.category = other.category := by
  have blanks (depth : Nat) : ∀ character ∈ List.replicate (2 * depth) ' ',
      (character == ' ') = true :=
    fun character present => by simp [List.eq_of_mem_replicate present]
  have begins {node : Node} (known : node.kind.isKnown = true) (rest : List Char) :
      ∀ character ∈ (node.kind.name.toList ++ '(' :: rest).head?, (character == ' ') = false := by
    cases spelled : node.kind.name.toList with
    | nil => simp
    | cons letter others => simp [(shown_of_mem_name known letter (by simp [spelled])).1]
  have names {node : Node} (known : node.kind.isKnown = true) :
      ∀ character ∈ node.kind.name.toList, (character != '(') = true :=
    fun character present => by simp [(shown_of_mem_name known character present).2.1]
  have categories (node : Node) : ∀ character ∈ node.category.toList, (character != ')') = true :=
    fun character present => by simp [(shown_of_mem_category node character present).1]
  obtain ⟨depths, behind⟩ := Text.run_append_inj (blanks depth) (begins known _) (blanks otherDepth)
    (begins otherKnown _) same
  obtain ⟨kinds, inner⟩ := Text.run_append_inj (names known) (by simp) (names otherKnown)
      (by simp) behind
  obtain ⟨same, -⟩ := Text.run_append_inj (categories node) (by simp) (categories other) (by simp)
    (List.cons.inj inner).2
  refine ⟨?_, ?_, String.toList_inj.mp same⟩
  · have lengths := congrArg List.length depths
    simp only [List.length_replicate] at lengths
    omega
  · have read := Kind.ofName?_name known
    rw [String.toList_inj.mp kinds, Kind.ofName?_name otherKnown] at read
    exact (Option.some.inj read).symm

end Listing

/-! ## Listers -/

namespace Lister

/-- From a state a computation collects given lines, or stops at a given fault. -/
def Collects (action : Listed Unit) (lister : Lister) : Except Fault (List String) → Prop
  | .ok found => outcome action lister = (.ok (), { lister with lines := lister.lines ++ found })
  | .error fault => (outcome action lister).1 = .error fault

/-- Lines are collected one part after the other. -/
theorem Collects.bind {first second : Listed Unit} {lister : Lister}
    {found others : Except Fault (List String)} (collects : Collects first lister found)
    (more : ∀ lines, Collects second { lister with lines := lines } others) :
    Collects (first >>= fun _ => second) lister (do return (← found) ++ (← others)) := by
  cases found with
  | error fault =>
      have stopped : (outcome first lister).1 = .error fault := collects
      exact outcome_bind_of_error stopped _
  | ok lines =>
      have ran : outcome first lister =
          (.ok (), { lister with lines := lister.lines ++ lines }) := collects
      have behind := more (lister.lines ++ lines)
      cases others with
      | error fault =>
          change (outcome _ _).1 = _
          rw [outcome_bind_of_ok ran]
          exact behind
      | ok rest =>
          change outcome _ _ = _
          rw [outcome_bind_of_ok ran]
          rw [Collects] at behind
          rw [behind]
          simp

/-- Going down a tree collects its lines, and comes back to the depth where it began. -/
theorem visit_collects (node : Node) (lister : Lister) :
    Collects (visit node) lister (Listing.lines node lister.depth) := by
  induction node using Node.induction_on_children generalizing lister with
  | step node below =>
      have siblings (members : List Node) (inside : ∀ child ∈ members, child ∈ node.children)
          (lister : Lister) : Collects (visitBelow members) lister
            (Listing.linesBelow members lister.depth) := by
        induction members generalizing lister with
        | nil => simp [Collects, visitBelow, Listing.linesBelow, outcome]
        | cons child rest inductionHypothesis =>
            exact (below child (inside child (by simp)) lister).bind fun lines =>
              inductionHypothesis (fun other present => inside other (by simp [present]))
                { lister with lines := lines }
      have children := siblings node.children fun _ present => present
      obtain ⟨kind, payload, attributes, options, members⟩ := node
      rw [visit, Listing.lines]
      cases kind.isKnown with
      | false => rfl
      | true =>
          simp only [if_true]
          have inner := children { lines := lister.lines ++ [Listing.line
            ⟨kind, payload, attributes, options, members⟩ lister.depth], depth := lister.depth + 1 }
          dsimp only at inner
          cases found : Listing.linesBelow members (lister.depth + 1) with
          | error fault =>
              rw [found] at inner
              change (outcome _ _).1 = _
              rw [outcome_get_bind, outcome_modify_bind]
              exact outcome_bind_of_error inner _
          | ok lines =>
              rw [found] at inner
              change outcome _ _ = _
              rw [outcome_get_bind, outcome_modify_bind, outcome_bind_of_ok inner,
                List.append_assoc]
              rfl

/-- What was listed before, and where that stopped, makes no difference to a listing. -/
theorem outcome_format (tree : Node) (lister : Lister) :
    (outcome (format tree) lister).1 = Listing.format tree := by
  have collects := visit_collects tree {}
  rw [format, outcome_modify_bind, Listing.format]
  change Collects _ _ (Listing.lines tree 0) at collects
  cases found : Listing.lines tree 0 with
  | error fault =>
      rw [found] at collects
      exact outcome_bind_of_error collects _
  | ok lines =>
      rw [found] at collects
      rw [outcome_bind_of_ok collects]
      rfl

end Lister

/-! ## Outlines from depths -/

namespace Node

/-- An entry of an outline with the depth of its path only. -/
def atDepth (entry : Path × Kind × String) : Nat × Kind × String :=
  (entry.1.length, entry.2)

/-- The outlines of siblings, the first of which has the given position. -/
def outlineBelow (siblings : List Node) (path : Path) (index : Nat) : List (Path × Kind × String) :=
  (locatedBelow siblings path index).map fun entry => (entry.1, entry.2.kind, entry.2.category)

theorem outline_eq (node : Node) (path : Path) :
    node.outline path = (path, node.kind, node.category) :: outlineBelow node.children path 0 := by
  rw [outline, located_eq]
  rfl

@[simp] theorem outlineBelow_cons (child : Node) (rest : List Node) (path : Path) (index : Nat) :
    outlineBelow (child :: rest) path index =
      child.outline (path ++ [index]) ++ outlineBelow rest path (index + 1) :=
  List.map_append

/-- What follows in document order begins no deeper than a depth. -/
def EndsAt (depth : Nat) (after : List (Nat × Kind × String)) : Prop :=
  ∀ next ∈ after.head?, next.1 ≤ depth

theorem EndsAt.outlineBelow {path : Path} {after : List (Nat × Kind × String)}
    (ends : EndsAt path.length after) (siblings : List Node) (index : Nat) :
    EndsAt (path.length + 1) ((outlineBelow siblings path index).map atDepth ++ after) := by
  cases siblings with
  | nil => exact fun next first => Nat.le_succ_of_le (ends next first)
  | cons child rest =>
      intro next first
      obtain rfl : ((path ++ [index]).length, child.kind, child.category) = next := by
        simpa [outline_eq, atDepth] using first
      simp

/-- Depths in document order tell how far a tree goes and what its paths are. -/
theorem outline_append_inj (node : Node) {other : Node} {path : Path}
    {after otherAfter : List (Nat × Kind × String)} (ends : EndsAt path.length after)
    (otherEnds : EndsAt path.length otherAfter)
    (same : (node.outline path).map atDepth ++ after =
        (other.outline path).map atDepth ++ otherAfter) :
    node.outline path = other.outline path ∧ after = otherAfter := by
  induction node using induction_on_children generalizing other path after otherAfter with
  | step node below =>
      -- A sibling that is left over would begin deeper than what follows.
      have leftover (child : Node) (rest : List Node) (index : Nat)
          {found found' : List (Nat × Kind × String)} (ends : EndsAt path.length found) :
          found ≠ (outlineBelow (child :: rest) path index).map atDepth ++ found' := by
        rintro rfl
        have deep : (path ++ [index]).length ≤ path.length :=
          ends ((path ++ [index]).length, child.kind, child.category)
            (by simp [outline_eq, atDepth])
        rw [List.length_append, List.length_singleton] at deep
        omega
      have siblings (members others : List Node) (inside : ∀ child ∈ members, child ∈ node.children)
          (index : Nat) {found found' : List (Nat × Kind × String)}
          (ends : EndsAt path.length found)
          (otherEnds : EndsAt path.length found')
          (same : (outlineBelow members path index).map atDepth ++ found =
            (outlineBelow others path index).map atDepth ++ found') :
          outlineBelow members path index = outlineBelow others path index ∧ found = found' := by
        induction members generalizing others index with
        | nil =>
            cases others with
            | nil => exact ⟨rfl, same⟩
            | cons child rest => exact absurd same (leftover child rest index ends)
        | cons child rest inductionHypothesis =>
            cases others with
            | nil => exact absurd same.symm (leftover child rest index otherEnds)
            | cons otherChild otherRest =>
                rw [outlineBelow_cons, outlineBelow_cons, List.map_append, List.map_append,
                  List.append_assoc, List.append_assoc] at same
                have size : (path ++ [index]).length = path.length + 1 := by simp
                obtain ⟨first, behind⟩ := below child (inside child (by simp))
                  (size ▸ ends.outlineBelow rest (index + 1))
                  (size ▸ otherEnds.outlineBelow otherRest (index + 1)) same
                obtain ⟨more, after⟩ := inductionHypothesis otherRest
                  (fun other present => inside other (by simp [present])) (index + 1) behind
                exact ⟨by rw [outlineBelow_cons, outlineBelow_cons, first, more], after⟩
      rw [outline_eq, outline_eq, List.map_cons, List.map_cons, List.cons_append, List.cons_append]
        at same
      obtain ⟨head, behind⟩ := List.cons.inj same
      obtain ⟨inner, after⟩ := siblings node.children other.children
          (fun _ present => present) 0 ends
        otherEnds behind
      rw [outline_eq, outline_eq, inner]
      exact ⟨congrArg (· :: _) (Prod.ext rfl (Prod.mk.inj head).2), after⟩

end Node

/-! ## Listings -/

namespace Listing

/-- Lines that are closed by newlines are found again. -/
theorem closed_lines_inj {found others : List (List Char)} (whole : ∀ line ∈ found, '\n' ∉ line)
    (otherWhole : ∀ line ∈ others, '\n' ∉ line)
    (same : found.flatMap (· ++ ['\n']) = others.flatMap (· ++ ['\n'])) : found = others := by
  have read (texts : List (List Char)) (whole : ∀ line ∈ texts, '\n' ∉ line) :
      Text.lines (texts.flatMap (· ++ ['\n'])) = texts ++ [[]] := by
    have closed := Text.unlines_append_right (List.cons_ne_nil ([] : List Char) []) texts
    rw [Text.unlines_singleton, List.append_nil] at closed
    rw [← closed]
    exact Text.lines_unlines (by simp) (List.forall_mem_append.mpr ⟨whole, by simp⟩)
  have parts := congrArg Text.lines same
  rw [read found whole, read others otherWhole] at parts
  exact List.append_cancel_right parts

theorem toList_closed_lines {found : List String} (some : found ≠ []) :
    ("\n".intercalate found ++ "\n").toList = found.flatMap fun line => line.toList ++ ['\n'] := by
  induction found with
  | nil => exact absurd rfl some
  | cons line rest inductionHypothesis =>
      cases rest with
      | nil => simp
      | cons next others =>
          have behind := inductionHypothesis (by simp)
          rw [String.toList_append] at behind
          rw [String.intercalate_cons_cons, List.flatMap_cons, ← behind]
          simp

/-- The text of a listing: a line for each node, each before its children. -/
theorem format_eq (tree : Node) : format tree =
    if isListable tree then
      .ok (String.ofList ((tree.located []).flatMap fun entry =>
        row entry.1.length entry.2 ++ ['\n']))
    else .error .unknownName := by
  rw [format]
  change (lines tree ([] : Path).length >>= _) = _
  rw [lines_eq]
  cases isListable tree with
  | false => rfl
  | true =>
      have some : (tree.located []).map (fun entry => line entry.2 entry.1.length) ≠ [] := by
        simp [Node.located_eq]
      refine congrArg Except.ok (String.toList_inj.mp ?_)
      rw [toList_closed_lines some, String.toList_ofList, List.flatMap_map]
      simp only [toList_line]

theorem isListable_iff {tree : Node} :
    isListable tree = true ↔ tree.Everywhere fun node => node.kind.isKnown = true :=
  List.all_eq_true

/-- Rows of known kinds show the depth, the kind and the category of each entry. -/
theorem shown_of_rows {entries others : List (Path × Node)}
    (known : ∀ entry ∈ entries, entry.2.kind.isKnown = true)
    (otherKnown : ∀ entry ∈ others, entry.2.kind.isKnown = true)
    (same : entries.map (fun entry => row entry.1.length entry.2) =
      others.map fun entry => row entry.1.length entry.2) :
    entries.map (fun entry => (entry.1.length, entry.2.kind, entry.2.category)) =
      others.map fun entry => (entry.1.length, entry.2.kind, entry.2.category) := by
  induction entries generalizing others with
  | nil =>
      obtain rfl : others = [] := List.map_eq_nil_iff.mp same.symm
      rfl
  | cons entry rest inductionHypothesis =>
      obtain ⟨first, behind, rfl, shown, more⟩ := List.map_eq_cons_iff.mp same.symm
      rw [List.forall_mem_cons] at known otherKnown
      obtain ⟨depth, kind, category⟩ := eq_of_row otherKnown.1 known.1 shown
      rw [List.map_cons, List.map_cons, inductionHypothesis known.2 otherKnown.2
        more.symm, depth, kind,
        category]

/-- Trees of known kinds with the same rows have the same outline. -/
theorem outline_eq_of_rows {tree other : Node}
    (known : tree.Everywhere fun node => node.kind.isKnown = true)
    (otherKnown : other.Everywhere fun node => node.kind.isKnown = true)
    (same : (tree.located []).map (fun entry => row entry.1.length entry.2) =
      (other.located []).map fun entry => row entry.1.length entry.2) :
    tree.outline [] = other.outline [] := by
  have shown := shown_of_rows (fun _ listed => known.of_mem_located listed)
    (fun _ listed => otherKnown.of_mem_located listed) same
  have ended : Node.EndsAt ([] : Path).length [] := by simp [Node.EndsAt]
  refine (tree.outline_append_inj ended ended ?_).1
  simpa only [Node.outline, List.map_map, Function.comp_def, Node.atDepth,
    List.append_nil] using shown

end Listing

/-- A listing determines the shape of a tree of known kinds, whatever was listed before
and wherever that stopped.  It has one line for each node in document order, at the
depth of the node, and no line holds a newline.  Only trees with the same paths, and
with the same kind and category at each of them, have the same listing. -/
theorem format_outlines (lister : Lister) {tree : Node}
    (known : tree.Everywhere fun node => node.kind.isKnown = true) :
    ∃ text, (outcome (Lister.format tree) lister).1 = .ok text ∧
      text.toList = (tree.located []).flatMap
        (fun entry => Listing.row entry.1.length entry.2 ++ ['\n']) ∧
      (∀ entry ∈ tree.located [], '\n' ∉ Listing.row entry.1.length entry.2) ∧
      ∀ (otherLister : Lister) (other : Node),
        (outcome (Lister.format other) otherLister).1 = .ok text →
          other.outline [] = tree.outline [] := by
  have whole {tree : Node} (known : tree.Everywhere fun node => node.kind.isKnown = true) :
      ∀ entry ∈ tree.located [], '\n' ∉ Listing.row entry.1.length entry.2 := fun _ listed =>
    Listing.newline_not_mem_row (known.of_mem_located listed) _
  have listed := Lister.outcome_format tree lister
  rw [Listing.format_eq, if_pos (Listing.isListable_iff.mpr known)] at listed
  refine ⟨_, listed, String.toList_ofList, whole known, ?_⟩
  intro otherLister other same
  rw [Lister.outcome_format, Listing.format_eq] at same
  cases listable : Listing.isListable other with
  | false => simp [listable] at same
  | true =>
      have otherKnown := Listing.isListable_iff.mp listable
      rw [if_pos listable] at same
      have texts := String.ofList_inj.mp (Except.ok.inj same)
      refine Listing.outline_eq_of_rows otherKnown known (Listing.closed_lines_inj ?_ ?_ ?_)
      · exact List.forall_mem_map.mpr (whole otherKnown)
      · exact List.forall_mem_map.mpr (whole known)
      · simpa only [List.flatMap_map] using texts

/-- A lister that was stopped below a root lists a text that looks like two lines as one
line. -/
theorem format_outlines_after_fault :
    let stopped :=
      outcome (Lister.format { kind := .root, children := [{ kind := .foreign "note" }] }) {}
    let imitation := "a>>\n  text(span) <<b"
    let tree : Node :=
      { kind := .paragraph, children := [{ kind := .text, payload := .text imitation }] }
    stopped.1 = .error .unknownName ∧ stopped.2.depth = 1 ∧
      tree.Everywhere (fun node => node.kind.isKnown = true) ∧
      ∃ text, (outcome (Lister.format tree) stopped.2).1 = .ok text ∧
        text = "paragraph(block) <<>>\n  text(span) <<a>>\\n  text(span) <<b>>\n" ∧
        ∀ (otherLister : Lister) (other : Node),
          (outcome (Lister.format other) otherLister).1 = .ok text →
            other.outline [] = [([], .paragraph, "block"), ([0], .text, "span")] := by
  intro stopped imitation tree
  have known : tree.Everywhere fun node => node.kind.isKnown = true :=
    Listing.isListable_iff.mp (by decide)
  obtain ⟨text, listed, shown, -, unique⟩ := format_outlines stopped.2 known
  refine ⟨rfl, rfl, known, text, listed, ?_, unique⟩
  rw [← String.toList_inj, shown]
  decide

end Galley
