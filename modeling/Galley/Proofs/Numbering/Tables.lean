import Galley.Proofs.Numbering.Visit

/-!
# The tables of the pass follow the document

After the numbering pass, each table holds what the pre-order listing of the annotated
tree holds: every heading and every item enters the scope of its parent, its position
leads back to it, and the labels are declared one after the other.
-/

namespace Galley
namespace Numbering

/-- Enter the paths of the nodes with a kind into a position table, each in the scope of
its parent. -/
def enroll
    (kind : Kind)
    (table : PositionTable (Option Path) Path)
    (entries : List (Path × Node)) : PositionTable (Option Path) Path :=
  entries.foldl
    (fun table entry =>
      if entry.2.kind == kind then table.add (Path.parent? entry.1) entry.1 else table) table

theorem enroll_append
    (kind : Kind)
    (table : PositionTable (Option Path) Path)
    (first second : List (Path × Node)) :
    enroll kind table (first ++ second) = enroll kind (enroll kind table first) second :=
  List.foldl_append

/-- The paths of a listing that belong to a scope and have a kind. -/
def membersIn (kind : Kind) (scope : Option Path) (entries : List (Path × Node)) : List Path :=
  (entries.filter fun entry => entry.2.kind == kind && Path.parent? entry.1 == scope).map (·.1)

theorem membersIn_append
    (kind : Kind) (scope : Option Path) (first second : List (Path × Node)) :
    membersIn kind scope (first ++ second) =
      membersIn kind scope first ++ membersIn kind scope second := by
  simp [membersIn]

/-- Each group of a table gains the members of its scope in the order of the listing. -/
theorem group_enroll
    (kind : Kind)
    (table : PositionTable (Option Path) Path)
    (entries : List (Path × Node))
    (scope : Option Path) :
    (enroll kind table entries).group scope =
      table.group scope ++ membersIn kind scope entries := by
  induction entries generalizing table with
  | nil => simp [enroll, membersIn]
  | cons entry rest inductionHypothesis =>
      obtain ⟨path, node⟩ := entry
      have unfolded : enroll kind table ((path, node) :: rest) =
          enroll kind (if node.kind == kind then table.add (Path.parent? path) path else table)
            rest := rfl
      rw [unfolded, inductionHypothesis]
      by_cases present : node.kind == kind
      · by_cases same : Path.parent? path = scope
        · subst same
          simp [membersIn, present]
        · have apart : (Path.parent? path == scope) = false := by simpa using same
          simp [membersIn, present, apart,
            PositionTable.group_add_of_ne table path (Ne.symm same)]
      · simp [membersIn, present]

/-- The positions of the nodes of a listing lead back to them in a table. -/
def PositionsIn
    (kind : Kind)
    (table : PositionTable (Option Path) Path)
    (entries : List (Path × Node)) : Prop :=
  ∀ path node, (path, node) ∈ entries → node.kind = kind →
    ∃ position : Nat, node.position? = some (.int position) ∧
      (table.group (Path.parent? path))[position]? = some path

theorem PositionsIn.append
    {kind : Kind} {table : PositionTable (Option Path) Path} {first second : List (Path × Node)}
    (left : PositionsIn kind table first)
    (right : PositionsIn kind table second) :
    PositionsIn kind table (first ++ second) := by
  intro path node present
  rcases List.mem_append.mp present with before | later
  · exact left path node before
  · exact right path node later

/-- Entries that are added later leave positions as they are. -/
theorem PositionsIn.enroll
    {kind : Kind} {table : PositionTable (Option Path) Path} {entries : List (Path × Node)}
    (positions : PositionsIn kind table entries)
    (later : List (Path × Node)) :
    PositionsIn kind (enroll kind table later) entries := by
  intro path node present sameKind
  obtain ⟨position, known, found⟩ := positions path node present sameKind
  refine ⟨position, known, ?_⟩
  rw [group_enroll, List.getElem?_append_left (List.getElem?_eq_some_iff.mp found).1]
  exact found

/-! ## One node -/

/-- Two places agree on the path and on the kinds of the enclosing nodes. -/
structure Alike (view place : Place) : Prop where
  /-- The first place knows what encloses it. -/
  linked : view.linked = true
  /-- So does the second. -/
  linked_right : place.linked = true
  /-- They have the same path. -/
  path : view.path = place.path
  /-- The enclosing nodes have the same kinds. -/
  kinds : view.ancestors.map Node.kind = place.ancestors.map Node.kind

theorem Alike.enter
    {view place : Place}
    (alike : Alike view place)
    {new node : Node}
    (kind : new.kind = node.kind)
    (index : Nat) :
    Alike (view.enter new index) (place.enter node index) := by
  constructor <;> simp [Place.enter, alike.linked, alike.linked_right, alike.path,
    alike.kinds, kind]

theorem Alike.nearest?
    {view place : Place}
    (alike : Alike view place)
    (kinds : List Kind) :
    view.nearest? kinds = place.nearest? kinds := by
  have search (ancestors : List Node) :
      (ancestors.findIdx? fun node => kinds.contains node.kind) =
        (ancestors.map Node.kind).findIdx? fun kind => kinds.contains kind := by
    rw [List.findIdx?_map]
    rfl
  simp only [Place.nearest?, search, alike.kinds, alike.path]

/-- What a visit keeps of a node and what it adds to the tables. -/
structure Visited (node : Node) (place : Place) (before : State) (new : Node) (after : State) :
    Prop where
  /-- The kind is kept. -/
  kind : new.kind = node.kind
  /-- So is the label. -/
  label : new.label? = node.label?
  /-- A label node keeps what it declares. -/
  payload : node.kind = .label → new.payload = node.payload
  /-- A heading enters the table of headings. -/
  headings : after.headings =
    if node.kind == .header then before.headings.add place.parentPath? place.path
    else before.headings
  /-- An item enters the table of items. -/
  items : after.items =
    if node.kind == .listItem then before.items.add place.parentPath? place.path else before.items
  /-- What the node declares enters the label table. -/
  labels : after.labels = before.labels.declareAll (declared? node place).toList
  /-- A heading gains the next position of its scope. -/
  headingPosition : node.kind = .header →
    new.position? = some (.int (before.headings.nextPosition place.parentPath?))
  /-- So does an item. -/
  itemPosition : node.kind = .listItem →
    new.position? = some (.int (before.items.nextPosition place.parentPath?))

theorem visit_visited (node : Node) (place : Place) (state : State) :
    Meets (visit node place) state (fun _ => True) (Visited node place state) := by
  unfold visit
  split
  · rename_i header
    refine (visitHeading_meets node place state).mono (fun _ _ => trivial) ?_
    rintro new after ⟨marks, -, rfl, log, rfl⟩
    refine ⟨rfl, label?_positioned node _ _, ?_, ?_, ?_, ?_, ?_, ?_⟩ <;>
      simp [header, declared?, Node.position?, positioned]
  · rename_i item
    refine (visitItem_meets node place state).mono (fun _ _ => trivial) ?_
    rintro new after ⟨payload, -, rfl, log, rfl⟩
    refine ⟨rfl, label?_positioned node _ _, ?_, ?_, ?_, ?_, ?_, ?_⟩ <;>
      simp [item, declared?, Node.position?, positioned]
  · rename_i label
    refine (visitLabel_meets node place state label _).imp ?_
    rintro new after ⟨rfl, log, rfl⟩
    constructor <;> simp [label]
  · exact Meets.stop trivial
  · rename_i notHeader notItem notLabel notForeign
    refine Meets.give ?_
    have nothing : declared? node place = none := by
      unfold declared?
      split <;> simp_all
    constructor <;> simp_all

theorem Visited.declared?_eq
    {node new : Node} {place view : Place} {before after : State}
    (visited : Visited node place before new after)
    (alike : Alike view place)
    (below : List Node) :
    declared? { new with children := below } view = declared? node place := by
  have label : { new with children := below }.label? = node.label? := visited.label
  unfold declared?
  rw [label]
  dsimp only
  rw [visited.kind, alike.nearest?, alike.path, Place.parentPath?, Place.parentPath?,
    alike.path]
  split
  · rfl
  · rfl
  · rename_i isLabel
    rw [visited.payload isLabel]
  · rfl

/-! ## Whole trees -/

/-- The tables after a part of the pass hold what they held before and what the nodes of
a listing bring in. -/
structure Gathered
    (before after : State)
    (located : List (Path × Node))
    (placed : List (Place × Node)) : Prop where
  /-- Headings enter in the order of the listing. -/
  headings : after.headings = enroll .header before.headings located
  /-- Items enter in the order of the listing. -/
  items : after.items = enroll .listItem before.items located
  /-- Labels are declared in the order of the listing. -/
  labels : after.labels =
    before.labels.declareAll (placed.filterMap fun entry => declared? entry.2 entry.1)
  /-- The positions of the headings lead back to them. -/
  headingPositions : PositionsIn .header after.headings located
  /-- The positions of the items lead back to them. -/
  itemPositions : PositionsIn .listItem after.items located

theorem Gathered.nil (state : State) : Gathered state state [] [] := by
  constructor <;> first | rfl | (intro path node present; simp at present)

theorem Gathered.append
    {before middle after : State} {located located' : List (Path × Node)}
    {placed placed' : List (Place × Node)}
    (first : Gathered before middle located placed)
    (second : Gathered middle after located' placed') :
    Gathered before after (located ++ located') (placed ++ placed') where
  headings := by rw [enroll_append, ← first.headings, second.headings]
  items := by rw [enroll_append, ← first.items, second.items]
  labels := by
    rw [List.filterMap_append, LabelTable.declareAll_append, ← first.labels, second.labels]
  headingPositions := by
    refine PositionsIn.append ?_ second.headingPositions
    rw [second.headings]
    exact first.headingPositions.enroll located'
  itemPositions := by
    refine PositionsIn.append ?_ second.itemPositions
    rw [second.items]
    exact first.itemPositions.enroll located'

/-- Open marks are no part of the tables. -/
theorem Gathered.of_marks
    {before after : State} {opened : List String} {located : List (Path × Node)}
    {placed : List (Place × Node)}
    (gathered : Gathered { before with openMarks := opened } after located placed)
    (closed : List String) :
    Gathered before { after with openMarks := closed } located placed :=
  ⟨gathered.headings, gathered.items, gathered.labels, gathered.headingPositions,
    gathered.itemPositions⟩

/-- A visited node brings in itself, whatever nodes are put below it. -/
theorem Visited.gathered
    {node new : Node} {place view : Place} {before after : State}
    (visited : Visited node place before new after)
    (alike : Alike view place)
    (below : List Node) :
    Gathered before after [(place.path, { new with children := below })]
      [(view, { new with children := below })] where
  headings := by
    rw [visited.headings]
    simp [enroll, visited.kind, Place.parentPath?]
  items := by
    rw [visited.items]
    simp [enroll, visited.kind, Place.parentPath?]
  labels := by
    rw [visited.labels, List.filterMap_cons, visited.declared?_eq alike below]
    cases declared? node place <;> rfl
  headingPositions := by
    rintro path other present header
    obtain ⟨rfl, rfl⟩ := Prod.mk.inj (List.mem_singleton.mp present)
    have header' : node.kind = .header := visited.kind ▸ header
    refine ⟨_, visited.headingPosition header', ?_⟩
    rw [visited.headings, header']
    simp [Place.parentPath?, PositionTable.nextPosition]
  itemPositions := by
    rintro path other present item
    obtain ⟨rfl, rfl⟩ := Prod.mk.inj (List.mem_singleton.mp present)
    have item' : node.kind = .listItem := visited.kind ▸ item
    refine ⟨_, visited.itemPosition item', ?_⟩
    rw [visited.items, item']
    simp [Place.parentPath?, PositionTable.nextPosition]

/-- Annotating a node brings in the node and all nodes below it. -/
theorem annotate_gathered
    (node : Node) (place : Place) (state : State)
    (linked : place.linked = true) :
    Meets (annotate node place) state (fun _ => True) fun new after =>
      new.kind = node.kind ∧ ∀ view, Alike view place →
        Gathered state after (new.located place.path) (new.placed view) := by
  induction node using Node.induction_on_children generalizing place state with
  | step node below =>
      -- The parent of the new siblings is known only after all of them are annotated.
      have siblings (members : List Node) (index : Nat) (state : State)
          (known : ∀ child ∈ members, child ∈ node.children) :
          Meets (annotateSiblings members node place index) state (fun _ => True) fun found after =>
            ∀ new view, new.kind = node.kind → Alike view place →
              Gathered state after (Node.locatedBelow found place.path index)
                (Node.placedBelow found new view index) := by
        induction members generalizing index state with
        | nil => exact Meets.give fun _ _ _ _ => Gathered.nil state
        | cons child rest inductionHypothesis =>
            have inside : (place.enter node index).linked = true := by simp [Place.enter, linked]
            refine Meets.bind (below child (known child (by simp)) _ state inside) ?_
            rintro first middle ⟨-, gathered⟩
            refine Meets.bind (inductionHypothesis (index + 1) middle fun other present =>
              known other (by simp [present])) ?_
            intro others after remaining
            refine Meets.give fun new view kind alike => ?_
            have path : (place.enter node index).path = place.path ++ [index] := by
              simp [Place.enter, linked]
            rw [Node.locatedBelow_cons, Node.placedBelow_cons, ← path]
            exact (gathered _ (alike.enter kind index)).append (remaining new view kind alike)
      obtain ⟨kind, payload, attributes, options, children⟩ := node
      rw [annotate]
      refine Meets.bind (visit_visited _ place state) fun numbered visitedState visited => ?_
      dsimp only
      refine Meets.change_bind (Meets.bind (siblings children 0 _
        fun _ present => present) fun found belowState gathered => ?_)
      refine Meets.change_bind (Meets.give ⟨visited.kind, fun view alike => ?_⟩)
      rw [Node.located_eq, Node.placed_eq]
      refine Gathered.append (visited.gathered alike found) ?_
      exact (gathered { numbered with children := found } view visited.kind alike).of_marks _

end Numbering
end Galley
