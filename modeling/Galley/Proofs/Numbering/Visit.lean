import Galley.Proofs.Numbering.Meaning
import Galley.Proofs.Outcome

/-!
# What a visit does

The numbering pass visits each node once.  This module says everything that one visit
does to the node and to what the pass has gathered: a heading or an item gains a
position and marks and enters its table, a declared label enters the label table, and
every other node stays as it is.
-/

namespace Galley
namespace Numbering

/-- Declare names one after the other. -/
def LabelTable.declareAll (table : LabelTable) (declared : List (String × Path)) : LabelTable :=
  declared.foldl (fun table entry => table.declare entry.1 entry.2) table

@[simp] theorem LabelTable.declareAll_nil (table : LabelTable) : table.declareAll [] = table := rfl

theorem LabelTable.declareAll_append (table : LabelTable) (first second : List (String × Path)) :
    table.declareAll (first ++ second) = (table.declareAll first).declareAll second :=
  List.foldl_append

/-- The options of a node with its position among its siblings of the same kind. -/
def positioned (node : Node) (position : Nat) : Fields :=
  node.options.set Node.positionKey (.int position)

theorem get?_positioned
    (node : Node) (position : Nat) {name : String}
    (other : name ≠ Node.positionKey) :
    (positioned node position).get? name = node.options.get? name :=
  Fields.get?_set_of_ne node.options _ other

/-- The level of a heading does not depend on its position. -/
theorem headingMarks_positioned (payload : Payload) (node : Node) (position : Nat) :
    headingMarks payload (positioned node position) = headingMarks payload node.options := by
  have level : (positioned node position).getD "level" (.int 1) =
      node.options.getD "level" (.int 1) := by
    simp only [Fields.getD, get?_positioned node position (by decide : "level" ≠ Node.positionKey)]
  cases payload with
  | data value => cases number : value.number? <;> simp [headingMarks, number, level]
  | heading marks => rfl
  | item marks => simp [headingMarks, level]

/-- The label of a node does not depend on its payload or position. -/
theorem label?_positioned (node : Node) (payload : Payload) (position : Nat) :
    { node with payload := payload, options := positioned node position }.label? = node.label? := by
  simp only [Node.label?, get?_positioned node position (by decide : "label" ≠ Node.positionKey)]

/-! ## Labels -/

theorem declareLabel_meets (label : String) (path : Path) (state : State)
    (admitted : Fault → Prop) :
    Meets (declareLabel label path) state admitted fun _ after =>
      ∃ log, after = { state with labels := state.labels.declare label path, log := log } := by
  unfold declareLabel report
  refine Meets.read ?_
  dsimp only
  split
  · split
    · exact Meets.change_bind (Meets.change ⟨_, rfl⟩)
    · exact Meets.change ⟨_, rfl⟩
  · exact Meets.change ⟨_, rfl⟩

theorem declareOwnLabel_meets (node : Node) (path : Path) (state : State)
    (admitted : Fault → Prop) :
    Meets (declareOwnLabel node path) state admitted fun _ after =>
      ∃ log, after = { state with
        labels := state.labels.declareAll (node.label?.map fun label => (label, path)).toList
        log := log } := by
  unfold declareOwnLabel
  split
  · rename_i label found
    rw [found]
    exact declareLabel_meets label path state admitted
  · rename_i missing
    rw [missing]
    exact Meets.give ⟨_, rfl⟩

/-! ## Nodes -/

/-- A heading is counted at its level and takes its section number from the counters. -/
theorem visitHeading_meets (node : Node) (place : Place) (state : State) :
    Meets (visitHeading node place) state
      (fun _ => ∀ marks, headingMarks node.payload node.options ≠ .ok marks)
      fun new after => ∃ marks, headingMarks node.payload node.options = .ok marks ∧
        new = { node with
          payload := .heading (markHeading (advance state.counters marks.level.depth) marks)
          options := positioned node (state.headings.nextPosition place.parentPath?) } ∧
        ∃ log, after = { state with
          headings := state.headings.add place.parentPath? place.path
          counters := advance state.counters marks.level.depth
          labels := state.labels.declareAll
            (node.label?.map fun label => (label, place.path)).toList
          log := log } := by
  unfold visitHeading
  refine Meets.read (Meets.change_bind ?_)
  change Meets (liftM (headingMarks node.payload (positioned node _)) >>= _) _ _ _
  rw [headingMarks_positioned]
  refine Meets.lift_bind (fun marks found => ?_) fun fault stopped marks found => ?_
  · refine Meets.change_bind (Meets.read ?_)
    refine Meets.bind (declareOwnLabel_meets _ _ _ _) fun _ after labelled => Meets.give ?_
    obtain ⟨log, rfl⟩ := labelled
    refine ⟨marks, found, rfl, log, ?_⟩
    congr 3
    exact congrArg _ (label?_positioned node _ _)
  · rw [stopped] at found
    cases found

/-- An item takes its mark from its payload or its position, and its chain from the open
marks. -/
theorem visitItem_meets (node : Node) (place : Place) (state : State) :
    Meets (visitItem node place) state
      (fun _ => ∀ payload,
        itemPayload node.payload place (state.items.nextPosition place.parentPath?) ≠ .ok payload)
      fun new after => ∃ payload,
        itemPayload node.payload place (state.items.nextPosition place.parentPath?) = .ok payload ∧
        new = { node with
          payload := chainMarks state.openMarks payload
          options := positioned node (state.items.nextPosition place.parentPath?) } ∧
        ∃ log, after = { state with
          items := state.items.add place.parentPath? place.path
          labels := state.labels.declareAll
            (node.label?.map fun label => (label, place.path)).toList
          log := log } := by
  unfold visitItem
  refine Meets.read (Meets.change_bind ?_)
  refine Meets.lift_bind (fun payload found => ?_) fun fault stopped payload found => ?_
  · refine Meets.read ?_
    refine Meets.bind (declareOwnLabel_meets _ _ _ _) fun _ after labelled => Meets.give ?_
    obtain ⟨log, rfl⟩ := labelled
    refine ⟨payload, found, rfl, log, ?_⟩
    congr 3
    exact congrArg _ (label?_positioned node _ _)
  · rw [stopped] at found
    cases found

/-- A label node stays as it is. -/
theorem visitLabel_meets
    (node : Node) (place : Place) (state : State)
    (label : node.kind = .label)
    (admitted : Fault → Prop) :
    Meets (visitLabel node place) state admitted fun new after =>
      new = node ∧ ∃ log, after = { state with
        labels := state.labels.declareAll (declared? node place).toList
        log := log } := by
  unfold visitLabel declared? report
  rw [label]
  dsimp only
  split
  · split
    · rename_i target found
      rw [found]
      exact Meets.bind (declareLabel_meets _ _ _ _) fun _ after labelled =>
        Meets.give ⟨rfl, labelled⟩
    · rename_i missing
      rw [missing]
      exact Meets.change_bind (Meets.give ⟨rfl, _, rfl⟩)
  · exact Meets.give ⟨rfl, _, rfl⟩

/-! ## The whole pass -/

/-- What annotating a tree from nothing brings about holds of the numbered tree. -/
theorem resolve_meets
    {tree : Node} {numbered : Numbered}
    (condition : Numbered → Prop)
    (returned : (resolve tree).1 = .ok numbered)
    (annotated : Meets (annotate tree Place.root) {} (fun _ => True) fun new after =>
      condition ⟨new, after.labels, after.headings, after.items⟩) :
    condition numbered := by
  have meets : Meets (traverse tree) {} (fun _ => True) fun found _ => condition found := by
    unfold traverse report
    refine Meets.change_bind (Meets.bind annotated fun new after holds => ?_)
    exact Meets.read (Meets.change_bind (Meets.give holds))
  have ended : outcome (traverse tree) {} = (.ok numbered, (outcome (traverse tree) {}).2) :=
    Prod.ext returned rfl
  exact meets.of_ok ended

end Numbering
end Galley
