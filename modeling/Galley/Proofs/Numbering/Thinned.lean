import Galley.Proofs.Layout.Thinning
import Galley.Proofs.Numbering.References
import Galley.Proofs.Retraces

/-!
# Numbering a thinned tree

The numbering pass gives a thinned tree the marks and positions that it gives the tree
itself, and the same tables, at renamed paths.  Only hidden names may lead elsewhere or
nowhere.
-/

namespace Galley
namespace Numbering

open Layout (Thins ThinsBelow Traceless KeepsOwn thins_iff)

/-! ## Places -/

/-- What of an enclosing node matters to the nodes below it. -/
def frame (node : Node) : Kind × Fields :=
  (node.kind, node.options)

/-- A place in a thinned tree, and the place in the tree where the same node stands. -/
structure Moved (steps : Path → Nat → Nat) (thin place : Place) : Prop where
  /-- The path is renamed. -/
  path : place.path = Path.rename steps [] thin.path
  /-- Both nodes know what encloses them. -/
  linked : thin.linked = true ∧ place.linked = true
  /-- They are enclosed by the same kinds of nodes, with the same options. -/
  ancestors : thin.ancestors.map frame = place.ancestors.map frame

namespace Moved

variable {steps : Path → Nat → Nat} {thin place : Place}

theorem root : Moved steps Place.root Place.root :=
  ⟨rfl, ⟨rfl, rfl⟩, rfl⟩

/-- Children that stand at a moved position. -/
theorem enter (moved : Moved steps thin place) {parent parentWas : Node} {index position : Nat}
    (kind : parent.kind = parentWas.kind) (options : parent.options = parentWas.options)
    (step : steps thin.path index = position) :
    Moved steps (thin.enter parent index) (place.enter parentWas position) := by
  obtain ⟨linked, linkedWas⟩ := moved.linked
  unfold Place.enter
  rw [if_pos linked, if_pos linkedWas]
  refine ⟨?_, ⟨linked, linkedWas⟩, ?_⟩
  · rw [moved.path, Path.rename_append_singleton, step]
  · simp only [List.map_cons, moved.ancestors, frame, kind, options]

theorem path_enter (moved : Moved steps thin place) (parent : Node) (index : Nat) :
    (thin.enter parent index).path = thin.path ++ [index] := by
  unfold Place.enter
  rw [if_pos moved.linked.1]

theorem parentPath? (moved : Moved steps thin place) :
    place.parentPath? = thin.parentPath?.map (Path.rename steps []) := by
  unfold Place.parentPath?
  rw [moved.path, Path.parent?_rename]

theorem parent? (moved : Moved steps thin place) :
    thin.parent?.map frame = place.parent?.map frame := by
  unfold Place.parent?
  rw [← List.head?_map, ← List.head?_map, moved.ancestors]

theorem within (moved : Moved steps thin place) (kind : Kind) :
    thin.within kind = place.within kind := by
  have through (ancestors : List Node) : (ancestors.any fun node => node.kind == kind) =
      (ancestors.map frame).any fun about => about.1 == kind := by
    rw [List.any_map]
    rfl
  unfold Place.within
  rw [through, through, moved.ancestors]

theorem nearest? (moved : Moved steps thin place) (kinds : List Kind) :
    place.nearest? kinds = (thin.nearest? kinds).map (Path.rename steps []) := by
  have through (ancestors : List Node) :
      (ancestors.findIdx? fun node => kinds.contains node.kind) =
        (ancestors.map frame).findIdx? fun about => kinds.contains about.1 := by
    rw [List.findIdx?_map]
    rfl
  unfold Place.nearest?
  rw [through, through, moved.ancestors, moved.path, Option.map_map]
  congr 1
  funext steps
  rw [Function.comp_apply, Path.take_rename, Path.length_rename]

theorem orderedDepth (moved : Moved steps thin place) : orderedDepth thin = orderedDepth place := by
  have through (ancestors : List Node) :
      (ancestors.countP fun node => node.kind == .orderedList) =
        (ancestors.map frame).countP fun about => about.1 == .orderedList := by
    rw [List.countP_map]
    rfl
  unfold Numbering.orderedDepth
  rw [through, through, moved.ancestors]

/-- An item is marked alike. -/
theorem itemPayload (moved : Moved steps thin place) (payload : Payload) (position : Nat) :
    itemPayload payload thin position = itemPayload payload place position := by
  have parents := moved.parent?
  unfold Numbering.itemPayload
  rw [moved.orderedDepth]
  cases above : thin.parent? with
  | none =>
      rw [above] at parents
      rw [Option.map_eq_none_iff.mp parents.symm]
  | some parent =>
      rw [above] at parents
      obtain ⟨parentWas, found, same⟩ := Option.map_eq_some_iff.mp parents.symm
      obtain ⟨kind, options⟩ := Prod.mk.inj same
      rw [found]
      simp only [← kind, ← options]

end Moved

/-! ## Visits -/

/-- What the pass has gathered from a thinned tree, and what it has gathered from the
tree. -/
structure Renamed (steps : Path → Nat → Nat) (hidden : String → Prop) (thin state : State) :
    Prop where
  /-- The headings stand at renamed paths. -/
  headings : state.headings =
    thin.headings.rename (Option.map (Path.rename steps [])) (Path.rename steps [])
  /-- So do the items. -/
  items : state.items =
    thin.items.rename (Option.map (Path.rename steps [])) (Path.rename steps [])
  /-- The same headings are counted. -/
  counters : state.counters = thin.counters
  /-- The same marks are open. -/
  openMarks : state.openMarks = thin.openMarks
  /-- Names that are not hidden lead to renamed paths. -/
  labels : ∀ name, ¬ hidden name →
    state.labels.lookup name = (thin.labels.lookup name).map (Path.rename steps [])

/-- What numbering makes of a node of a thinned tree and of the node that it was: the
same, apart from what is below. -/
structure SameOwn (node new newWas : Node) : Prop where
  /-- Both have the kind of the node. -/
  kind : new.kind = node.kind ∧ newWas.kind = node.kind
  /-- They have the same payload. -/
  payload : new.payload = newWas.payload
  /-- They have the same attributes. -/
  attributes : new.attributes = newWas.attributes
  /-- They have the same options. -/
  options : new.options = newWas.options
  /-- Only headings and items gain marks. -/
  kept : node.kind ≠ .header → node.kind ≠ .listItem → newWas.payload = node.payload

section Visits

variable {steps : Path → Nat → Nat} {hidden : String → Prop} {thin node : Node}
  {place placeWas : Place} {state stateWas : State}

theorem declareLabel_renamed (renamed : Renamed steps hidden state stateWas) (label : String)
    {path pathWas : Path} (moved : pathWas = Path.rename steps [] path) :
    Retraces Unexcused (declareLabel label path) (declareLabel label pathWas) state stateWas
      fun _ _ after afterWas => Renamed steps hidden after afterWas := by
  refine Retraces.of_meets (declareLabel_meets label path state _)
    (declareLabel_meets label pathWas stateWas _) ?_
  rintro _ _ _ _ ⟨log, rfl⟩ ⟨logWas, rfl⟩
  refine ⟨renamed.headings, renamed.items, renamed.counters, renamed.openMarks,
    fun name shown => ?_⟩
  rw [lookup_declare, lookup_declare, renamed.labels name shown]
  split
  · rw [moved]
    rfl
  · rfl

theorem declareOwnLabel_renamed (renamed : Renamed steps hidden state stateWas)
    (same : thin.label? = node.label?) {path pathWas : Path}
    (moved : pathWas = Path.rename steps [] path) :
    Retraces Unexcused (declareOwnLabel thin path) (declareOwnLabel node pathWas) state stateWas
      fun _ _ after afterWas => Renamed steps hidden after afterWas := by
  unfold declareOwnLabel
  rw [same]
  cases node.label? with
  | none => exact Retraces.give renamed
  | some label => exact declareLabel_renamed renamed label moved

variable (apart : ∀ base, Function.Injective (steps base))

include apart

theorem scopes_injective : Function.Injective (Option.map (Path.rename steps [])) :=
  Option.map_injective (Path.rename_injective apart)

theorem visitHeading_renamed (own : KeepsOwn hidden thin node) (header : node.kind = .header)
    (moved : Moved steps place placeWas) (renamed : Renamed steps hidden state stateWas) :
    Retraces Unexcused (visitHeading thin place) (visitHeading node placeWas) state stateWas
      fun new newWas after afterWas => SameOwn node new newWas ∧
        Renamed steps hidden after afterWas := by
  have scopes := scopes_injective apart
  unfold visitHeading
  refine Retraces.read (Retraces.change_bind ?_)
  rw [renamed.headings, moved.parentPath?, moved.path, own.payload, own.options,
    PositionTable.nextPosition_rename scopes]
  refine Retraces.lift_bind fun marks => Retraces.change_bind (Retraces.read ?_)
  dsimp only
  have counted : Renamed steps hidden
      { state with
        headings := state.headings.add place.parentPath? place.path
        counters := advance state.counters marks.level.depth }
      { stateWas with
        headings := (state.headings.rename (Option.map (Path.rename steps []))
          (Path.rename steps [])).add (place.parentPath?.map (Path.rename steps []))
          (Path.rename steps [] place.path)
        counters := advance stateWas.counters marks.level.depth } := by
    refine ⟨?_, renamed.items, ?_, renamed.openMarks, renamed.labels⟩
    · exact PositionTable.add_rename scopes _ _ _ _
    · rw [renamed.counters]
  refine Retraces.bind (declareOwnLabel_renamed counted rfl rfl)
    fun _ _ after afterWas labelled => ?_
  refine Retraces.give ⟨⟨⟨own.kind, rfl⟩, ?_, own.attributes, rfl, ?_⟩, labelled⟩
  · rw [renamed.counters]
  · exact fun noHeader => absurd header noHeader

theorem visitItem_renamed (own : KeepsOwn hidden thin node) (item : node.kind = .listItem)
    (moved : Moved steps place placeWas) (renamed : Renamed steps hidden state stateWas) :
    Retraces Unexcused (visitItem thin place) (visitItem node placeWas) state stateWas
      fun new newWas after afterWas => SameOwn node new newWas ∧
        Renamed steps hidden after afterWas := by
  have scopes := scopes_injective apart
  unfold visitItem
  refine Retraces.read (Retraces.change_bind ?_)
  rw [renamed.items, moved.parentPath?, moved.path, own.payload, own.options,
    PositionTable.nextPosition_rename scopes, moved.itemPayload]
  refine Retraces.lift_bind fun payload => Retraces.read ?_
  dsimp only
  have added : Renamed steps hidden
      { state with items := state.items.add place.parentPath? place.path }
      { stateWas with
        items := (state.items.rename (Option.map (Path.rename steps []))
          (Path.rename steps [])).add (place.parentPath?.map (Path.rename steps []))
          (Path.rename steps [] place.path) } :=
    ⟨renamed.headings, PositionTable.add_rename scopes _ _ _ _, renamed.counters, renamed.openMarks,
      renamed.labels⟩
  refine Retraces.bind (declareOwnLabel_renamed added rfl rfl) fun _ _ after afterWas labelled => ?_
  refine Retraces.give ⟨⟨⟨own.kind, rfl⟩, ?_, own.attributes, rfl, ?_⟩, labelled⟩
  · rw [renamed.openMarks]
  · exact fun _ noItem => absurd item noItem

omit apart in
theorem visitLabel_renamed (own : KeepsOwn hidden thin node) (moved : Moved steps place placeWas)
    (renamed : Renamed steps hidden state stateWas) :
    Retraces Unexcused (visitLabel thin place) (visitLabel node placeWas) state stateWas
      fun new newWas after afterWas => SameOwn node new newWas ∧
        Renamed steps hidden after afterWas := by
  have same : SameOwn node thin node :=
    ⟨⟨own.kind, rfl⟩, own.payload, own.attributes, own.options, fun _ _ => rfl⟩
  have targets : (placeWas.nearest? [.header, .listItem]).or placeWas.parentPath? =
      ((place.nearest? [.header, .listItem]).or place.parentPath?).map (Path.rename steps []) := by
    rw [moved.nearest?, moved.parentPath?, Option.map_or]
  unfold visitLabel
  rw [own.payload, targets]
  split
  · cases (place.nearest? [.header, .listItem]).or place.parentPath? with
    | none =>
        refine Retraces.change_bind (Retraces.give ⟨same, ?_⟩)
        exact ⟨renamed.headings, renamed.items, renamed.counters, renamed.openMarks, renamed.labels⟩
    | some target =>
        refine Retraces.bind (declareLabel_renamed renamed node.payload.display rfl) ?_
        intro _ _ after afterWas labelled
        exact Retraces.give ⟨same, labelled⟩
  · exact Retraces.give ⟨same, renamed⟩

/-- A node of a thinned tree is numbered as the node that it was. -/
theorem visit_renamed (own : KeepsOwn hidden thin node) (moved : Moved steps place placeWas)
    (renamed : Renamed steps hidden state stateWas) :
    Retraces Unexcused (visit thin place) (visit node placeWas) state stateWas
      fun new newWas after afterWas => SameOwn node new newWas ∧
        Renamed steps hidden after afterWas := by
  unfold visit
  rw [own.kind]
  split
  · exact visitHeading_renamed apart own ‹_› moved renamed
  · exact visitItem_renamed apart own ‹_› moved renamed
  · exact visitLabel_renamed own moved renamed
  · exact Retraces.stop
  · refine Retraces.give ⟨?_, renamed⟩
    exact ⟨⟨own.kind, rfl⟩, own.payload, own.attributes, own.options, fun _ _ => rfl⟩

end Visits

/-! ## Passes -/

section Passes

variable {steps : Path → Nat → Nat} {hidden : String → Prop}

/-- A span that may be taken out stays as it is and declares nothing but a hidden name. -/
theorem visit_traceless {outer : Kind} {child : Node} (traceless : Traceless hidden outer child)
    (place : Place) {thin state : State} (renamed : Renamed steps hidden thin state) :
    Meets (visit child place) state (fun _ => False) fun new after =>
      new = child ∧ Renamed steps hidden thin after := by
  unfold visit
  split
  · exact absurd ‹_› (traceless.kind_ne rfl)
  · exact absurd ‹_› (traceless.kind_ne rfl)
  · rename_i label
    refine (visitLabel_meets child place state label _).imp ?_
    rintro new after ⟨rfl, log, rfl⟩
    refine ⟨rfl, renamed.headings, renamed.items, renamed.counters, renamed.openMarks,
      fun name shown => ?_⟩
    have other (target : Path) : (name, target) ∉ (declared? new place).toList := by
      intro present
      unfold declared? at present
      rw [label, Option.mem_toList] at present
      dsimp only at present
      split at present
      · rename_i truthy
        obtain ⟨_, -, same⟩ := Option.map_eq_some_iff.mp present
        obtain ⟨rfl, -⟩ := Prod.mk.inj same
        exact shown (traceless.label label truthy)
      · cases present
    rw [lookup_declareAll, ← renamed.labels name shown]
    cases found : declared? new place with
    | none => rfl
    | some entry =>
        obtain ⟨known, target⟩ := entry
        have different : (name == known) = false := by
          rw [beq_eq_false_iff_ne]
          rintro rfl
          exact other target (by rw [found]; exact List.mem_singleton_self _)
        simp [List.lookup_cons, different]
  · exact absurd ‹_› (traceless.kind_ne rfl)
  · exact Meets.give ⟨rfl, renamed⟩

/-- Numbering such a span leaves no trace. -/
theorem annotate_traceless {outer : Kind} {child : Node} (traceless : Traceless hidden outer child)
    (place : Place) {thin state : State} (renamed : Renamed steps hidden thin state) :
    Meets (annotate child place) state (fun _ => False) fun new after =>
      new = child ∧ Renamed steps hidden thin after := by
  have visited := visit_traceless traceless place renamed
  have unopened : openedMark? child = none := by
    unfold openedMark?
    split
    · exact absurd ‹_› (traceless.kind_ne rfl)
    · rfl
  have childless := traceless.childless
  obtain ⟨kind, payload, attributes, options, children⟩ := child
  obtain rfl : children = [] := childless
  rw [annotate]
  refine Meets.bind visited ?_
  rintro _ after ⟨rfl, kept⟩
  rw [unopened]
  unfold openMark closeMark
  simp only [annotateSiblings, pure_bind]
  refine Meets.change_bind (Meets.change_bind (Meets.give ⟨rfl, ?_⟩))
  exact ⟨kept.headings, kept.items, kept.counters, by simpa using kept.openMarks, kept.labels⟩

/-- What numbering makes of a thinned tree and of the tree. -/
def ThinsAlike (steps : Path → Nat → Nat) (hidden : String → Prop) (base : Path) (new newWas : Node)
    (state stateWas : State) : Prop :=
  Thins steps hidden new newWas base ∧ Renamed steps hidden state stateWas

/-- The numbering of every child of a node is that of the child in a thinned tree. -/
theorem annotateSiblings_renamed {thin siblings : List Node} {parent parentWas : Node}
    {place placeWas : Place} {index position : Nat}
    (kind : parent.kind = parentWas.kind) (options : parent.options = parentWas.options)
    (each : ∀ child ∈ siblings, ∀ first place placeWas state stateWas,
      Thins steps hidden first child place.path → Moved steps place placeWas →
      Renamed steps hidden state stateWas →
      Retraces Unexcused (annotate first place) (annotate child placeWas) state stateWas
        (ThinsAlike steps hidden place.path))
    (thins : ThinsBelow steps hidden thin siblings parentWas.kind place.path index position)
    (moved : Moved steps place placeWas) {state stateWas : State}
    (renamed : Renamed steps hidden state stateWas) :
    Retraces Unexcused (annotateSiblings thin parent place index)
      (annotateSiblings siblings parentWas placeWas position) state stateWas
      fun new newWas after afterWas =>
        ThinsBelow steps hidden new newWas parentWas.kind place.path index position ∧
          new.isEmpty = thin.isEmpty ∧ newWas.isEmpty = siblings.isEmpty ∧
          Renamed steps hidden after afterWas := by
  induction siblings generalizing thin index position state stateWas with
  | nil =>
      obtain ⟨rfl, beyond⟩ := thins
      exact Retraces.give ⟨⟨rfl, beyond⟩, rfl, rfl, renamed⟩
  | cons child rest inductionHypothesis =>
      obtain ⟨here, others⟩ := List.forall_mem_cons.mp each
      rcases thins with ⟨first, remaining, rfl, step, thinsFirst, below⟩ | ⟨traceless, below⟩
      · rw [annotateSiblings, annotateSiblings]
        have entered := moved.enter kind options step
        rw [← moved.path_enter parent] at thinsFirst
        refine Retraces.bind (here _ _ _ _ _ thinsFirst entered renamed) ?_
        rintro new newWas after afterWas ⟨thinsNew, renamedNew⟩
        rw [moved.path_enter] at thinsNew
        refine Retraces.bind (inductionHypothesis others below renamedNew) ?_
        rintro more moreWas ended endedWas ⟨belowMore, -, -, renamedMore⟩
        exact Retraces.give ⟨Or.inl ⟨new, more, rfl, step, thinsNew, belowMore⟩, rfl, rfl,
          renamedMore⟩
      · rw [annotateSiblings]
        obtain ⟨_, middle, returned, rfl, kept⟩ :=
          (annotate_traceless traceless (placeWas.enter parentWas position) renamed).exists_ok
        refine Retraces.after_lead returned ?_
        refine (inductionHypothesis others below kept).lead_gives ?_
        rintro new newWas ended endedWas ⟨belowMore, same, -, renamedMore⟩
        exact ⟨Or.inr ⟨traceless, belowMore⟩, same, rfl, renamedMore⟩

/-- A node keeps with its numbered children what it kept. -/
theorem keepsOwn_numbered {thin node new newWas : Node} (own : KeepsOwn hidden thin node)
    (same : SameOwn node new newWas) {below belowWas : List Node}
    (empty : below.isEmpty = thin.children.isEmpty)
    (emptyWas : belowWas.isEmpty = node.children.isEmpty) :
    KeepsOwn hidden { new with children := below } { newWas with children := belowWas } := by
  refine ⟨same.kind.1.trans same.kind.2.symm, same.payload, same.attributes, same.options,
    fun reference => ?_, fun formatting shown => ?_⟩
  · have isReference : node.kind = .reference := same.kind.2.symm.trans reference
    have kept : newWas.payload = node.payload :=
      same.kept (by rw [isReference]; nofun) (by rw [isReference]; nofun)
    dsimp only
    rw [kept]
    exact own.reference isReference
  · have isFormatting : Layout.isFormatting node.kind = true := same.kind.2 ▸ formatting
    have kept : newWas.payload = node.payload := by
      apply same.kept
      · intro header
        rw [header] at isFormatting
        cases isFormatting
      · intro item
        rw [item] at isFormatting
        cases isFormatting
    dsimp only at shown ⊢
    rw [kept] at shown
    rw [empty, emptyWas]
    exact own.value isFormatting shown

theorem openedMark?_same {node new newWas : Node} (same : SameOwn node new newWas) :
    openedMark? new = openedMark? newWas := by
  unfold openedMark?
  rw [same.kind.1, same.kind.2, same.payload]

variable (apart : ∀ base, Function.Injective (steps base))

include apart

/-- By induction on the tree, a thinned tree is numbered as the tree is. -/
theorem annotate_renamed (node : Node) :
    ∀ thin place placeWas state stateWas, Thins steps hidden thin node place.path →
      Moved steps place placeWas → Renamed steps hidden state stateWas →
      Retraces Unexcused (annotate thin place) (annotate node placeWas) state stateWas
        (ThinsAlike steps hidden place.path) := by
  induction node using Node.induction_on_children with
  | step node each =>
      intro thin place placeWas state stateWas thins moved renamed
      have own := thins.own
      have visited := visit_renamed apart own moved renamed
      have siblings := fun stateNow stateWasNow =>
        @annotateSiblings_renamed steps hidden _ _ _ _ _ _ _ _ own.kind own.options each thins.below
          moved stateNow stateWasNow
      obtain ⟨kind, payload, attributes, options, children⟩ := thin
      obtain ⟨kindWas, payloadWas, attributesWas, optionsWas, childrenWas⟩ := node
      rw [annotate, annotate]
      refine Retraces.bind visited ?_
      rintro new newWas after afterWas ⟨same, visitedAlike⟩
      rw [openedMark?_same same]
      dsimp only
      refine Retraces.change_bind (Retraces.bind (siblings _ _ ?_) ?_)
      · exact ⟨visitedAlike.headings, visitedAlike.items, visitedAlike.counters,
          congrArg (· ++ _) visitedAlike.openMarks, visitedAlike.labels⟩
      rintro below belowWas middle middleWas ⟨thinsBelow, empty, emptyWas, numberedAlike⟩
      refine Retraces.change_bind (Retraces.give ⟨thins_iff.mpr ⟨?_, ?_⟩, ?_⟩)
      · exact keepsOwn_numbered own same empty emptyWas
      · rw [same.kind.2]
        exact thinsBelow
      · refine ⟨numberedAlike.headings, numberedAlike.items, numberedAlike.counters, ?_,
          numberedAlike.labels⟩
        dsimp only
        rw [numberedAlike.openMarks]

/-- The tables of a thinned tree and those of the tree. -/
structure NumberedAlike (steps : Path → Nat → Nat) (hidden : String → Prop)
    (thin numbered : Numbered) : Prop where
  /-- The annotated tree is thinned as the tree is. -/
  tree : Thins steps hidden thin.tree numbered.tree []
  /-- The headings stand at renamed paths. -/
  headings : numbered.headings =
    thin.headings.rename (Option.map (Path.rename steps [])) (Path.rename steps [])
  /-- So do the items. -/
  items : numbered.items =
    thin.items.rename (Option.map (Path.rename steps [])) (Path.rename steps [])
  /-- Names that are not hidden lead to renamed paths. -/
  labels : ∀ name, ¬ hidden name →
    numbered.labels.lookup name = (thin.labels.lookup name).map (Path.rename steps [])

/-- Numbering a thinned tree ends as numbering the tree does. -/
theorem resolve_renamed {thin node : Node} (thins : Thins steps hidden thin node []) :
    Retraces.ResultsAlike (NumberedAlike steps hidden) (resolve thin).1 (resolve node).1 := by
  have fresh : Renamed steps hidden {} {} := ⟨rfl, rfl, rfl, rfl, fun _ _ => rfl⟩
  have traversed : Retraces Unexcused (traverse thin) (traverse node) {} {}
      fun numbered numberedWas _ _ => NumberedAlike steps hidden numbered numberedWas := by
    unfold traverse
    refine Retraces.change_bind (Retraces.bind
      (annotate_renamed apart node thin _ _ _ _ thins Moved.root fresh) ?_)
    rintro new newWas after afterWas ⟨thinsNew, renamed⟩
    refine Retraces.read (Retraces.change_bind (Retraces.give ?_))
    exact ⟨thinsNew, renamed.headings, renamed.items, renamed.labels⟩
  exact traversed.results

end Passes

end Numbering
end Galley
