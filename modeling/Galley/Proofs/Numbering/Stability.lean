import Galley.Layout.Render
import Galley.Proofs.Numbering.Items
import Galley.Proofs.Numbering.Sections
import Galley.Proofs.Numbering.Tables

/-!
# Numbering again

The numbering pass retains all of a tree but the payloads and positions of headings and
items, and it keeps what they were numbered with.  On a tree that it has numbered it
changes nothing: where marks were computed at first they are now supplied, and the
counters, the open marks and the tables run through the same states.  So a numbered tree
is rendered as the tree that it comes from.
-/

namespace Galley
namespace Numbering

/-! ## What is retained -/

/-- A numbered node retains what it was made of, except its payload and position where
it is a heading or an item, and it keeps the section number or the chain of marks that
it came with. -/
structure Retains (given now : Node) : Prop where
  /-- The kind is retained. -/
  kind : now.kind = given.kind
  /-- So are the attributes. -/
  attributes : now.attributes = given.attributes
  /-- Headings and items gain a position. -/
  positioned : given.kind = .header ∨ given.kind = .listItem →
    ∃ position : Nat, now.options = given.options.set Node.positionKey (.int position)
  /-- All other nodes stay as they are. -/
  unchanged : given.kind ≠ .header → given.kind ≠ .listItem →
    now.payload = given.payload ∧ now.options = given.options
  /-- A heading keeps its section number. -/
  number : given.kind = .header → ∀ number, givenNumber? given = some number →
    now.fullMark? = some number
  /-- An item keeps its chain of marks. -/
  chain : given.kind = .listItem → ∀ chain, given.fullMark? = some chain →
  now.fullMark? = some chain

/-- Counting keeps a section number. -/
theorem fullMark_markHeading {marks : HeadingMark} {number : String}
    (supplied : marks.fullMark = some number) (counters : List Nat) :
    (markHeading counters marks).fullMark = some number := by
  rw [markHeading, supplied]
  exact supplied

/-- A supplied chain is kept. -/
theorem fullMark?_chainMarks {payload : Payload} {chain : String}
    (supplied : payload.fullMark? = some chain) (opened : List String) :
    (chainMarks opened payload).fullMark? = some chain := by
  cases payload with
  | data value => cases supplied
  | heading marks => exact supplied
  | item marks =>
      have carried : marks.fullMark = some chain := supplied
      rw [chainMarks, carried]
      exact supplied

/-- A visit retains the node, whatever is put below it. -/
theorem visit_retains (node : Node) (place : Place) (state : State) :
    Meets (visit node place) state (fun _ => True) fun new _ =>
      ∀ below, Retains node { new with children := below } := by
  unfold visit
  split
  · rename_i header
    refine (visitHeading_meets node place state).mono (fun _ _ => trivial) ?_
    rintro new after ⟨marks, read, rfl, -⟩ below
    refine ⟨rfl, rfl, fun _ => ⟨_, rfl⟩, fun other => absurd header other,
      fun _ number supplied => ?_,
      fun item => absurd (header.symm.trans item) (by decide)⟩
    unfold givenNumber? at supplied
    split at supplied
    · rename_i own carried
      rw [carried] at read
      obtain rfl := Except.ok.inj read
      exact fullMark_markHeading supplied _
    · cases supplied
  · rename_i item
    refine (visitItem_meets node place state).mono (fun _ _ => trivial) ?_
    rintro new after ⟨payload, read, rfl, -⟩ below
    refine ⟨rfl, rfl, fun _ => ⟨_, rfl⟩, fun _ other => absurd item other,
      fun header => absurd (item.symm.trans header) (by decide), fun _ chain supplied => ?_⟩
    have kept : payload.fullMark? = some chain := (fullMark?_itemPayload read).trans supplied
    exact fullMark?_chainMarks kept _
  · rename_i label
    refine (visitLabel_meets node place state label _).imp ?_
    rintro new after ⟨rfl, -⟩ below
    exact ⟨rfl, rfl, by simp [label], fun _ _ => ⟨rfl, rfl⟩, by simp [label], by simp [label]⟩
  · exact Meets.stop trivial
  · rename_i notHeader notItem _ _
    exact Meets.give fun below => ⟨rfl, rfl,
      fun either => absurd either (not_or.mpr ⟨notHeader, notItem⟩), fun _ _ => ⟨rfl, rfl⟩,
      fun header => absurd header notHeader, fun item => absurd item notItem⟩

/-- What each visit makes of a node, the pass makes of the nodes of a tree. -/
theorem annotate_matches {related : Node → Node → Prop}
    (each : ∀ node place state, Meets (visit node place) state (fun _ => True) fun new _ =>
      ∀ below, related node { new with children := below })
    (node : Node) (place : Place) (state : State) :
    Meets (annotate node place) state (fun _ => True) fun new _ =>
      node.Matches (fun _ => related) new := by
  induction node using Node.induction_on_children generalizing place state with
  | step node inductionHypothesis =>
      have siblings (members : List Node) (index : Nat) (state : State)
          (known : ∀ child ∈ members, child ∈ node.children) :
          Meets (annotateSiblings members node place index) state (fun _ => True) fun found _ =>
            ∀ step : Nat, Option.Rel (Node.Matches fun _ => related) members[step]?
              found[step]? := by
        induction members generalizing index state with
        | nil => exact Meets.give fun _ => Option.Rel.none
        | cons child rest restHypothesis =>
            refine Meets.bind (inductionHypothesis child (known child (by simp)) _ state) ?_
            intro first middle matching
            refine Meets.bind (restHypothesis (index + 1) middle fun other present =>
              known other (by simp [present])) fun others after remaining =>
                Meets.give fun step => ?_
            cases step with
            | zero => exact Option.Rel.some matching
            | succ step => simpa using remaining step
      obtain ⟨kind, payload, attributes, options, children⟩ := node
      rw [annotate]
      refine Meets.bind (each _ place state) fun numbered visited made => Meets.change_bind ?_
      refine Meets.bind (siblings children 0 _ fun _ present => present)
        fun found below matching => ?_
      exact Meets.change_bind (Meets.give (Node.Matches.of_children (made found) matching))

/-- The pass retains each node of a tree. -/
theorem resolve_retains {tree : Node} {numbered : Numbered}
    (returned : (resolve tree).1 = .ok numbered) :
    tree.Matches (fun _ => Retains) numbered.tree :=
  resolve_meets (fun numbered => tree.Matches (fun _ => Retains) numbered.tree) returned
    (annotate_matches visit_retains tree Place.root {})

/-! ## Visits in full -/

/-- A label is always declared. -/
theorem declareOwnLabel_returns (node : Node) (path : Path) (state : State) :
    ∃ after, outcome (declareOwnLabel node path) state = (.ok (), after) := by
  obtain ⟨_, after, returned, -⟩ :=
    (declareOwnLabel_meets node path state fun _ => False).exists_ok
  exact ⟨after, returned⟩

theorem Alike.parentPath? {view place : Place} (alike : Alike view place) :
    view.parentPath? = place.parentPath? := by
  rw [Place.parentPath?, Place.parentPath?, alike.path]

/-- A numbered node, whatever is put below it, declares the label of the node. -/
theorem declareOwnLabel_positioned (node : Node) (payload : Payload) (position : Nat)
    (below : List Node) (path : Path) :
    declareOwnLabel ⟨node.kind, payload, node.attributes, positioned node position, below⟩ path =
      declareOwnLabel node path := by
  have same : Node.label? ⟨node.kind, payload, node.attributes, positioned node position, below⟩ =
      node.label? := label?_positioned node payload position
  unfold declareOwnLabel
  rw [same]

/-- The last position counts. -/
theorem positioned_positioned (node : Node) (payload : Payload) (first second : Nat)
    (below : List Node) :
    positioned ⟨node.kind, payload, node.attributes, positioned node first, below⟩ second =
      positioned node second :=
  Fields.set_set _ _ _ _

/-- A heading whose marks can be read is counted and declares its label. -/
theorem outcome_visitHeading {node : Node} {marks : HeadingMark}
    (read : headingMarks node.payload node.options = .ok marks) (place : Place) (state : State) :
    outcome (visitHeading node place) state =
      outcome
        (do
          declareOwnLabel node place.path
          return { node with
            payload := .heading (markHeading (advance state.counters marks.level.depth) marks)
            options := positioned node (state.headings.nextPosition place.parentPath?) })
        { state with
          headings := state.headings.add place.parentPath? place.path
          counters := advance state.counters marks.level.depth } := by
  have readAgain : headingMarks node.payload
      (node.options.set Node.positionKey (.int (state.headings.nextPosition place.parentPath?))) =
        .ok marks := (headingMarks_positioned node.payload node _).trans read
  unfold visitHeading
  rw [outcome_get_bind, outcome_modify_bind]
  dsimp only
  rw [readAgain, outcome_lift_bind, outcome_modify_bind, outcome_get_bind]
  exact congrArg (fun declare => outcome (declare >>= fun _ => pure _) _)
    (declareOwnLabel_positioned node _ _ node.children place.path)

/-- An item whose mark can be read takes its chain from the open marks and declares its
label. -/
theorem outcome_visitItem {node : Node} {place : Place} {state : State} {payload : Payload}
    (read : itemPayload node.payload place (state.items.nextPosition place.parentPath?) =
      .ok payload) :
    outcome (visitItem node place) state =
      outcome
        (do
          declareOwnLabel node place.path
          return { node with
            payload := chainMarks state.openMarks payload
            options := positioned node (state.items.nextPosition place.parentPath?) })
        { state with items := state.items.add place.parentPath? place.path } := by
  unfold visitItem
  rw [outcome_get_bind, outcome_modify_bind]
  dsimp only
  rw [read, outcome_lift_bind, outcome_get_bind]
  exact congrArg (fun declare => outcome (declare >>= fun _ => pure _) _)
    (declareOwnLabel_positioned node _ _ node.children place.path)

/-- Declare the name that a label carries. -/
def declareNamed (payload : Payload) (place : Place) : Pass Unit :=
  if payload.isTruthy then
    match (place.nearest? [.header, .listItem]).or place.parentPath? with
    | some target => declareLabel payload.display target
    | none => report (.labelHomeless payload)
  else pure ()

theorem visitLabel_eq (node : Node) (place : Place) :
    visitLabel node place = declareNamed node.payload place >>= fun _ => pure node := by
  unfold visitLabel declareNamed
  cases node.payload.isTruthy with
  | false => rfl
  | true => cases (place.nearest? [.header, .listItem]).or place.parentPath? <;> rfl

theorem declareNamed_alike {view place : Place} (alike : Alike view place) (payload : Payload) :
    declareNamed payload view = declareNamed payload place := by
  unfold declareNamed
  rw [alike.nearest?, alike.parentPath?]

theorem declareNamed_returns (payload : Payload) (place : Place) (state : State) :
    ∃ after, outcome (declareNamed payload place) state = (.ok (), after) := by
  unfold declareNamed
  split
  · split
    · obtain ⟨_, after, returned, -⟩ :=
        (declareLabel_meets payload.display _ state fun _ => False).exists_ok
      exact ⟨after, returned⟩
    · exact ⟨_, rfl⟩
  · exact ⟨_, rfl⟩

/-- Counting a counted heading changes nothing but the counters. -/
theorem markHeading_markHeading (counters again : List Nat) (marks : HeadingMark) :
    markHeading again (markHeading counters marks) = markHeading counters marks := by
  obtain ⟨level, mark, fullMark⟩ := marks
  cases fullMark <;> rfl

theorem level_markHeading (counters : List Nat) (marks : HeadingMark) :
    (markHeading counters marks).level = marks.level := by
  obtain ⟨level, mark, fullMark⟩ := marks
  cases fullMark <;> rfl

/-- A complete chain is kept. -/
theorem chainMarks_chainMarks (opened again : List String) (payload : Payload) :
    chainMarks again (chainMarks opened payload) = chainMarks opened payload := by
  cases payload with
  | data value => rfl
  | heading marks => rfl
  | item marks =>
      rw [chainMarks_item, chainMarks_item]
      rfl

theorem Alike.map_kind_parent? {view place : Place} (alike : Alike view place) :
    view.parent?.map Node.kind = place.parent?.map Node.kind := by
  rw [Place.parent?, Place.parent?, ← List.head?_map, ← List.head?_map, alike.kinds]

/-- A payload that is read as plain data was that data. -/
theorem eq_of_itemPayload_eq_data {payload : Payload} {value : Datum} {place : Place}
    {position : Nat}
    (read : itemPayload payload place position = .ok (.data value)) : payload = .data value := by
  unfold itemPayload at read
  split at read
  · split at read
    · exact Except.ok.inj read
    · cases read
  · split at read
    · split at read
      · obtain ⟨start, -, marked⟩ := exists_of_bind_eq_ok read
        cases marked
      · exact Except.ok.inj read
    · exact Except.ok.inj read
  · exact Except.ok.inj read

/-- An item that was marked, or left without a mark, keeps its payload at a like place. -/
theorem itemPayload_again {payload marked : Payload} {view place : Place} {position : Nat}
    (alike : Alike view place) (read : itemPayload payload place position = .ok marked)
    (opened : List String) :
    itemPayload (chainMarks opened marked) view position = .ok (chainMarks opened marked) := by
  cases marked with
  | heading marks => rfl
  | item marks =>
      rw [chainMarks_item]
      rfl
  | data value =>
      obtain rfl := eq_of_itemPayload_eq_data read
      cases value with
      | text mark => exact read
      | null =>
          -- Directly under an ordered list the item would have been marked.
          have kinds := alike.map_kind_parent?
          unfold itemPayload at read
          change itemPayload (.data .null) view position = .ok (.data .null)
          unfold itemPayload
          dsimp only at read ⊢
          cases above : view.parent? with
          | none => rfl
          | some parent =>
              rw [above] at kinds
              obtain ⟨other, found, same⟩ := Option.map_eq_some_iff.mp kinds.symm
              rw [found] at read
              dsimp only at read ⊢
              rw [same] at read
              split
              · rename_i ordered
                rw [if_pos ordered] at read
                obtain ⟨start, -, marked⟩ := exists_of_bind_eq_ok read
                cases marked
              · rfl
      | _ => rfl

/-! ## One visit again -/

/-- A visited node, whatever is put below it, is left alone by a visit at a like place
from the same state, which ends in the same state. -/
structure Settles (visiting : Node → Place → Pass Node) (node : Node) (place : Place)
    (before : State)
    (new : Node) (after : State) : Prop where
  /-- The kind is kept, so that the node is visited in the same way. -/
  kind : new.kind = node.kind
  /-- Nothing is changed, and the same is gathered. -/
  again : ∀ below view, Alike view place →
    outcome (visiting { new with children := below } view) before =
      (.ok { new with children := below }, after)

/-- A heading is counted once: its marks are kept, and the counters advance as before. -/
theorem visitHeading_settles (node : Node) (place : Place) (state : State) :
    Meets (visitHeading node place) state (fun _ => True)
      (Settles visitHeading node place state) := by
  cases read : headingMarks node.payload node.options with
  | error fault =>
      refine (visitHeading_meets node place state).mono (fun _ _ => trivial) ?_
      rintro new after ⟨marks, found, -⟩
      rw [read] at found
      cases found
  | ok marks =>
      obtain ⟨after, declared⟩ := declareOwnLabel_returns node place.path { state with
        headings := state.headings.add place.parentPath? place.path
        counters := advance state.counters marks.level.depth }
      have visited := outcome_visitHeading read place state
      rw [outcome_bind_of_ok declared] at visited
      refine Meets.of_outcome visited ⟨rfl, fun below view alike => ?_⟩
      rw [outcome_visitHeading rfl]
      simp only [level_markHeading, markHeading_markHeading, alike.parentPath?, alike.path,
        positioned_positioned, declareOwnLabel_positioned]
      rw [outcome_bind_of_ok declared]
      rfl

/-- An item is marked once: its chain is kept. -/
theorem visitItem_settles (node : Node) (place : Place) (state : State) :
    Meets (visitItem node place) state (fun _ => True) (Settles visitItem node place state) := by
  cases read : itemPayload node.payload place (state.items.nextPosition place.parentPath?) with
  | error fault =>
      refine (visitItem_meets node place state).mono (fun _ _ => trivial) ?_
      rintro new after ⟨payload, found, -⟩
      rw [read] at found
      cases found
  | ok payload =>
      obtain ⟨after, declared⟩ := declareOwnLabel_returns node place.path { state with
        items := state.items.add place.parentPath? place.path }
      have visited := outcome_visitItem read
      rw [outcome_bind_of_ok declared] at visited
      refine Meets.of_outcome visited ⟨rfl, fun below view alike => ?_⟩
      have readAgain := itemPayload_again alike read state.openMarks
      rw [← alike.parentPath?] at readAgain
      rw [outcome_visitItem readAgain]
      simp only [chainMarks_chainMarks, alike.parentPath?, alike.path, positioned_positioned,
        declareOwnLabel_positioned]
      rw [outcome_bind_of_ok declared]
      rfl

/-- A label declares the same name for the same node. -/
theorem visitLabel_settles (node : Node) (place : Place) (state : State) :
    Meets (visitLabel node place) state (fun _ => True) (Settles visitLabel node place state) := by
  obtain ⟨after, declared⟩ := declareNamed_returns node.payload place state
  have visited := visitLabel_eq node place
  refine Meets.of_outcome (by rw [visited, outcome_bind_of_ok declared]; rfl)
    ⟨rfl, fun below view alike => ?_⟩
  rw [visitLabel_eq, declareNamed_alike alike, outcome_bind_of_ok declared]
  rfl

/-- Every visit settles its node. -/
theorem visit_settles (node : Node) (place : Place) (state : State) :
    Meets (visit node place) state (fun _ => True) (Settles visit node place state) := by
  have carry (visiting : Node → Place → Pass Node)
      (same : ∀ other view, other.kind = node.kind → visit other view = visiting other view)
      (meets : Meets (visiting node place) state (fun _ => True)
        (Settles visiting node place state)) :
      Meets (visit node place) state (fun _ => True) (Settles visit node place state) := by
    rw [same node place rfl]
    refine meets.imp fun new after settles => ⟨settles.kind, fun below view alike => ?_⟩
    have again := settles.again below view alike
    rwa [← same { new with children := below } view settles.kind] at again
  cases kind : node.kind with
  | header =>
      exact carry visitHeading (by simp +contextual [visit, kind])
        (visitHeading_settles node place state)
  | listItem =>
      exact carry visitItem (by simp +contextual [visit, kind]) (visitItem_settles node place state)
  | label =>
      exact carry visitLabel (by simp +contextual [visit, kind])
        (visitLabel_settles node place state)
  | foreign name =>
      unfold visit
      rw [kind]
      exact Meets.stop trivial
  | _ =>
      exact carry (fun other _ => pure other) (by simp +contextual [visit, kind])
        (Meets.give ⟨rfl, fun _ _ _ => rfl⟩)

/-! ## The whole pass again -/

/-- By induction on the tree, the pass does nothing to a tree that it made, and it goes
through the same states. -/
theorem annotate_settles (node : Node) (place : Place) (state : State)
    (linked : place.linked = true) :
    Meets (annotate node place) state (fun _ => True) fun new after =>
      new.kind = node.kind ∧ ∀ view, Alike view place →
        outcome (annotate new view) state = (.ok new, after) := by
  induction node using Node.induction_on_children generalizing place state with
  | step node inductionHypothesis =>
      -- The parent of the new siblings is known only after all of them are annotated.
      have siblings (members : List Node) (index : Nat) (state : State)
          (known : ∀ child ∈ members, child ∈ node.children) :
          Meets (annotateSiblings members node place index) state (fun _ => True) fun found after =>
            ∀ new view, new.kind = node.kind → Alike view place →
              outcome (annotateSiblings found new view index) state = (.ok found, after) := by
        induction members generalizing index state with
        | nil => exact Meets.give fun _ _ _ _ => rfl
        | cons child rest restHypothesis =>
            have inside : (place.enter node index).linked = true := by simp [Place.enter, linked]
            refine Meets.bind (inductionHypothesis child (known child (by simp)) _ state inside) ?_
            rintro first middle ⟨-, again⟩
            refine Meets.bind (restHypothesis (index + 1) middle fun other present =>
              known other (by simp [present])) ?_
            intro others after remaining
            refine Meets.give fun new view kind alike => ?_
            rw [annotateSiblings, outcome_bind_of_ok (again _ (alike.enter kind index)),
              outcome_bind_of_ok (remaining new view kind alike)]
            rfl
      obtain ⟨kind, payload, attributes, options, children⟩ := node
      rw [annotate]
      refine Meets.bind (visit_settles _ place state) fun numbered visited settles => ?_
      refine Meets.change_bind (Meets.bind (siblings children 0 _ fun _ present => present) ?_)
      intro found below again
      refine Meets.change_bind (Meets.give ⟨settles.kind, fun view alike => ?_⟩)
      rw [annotate, outcome_bind_of_ok (settles.again found view alike)]
      dsimp only
      refine (outcome_bind_of_ok rfl _).trans ?_
      exact (outcome_bind_of_ok
        (again { numbered with children := found } view settles.kind alike) _).trans rfl

/-- Numbering annotates a tree from nothing. -/
theorem resolve_eq (tree : Node) :
    resolve tree =
      match outcome (annotate tree Place.root) {} with
      | (.ok new, after) =>
          (.ok ⟨new, after.labels, after.headings, after.items⟩, after.log ++
            [.numbered after.labels.length after.headings.entries.length
              after.items.entries.length])
      | (.error fault, after) => (.error fault, after.log) := by
  have traversed : resolve tree =
      ((outcome (traverse tree) {}).1, (outcome (traverse tree) {}).2.log) := rfl
  have begun : outcome (traverse tree) {} = outcome (annotate tree Place.root >>= _) {} :=
    outcome_bind_of_ok rfl _
  rw [traversed, begun, outcome_bind]
  rcases outcome (annotate tree Place.root) {} with ⟨fault | new, after⟩ <;> rfl

/-- Numbering a numbered tree gives the same tree and the same tables, and reports the
same. -/
theorem resolve_tree {tree : Node} {numbered : Numbered}
    (returned : (resolve tree).1 = .ok numbered) :
    resolve numbered.tree = resolve tree := by
  have settles := annotate_settles tree Place.root {} rfl
  rw [resolve_eq] at returned
  rcases found : outcome (annotate tree Place.root) {} with ⟨fault | new, after⟩
  · rw [found] at returned
    cases returned
  · rw [found] at returned
    obtain rfl := Except.ok.inj returned
    obtain ⟨-, again⟩ := settles.of_ok found
    rw [resolve_eq, resolve_eq, found, again Place.root ⟨rfl, rfl, rfl, rfl⟩]

/-- Rendering depends on what numbering gives. -/
theorem renderTree_congr {tree other : Node} (same : resolve other = resolve tree)
    (options : Layout.Options) :
    Layout.renderTree options other = Layout.renderTree options tree := by
  unfold Layout.renderTree Layout.render Layout.numberTree
  rw [same]

/-- Numbering changes only the payloads and positions of headings and items, it keeps
the marks that were supplied, and doing it again changes nothing: a numbered tree gives
the tree and the tables that it comes with, and it is rendered as the tree that it was
made of. -/
theorem resolve_stable {tree : Node} {numbered : Numbered}
    (returned : (resolve tree).1 = .ok numbered) :
    tree.Matches (fun _ => Retains) numbered.tree ∧
      resolve numbered.tree = (.ok numbered, (resolve tree).2) ∧
      ∀ options, Layout.renderTree options numbered.tree = Layout.renderTree options tree := by
  have same := resolve_tree returned
  refine ⟨resolve_retains returned, ?_, renderTree_congr same⟩
  rw [same, ← returned]

/-- Headings below each other, one with a section number of its own, are numbered once. -/
theorem resolve_stable_uneven :
    (resolve unevenHeadings).1 = .ok unevenHeadingsNumbered ∧
      unevenHeadings.Matches (fun _ => Retains) unevenHeadingsNumbered.tree ∧
      (resolve unevenHeadingsNumbered.tree).1 = .ok unevenHeadingsNumbered ∧
      Layout.renderTree {} unevenHeadingsNumbered.tree = Layout.renderTree {} unevenHeadings := by
  have resolved : (resolve unevenHeadings).1 = .ok unevenHeadingsNumbered := rfl
  obtain ⟨retains, again, rendered⟩ := resolve_stable resolved
  exact ⟨resolved, retains, congrArg Prod.fst again, rendered {}⟩

end Numbering
end Galley
