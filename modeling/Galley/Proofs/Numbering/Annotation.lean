import Galley.Proofs.Document.Strings
import Galley.Proofs.Numbering.Visit
import Mathlib.Data.List.Forall2

/-!
# What the numbering pass keeps

The pass changes payloads and one option of headings and items.  Kinds, attributes, all
other options and the shape of the tree stay, marks that it makes hold no NUL, and it
stops at no fault where levels and starts are integers.
-/

namespace Galley
namespace Numbering

open Text

/-- A node can be numbered: its kind is known, and the level of a heading and the start
of an ordered list are integers where they are given. -/
structure Numberable (node : Node) : Prop where
  /-- The kind belongs to the closed set. -/
  known : node.kind.isKnown = true
  /-- The level of a heading is an integer. -/
  level : node.kind = .header → ∀ value, node.options.get? "level" = some value →
    ∃ number, value = .int number
  /-- The start of an ordered list is an integer. -/
  start : node.kind = .orderedList → ∀ value, node.options.get? "start" = some value →
    ∃ number, value = .int number

/-- A node of the annotated tree stands for a node of the tree. -/
structure Annotates (node new : Node) : Prop where
  /-- The kind is kept, and it is known. -/
  kind : new.kind = node.kind
  /-- Only known kinds are visited. -/
  known : node.kind.isKnown = true
  /-- Attributes are kept. -/
  attributes : new.attributes = node.attributes
  /-- So are all options but the position. -/
  options : ∀ name, name ≠ Node.positionKey → new.options.get? name = node.options.get? name
  /-- The children have the same kinds. -/
  below : new.children.map Node.kind = node.children.map Node.kind

/-- Marks that are open hold no NUL. -/
def MarksPlain (marks : List String) : Prop :=
  ∀ mark ∈ marks, NulFree mark.toList

/-! ## Marks without NUL -/

theorem nulFree_options_positioned {node : Node} (plain : node.NulFree) (position : Nat)
    (name : String) (value : Datum) (found : (positioned node position).get? name = some value) :
    value.NulFree := by
  by_cases same : name = Node.positionKey
  · subst same
    rw [positioned, Fields.get?_set_self] at found
    obtain rfl := Option.some.inj found
    trivial
  · rw [get?_positioned node position same] at found
    exact plain.options name value found

/-- Section numbers are graphic. -/
theorem graphic_sectionNumber (counters : List Nat) : Graphic (sectionNumber counters).toList := by
  have dot : Graphic ".".toList := graphic_singleton.mpr (by decide)
  refine forall_mem_intercalate dot fun text present => ?_
  obtain ⟨count, -, rfl⟩ := List.mem_map.mp present
  exact graphic_toString_nat count

theorem nulFree_markHeading {marks : HeadingMark} (plain : (Payload.heading marks).NulFree)
    (counters : List Nat) : (Payload.heading (markHeading counters marks)).NulFree := by
  unfold markHeading
  split
  · exact plain
  · refine ⟨fun mark same => ?_, fun mark same => ?_⟩
    · obtain rfl : orIfEmpty marks.mark _ = mark := Option.some.inj same
      unfold orIfEmpty
      split
      · rename_i present found
        split
        · exact (graphic_toString_nat _).not_mem (by decide)
        · exact plain.1 present found
      · exact (graphic_toString_nat _).not_mem (by decide)
    · obtain rfl : sectionNumber counters = mark := Option.some.inj same
      exact (graphic_sectionNumber counters).not_mem (by decide)

theorem nulFree_headingMarks {payload : Payload} (plain : payload.NulFree) {options : Fields}
    {marks : HeadingMark} (found : headingMarks payload options = .ok marks) :
    (Payload.heading marks).NulFree := by
  have bare (level : Level) : (Payload.heading { level := level }).NulFree :=
    ⟨fun _ absent => (by cases absent), fun _ absent => (by cases absent)⟩
  have leveled {number : Except Fault Int}
      (read : (number >>= fun value => pure { level := .clamp value : HeadingMark }) = .ok marks) :
      (Payload.heading marks).NulFree := by
    cases number with
    | error fault => cases read
    | ok value =>
        cases read
        exact bare _
  unfold headingMarks at found
  split at found
  · obtain rfl := Except.ok.inj found
    exact plain
  · split at found
    · obtain rfl := Except.ok.inj found
      exact bare _
    · exact leveled found
  · exact leveled found

theorem graphic_letters (style : MarkStyle) (number : Nat) :
    Graphic (Ordinal.letters style.firstLetter number) := by
  induction number using Nat.strongRecOn with
  | ind number inductionHypothesis =>
      cases number with
      | zero =>
          rw [Ordinal.letters_zero]
          exact graphic_nil
      | succ fewer =>
          have letter : ∀ step < 26, Graphic [Char.ofNat (style.firstLetter.toNat + step)] := by
            cases style <;> simp only [graphic_singleton] <;> decide
          rw [Ordinal.letters_succ]
          exact graphic_append.mpr
            ⟨inductionHypothesis _ (by omega), letter _ (Nat.mod_lt _ (by decide))⟩

/-- Ordinals are graphic. -/
theorem graphic_ordinal (number : Int) (style : MarkStyle) :
    Graphic (Ordinal.format number style).toList := by
  unfold Ordinal.format
  split
  · exact graphic_toString_int number
  · rw [String.toList_ofList]
    exact graphic_letters style _

theorem nulFree_itemPayload {payload : Payload} (plain : payload.NulFree) {place : Place}
    {position : Nat} {marked : Payload} (found : itemPayload payload place position = .ok marked) :
    marked.NulFree := by
  unfold itemPayload at found
  split at found
  · obtain rfl := Except.ok.inj found
    split
    · exact plain
    · exact ⟨plain, fun _ absent => by cases absent⟩
  · split at found
    · split at found
      · rename_i parent _ _
        cases start : (parent.options.getD "start" (.int 1)).toInteger with
        | error fault =>
            rw [start] at found
            cases found
        | ok value =>
            rw [start] at found
            cases found
            exact ⟨(graphic_ordinal _ _).not_mem (by decide), fun _ absent => by cases absent⟩
      · obtain rfl := Except.ok.inj found
        exact plain
    · obtain rfl := Except.ok.inj found
      exact plain
  · obtain rfl := Except.ok.inj found
    exact plain

theorem nulFree_chainMarks {payload : Payload} (plain : payload.NulFree) {marks : List String}
    (opened : MarksPlain marks) : (chainMarks marks payload).NulFree := by
  unfold chainMarks
  split
  · rename_i item
    split
    · exact plain
    · refine ⟨plain.1, fun chain same => ?_⟩
      obtain rfl : ".".intercalate (marks ++ [item.mark]) = chain := Option.some.inj same
      refine nulFree_intercalate (by decide) fun text present => ?_
      rcases List.mem_append.mp present with before | last
      · exact opened text before
      · obtain rfl := List.mem_singleton.mp last
        exact plain.1
  · exact plain

/-! ## Reading levels and starts -/

theorem headingMarks_ok {node : Node} (numberable : Numberable node)
    (header : node.kind = .header) :
    ∃ marks, headingMarks node.payload node.options = .ok marks := by
  have level : ∃ number, (node.options.getD "level" (.int 1)).toInteger = .ok number := by
    unfold Fields.getD
    cases found : node.options.get? "level" with
    | none => exact ⟨1, rfl⟩
    | some value =>
        obtain ⟨number, rfl⟩ := numberable.level header value found
        exact ⟨number, rfl⟩
  obtain ⟨number, read⟩ := level
  unfold headingMarks
  split
  · exact ⟨_, rfl⟩
  · split
    · exact ⟨_, rfl⟩
    · exact ⟨_, by rw [read]; rfl⟩
  · exact ⟨_, by rw [read]; rfl⟩

theorem itemPayload_ok {payload : Payload} {place : Place} (position : Nat)
    (numberable : ∀ parent, place.parent? = some parent → Numberable parent) :
    ∃ marked, itemPayload payload place position = .ok marked := by
  unfold itemPayload
  split
  · exact ⟨_, rfl⟩
  · split
    · rename_i parent found
      split
      · rename_i ordered
        have start : ∃ number, (parent.options.getD "start" (.int 1)).toInteger = .ok number := by
          unfold Fields.getD
          cases given : parent.options.get? "start" with
          | none => exact ⟨1, rfl⟩
          | some value =>
              obtain ⟨number, rfl⟩ :=
                (numberable parent found).start (by simpa using ordered) value given
              exact ⟨number, rfl⟩
        obtain ⟨number, read⟩ := start
        exact ⟨_, by rw [read]; rfl⟩
      · exact ⟨_, rfl⟩
    · exact ⟨_, rfl⟩
  · exact ⟨_, rfl⟩

/-! ## One node -/

/-- What a visit keeps of a node and of the open marks. -/
structure VisitKeeps (node : Node) (before : State) (new : Node) (after : State) : Prop where
  /-- The new node stands for the node. -/
  kind : new.kind = node.kind
  /-- Only known kinds are visited. -/
  known : node.kind.isKnown = true
  /-- Attributes are kept. -/
  attributes : new.attributes = node.attributes
  /-- So are all options but the position. -/
  options : ∀ name, name ≠ Node.positionKey → new.options.get? name = node.options.get? name
  /-- The new strings hold no NUL. -/
  nulFree : MarksPlain before.openMarks → node.NulFree → new.NulFree
  /-- A visit opens no marks. -/
  openMarks : after.openMarks = before.openMarks

/-- A visit stops only where something cannot be numbered. -/
theorem visit_keeps {fine : Prop} (node : Node) (place : Place) (state : State)
    (numberable : fine → Numberable node)
    (parent : fine → ∀ parent, place.parent? = some parent → Numberable parent) :
    Meets (visit node place) state (fun _ => ¬ fine) (VisitKeeps node state) := by
  unfold visit
  split
  · rename_i header
    refine (visitHeading_meets node place state).mono (fun _ stopped holds => ?_) ?_
    · obtain ⟨marks, found⟩ := headingMarks_ok (numberable holds) header
      exact stopped marks found
    · rintro new after ⟨marks, found, rfl, log, rfl⟩
      refine ⟨rfl, by rw [header]; rfl, rfl, fun name other => get?_positioned node _ other,
        fun _ plain => ?_, rfl⟩
      exact ⟨nulFree_markHeading (nulFree_headingMarks plain.payload found) _, plain.attributes,
        nulFree_options_positioned plain _⟩
  · rename_i item
    refine (visitItem_meets node place state).mono (fun _ stopped holds => ?_) ?_
    · obtain ⟨marked, found⟩ := itemPayload_ok _ (parent holds)
      exact stopped marked found
    · rintro new after ⟨payload, found, rfl, log, rfl⟩
      refine ⟨rfl, by rw [item]; rfl, rfl, fun name other => get?_positioned node _ other,
        fun opened plain => ?_, rfl⟩
      exact ⟨nulFree_chainMarks (nulFree_itemPayload plain.payload found) opened,
        plain.attributes, nulFree_options_positioned plain _⟩
  · rename_i label
    refine (visitLabel_meets node place state label _).imp ?_
    rintro new after ⟨rfl, log, rfl⟩
    exact ⟨rfl, by rw [label]; rfl, rfl, fun _ _ => rfl, fun _ plain => plain, rfl⟩
  · rename_i name foreign
    refine Meets.stop fun holds => ?_
    have known := (numberable holds).known
    rw [foreign] at known
    cases known
  · rename_i notHeader notItem notLabel notForeign
    refine Meets.give ⟨rfl, ?_, rfl, fun _ _ => rfl, fun _ plain => plain, rfl⟩
    cases kind : node.kind with
    | foreign name => exact absurd kind (notForeign name)
    | _ => rfl

/-! ## Whole trees -/

/-- A tree of the pass stands for a tree, node by node in document order. -/
structure AnnotatesTree (node new : Node) : Prop where
  /-- The roots have the same kind. -/
  kind : new.kind = node.kind
  /-- Each node stands for a node. -/
  walk : List.Forall₂ Annotates node.walk new.walk

theorem forall₂_walk {members found : List Node} (each : List.Forall₂ AnnotatesTree members found) :
    List.Forall₂ Annotates (members.flatMap Node.walk) (found.flatMap Node.walk) := by
  induction each with
  | nil => exact List.Forall₂.nil
  | cons first _ inductionHypothesis =>
      rw [List.flatMap_cons, List.flatMap_cons]
      exact List.rel_append first.walk inductionHypothesis

theorem map_kind_eq {members found : List Node} (each : List.Forall₂ AnnotatesTree members found) :
    found.map Node.kind = members.map Node.kind := by
  induction each with
  | nil => rfl
  | cons first _ inductionHypothesis =>
      rw [List.map_cons, List.map_cons, first.kind, inductionHypothesis]

/-- The mark that an item opens holds no NUL. -/
theorem marksPlain_append {marks : List String} (opened : MarksPlain marks) {node : Node}
    (plain : node.NulFree) : MarksPlain (marks ++ (openedMark? node).toList) := by
  intro mark present
  rcases List.mem_append.mp present with before | last
  · exact opened mark before
  · have payload := plain.payload
    unfold openedMark? at last
    split at last
    · rename_i item _ carried
      rw [carried] at payload
      obtain rfl : mark = item.mark := by simpa using last
      exact payload.1
    · cases last

/-- Annotating keeps the open marks, and the new tree stands for the tree. -/
theorem annotate_keeps {fine : Prop} (node : Node) (place : Place) (state : State)
    (linked : place.linked = true)
    (numberable : fine → node.Everywhere Numberable)
    (parent : fine → ∀ parent, place.parent? = some parent → Numberable parent) :
    Meets (annotate node place) state (fun _ => ¬ fine) fun new after =>
      after.openMarks = state.openMarks ∧ AnnotatesTree node new ∧
        (MarksPlain state.openMarks → node.Everywhere Node.NulFree →
          new.Everywhere Node.NulFree) := by
  induction node using Node.induction_on_children generalizing place state with
  | step node below =>
      have siblings (members : List Node) (index : Nat) (state : State)
          (known : ∀ child ∈ members, child ∈ node.children) :
          Meets (annotateSiblings members node place index) state (fun _ => ¬ fine)
            fun found after =>
              after.openMarks = state.openMarks ∧
                List.Forall₂ AnnotatesTree members found ∧
                (MarksPlain state.openMarks →
                  (∀ child ∈ members, child.Everywhere Node.NulFree) →
                    ∀ child ∈ found, child.Everywhere Node.NulFree) := by
        induction members generalizing index state with
        | nil => exact Meets.give ⟨rfl, List.Forall₂.nil, fun _ _ _ absent => by cases absent⟩
        | cons child rest inductionHypothesis =>
            have member := known child (by simp)
            have inside : (place.enter node index).linked = true := by simp [Place.enter, linked]
            have inner : fine → ∀ parent, (place.enter node index).parent? = some parent →
                Numberable parent := by
              intro holds parent found
              rw [Place.parent?_enter linked] at found
              obtain rfl := Option.some.inj found
              exact (numberable holds).here
            refine Meets.bind (below child member _ state inside
              (fun holds => (numberable holds).below member) inner) ?_
            rintro first middle ⟨sameMarks, annotated, firstPlain⟩
            refine Meets.bind (inductionHypothesis (index + 1) middle fun other present =>
              known other (by simp [present])) ?_
            rintro others after ⟨marksAfter, annotatedAll, othersPlain⟩
            refine Meets.give ⟨marksAfter.trans sameMarks,
              List.Forall₂.cons annotated annotatedAll, fun opened plain new present => ?_⟩
            rcases List.mem_cons.mp present with rfl | later
            · exact firstPlain opened (plain child (by simp))
            · exact othersPlain (sameMarks ▸ opened)
                (fun other inOthers => plain other (by simp [inOthers])) new later
      obtain ⟨kind, payload, attributes, options, children⟩ := node
      rw [annotate]
      refine Meets.bind (visit_keeps _ place state (fun holds => (numberable holds).here) parent)
        fun numbered visited keeps => ?_
      dsimp only
      refine Meets.change_bind (Meets.bind (siblings children 0 _ fun _ present => present) ?_)
      rintro found after ⟨marks, annotatedAll, plainAll⟩
      refine Meets.change_bind (Meets.give ⟨?_, ⟨keeps.kind, ?_⟩, fun opened plain => ?_⟩)
      · -- What was opened for the children is taken back.
        rw [marks, keeps.openMarks]
        simp
      · rw [Node.walk_eq, Node.walk_eq]
        refine List.Forall₂.cons ⟨keeps.kind, keeps.known, keeps.attributes, keeps.options, ?_⟩
          (forall₂_walk annotatedAll)
        exact map_kind_eq annotatedAll
      · have here := keeps.nulFree opened plain.here
        have inside : MarksPlain (visited.openMarks ++ (openedMark? numbered).toList) :=
          marksPlain_append (keeps.openMarks ▸ opened) here
        exact Node.everywhere_iff.mpr ⟨⟨here.payload, here.attributes, here.options⟩,
          plainAll inside fun child present => plain.below present⟩

namespace AnnotatesTree

variable {node new : Node}

/-- What holds everywhere of a tree is carried over node by node. -/
theorem everywhere (tree : AnnotatesTree node new) {property carried : Node → Prop}
    (all : node.Everywhere property)
    (carry : ∀ old now, Annotates old now → property old → carried now) :
    new.Everywhere carried := by
  have along {olds news : List Node} (each : List.Forall₂ Annotates olds news)
      (holds : ∀ old ∈ olds, property old) : ∀ now ∈ news, carried now := by
    induction each with
    | nil => intro now absent; cases absent
    | cons first _ inductionHypothesis =>
        intro now present
        rcases List.mem_cons.mp present with rfl | later
        · exact carry _ _ first (holds _ (by simp))
        · exact inductionHypothesis (fun old inside => holds old (by simp [inside])) now later
  exact along tree.walk all

/-- The new tree has as many nodes of inline code. -/
theorem codeCount_eq (tree : AnnotatesTree node new) : new.codeCount = node.codeCount := by
  have along {olds news : List Node} (each : List.Forall₂ Annotates olds news) :
      news.countP (fun inner => inner.kind == .inlineCode) =
        olds.countP (fun inner => inner.kind == .inlineCode) := by
    induction each with
    | nil => rfl
    | cons first _ inductionHypothesis =>
        rw [List.countP_cons, List.countP_cons, inductionHypothesis, first.kind]
  exact along tree.walk

end AnnotatesTree

/-- The pass stops only where something cannot be numbered, and it keeps the tree. -/
theorem traverse_keeps {fine : Prop} (tree : Node)
    (numberable : fine → tree.Everywhere Numberable) :
    Meets (traverse tree) {} (fun _ => ¬ fine) fun numbered _ =>
      AnnotatesTree tree numbered.tree ∧
        (tree.Everywhere Node.NulFree → numbered.tree.Everywhere Node.NulFree) := by
  unfold traverse report
  refine Meets.change_bind (Meets.bind (annotate_keeps tree Place.root _ rfl numberable
    fun _ parent found => by cases found) ?_)
  rintro annotated after ⟨-, stands, plain⟩
  exact Meets.read (Meets.change_bind (Meets.give
    ⟨stands, plain fun _ absent => by cases absent⟩))

/-- The annotated tree stands for the tree, and strings without NUL stay so. -/
theorem resolve_keeps {tree : Node} {numbered : Numbered}
    (returned : (resolve tree).1 = .ok numbered) :
    AnnotatesTree tree numbered.tree ∧
      (tree.Everywhere Node.NulFree → numbered.tree.Everywhere Node.NulFree) := by
  have ended : outcome (traverse tree) {} = (.ok numbered, (outcome (traverse tree) {}).2) :=
    Prod.ext returned rfl
  exact (traverse_keeps tree False.elim).of_ok ended

/-- A tree whose levels and starts are integers is numbered. -/
theorem resolve_ok {tree : Node} (numberable : tree.Everywhere Numberable) :
    ∃ numbered, (resolve tree).1 = .ok numbered := by
  have meets := (traverse_keeps tree fun _ : True => numberable).mono
    (fun _ absurdly => absurdly trivial) fun _ _ kept => kept
  obtain ⟨numbered, after, returned, -⟩ := Meets.exists_ok meets
  exact ⟨numbered, congrArg Prod.fst returned⟩

end Numbering
end Galley
