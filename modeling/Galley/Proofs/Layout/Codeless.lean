import Galley.Proofs.Layout.Faithful

/-!
# Conversions without inline code

Where a tree has no inline code, nothing is ever held, and what looks like a placeholder
stops the conversion.  So whatever its strings hold, a conversion that returns gives
what the tree is laid out to.
-/

namespace Galley
namespace Layout

open Text

/-- Nothing is held in the end, and the result stands for what is meant. -/
def Gives (action : Render α) (before : Workspace) (meaning : Except Fault β) (standing : α → β) :
    Prop :=
  Meets action before (fun _ => True) fun value after =>
    after.held = [] ∧ meaning = .ok (standing value)

namespace Gives

variable {α β γ δ : Type} {action : Render α} {before : Workspace} {meaning : Except Fault β}
  {standing : α → β} {standing' : γ → δ}

/-- Sequences give what sequences mean, part by part. -/
theorem bind {next : α → Render γ} {next' : β → Except Fault δ}
    (first : Gives action before meaning standing)
    (second : ∀ value after, after.held = [] →
      Gives (next value) after (next' (standing value)) standing') :
    Gives (action >>= next) before (meaning >>= next') standing' := by
  refine Meets.bind first ?_
  rintro value after ⟨none, rfl⟩
  exact second value after none

theorem give {value : α} (none : before.held = []) :
    Gives (pure value) before (pure (standing value)) standing :=
  Meets.give ⟨none, rfl⟩

theorem stop {fault : Fault} : Gives (throw fault : Render α) before meaning standing :=
  Meets.stop trivial

/-- Events are no part of the meaning. -/
theorem report_bind {event : LogEvent} {next : Unit → Render α}
    (rest : ∀ log, Gives (next ()) { before with log := log } meaning standing) :
    Gives (report event >>= next) before meaning standing :=
  Meets.change_bind (rest _)

end Gives

/-! ## Regions -/

/-- Without placeholders a text is a single piece. -/
theorem eq_of_splitHeld {text first : List Char} (whole : splitHeld text = (first, [])) :
    text = first := by
  unfold splitHeld at whole
  induction text generalizing first with
  | nil =>
      cases whole
      rfl
  | cons character rest inductionHypothesis =>
      rw [splitHeldAfter] at whole
      split at whole
      · cases whole
      · rcases found : splitHeldAfter 0 rest with ⟨piece, others⟩
        rw [found] at whole
        obtain ⟨rfl, rfl⟩ := Prod.mk.inj whole
        rw [inductionHypothesis found]

variable {setting : Setting}

/-- Where nothing is held, span text is laid out as a single run. -/
theorem eq_of_layoutSpan {options : Options} (undebugged : options.debug = false) {indent : Nat}
    {wraps : Bool} {text laid : List Char}
    (returned : layoutSpan options [] indent wraps text = .ok laid) :
    laid = Strand.fillRun options indent wraps text := by
  unfold layoutSpan at returned
  rcases found : splitHeld text with ⟨first, others⟩
  rw [found] at returned
  cases others with
  | nil =>
      obtain rfl := eq_of_splitHeld found
      obtain rfl := Except.ok.inj returned
      have pieced : (Assembly.addPiece options indent wraps {} text).markers = [] ∧
          (Assembly.addPiece options indent wraps {} text).chunks.flatten =
            Strand.fillRun options indent wraps text :=
        Assembly.addPiece_of_bare undebugged rfl wraps text
      simpa [Assembly.text, pieced.1] using pieced.2
  | cons other rest =>
      obtain ⟨digits, piece⟩ := other
      obtain ⟨assembly, assembled, -⟩ := exists_of_bind_eq_ok returned
      rw [assemble] at assembled
      obtain ⟨code, held, -⟩ := exists_of_bind_eq_ok assembled
      unfold heldAt at held
      split at held <;> cases held

/-- Span text is laid out as a single run. -/
theorem flush_gives (undebugged : setting.options.debug = false) {before : Workspace}
    (none : before.held = []) (indent : Nat) (wraps : Bool) (text : List Char) :
    Gives (flush setting indent wraps text) before
      (.ok ((Strand.run text).laid setting.options indent wraps)) id := by
  unfold flush
  refine Meets.read (Meets.lift (fun laid returned => ⟨none, ?_⟩) fun _ _ => trivial)
  rw [none] at returned
  exact congrArg Except.ok (eq_of_layoutSpan undebugged returned).symm

/-- A leaf has its text, and nothing is held by it. -/
theorem leafText_gives {before : Workspace} (none : before.held = []) (node : Node) (place : Place)
    (indent : Nat) :
    Gives (leafText setting node place indent) before
      (leafMeaning setting node place indent) id := by
  have quiet := Quiet.of_terse (Terse.leafText setting node place indent)
  have kept := quiet.held before
  unfold Gives Meets leafMeaning
  rw [← quiet.result before {}]
  rcases found : outcome (leafText setting node place indent) before with ⟨fault | text, after⟩
  · trivial
  · rw [found] at kept
    exact ⟨kept.trans none, rfl⟩

/-! ## Nodes -/

/-- Nothing of a node is held, and a row has nothing but blocks. -/
structure Uncoded (node : Node) : Prop where
  /-- The node is no inline code. -/
  noCode : node.kind ≠ .inlineCode
  /-- The cells of a row are blocks. -/
  cells : node.kind = .tableRow → ∀ child ∈ node.children, child.isBlock = true

instance (node : Node) : Decidable (Uncoded node) :=
  decidable_of_iff (node.kind ≠ .inlineCode ∧
      (node.kind = .tableRow → ∀ child ∈ node.children, child.isBlock = true))
    ⟨fun ⟨noCode, cells⟩ => ⟨noCode, cells⟩, fun uncoded => ⟨uncoded.noCode, uncoded.cells⟩⟩

/-- The conversion of a node gives what the node means, wherever it stands. -/
structure Given (setting : Setting) (node : Node) : Prop where
  /-- A span gives a run. -/
  span : ∀ place indent before, before.held = [] → node.isBlock = false →
    Gives (convert setting node place indent) before (strandOf setting node place) Strand.run
  /-- A block gives its text. -/
  block : ∀ place indent before, before.held = [] → node.isBlock = true →
    Gives (convert setting node place indent) before (layoutOf setting node place indent) id

theorem spanPiece_gives {child : Node} (noCode : child.kind ≠ .inlineCode)
    (given : Given setting child) (span : child.isBlock = false) (place : Place) (indent : Nat)
    {before : Workspace} (none : before.held = []) :
    Gives (spanPiece setting child place indent) before
      (strandOf setting child place) Strand.run := by
  have direct : spanPiece setting child place indent = convert setting child place indent := by
    simp [spanPiece, noCode]
  rw [direct]
  exact given.span place indent before none span

/-! ## Siblings -/

/-- The children of a block are laid out as they mean. -/
theorem flow_gives (undebugged : setting.options.debug = false) {siblings : List Node}
    (each : ∀ child ∈ siblings, child.kind ≠ .inlineCode ∧ Given setting child) (parent : Node)
    (place : Place) (index inner : Nat) (wraps : Bool) {before : Workspace} (waiting : List Char)
    (none : before.held = []) :
    Gives (flow setting siblings parent place index inner wraps waiting) before
      (layoutBelow setting siblings parent place index inner wraps (.run waiting)) id := by
  induction siblings generalizing index before waiting with
  | nil =>
      rw [flow, layoutBelow]
      exact flush_gives undebugged none inner wraps waiting
  | cons child rest inductionHypothesis =>
      obtain ⟨noCode, given⟩ := each child (by simp)
      have others := fun other present => each other (List.mem_cons_of_mem child present)
      cases placed : child.isBlock with
      | false =>
          rw [flow_cons_of_span placed, layoutBelow, if_neg (by simp [placed])]
          exact Gives.bind (spanPiece_gives noCode given placed _ inner none)
            fun piece after kept =>
            inductionHypothesis others (index + 1) (waiting ++ piece) kept
      | true =>
          rw [flow_cons_of_block placed, layoutBelow, if_pos placed]
          refine Gives.bind (given.block _ inner before none placed) fun text middle kept => ?_
          refine Meets.bind (flush_gives undebugged kept inner wraps waiting) ?_
          rintro laid later ⟨still, same⟩
          obtain rfl := Except.ok.inj same
          refine Gives.bind (inductionHypothesis others (index + 1) [] still)
            fun rested final held => ?_
          exact Gives.give held

theorem inlinePiece_gives {child : Node} (noCode : child.kind ≠ .inlineCode)
    (given : Given setting child) (parent : Node) (place : Place) (indent : Nat)
    {before : Workspace} (none : before.held = []) :
    Gives (inlinePiece setting child parent place indent) before
      (pieceOf setting child parent place) Strand.run := by
  cases placed : child.isBlock with
  | false =>
      rw [inlinePiece_of_span placed, pieceOf, if_neg (by simp [placed])]
      exact spanPiece_gives noCode given placed place indent none
  | true =>
      rw [inlinePiece_of_block placed, pieceOf, if_pos placed]
      cases setting.options.nesting with
      | reject => exact Gives.stop
      | flatten =>
          refine Gives.report_bind fun log => ?_
          exact Gives.bind (given.block place 0 _ none placed) fun text after kept =>
            Gives.give kept

/-- The children of a span are joined to a run. -/
theorem convertInline_gives {siblings : List Node}
    (each : ∀ child ∈ siblings, child.kind ≠ .inlineCode ∧ Given setting child) (parent : Node)
    (place : Place) (index indent : Nat) {before : Workspace} (none : before.held = []) :
    Gives (convertInline setting siblings parent place index indent) before
      (strandBelow setting siblings parent place index) Strand.run := by
  induction siblings generalizing index before with
  | nil => exact Gives.give none
  | cons child rest inductionHypothesis =>
      obtain ⟨noCode, given⟩ := each child (by simp)
      rw [convertInline_cons, strandBelow_cons]
      refine Gives.bind (inlinePiece_gives noCode given parent _ indent none)
        fun piece middle kept => ?_
      refine Gives.bind (inductionHypothesis
        (fun other present => each other (List.mem_cons_of_mem child present)) (index + 1) kept)
        fun others after held => ?_
      exact Gives.give held

/-- Blocks in a row are converted to cells. -/
theorem convertCells_gives {siblings : List Node}
    (each : ∀ child ∈ siblings, child.isBlock = true ∧ Given setting child) (parent : Node)
    (place : Place) (index : Nat) {before : Workspace} (none : before.held = []) :
    Gives (convertCells setting siblings parent place index) before
      (cellsBelow setting siblings parent place index) id := by
  induction siblings generalizing index before with
  | nil => exact Meets.give ⟨none, rfl⟩
  | cons child rest inductionHypothesis =>
      obtain ⟨placed, given⟩ := each child (by simp)
      rw [convertCells, cellsBelow]
      refine Gives.bind (given.block _ 0 before none placed) fun text middle kept => ?_
      refine Gives.bind (inductionHypothesis
        (fun other present => each other (List.mem_cons_of_mem child present)) (index + 1) kept)
        fun others after held => ?_
      exact Gives.give held

/-! ## Whole trees -/

/-- What a span shows is joined as a run. -/
theorem join_run (node : Node) (text : List Char) :
    (if node.children.isEmpty then Strand.run node.payload.content.toList else .run text).join =
      .run (joinLines (if node.children.isEmpty then node.payload.content.toList else text)) := by
  split <;> rfl

/-- The text of a span is the run that the span means. -/
theorem bareText_gives_strand {node : Node} (uncoded : Uncoded node)
    (known : node.kind.isKnown = true)
    (each : ∀ child ∈ node.children, child.kind ≠ .inlineCode ∧ Given setting child)
    (span : node.isBlock = false) (place : Place) (indent : Nat) {before : Workspace}
    (none : before.held = []) :
    Gives (bareText setting node place indent) before (strandOf setting node place) Strand.run := by
  rcases shape_of_span setting.options span with inline | leaf
  · rw [strandOf_of_inline inline]
    have content := convertInline_gives each node place 0 indent none
    unfold bareText
    rcases inline with inline | math
    · rw [inline]
      refine Gives.bind content fun text after kept => ?_
      rw [join_run]
      exact Gives.give kept
    · rw [math]
      simp only [span, Bool.false_eq_true, if_false]
      refine Gives.bind content fun text after kept => ?_
      rw [join_run]
      exact Gives.give kept
  · have leafOnly : bareText setting node place indent =
        leafText setting node place 0 >>= pure := by
      rw [bareText, leaf, bind_pure, leafText_of_span span uncoded.noCode]
    rw [strandOf_of_leaf known uncoded.noCode leaf, leafOnly]
    exact Gives.bind (leafText_gives none node place 0) fun text after kept => Gives.give kept

/-- The text of a block is what the block means. -/
theorem bareText_gives_layout (undebugged : setting.options.debug = false) {node : Node}
    (uncoded : Uncoded node) (known : node.kind.isKnown = true)
    (each : ∀ child ∈ node.children, child.kind ≠ .inlineCode ∧ Given setting child)
    (block : node.isBlock = true) (place : Place) (indent : Nat) {before : Workspace}
    (none : before.held = []) :
    Gives (bareText setting node place indent) before (layoutOf setting node place indent) id := by
  rcases block_cases setting.options block indent with ⟨frame, framed⟩ | row | math | leaf
  · rw [bareText_of_frame undebugged framed, layoutOf_of_frame known framed]
    exact Gives.bind (flow_gives undebugged each node place 0 frame.inner
      (wrapsAt node place) [] none)
      fun body after kept => Gives.give kept
  · have cells := uncoded.cells (kind_of_row row)
    rw [layoutOf_of_row row, bareText, row]
    refine Gives.bind (convertCells_gives
      (fun child present => ⟨cells child present, (each child present).2⟩) node place 0 none)
      fun texts after kept => ?_
    cases setting.options.cellSeparator with
    | none => exact Gives.stop
    | some separator => exact Gives.give kept
  · rw [layoutOf_of_math (kind_of_math math), bareText, math]
    simp only [block, if_true]
    refine Gives.bind (convertInline_gives each node place 0 indent none) fun text after kept => ?_
    rw [join_run]
    exact flush_gives undebugged kept indent false _
  · have leafOnly : bareText setting node place indent = leafText setting node place indent := by
      rw [bareText, leaf]
    rw [layoutOf_of_leaf known leaf, leafOnly]
    exact leafText_gives none node place indent

/-- By induction on the tree, whatever the strings of a tree without inline code hold, a
conversion that returns gives what the node means. -/
theorem convert_gives (undebugged : setting.options.debug = false) (node : Node)
    (uncoded : node.Everywhere Uncoded) : Given setting node := by
  induction node using Node.induction_on_children with
  | step node below =>
      have each (child : Node) (present : child ∈ node.children) :
          child.kind ≠ .inlineCode ∧ Given setting child :=
        ⟨(uncoded.below present).here.noCode, below child present (uncoded.below present)⟩
      cases known : node.kind.isKnown with
      | false =>
          constructor <;>
          · intro place indent before _ _
            rw [convert_of_unknown setting place indent known]
            exact Gives.stop
      | true =>
          constructor
          · intro place indent before none span
            rw [convert_of_bareText undebugged known]
            exact bareText_gives_strand uncoded.here known each span place indent none
          · intro place indent before none block
            rw [convert_of_bareText undebugged known]
            exact bareText_gives_layout undebugged uncoded.here known each block place indent none

end Layout
end Galley
