import Galley.Proofs.Layout.Realization

/-!
# Conversions are faithful

Without debugging, the conversion of a block gives the text that the block means, and
the conversion of a span gives a thread of the strand that it means.  By induction on
the tree this holds whatever code is held before.
-/

namespace Galley
namespace Layout

open Text

variable {setting : Setting}

/-! ## Nodes -/

variable {bound : Nat}

/-- Without debugging, nothing is put around the text of a node. -/
theorem convert_of_bareText (undebugged : setting.options.debug = false) {node : Node}
    (known : node.kind.isKnown = true) (place : Place) (indent : Nat) :
    convert setting node place indent = bareText setting node place indent := by
  rw [convert_eq_bareText setting place indent known]
  simp [finish, undebugged]

/-- Code stands between its rules. -/
theorem convert_of_code (undebugged : setting.options.debug = false) {node : Node}
    (code : node.kind = .inlineCode ∨ node.kind = .codeblock) (place : Place) (indent : Nat) :
    convert setting node place indent =
      pure (verbatim setting.options.ruleWidth indent node.payload.content.toList) := by
  have known : node.kind.isKnown = true := by rcases code with code | code <;> rw [code] <;> rfl
  rw [convert_of_bareText undebugged known]
  obtain ⟨_, payload, attributes, options, children⟩ := node
  rcases code with code | code <;> cases code <;> rfl

/-- A conversion of a node realizes what the node means, wherever it stands. -/
structure Realized (bound : Nat) (setting : Setting) (node : Node) : Prop where
  /-- A span gives a thread of its strand. -/
  span : ∀ place indent before, before.held.length + node.codeCount ≤ bound →
    node.isBlock = false → node.kind ≠ .inlineCode →
    Realizes bound (convert setting node place indent) before (strandOf setting node place)
      fun text strand after => Grows before after node.codeCount ∧
        Threads after.held setting.options.ruleWidth indent text strand
  /-- A block gives its text, which holds no NUL if the rows that are met in it are
  plain. -/
  block : ∀ place indent before, before.held.length + node.codeCount ≤ bound →
    node.isBlock = true →
    Realizes bound (convert setting node place indent) before (layoutOf setting node place indent)
      fun text laid after => Grows before after node.codeCount ∧ text = laid ∧
        (Met (PlainRow setting.options) node → NulFree laid)

theorem Grows.room {before after : Workspace} {room more bound : Nat}
    (grows : Grows before after room) (few : before.held.length + (room + more) ≤ bound) :
    after.held.length + more ≤ bound := by
  obtain ⟨added, held, short, -⟩ := grows
  rw [held, List.length_append]
  omega

theorem Grows.threads {before after : Workspace} {room width indent : Nat} {thread : List Char}
    {strand : Strand} (grows : Grows before after room)
    (threads : Threads before.held width indent thread strand) :
    Threads after.held width indent thread strand := by
  obtain ⟨added, held, -, -⟩ := grows
  rw [held]
  exact threads.extend added

theorem spanPiece_realizes (undebugged : setting.options.debug = false) {child : Node}
    (plain : child.NulFree) (realized : Realized bound setting child) (span : child.isBlock = false)
    (place : Place) (indent : Nat) {before : Workspace}
    (few : before.held.length + child.codeCount ≤ bound) :
    Realizes bound (spanPiece setting child place indent) before (strandOf setting child place)
      fun text strand after => Grows before after child.codeCount ∧
        Threads after.held setting.options.ruleWidth indent text strand := by
  unfold spanPiece
  split
  · rename_i isCode
    have code : child.kind = .inlineCode := by simpa using isCode
    have content : NulFree child.payload.content.toList := Payload.nulFree_content plain.payload
    have one : 1 ≤ child.codeCount := by
      rw [Node.codeCount_eq, if_pos code]
      exact Nat.le_add_right _ _
    rw [convert_of_code undebugged (Or.inl code), pure_bind, strandOf_of_code code]
    unfold hold
    refine Meets.read (Meets.write (Meets.give ⟨_, rfl, ?_, Threads.held_next content⟩))
    exact ⟨[_], rfl, one, by simpa using nulFree_verbatim content _ _⟩
  · rename_i noCode
    exact realized.span place indent before few span (by simpa using noCode)

/-- A thread is laid out as its strand. -/
theorem flush_realizes (undebugged : setting.options.debug = false) {before : Workspace}
    {thread : List Char} {strand : Strand} {indent : Nat} (few : before.held.length ≤ bound)
    (threads : Threads before.held setting.options.ruleWidth indent thread strand) (wraps : Bool) :
    Realizes bound (flush setting indent wraps thread) before
      (.ok (strand.laid setting.options indent wraps)) fun text laid after =>
        after = before ∧ text = laid ∧ NulFree laid := by
  have laidOut := layoutSpan_threads undebugged threads wraps
  unfold flush
  refine Meets.read (Meets.lift (fun text returned => ?_) fun fault stopped => ?_)
  · rw [returned] at laidOut
    exact ⟨_, rfl, rfl, laidOut, threads.plain.laid _ _ _⟩
  · rw [stopped] at laidOut
    exact Or.inr ⟨Nat.lt_of_lt_of_le laidOut.1 few, laidOut.2⟩

/-! ## Siblings -/

/-- The children of a block are laid out as they mean. -/
theorem flow_realizes (undebugged : setting.options.debug = false) {siblings : List Node}
    (each : ∀ child ∈ siblings, child.NulFree ∧ Realized bound setting child)
    {calm : Prop} (rows : calm → ∀ child ∈ siblings, Met (PlainRow setting.options) child)
    (parent : Node) (place : Place) (index inner : Nat) (wraps : Bool) {before : Workspace}
    {thread : List Char} {waiting : Strand}
      (few : before.held.length + Node.codeCountBelow siblings ≤ bound)
    (threads : Threads before.held setting.options.ruleWidth inner thread waiting) :
    Realizes bound (flow setting siblings parent place index inner wraps thread) before
      (layoutBelow setting siblings parent place index inner wraps waiting) fun text laid after =>
        Grows before after (Node.codeCountBelow siblings) ∧ text = laid ∧
        (calm → NulFree laid) := by
  induction siblings generalizing index before thread waiting with
  | nil =>
      rw [flow, layoutBelow]
      refine (flush_realizes undebugged few threads wraps).imp ?_
      rintro text laid after ⟨rfl, same, plain⟩
      exact ⟨Grows.of_held rfl, same, fun _ => plain⟩
  | cons child rest inductionHypothesis =>
      obtain ⟨plain, realized⟩ := each child (by simp)
      have others := fun other present => each other (List.mem_cons_of_mem child present)
      have otherRows := fun still other present =>
        rows still other (List.mem_cons_of_mem child present)
      rw [Node.codeCountBelow_cons] at few ⊢
      cases placed : child.isBlock with
      | false =>
          rw [flow_cons_of_span placed, layoutBelow, if_neg (by simp [placed])]
          refine Realizes.bind (spanPiece_realizes undebugged plain realized placed _ inner
            (by omega)) ?_
          rintro piece strand middle ⟨grown, pieceThreads⟩
          refine (inductionHypothesis others otherRows (index + 1) (grown.room few)
            ((grown.threads threads).append pieceThreads)).imp ?_
          rintro text laid after ⟨grows, same, laidPlain⟩
          exact ⟨grown.trans grows, same, laidPlain⟩
      | true =>
          rw [flow_cons_of_block placed, layoutBelow, if_pos placed]
          refine Realizes.bind (realized.block _ inner before (by omega) placed) ?_
          rintro text _ middle ⟨grown, rfl, textPlain⟩
          have room := grown.room few
          -- The span before the block is laid out with the code that is held by then.
          have laidOut := flush_realizes undebugged (Nat.le_of_add_right_le room)
            (grown.threads threads) wraps
          refine laidOut.give_bind ?_
          rintro _ _ ⟨rfl, rfl, waitingPlain⟩
          refine Realizes.bind (inductionHypothesis others otherRows (index + 1) room
            (Threads.run nulFree_nil)) ?_
          rintro _ after final ⟨grows, rfl, afterPlain⟩
          refine Realizes.give ⟨grown.trans grows, rfl, fun still => ?_⟩
          exact nulFree_append.mpr ⟨nulFree_append.mpr
            ⟨waitingPlain, textPlain (rows still child (by simp))⟩, afterPlain still⟩

theorem inlinePiece_realizes (undebugged : setting.options.debug = false) {child : Node}
    (plain : child.NulFree) (realized : Realized bound setting child)
    (rows : setting.options.nesting = .flatten → Met (PlainRow setting.options) child)
    (parent : Node) (place : Place) (indent : Nat) {before : Workspace}
    (few : before.held.length + child.codeCount ≤ bound) :
    Realizes bound (inlinePiece setting child parent place indent) before
      (pieceOf setting child parent place) fun text strand after =>
        Grows before after child.codeCount ∧
          Threads after.held setting.options.ruleWidth indent text strand := by
  cases placed : child.isBlock with
  | false =>
      rw [inlinePiece_of_span placed, pieceOf, if_neg (by simp [placed])]
      exact spanPiece_realizes undebugged plain realized placed place indent few
  | true =>
      rw [inlinePiece_of_block placed, pieceOf, if_pos placed]
      cases nesting : setting.options.nesting with
      | reject => exact Realizes.stop
      | flatten =>
          refine Realizes.report_bind fun log => ?_
          refine Realizes.bind (realized.block place 0 _ few placed) ?_
          rintro text _ after ⟨grown, rfl, textPlain⟩
          have wordsPlain : NulFree (unwords (words text)) :=
            (nulFree_congr (respaced_unwords_words text).ink_eq).mp (textPlain (rows nesting))
          exact Realizes.give ⟨grown, Threads.run wordsPlain⟩

/-- The children of a span are joined to a thread of their strand. -/
theorem convertInline_realizes (undebugged : setting.options.debug = false) {siblings : List Node}
    (each : ∀ child ∈ siblings, child.NulFree ∧ Realized bound setting child)
    (rows : setting.options.nesting = .flatten →
      ∀ child ∈ siblings, Met (PlainRow setting.options) child)
    (parent : Node) (place : Place) (index indent : Nat) {before : Workspace}
    (few : before.held.length + Node.codeCountBelow siblings ≤ bound) :
    Realizes bound (convertInline setting siblings parent place index indent) before
      (strandBelow setting siblings parent place index) fun text strand after =>
        Grows before after (Node.codeCountBelow siblings) ∧
          Threads after.held setting.options.ruleWidth indent text strand := by
  induction siblings generalizing index before with
  | nil => exact Realizes.give ⟨Grows.of_held rfl, Threads.run nulFree_nil⟩
  | cons child rest inductionHypothesis =>
      obtain ⟨plain, realized⟩ := each child (by simp)
      rw [Node.codeCountBelow_cons] at few ⊢
      rw [convertInline_cons, strandBelow_cons]
      refine Realizes.bind (inlinePiece_realizes undebugged plain realized
        (fun lax => rows lax child (by simp)) parent _ indent (by omega)) ?_
      rintro piece strand middle ⟨grown, threads⟩
      refine Realizes.bind (inductionHypothesis
        (fun other present => each other (List.mem_cons_of_mem child present))
        (fun lax other present => rows lax other (List.mem_cons_of_mem child present)) (index + 1)
        (grown.room few)) ?_
      rintro others strands after ⟨grows, otherThreads⟩
      exact Realizes.give ⟨grown.trans grows, (grows.threads threads).append otherThreads⟩

/-- Blocks in a row are converted to cells. -/
theorem convertCells_realizes {siblings : List Node}
    (each : ∀ child ∈ siblings, child.isBlock = true ∧ Realized bound setting child)
    {calm : Prop} (rows : calm → ∀ child ∈ siblings, Met (PlainRow setting.options) child)
    (parent : Node) (place : Place) (index : Nat) {before : Workspace}
    (few : before.held.length + Node.codeCountBelow siblings ≤ bound) :
    Realizes bound (convertCells setting siblings parent place index) before
      (cellsBelow setting siblings parent place index) fun texts cells after =>
        Grows before after (Node.codeCountBelow siblings) ∧ texts = cells ∧
          (calm → ∀ cell ∈ cells, NulFree cell) := by
  induction siblings generalizing index before with
  | nil => exact Realizes.give ⟨Grows.of_held rfl, rfl, by simp⟩
  | cons child rest inductionHypothesis =>
      obtain ⟨placed, realized⟩ := each child (by simp)
      rw [Node.codeCountBelow_cons] at few ⊢
      rw [convertCells, cellsBelow]
      refine Realizes.bind (realized.block _ 0 before (by omega) placed) ?_
      rintro text _ middle ⟨grown, rfl, textPlain⟩
      refine Realizes.bind (inductionHypothesis
        (fun other present => each other (List.mem_cons_of_mem child present))
        (fun still other present => rows still other (List.mem_cons_of_mem child present))
        (index + 1)
        (grown.room few)) ?_
      rintro _ cells after ⟨grows, rfl, cellsPlain⟩
      refine Realizes.give ⟨grown.trans grows, rfl, fun still => ?_⟩
      have own := textPlain (rows still child (by simp))
      exact List.forall_mem_cons.mpr ⟨nulFree_cellContent own, cellsPlain still⟩

/-! ## Whole trees -/

/-- Conversion goes through a node with a frame. -/
theorem isWalked_of_frame {node : Node} {frame : Frame} {indent : Nat}
    (framed : frame? setting.options node indent = some frame) : isWalked node.kind = true := by
  rcases frame_cases framed with ⟨extra, shaped, -⟩ | ⟨bullet, shaped, -⟩ | ⟨shaped, -⟩
  · exact isWalked_of_shape shaped (by simp)
  · exact isWalked_of_shape shaped (by simp)
  · exact isWalked_of_shape shaped (by simp)

/-- What is put around a body holds no NUL. -/
theorem nulFree_close {node : Node} (plain : node.NulFree) {frame : Frame} {indent : Nat}
    (framed : frame? setting.options node indent = some frame) {body : List Char}
    (bodyPlain : NulFree body) : NulFree (frame.close body) := by
  rcases frame_cases framed with ⟨extra, -, rfl⟩ | ⟨bullet, shaped, rfl⟩ | ⟨-, rfl⟩
  · exact nulFree_region false bodyPlain
  · exact nulFree_region false (nulFree_hang (nulFree_of_hanging plain shaped) bodyPlain _ _ _)
  · exact nulFree_quote setting.options false indent bodyPlain

theorem join_realizes {node : Node} (plain : node.NulFree) {held : List (List Char)}
    {width indent : Nat} {thread : List Char} {strand : Strand}
    (threads : Threads held width indent thread strand) :
    Threads held width indent
      (joinLines (if node.children.isEmpty then node.payload.content.toList else thread))
      (if node.children.isEmpty then .run node.payload.content.toList else strand).join := by
  refine Threads.join ?_
  split
  · exact Threads.run (Payload.nulFree_content plain.payload)
  · exact threads

/-- The text of a span is a thread of its strand. -/
theorem bareText_realizes_strand (undebugged : setting.options.debug = false) {node : Node}
    (settled : Settled setting node) (plainly : FlattensPlainly setting.options node)
    (known : node.kind.isKnown = true) (plainBelow : ∀ child ∈ node.children, child.NulFree)
    (each : isWalked node.kind = true →
      ∀ child ∈ node.children, child.NulFree ∧ Realized bound setting child)
    (span : node.isBlock = false) (noCode : node.kind ≠ .inlineCode) (place : Place) (indent : Nat)
    {before : Workspace} (few : before.held.length + node.codeCount ≤ bound) :
    Realizes bound (bareText setting node place indent) before (strandOf setting node place)
      fun text strand after => Grows before after node.codeCount ∧
        Threads after.held setting.options.ruleWidth indent text strand := by
  have plain := settled.nulFree
  have room := Nat.le_trans (Nat.add_le_add_left (codeCountBelow_le node) _) few
  rcases shape_of_span setting.options span with inline | leaf
  · rw [strandOf_of_inline inline]
    have formatting := isFormatting_of_inline inline
    have content := convertInline_realizes undebugged (each (isWalked_of_formatting formatting))
      (fun lax child present => plainly.plainRows formatting lax present) node place 0 indent room
    unfold bareText
    rcases inline with inline | math
    · rw [inline]
      refine Realizes.bind content ?_
      rintro thread strand after ⟨grows, threads⟩
      exact Realizes.give ⟨grows.mono (codeCountBelow_le node), join_realizes plain threads⟩
    · rw [math]
      simp only [span, Bool.false_eq_true, if_false]
      refine Realizes.bind content ?_
      rintro thread strand after ⟨grows, threads⟩
      exact Realizes.give ⟨grows.mono (codeCountBelow_le node), join_realizes plain threads⟩
  · have leafOnly : bareText setting node place indent =
        leafText setting node place 0 >>= pure := by
      rw [bareText, leaf, bind_pure, leafText_of_span span noCode]
    rw [strandOf_of_leaf known noCode leaf, leafOnly]
    refine Realizes.bind (leafText_realizes bound settled plainBelow place 0 before) ?_
    rintro text _ after ⟨kept, rfl, textPlain⟩
    exact Realizes.give ⟨Grows.of_held kept, Threads.run textPlain⟩

/-- The text of a block is what the block means. -/
theorem bareText_realizes_layout (undebugged : setting.options.debug = false) {node : Node}
    (settled : Settled setting node) (plainly : FlattensPlainly setting.options node)
    (known : node.kind.isKnown = true) (plainBelow : ∀ child ∈ node.children, child.NulFree)
    (each : isWalked node.kind = true →
      ∀ child ∈ node.children, child.NulFree ∧ Realized bound setting child)
    (block : node.isBlock = true) (place : Place) (indent : Nat)
    {before : Workspace} (few : before.held.length + node.codeCount ≤ bound) :
    Realizes bound (bareText setting node place indent) before (layoutOf setting node place indent)
      fun text laid after => Grows before after node.codeCount ∧ text = laid ∧
        (Met (PlainRow setting.options) node → NulFree laid) := by
  have plain := settled.nulFree
  have enough := codeCountBelow_le node
  have room := Nat.le_trans (Nat.add_le_add_left enough _) few
  have rows (walked : isWalked node.kind = true) (calm : Met (PlainRow setting.options) node)
      (child : Node) (present : child ∈ node.children) : Met (PlainRow setting.options) child :=
    calm.below walked present
  rcases block_cases setting.options block indent with ⟨frame, framed⟩ | row | math | leaf
  · have walked := isWalked_of_frame framed
    rw [bareText_of_frame undebugged framed, layoutOf_of_frame known framed]
    refine Realizes.bind (flow_realizes undebugged (each walked)
      (rows walked) node place 0 frame.inner
      (wrapsAt node place) room (Threads.run nulFree_nil)) ?_
    rintro body _ after ⟨grows, rfl, bodyPlain⟩
    exact Realizes.give ⟨grows.mono enough, rfl,
      fun still => nulFree_close plain framed (bodyPlain still)⟩
  · have walked := isWalked_of_shape row (by simp)
    have kind := kind_of_row row
    have cells := settled.cells kind
    rw [layoutOf_of_row row, bareText, row]
    refine Realizes.bind (convertCells_realizes
      (fun child present => ⟨cells child present, (each walked child present).2⟩) (rows walked) node
      place 0 room) ?_
    rintro texts _ after ⟨grows, rfl, textsPlain⟩
    cases separated : setting.options.cellSeparator with
    | none => exact Realizes.stop
    | some separator =>
        refine Realizes.give ⟨grows.mono enough, rfl, fun still => ?_⟩
        exact nulFree_rowLine (still.here kind separator separated) (textsPlain still) indent
  · have formatting := isFormatting_of_inline (Or.inr math)
    rw [layoutOf_of_math (kind_of_math math), bareText, math]
    simp only [block, if_true]
    refine Realizes.bind (convertInline_realizes undebugged
      (each (isWalked_of_formatting formatting))
      (fun lax child present => plainly.plainRows formatting lax present) node place 0
      indent room) ?_
    rintro thread strand after ⟨grows, threads⟩
    have last : after.held.length + 0 ≤ bound := grows.room room
    refine (flush_realizes undebugged last (join_realizes plain threads) false).imp ?_
    rintro text laid _ ⟨rfl, same, laidPlain⟩
    exact ⟨grows.mono enough, same, fun _ => laidPlain⟩
  · have leafOnly : bareText setting node place indent = leafText setting node place indent := by
      rw [bareText, leaf]
    rw [layoutOf_of_leaf known leaf, leafOnly]
    refine (leafText_realizes bound settled plainBelow place indent before).imp ?_
    rintro text laid after ⟨kept, same, laidPlain⟩
    exact ⟨Grows.of_held kept, same, fun _ => laidPlain⟩

/-- A kind that is not known is refused by conversions and meanings. -/
theorem realized_of_unknown {node : Node} (unknown : node.kind.isKnown = false) :
    Realized bound setting node := by
  obtain ⟨kind, payload, attributes, options, children⟩ := node
  have unknown : kind.isKnown = false := unknown
  constructor
  · intro place indent before _ _ _
    rw [convert, strandOf]
    simp only [unknown, Bool.not_false, if_true]
    exact Realizes.stop
  · intro place indent before _ _
    rw [convert, layoutOf]
    simp only [unknown, Bool.not_false, if_true]
    exact Realizes.stop

/-- By induction on the tree, a conversion of a node realizes what the node means. -/
theorem convert_realizes (undebugged : setting.options.debug = false) (node : Node)
    (settled : node.Everywhere (Settled setting)) (plainly : FlattensPlainly setting.options node) :
    Realized bound setting node := by
  induction node using Node.induction_on_children with
  | step node below =>
      have plainBelow (child : Node) (present : child ∈ node.children) : child.NulFree :=
        (settled.below present).here.nulFree
      have each (walked : isWalked node.kind = true) (child : Node)
          (present : child ∈ node.children) :
          child.NulFree ∧ Realized bound setting child :=
        ⟨plainBelow child present,
          below child present (settled.below present) (plainly.below walked present)⟩
      cases known : node.kind.isKnown with
      | false => exact realized_of_unknown known
      | true =>
          constructor
          · intro place indent before few span noCode
            rw [convert_of_bareText undebugged known]
            exact bareText_realizes_strand undebugged settled.here plainly known
              plainBelow each span
              noCode place indent few
          · intro place indent before few block
            rw [convert_of_bareText undebugged known]
            exact bareText_realizes_layout undebugged settled.here plainly known
              plainBelow each block
              place indent few

/-- A block is converted to what it means, whatever code is held before, unless so much
code is held that a numeral is too long. -/
theorem convert_eq_layoutOf_or_overfull (undebugged : setting.options.debug = false) {node : Node}
    (settled : node.Everywhere (Settled setting)) (plainly : FlattensPlainly setting.options node)
    (block : node.isBlock = true) (place : Place) (indent : Nat) (before : Workspace) :
    (outcome (convert setting node place indent) before).1 = layoutOf setting node place indent ∨
      ∃ fault, (outcome (convert setting node place indent) before).1 = .error fault ∧
        Overfull (before.held.length + node.codeCount) fault := by
  have realized := (convert_realizes undebugged node settled plainly).block place indent before
    (Nat.le_refl _) block
  unfold Realizes Meets at realized
  split at realized
  · rename_i text after returned
    obtain ⟨laid, meant, -, rfl, -⟩ := realized
    rw [returned, meant]
    exact Or.inl rfl
  · rename_i fault after stopped
    rw [stopped]
    exact realized.imp Eq.symm fun overfull => ⟨fault, rfl, overfull⟩

/-- So the text that a conversion gives is what the block means. -/
theorem layoutOf_of_convert (undebugged : setting.options.debug = false) {node : Node}
    (settled : node.Everywhere (Settled setting)) (plainly : FlattensPlainly setting.options node)
    (block : node.isBlock = true) {place : Place} {indent : Nat} {before after : Workspace}
    {text : List Char}
    (returned : outcome (convert setting node place indent) before = (.ok text, after)) :
    layoutOf setting node place indent = .ok text := by
  have result := convert_eq_layoutOf_or_overfull undebugged settled plainly block place indent
    before
  rw [returned] at result
  rcases result with meant | ⟨fault, stopped, -⟩
  · exact meant.symm
  · cases stopped

end Layout
end Galley
