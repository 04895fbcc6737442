import Galley.Proofs.Layout.Shapes
import Galley.Proofs.Layout.Strands

/-!
# What a tree is laid out to

The layout of a tree without debug tags, as a function of the tree alone: span text is a
strand, which has its code in place, and nothing is held.  Only the faults of
conversions are kept, not what they report.
-/

namespace Galley
namespace Layout

open Text

/-- The text of a leaf, whatever code is held. -/
def leafMeaning (setting : Setting) (node : Node) (place : Place) (indent : Nat) :
    Except Fault (List Char) :=
  (outcome (leafText setting node place indent) {}).1

/-- What is made of the body of a block at an indentation, and the indentation of the
body. -/
structure Frame where
  /-- The indentation of the body. -/
  inner : Nat
  /-- The text of the block. -/
  close : List Char → List Char

namespace Frame

/-- Lines at an extra indentation. -/
def region (extra indent : Nat) : Frame where
  inner := indent + extra
  close body := trimTail false body ++ ['\n']

/-- Lines that hang under a bullet. -/
def hanging (bullet : List Char) (indent : Nat) : Frame where
  inner := indent + Columns.ofText bullet + 1
  close body :=
    trimTail false (hang false bullet indent (indent + Columns.ofText bullet + 1) body) ++ ['\n']

/-- Lines between two rules. -/
def quote (options : Options) (indent : Nat) : Frame where
  inner := indent + options.quoteIndent
  close body :=
    let bar := rule options.ruleWidth indent
    bar ++ '\n' :: trimTail false body ++ '\n' :: bar ++ ['\n']

end Frame

/-- The frame of a block that lays out its children: the tail of the body is trimmed,
and a bullet or rules are put around it. -/
def frame? (options : Options) (node : Node) (indent : Nat) : Option Frame :=
  match shape options node with
  | .region extra => some (.region extra indent)
  | .hanging bullet => some (.hanging bullet indent)
  | .quote => some (.quote options indent)
  | _ => none

mutual

/-- The strand of a span. -/
def strandOf (setting : Setting) (node : Node) (place : Place) : Except Fault Strand :=
  match node with
  | ⟨kind, payload, attributes, options, children⟩ => do
      let bare : Node := ⟨kind, payload, attributes, options, children⟩
      if !kind.isKnown then throw (.failure (.noConversion (shownKind kind)))
      if kind == .inlineCode then return .ofCode payload.content.toList
      match shape setting.options bare with
      | .inline | .math => do
          let content ← strandBelow setting children bare place 0
          return (if children.isEmpty then .run payload.content.toList else content).join
      | _ => do
          let text ← leafMeaning setting bare place 0
          return .run text
termination_by structural node

/-- The strand of the children of a span.  A block among them is flattened to its words
or refused. -/
def strandBelow (setting : Setting) (siblings : List Node) (parent : Node) (place : Place)
    (index : Nat) : Except Fault Strand :=
  match siblings with
  | [] => .ok (.run [])
  | child :: rest => do
      let inside := place.enter parent index
      let piece ←
        if child.isBlock then
          match setting.options.nesting with
          | .reject => throw (.failure (.blockInSpan parent.kind.name child.kind.name))
          | .flatten => do
              let text ← layoutOf setting child inside 0
              pure (.run (unwords (words text)))
        else strandOf setting child inside
      let others ← strandBelow setting rest parent place (index + 1)
      return piece.append others
termination_by structural siblings

/-- The text of a block at an indentation. -/
def layoutOf (setting : Setting) (node : Node) (place : Place) (indent : Nat) :
    Except Fault (List Char) :=
  match node with
  | ⟨kind, payload, attributes, options, children⟩ => do
      let bare : Node := ⟨kind, payload, attributes, options, children⟩
      if !kind.isKnown then throw (.failure (.noConversion (shownKind kind)))
      match frame? setting.options bare indent with
      | some frame => do
          let body ← layoutBelow setting children bare place 0 frame.inner (wrapsAt bare place)
            (.run [])
          return frame.close body
      | none =>
          match shape setting.options bare with
          | .row => do
              let cells ← cellsBelow setting children bare place 0
              match setting.options.cellSeparator with
              | some separator => return rowLine separator.toList indent cells
              | none => throw .noField
          | .inline | .math => do
              let content ← strandBelow setting children bare place 0
              let line := if children.isEmpty then .run payload.content.toList else content
              return line.join.laid setting.options indent false
          | _ => leafMeaning setting bare place indent
termination_by structural node

/-- The text of the children of a block, behind the strand of spans that wait to be laid
out. -/
def layoutBelow (setting : Setting) (siblings : List Node) (parent : Node) (place : Place)
    (index : Nat) (inner : Nat) (wraps : Bool) (waiting : Strand) : Except Fault (List Char) :=
  match siblings with
  | [] => .ok (waiting.laid setting.options inner wraps)
  | child :: rest =>
      if child.isBlock then do
        let text ← layoutOf setting child (place.enter parent index) inner
        let after ← layoutBelow setting rest parent place (index + 1) inner wraps (.run [])
        return waiting.laid setting.options inner wraps ++ text ++ after
      else do
        let strand ← strandOf setting child (place.enter parent index)
        layoutBelow setting rest parent place (index + 1) inner wraps (waiting.append strand)
termination_by structural siblings

/-- The cells of a row. -/
def cellsBelow (setting : Setting) (siblings : List Node) (parent : Node) (place : Place)
    (index : Nat) : Except Fault (List (List Char)) :=
  match siblings with
  | [] => .ok []
  | cell :: rest => do
      let text ← layoutOf setting cell (place.enter parent index) 0
      let others ← cellsBelow setting rest parent place (index + 1)
      return cellContent text :: others
termination_by structural siblings

end

variable {setting : Setting}

/-! ## Frames -/

/-- The frame of a node is that of its shape. -/
theorem frame_cases {options : Options} {node : Node} {indent : Nat} {frame : Frame}
    (framed : frame? options node indent = some frame) :
    (∃ extra, shape options node = .region extra ∧ frame = .region extra indent) ∨
      (∃ bullet, shape options node = .hanging bullet ∧ frame = .hanging bullet indent) ∨
      shape options node = .quote ∧ frame = .quote options indent := by
  unfold frame? at framed
  split at framed
  · rename_i extra shaped
    exact Or.inl ⟨extra, shaped, (Option.some.inj framed).symm⟩
  · rename_i bullet shaped
    exact Or.inr (Or.inl ⟨bullet, shaped, (Option.some.inj framed).symm⟩)
  · rename_i shaped
    exact Or.inr (Or.inr ⟨shaped, (Option.some.inj framed).symm⟩)
  · cases framed

/-- A block lays out its children in a frame, or it is a row, math or a leaf. -/
theorem block_cases (options : Options) {node : Node} (block : node.isBlock = true) (indent : Nat) :
    (∃ frame, frame? options node indent = some frame) ∨ shape options node = .row ∨
      shape options node = .math ∨ shape options node = .leaf := by
  unfold frame?
  cases shaped : shape options node with
  | inline =>
      rw [isBlock_of_inline shaped] at block
      cases block
  | _ => simp

/-! ## Meanings by shapes -/

/-- A block is converted by its frame. -/
theorem bareText_of_frame (undebugged : setting.options.debug = false) {node : Node} {frame : Frame}
    {indent : Nat} (framed : frame? setting.options node indent = some frame) (place : Place) :
    bareText setting node place indent = do
      let body ← flow setting node.children node place 0 frame.inner (wrapsAt node place) []
      return frame.close body := by
  unfold bareText
  rcases frame_cases framed with ⟨extra, shaped, rfl⟩ | ⟨bullet, shaped, rfl⟩ | ⟨shaped, rfl⟩
  · simp [shaped, undebugged, Frame.region]
  · simp [shaped, undebugged, Frame.hanging]
  · simp [shaped, undebugged, Frame.quote]

theorem layoutOf_of_frame {node : Node} (known : node.kind.isKnown = true) {frame : Frame}
    {indent : Nat} (framed : frame? setting.options node indent = some frame) (place : Place) :
    layoutOf setting node place indent = do
      let body ← layoutBelow setting node.children node place 0 frame.inner (wrapsAt node place)
        (.run [])
      return frame.close body := by
  obtain ⟨kind, payload, attributes, options, children⟩ := node
  have known : kind.isKnown = true := known
  rw [layoutOf]
  simp [known, framed]

theorem layoutOf_of_row {node : Node} (row : shape setting.options node = .row) (place : Place)
    (indent : Nat) :
    layoutOf setting node place indent = (do
      let cells ← cellsBelow setting node.children node place 0
      match setting.options.cellSeparator with
      | some separator => return rowLine separator.toList indent cells
      | none => throw .noField) := by
  have kind := kind_of_row row
  obtain ⟨_, payload, attributes, options, children⟩ := node
  cases kind
  rfl

theorem layoutOf_of_math {node : Node} (math : node.kind = .math) (place : Place) (indent : Nat) :
    layoutOf setting node place indent = do
      let content ← strandBelow setting node.children node place 0
      let line := if node.children.isEmpty then .run node.payload.content.toList else content
      return line.join.laid setting.options indent false := by
  obtain ⟨_, payload, attributes, options, children⟩ := node
  cases math
  rfl

theorem layoutOf_of_leaf {node : Node} (known : node.kind.isKnown = true)
    (leaf : shape setting.options node = .leaf) (place : Place) (indent : Nat) :
    layoutOf setting node place indent = leafMeaning setting node place indent := by
  obtain ⟨kind, payload, attributes, options, children⟩ := node
  have known : kind.isKnown = true := known
  rw [layoutOf]
  simp [known, frame?, leaf]

theorem strandOf_of_code {node : Node} (code : node.kind = .inlineCode) (place : Place) :
    strandOf setting node place = .ok (.ofCode node.payload.content.toList) := by
  obtain ⟨_, payload, attributes, options, children⟩ := node
  cases code
  rfl

theorem strandOf_of_inline {node : Node}
    (inline : shape setting.options node = .inline ∨ shape setting.options node = .math)
    (place : Place) :
    strandOf setting node place = do
      let content ← strandBelow setting node.children node place 0
      return (if node.children.isEmpty then .run node.payload.content.toList
        else content).join := by
  have formatting := isFormatting_of_inline inline
  obtain ⟨kind, payload, attributes, options, children⟩ := node
  cases kind with
  | emphasis => rfl
  | strong => rfl
  | entity => rfl
  | abbreviation => rfl
  | math => rfl
  | _ => cases formatting

theorem strandOf_of_leaf {node : Node} (known : node.kind.isKnown = true)
    (noCode : node.kind ≠ .inlineCode) (leaf : shape setting.options node = .leaf) (place : Place) :
    strandOf setting node place = do
      let text ← leafMeaning setting node place 0
      return .run text := by
  obtain ⟨kind, payload, attributes, options, children⟩ := node
  have known : kind.isKnown = true := known
  have noCode : kind ≠ .inlineCode := noCode
  rw [strandOf]
  simp [known, noCode, leaf]

/-! ## Children of spans -/

/-- The strand that a child adds to a span. -/
def pieceOf (setting : Setting) (child parent : Node) (place : Place) : Except Fault Strand :=
  if child.isBlock then
    match setting.options.nesting with
    | .reject => throw (.failure (.blockInSpan parent.kind.name child.kind.name))
    | .flatten => do
        let text ← layoutOf setting child place 0
        return .run (unwords (words text))
  else strandOf setting child place

theorem strandBelow_cons (child : Node) (rest : List Node) (parent : Node) (place : Place)
    (index : Nat) :
    strandBelow setting (child :: rest) parent place index = (do
      let piece ← pieceOf setting child parent (place.enter parent index)
      let others ← strandBelow setting rest parent place (index + 1)
      return piece.append others) := by
  rw [strandBelow, pieceOf]
  cases child.isBlock with
  | false => rfl
  | true => cases setting.options.nesting <;> simp

/-! ## Codes -/

section Codes

variable {property : List Char → Prop}

/-- The codes of siblings stand in the strand of the siblings, and no other codes. -/
theorem codes_strandBelow {siblings : List Node}
    (each : ∀ child ∈ siblings, child.isBlock = false → ∀ place strand,
      strandOf setting child place = .ok strand → ∀ content ∈ strand.codes, property content)
    (parent : Node) (place : Place) (index : Nat) {strand : Strand}
    (meant : strandBelow setting siblings parent place index = .ok strand) :
    ∀ content ∈ strand.codes, property content := by
  induction siblings generalizing index strand with
  | nil =>
      cases meant
      exact List.forall_mem_nil _
  | cons child rest inductionHypothesis =>
      rw [strandBelow_cons] at meant
      obtain ⟨piece, pieced, meant⟩ := exists_of_bind_eq_ok meant
      obtain ⟨others, joined, meant⟩ := exists_of_bind_eq_ok meant
      cases meant
      have pieceCodes : ∀ content ∈ piece.codes, property content := by
        unfold pieceOf at pieced
        split at pieced
        · split at pieced
          · cases pieced
          · obtain ⟨text, -, pieced⟩ := exists_of_bind_eq_ok pieced
            cases pieced
            exact List.forall_mem_nil _
        · rename_i span
          exact each child (by simp) (by simpa using span) _ piece pieced
      rw [Strand.codes_append]
      exact List.forall_mem_append.mpr ⟨pieceCodes, inductionHypothesis
        (fun other present => each other (List.mem_cons_of_mem child present)) (index + 1) joined⟩

/-- By induction on the tree, the codes of a span are contents of code below it. -/
theorem codes_strandOf (node : Node)
    (coded : node.Everywhere fun inner =>
      inner.kind = .inlineCode → property inner.payload.content.toList)
    (span : node.isBlock = false) (place : Place) (strand : Strand)
    (meant : strandOf setting node place = .ok strand) :
    ∀ content ∈ strand.codes, property content := by
  induction node using Node.induction_on_children generalizing place strand with
  | step node below =>
      cases known : node.kind.isKnown with
      | false =>
          obtain ⟨kind, payload, attributes, options, children⟩ := node
          have unknown : kind.isKnown = false := known
          rw [strandOf] at meant
          simp [unknown] at meant
          cases meant
      | true =>
          by_cases code : node.kind = .inlineCode
          · rw [strandOf_of_code code] at meant
            cases meant
            simpa [Strand.ofCode, Strand.codes] using coded.here code
          · rcases shape_of_span setting.options span with inline | leaf
            · rw [strandOf_of_inline inline] at meant
              obtain ⟨content, found, meant⟩ := exists_of_bind_eq_ok meant
              cases meant
              rw [Strand.codes_join]
              split
              · exact List.forall_mem_nil _
              · exact codes_strandBelow (fun child present span place strand =>
                  below child present (coded.below present) span place strand) node place 0 found
            · rw [strandOf_of_leaf known code leaf] at meant
              obtain ⟨text, -, meant⟩ := exists_of_bind_eq_ok meant
              cases meant
              exact List.forall_mem_nil _

end Codes

theorem Strand.exists_run {strand : Strand} (codeless : ∀ content ∈ strand.codes, False) :
    ∃ text, strand = .run text := by
  cases strand with
  | run text => exact ⟨text, rfl⟩
  | code text content behind => exact absurd List.mem_cons_self (codeless content)

/-- A span without code is a single run. -/
theorem exists_run_of_strandOf {node : Node}
    (codeless : node.Everywhere fun inner => inner.kind ≠ .inlineCode) (span : node.isBlock = false)
    (place : Place) {strand : Strand} (meant : strandOf setting node place = .ok strand) :
    ∃ text, strand = .run text :=
  Strand.exists_run
    (codes_strandOf node (fun inner present code => codeless inner present code) span
    place strand meant)

/-- So are the spans among the children of a span. -/
theorem exists_run_of_strandBelow {siblings : List Node}
    (codeless : ∀ child ∈ siblings, child.Everywhere fun inner => inner.kind ≠ .inlineCode)
    {parent : Node} {place : Place} {index : Nat} {strand : Strand}
    (meant : strandBelow setting siblings parent place index = .ok strand) :
    ∃ text, strand = .run text := by
  refine Strand.exists_run (codes_strandBelow ?_ parent place index meant)
  intro child present span place strand found content inside
  obtain ⟨text, rfl⟩ := exists_run_of_strandOf (codeless child present) span place found
  exact absurd inside List.not_mem_nil

end Layout
end Galley
