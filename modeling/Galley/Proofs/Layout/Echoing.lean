import Galley.Proofs.Layout.Echoes
import Galley.Proofs.Layout.Faithful
import Galley.Proofs.Retraces

/-!
# What was held before leaves no trace

Two conversions of the same node are started with different code held.  By induction on
the tree their span texts echo each other, and blocks have the same text.  So a
placeholder shows neither its index nor what else is in the store, as long as no more
code is held than numerals can count.
-/

namespace Galley
namespace Layout

open Text

/-! ## Two workspaces -/

/-- Two workspaces with room for some more code, each below what the longest numerals
count. -/
structure Spacious (before before' : Workspace) (room : Nat) : Prop where
  /-- The room in the first. -/
  first : before.held.length + room ≤ 10 ^ numeralLimit
  /-- The room in the second. -/
  second : before'.held.length + room ≤ 10 ^ numeralLimit

/-- Two workspaces gain no more than a number of codes each. -/
structure BothGrow (before before' after after' : Workspace) (room : Nat) : Prop where
  /-- What the first gains. -/
  first : Grows before after room
  /-- What the second gains. -/
  second : Grows before' after' room

/-- Two runs give span texts that echo each other. -/
def GiveEchoes (before before' : Workspace) (room : Nat) (text text' : List Char)
    (after after' : Workspace) : Prop :=
  BothGrow before before' after after' room ∧ Echoes after.held after'.held text text'

/-- Two runs give the same value, which is plain. -/
def GiveSame (plain : α → Prop) (before before' : Workspace) (room : Nat) (value value' : α)
    (after after' : Workspace) : Prop :=
  BothGrow before before' after after' room ∧ value = value' ∧ plain value

section Growth

variable {before before' middle middle' after after' : Workspace} {room more : Nat}

theorem Spacious.mono (spacious : Spacious before before' more) (enough : room ≤ more) :
    Spacious before before' room :=
  ⟨Nat.le_trans (Nat.add_le_add_left enough _) spacious.first,
    Nat.le_trans (Nat.add_le_add_left enough _) spacious.second⟩

namespace BothGrow

theorem of_held (same : after.held = before.held) (same' : after'.held = before'.held) :
    BothGrow before before' after after' room :=
  ⟨Grows.of_held same, Grows.of_held same'⟩

theorem trans (first : BothGrow before before' middle middle' room)
    (second : BothGrow middle middle' after after' more) :
    BothGrow before before' after after' (room + more) :=
  ⟨first.first.trans second.first, first.second.trans second.second⟩

theorem mono (grow : BothGrow before before' after after' room) (enough : room ≤ more) :
    BothGrow before before' after after' more :=
  ⟨grow.first.mono enough, grow.second.mono enough⟩

/-- The room that is left. -/
theorem spacious (grow : BothGrow before before' after after' room)
    (spacious : Spacious before before' (room + more)) : Spacious after after' more :=
  ⟨grow.first.room spacious.first, grow.second.room spacious.second⟩

/-- Texts that echo each other go on to do so. -/
theorem echoes {text text' : List Char} (grow : BothGrow before before' after after' room)
    (echoes : Echoes before.held before'.held text text') :
    Echoes after.held after'.held text text' := by
  obtain ⟨⟨added, held, -, -⟩, ⟨added', held', -, -⟩⟩ := grow
  rw [held, held']
  exact echoes.extend added added'

end BothGrow

end Growth

variable {setting : Setting}

/-! ## Steps -/

/-- Span texts that echo each other are laid out alike. -/
theorem flush_echoes {before before' : Workspace} (spacious : Spacious before before' 0)
    {text text' : List Char} (echoes : Echoes before.held before'.held text text') (indent : Nat)
    (wraps : Bool) :
    Retraces Unexcused (flush setting indent wraps text) (flush setting indent wraps text')
      before before' (GiveSame NulFree before before' 0) := by
  obtain ⟨laid, plain, laidOut, laidOut'⟩ :=
    layoutSpan_echoes spacious.first spacious.second setting.options indent wraps echoes
  unfold flush
  refine Retraces.read ?_
  rw [laidOut, laidOut']
  exact Retraces.give ⟨BothGrow.of_held rfl rfl, rfl, plain⟩

/-- Code that is held by both runs. -/
theorem hold_echoes {code : List Char} (plain : NulFree code) (before before' : Workspace) :
    Retraces Unexcused (hold code) (hold code) before before' (GiveEchoes before before' 1) := by
  have grows (workspace : Workspace) :
      Grows workspace { workspace with held := workspace.held ++ [code] } 1 :=
    ⟨[code], rfl, Nat.le_refl 1, by simpa using plain⟩
  unfold hold
  refine Retraces.read (Retraces.write (Retraces.give ?_))
  exact ⟨⟨grows before, grows before'⟩, Echoes.held_next plain⟩

/-- A leaf shows the same, whatever is held. -/
theorem leafText_echoes {node : Node} (settled : Settled setting node)
    (below : ∀ child ∈ node.children, child.NulFree) (place : Place) (indent room : Nat)
    (before before' : Workspace) :
    Retraces Unexcused (leafText setting node place indent) (leafText setting node place indent)
      before before' (GiveSame NulFree before before' room) := by
  have quiet := Quiet.of_terse (Terse.leafText setting node place indent)
  have same := quiet.result before before'
  have kept := quiet.held before
  have kept' := quiet.held before'
  have plain := nulFree_leafText settled below place indent before
  unfold Retraces
  rcases found : outcome (leafText setting node place indent) before with ⟨fault | text, after⟩ <;>
    rcases found' : outcome (leafText setting node place indent) before' with
      ⟨fault' | text', after'⟩ <;>
    rw [found, found'] at same
  · exact Or.inl (Except.error.inj same)
  · cases same
  · cases same
  · rw [found] at kept
    rw [found'] at kept'
    exact ⟨BothGrow.of_held kept kept', Except.ok.inj same, plain.of_ok found⟩

/-! ## Siblings -/

/-- The text of a block holds no NUL if the rows that are met in it are plain. -/
def CalmIn (options : Options) (node : Node) (text : List Char) : Prop :=
  Met (PlainRow options) node → NulFree text

/-- A conversion of a node tells nothing of what was held before, wherever the node
stands. -/
structure Echoing (setting : Setting) (node : Node) : Prop where
  /-- The span texts of two runs echo each other. -/
  span : ∀ place indent before before', Spacious before before'
    (Node.codeCountBelow node.children) →
    node.isBlock = false → node.kind ≠ .inlineCode →
    Retraces Unexcused (convert setting node place indent) (convert setting node place indent)
      before before' (GiveEchoes before before' (Node.codeCountBelow node.children))
  /-- Blocks and code have the same text. -/
  block : ∀ place indent before before', Spacious before before'
    (Node.codeCountBelow node.children) →
    node.isBlock = true ∨ node.kind = .inlineCode →
    Retraces Unexcused (convert setting node place indent) (convert setting node place indent)
      before before' (GiveSame (CalmIn setting.options node) before before'
        (Node.codeCountBelow node.children))

/-- A block has the same text, and no more code is held than stands in it. -/
theorem Echoing.counted {child : Node} (echoing : Echoing setting child)
    (block : child.isBlock = true)
    (place : Place) (indent : Nat) {before before' : Workspace}
    (spacious : Spacious before before' child.codeCount) :
    Retraces Unexcused (convert setting child place indent) (convert setting child place indent)
      before before' (GiveSame (CalmIn setting.options child) before before' child.codeCount) := by
  have enough := codeCountBelow_le child
  refine (echoing.block place indent before before' (spacious.mono enough) (Or.inl block)).imp ?_
  rintro text text' after after' ⟨grow, same⟩
  exact ⟨grow.mono enough, same⟩

/-- A conversion of code meets no row. -/
theorem met_of_code {options : Options} {node : Node} (code : node.kind = .inlineCode) :
    Met (PlainRow options) node := by
  refine met_iff.mpr ⟨fun row => ?_, fun walked => ?_⟩
  · rw [code] at row
    cases row
  · rw [code] at walked
    cases walked

theorem spanPiece_echoes {child : Node} (echoing : Echoing setting child)
    (span : child.isBlock = false) (place : Place) (indent : Nat) {before before' : Workspace}
    (spacious : Spacious before before' child.codeCount) :
    Retraces Unexcused (spanPiece setting child place indent) (spanPiece setting child place indent)
      before before' (GiveEchoes before before' child.codeCount) := by
  have room := spacious.mono (codeCountBelow_le child)
  unfold spanPiece
  split
  · rename_i isCode
    have code : child.kind = .inlineCode := by simpa using isCode
    refine Retraces.bind (echoing.block place indent before before' room (Or.inr code)) ?_
    rintro text _ middle middle' ⟨grown, rfl, plain⟩
    refine (hold_echoes (plain (met_of_code code)) middle middle').imp ?_
    rintro stand stand' after after' ⟨grow, echoes⟩
    rw [codeCount_of_code code]
    exact ⟨grown.trans grow, echoes⟩
  · rename_i noCode
    refine (echoing.span place indent before before' room span (by simpa using noCode)).imp ?_
    rintro text text' after after' ⟨grow, echoes⟩
    exact ⟨grow.mono (codeCountBelow_le child), echoes⟩

theorem inlinePiece_echoes {child : Node} (echoing : Echoing setting child)
    (rows : setting.options.nesting = .flatten → Met (PlainRow setting.options) child)
    (parent : Node) (place : Place) (indent : Nat) {before before' : Workspace}
    (spacious : Spacious before before' child.codeCount) :
    Retraces Unexcused (inlinePiece setting child parent place indent)
      (inlinePiece setting child parent place indent) before before'
      (GiveEchoes before before' child.codeCount) := by
  cases placed : child.isBlock with
  | false =>
      rw [inlinePiece_of_span placed]
      exact spanPiece_echoes echoing placed place indent spacious
  | true =>
      rw [inlinePiece_of_block placed]
      cases nesting : setting.options.nesting with
      | reject => exact Retraces.stop
      | flatten =>
          refine Retraces.change_bind (Retraces.bind
            (echoing.counted placed place 0 ⟨spacious.first, spacious.second⟩) ?_)
          rintro text _ after after' ⟨⟨grow, grow'⟩, rfl, plain⟩
          have wordsPlain : NulFree (unwords (words text)) :=
            (nulFree_congr (respaced_unwords_words text).ink_eq).mp (plain (rows nesting))
          exact Retraces.give ⟨⟨grow, grow'⟩, Echoes.run wordsPlain⟩

section Siblings

variable {siblings : List Node} (each : ∀ child ∈ siblings, Echoing setting child)

include each

/-- Span by span and block by block, the children of a block are laid out alike. -/
theorem flow_echoes {calm : Prop}
    (rows : calm → ∀ child ∈ siblings, Met (PlainRow setting.options) child)
    (parent : Node) (place : Place) (index inner : Nat) (wraps : Bool)
    {waiting waiting' : List Char} {before before' : Workspace}
    (spacious : Spacious before before' (Node.codeCountBelow siblings))
    (echoes : Echoes before.held before'.held waiting waiting') :
    Retraces Unexcused (flow setting siblings parent place index inner wraps waiting)
      (flow setting siblings parent place index inner wraps waiting') before before'
      (GiveSame (fun text => calm → NulFree text) before before'
        (Node.codeCountBelow siblings)) := by
  induction siblings generalizing index before before' waiting waiting' with
  | nil =>
      rw [flow, flow]
      refine (flush_echoes spacious echoes inner wraps).imp ?_
      rintro text _ after after' ⟨grow, rfl, plain⟩
      exact ⟨grow, rfl, fun _ => plain⟩
  | cons child rest inductionHypothesis =>
      obtain ⟨first, others⟩ := List.forall_mem_cons.mp each
      have otherRows := fun still other present =>
        rows still other (List.mem_cons_of_mem child present)
      rw [Node.codeCountBelow_cons] at spacious ⊢
      cases placed : child.isBlock with
      | false =>
          rw [flow_cons_of_span placed, flow_cons_of_span placed]
          refine Retraces.bind (spanPiece_echoes first placed _ inner
            (spacious.mono (Nat.le_add_right _ _))) ?_
          rintro piece piece' middle middle' ⟨grown, pieces⟩
          refine (inductionHypothesis others otherRows (index + 1) (grown.spacious spacious)
            ((grown.echoes echoes).append pieces)).imp ?_
          rintro text text' after after' ⟨grow, same⟩
          exact ⟨grown.trans grow, same⟩
      | true =>
          have room := spacious.mono (Nat.le_add_right _ _)
          rw [flow_cons_of_block placed, flow_cons_of_block placed]
          refine Retraces.bind (first.counted placed _ inner room) ?_
          rintro text _ middle middle' ⟨grown, rfl, textPlain⟩
          -- The span before the block is laid out with the code that is held by then.
          refine Retraces.bind (flush_echoes ((grown.spacious spacious).mono (Nat.zero_le _))
            (grown.echoes echoes) inner wraps) ?_
          rintro laid _ flushed flushed' ⟨kept, rfl, laidPlain⟩
          have ready := grown.trans kept
          rw [Nat.add_zero] at ready
          refine Retraces.bind (inductionHypothesis others otherRows (index + 1)
            (ready.spacious spacious) (Echoes.run nulFree_nil)) ?_
          rintro behind _ after after' ⟨grow, rfl, behindPlain⟩
          refine Retraces.give ⟨ready.trans grow, rfl, fun still => ?_⟩
          have own := textPlain (rows still child (by simp))
          exact nulFree_append.mpr ⟨nulFree_append.mpr ⟨laidPlain, own⟩, behindPlain still⟩

/-- The children of a span are joined to texts that echo each other. -/
theorem convertInline_echoes
    (rows : setting.options.nesting = .flatten →
      ∀ child ∈ siblings, Met (PlainRow setting.options) child)
    (parent : Node) (place : Place) (index indent : Nat)
    {before before' : Workspace} (spacious : Spacious before before'
      (Node.codeCountBelow siblings)) :
    Retraces Unexcused (convertInline setting siblings parent place index indent)
      (convertInline setting siblings parent place index indent) before before'
      (GiveEchoes before before' (Node.codeCountBelow siblings)) := by
  induction siblings generalizing index before before' with
  | nil => exact Retraces.give ⟨BothGrow.of_held rfl rfl, Echoes.run nulFree_nil⟩
  | cons child rest inductionHypothesis =>
      obtain ⟨first, others⟩ := List.forall_mem_cons.mp each
      rw [Node.codeCountBelow_cons] at spacious ⊢
      have room := spacious.mono (Nat.le_add_right child.codeCount _)
      rw [convertInline_cons]
      have otherRows := fun lax other present => rows lax other (List.mem_cons_of_mem child present)
      refine Retraces.bind (inlinePiece_echoes first (fun lax => rows lax child (by simp)) parent _
        indent room) ?_
      rintro text text' middle middle' ⟨grown, echoes⟩
      refine Retraces.bind
        (inductionHypothesis others otherRows (index + 1) (grown.spacious spacious)) ?_
      rintro more more' after after' ⟨grow, echoesMore⟩
      exact Retraces.give ⟨grown.trans grow, (grow.echoes echoes).append echoesMore⟩

/-- Blocks in a row are converted to the same cells. -/
theorem convertCells_echoes (blocks : ∀ child ∈ siblings, child.isBlock = true) {calm : Prop}
    (rows : calm → ∀ child ∈ siblings, Met (PlainRow setting.options) child) (parent : Node)
    (place : Place) (index : Nat) {before before' : Workspace}
    (spacious : Spacious before before' (Node.codeCountBelow siblings)) :
    Retraces Unexcused (convertCells setting siblings parent place index)
      (convertCells setting siblings parent place index) before before'
      (GiveSame (fun cells => calm → ∀ cell ∈ cells, NulFree cell) before before'
        (Node.codeCountBelow siblings)) := by
  induction siblings generalizing index before before' with
  | nil => exact Retraces.give ⟨BothGrow.of_held rfl rfl, rfl, fun _ => List.forall_mem_nil _⟩
  | cons child rest inductionHypothesis =>
      obtain ⟨first, others⟩ := List.forall_mem_cons.mp each
      obtain ⟨block, otherBlocks⟩ := List.forall_mem_cons.mp blocks
      rw [Node.codeCountBelow_cons] at spacious ⊢
      rw [convertCells]
      refine Retraces.bind (first.counted block _ 0 (spacious.mono (Nat.le_add_right _ _))) ?_
      rintro text _ middle middle' ⟨grown, rfl, plain⟩
      have otherRows := fun still other present =>
        rows still other (List.mem_cons_of_mem child present)
      refine Retraces.bind
        (inductionHypothesis others otherBlocks otherRows (index + 1) (grown.spacious spacious)) ?_
      rintro cells _ after after' ⟨grow, rfl, cellsPlain⟩
      refine Retraces.give ⟨grown.trans grow, rfl, fun still => ?_⟩
      have own := plain (rows still child (by simp))
      exact List.forall_mem_cons.mpr ⟨nulFree_cellContent own, cellsPlain still⟩

end Siblings

/-! ## Nodes -/

section Nodes

variable {node : Node} (settled : Settled setting node)
  (plainly : FlattensPlainly setting.options node)
  (plainBelow : ∀ child ∈ node.children, child.NulFree)
  (each : isWalked node.kind = true → ∀ child ∈ node.children, Echoing setting child)

include settled plainly each

/-- The content of formatting is joined to texts that echo each other. -/
theorem content_echoes (formatting : isFormatting node.kind = true) (place : Place) (indent : Nat)
    {before before' : Workspace}
    (spacious : Spacious before before' (Node.codeCountBelow node.children)) :
    Retraces Unexcused (convertInline setting node.children node place 0 indent)
      (convertInline setting node.children node place 0 indent) before before'
      fun content content' after after' =>
        GiveEchoes before before' (Node.codeCountBelow node.children)
          (joinLines (if node.children.isEmpty then node.payload.content.toList else content))
          (joinLines (if node.children.isEmpty then node.payload.content.toList else content'))
          after after' := by
  refine (convertInline_echoes (each (isWalked_of_formatting formatting))
    (fun lax child present => plainly.plainRows formatting lax present) node place 0 indent
    spacious).imp ?_
  rintro content content' after after' ⟨grow, echoes⟩
  refine ⟨grow, Echoes.join ?_⟩
  split
  · exact Echoes.run (Payload.nulFree_content settled.nulFree.payload)
  · exact echoes

include plainBelow

/-- What a span shows is echoed. -/
theorem bareText_echoes (span : node.isBlock = false) (place : Place) (indent : Nat)
    {before before' : Workspace}
    (spacious : Spacious before before' (Node.codeCountBelow node.children)) :
    Retraces Unexcused (bareText setting node place indent) (bareText setting node place indent)
      before before' (GiveEchoes before before' (Node.codeCountBelow node.children)) := by
  have content (inline : shape setting.options node = .inline ∨
      shape setting.options node = .math) :=
    content_echoes settled plainly each (isFormatting_of_inline inline) place indent spacious
  unfold bareText
  rcases shape_of_span setting.options span with (inline | math) | leaf
  · rw [inline]
    exact Retraces.bind (content (Or.inl inline)) fun _ _ _ _ given => Retraces.give given
  · rw [math]
    simp only [span, Bool.false_eq_true, if_false]
    exact Retraces.bind (content (Or.inr math)) fun _ _ _ _ given => Retraces.give given
  · rw [leaf]
    refine (leafText_echoes settled plainBelow place indent (Node.codeCountBelow node.children)
      before before').imp ?_
    rintro text _ after after' ⟨grow, rfl, plain⟩
    exact ⟨grow, Echoes.run plain⟩

/-- What a block or code shows is the same. -/
theorem bareText_same (firm : node.isBlock = true ∨ node.kind = .inlineCode) (place : Place)
    (indent : Nat) {before before' : Workspace}
    (spacious : Spacious before before' (Node.codeCountBelow node.children)) :
    Retraces Unexcused (bareText setting node place indent) (bareText setting node place indent)
      before before' (GiveSame (CalmIn setting.options node) before before'
        (Node.codeCountBelow node.children)) := by
  have plain := settled.nulFree
  have rows (walked : isWalked node.kind = true) (calm : Met (PlainRow setting.options) node)
      (child : Node) (present : child ∈ node.children) : Met (PlainRow setting.options) child :=
    calm.below walked present
  -- A body becomes a text of its own, which is free of NUL where the body is.
  have framed (walked : isWalked node.kind = true) {inner : Nat} (close : List Char → List Char)
      (closed : ∀ body, NulFree body → NulFree (close body)) :
      Retraces Unexcused
        (flow setting node.children node place 0 inner (wrapsAt node place) [] >>= fun body =>
          pure (close body))
        (flow setting node.children node place 0 inner (wrapsAt node place) [] >>= fun body =>
          pure (close body))
        before before' (GiveSame (CalmIn setting.options node) before before'
          (Node.codeCountBelow node.children)) := by
    refine Retraces.bind (flow_echoes (each walked) (rows walked) node place 0 inner _ spacious
      (Echoes.run nulFree_nil)) ?_
    rintro body _ after after' ⟨grow, rfl, bodyPlain⟩
    exact Retraces.give ⟨grow, rfl, fun still => closed body (bodyPlain still)⟩
  unfold bareText
  cases shaped : shape setting.options node with
  | region extra =>
      exact framed (isWalked_of_shape shaped (by simp)) _ fun body bodyPlain =>
        nulFree_region _ bodyPlain
  | hanging bullet =>
      refine framed (isWalked_of_shape shaped (by simp)) _ fun body bodyPlain => ?_
      exact nulFree_region _ (nulFree_hang (nulFree_of_hanging plain shaped) bodyPlain _ _ _)
  | quote =>
      exact framed (isWalked_of_shape shaped (by simp)) _ fun body bodyPlain =>
        nulFree_quote _ _ indent bodyPlain
  | row =>
      have kind := kind_of_row shaped
      have walked := isWalked_of_shape shaped (by simp)
      refine Retraces.bind
        (convertCells_echoes (each walked) (settled.cells kind)
            (rows walked) node place 0 spacious) ?_
      rintro cells _ after after' ⟨grow, rfl, cellsPlain⟩
      cases separated : setting.options.cellSeparator with
      | none => exact Retraces.stop
      | some separator =>
          refine Retraces.give ⟨grow, rfl, fun still => ?_⟩
          exact nulFree_rowLine (still.here kind separator separated) (cellsPlain still) indent
  | inline =>
      rcases firm with block | code
      · rw [isBlock_of_inline shaped] at block
        cases block
      · have formatting := isFormatting_of_inline (Or.inl shaped)
        rw [code] at formatting
        cases formatting
  | math =>
      have block : node.isBlock = true := by
        refine firm.resolve_right fun code => ?_
        rw [kind_of_math shaped] at code
        cases code
      simp only [block, if_true]
      have formatting := isFormatting_of_inline (Or.inr shaped)
      refine Retraces.bind (content_echoes settled plainly each formatting place indent spacious) ?_
      rintro content content' middle middle' ⟨grown, echoes⟩
      have room := grown.spacious (show Spacious before before' (_ + 0) from spacious)
      refine (flush_echoes room echoes indent false).imp ?_
      rintro text _ after after' ⟨grow, rfl, textPlain⟩
      have both := grown.trans grow
      exact ⟨both, rfl, fun _ => textPlain⟩
  | leaf =>
      refine (leafText_echoes settled plainBelow place indent (Node.codeCountBelow node.children)
        before before').imp ?_
      rintro text _ after after' ⟨grow, rfl, textPlain⟩
      exact ⟨grow, rfl, fun _ => textPlain⟩

end Nodes

/-- Tags are put around both texts of a span. -/
theorem finish_echoes {held held' : List (List Char)} {text text' : List Char} {node : Node}
    (known : node.kind.isKnown = true) (span : node.isBlock = false)
    (noCode : node.kind ≠ .inlineCode) (echoes : Echoes held held' text text') :
    Echoes held held' (finish setting node text) (finish setting node text') := by
  have name := nulFree_name known
  have tagClass : NulFree Marker.spanClass := by decide
  unfold finish
  split
  · have placed : (node.isSpan && node.kind != .inlineCode) = true := by
      simp [Node.isSpan, span, noCode]
    unfold tag
    simp only [placed, if_true]
    exact echoes.enclose (by simp [Marker.opening, tagClass, name])
      (by simp [Marker.closing, tagClass, name])
  · exact echoes

/-- By induction on the tree, a conversion tells nothing of what was held before. -/
theorem convert_echoing (node : Node) (settled : node.Everywhere (Settled setting))
    (plainly : FlattensPlainly setting.options node) : Echoing setting node := by
  induction node using Node.induction_on_children with
  | step node below =>
      have plainBelow (child : Node) (present : child ∈ node.children) : child.NulFree :=
        (settled.below present).here.nulFree
      have each (walked : isWalked node.kind = true) (child : Node)
          (present : child ∈ node.children) :
          Echoing setting child :=
        below child present (settled.below present) (plainly.below walked present)
      cases known : node.kind.isKnown with
      | false =>
          constructor
          · intro place indent before before' _ _ _
            rw [convert_of_unknown setting place indent known]
            exact Retraces.stop
          · intro place indent before before' _ _
            rw [convert_of_unknown setting place indent known]
            exact Retraces.stop
      | true =>
          constructor
          · intro place indent before before' spacious span noCode
            rw [convert_eq_bareText setting place indent known]
            refine Retraces.bind
              (bareText_echoes settled.here plainly plainBelow each span place indent spacious) ?_
            rintro text text' after after' ⟨grow, echoes⟩
            exact Retraces.give ⟨grow, finish_echoes known span noCode echoes⟩
          · intro place indent before before' spacious firm
            rw [convert_eq_bareText setting place indent known]
            refine Retraces.bind
              (bareText_same settled.here plainly plainBelow each firm place indent spacious) ?_
            rintro text _ after after' ⟨grow, rfl, plain⟩
            exact Retraces.give ⟨grow, rfl, fun still => nulFree_finish known (plain still)⟩

end Layout
end Galley
