import Galley.Proofs.Layout.Faithful
import Galley.Proofs.Layout.Shifting

/-!
# Indentation only shifts

Without wrapping and debugging, a block at a larger indentation has the text that it has
at a smaller one, shifted by the difference.  What a block means is shifted, by
induction on the tree: the body of a frame is shifted with its inner indentation, and
what is put around a body commutes with the shift.  Conversions give what is meant,
whatever code is held before.
-/

namespace Galley
namespace Layout

open Text

/-- The text of a node can be shifted: it is not measured against the column budget, its
bullet is on one line, and the boundaries of its lines are newlines. -/
structure Shiftable (node : Node) : Prop where
  /-- The node is no horizontal rule, which fills what the indentation leaves of the
  budget. -/
  noRule : node.kind ≠ .horizontalRule
  /-- Raw content, which is not indented, is no block. -/
  noRaw : node.kind = .rawPassthrough → node.isBlock = false
  /-- The bullet of the node has no newline. -/
  bullet : '\n' ∉ bulletShown node
  /-- Code has no line boundary but newlines. -/
  code : node.kind = .inlineCode ∨ node.kind = .codeblock → Even node.payload.content.toList

instance (node : Node) : Decidable (Shiftable node) :=
  decidable_of_iff
    (node.kind ≠ .horizontalRule ∧ (node.kind = .rawPassthrough → node.isBlock = false) ∧
      '\n' ∉ bulletShown node ∧
      (node.kind = .inlineCode ∨ node.kind = .codeblock → Even node.payload.content.toList))
    ⟨fun ⟨noRule, noRaw, bullet, code⟩ => ⟨noRule, noRaw, bullet, code⟩,
      fun shiftable => ⟨shiftable.noRule, shiftable.noRaw, shiftable.bullet, shiftable.code⟩⟩

variable {setting : Setting}

/-! ## Frames -/

/-- The frame of a block at a larger indentation has a body at a larger indentation and
puts the same around it, shifted. -/
theorem frame?_add (ruled : 0 < setting.options.ruleWidth) {node : Node}
    (shiftable : Shiftable node) {indent : Nat} {frame : Frame}
    (framed : frame? setting.options node indent = some frame) (more : Nat) :
    ∃ frame', frame? setting.options node (indent + more) = some frame' ∧
      frame'.inner = frame.inner + more ∧
      ∀ body, frame'.close (shift more body) = shift more (frame.close body) := by
  rcases frame_cases framed with ⟨extra, shaped, rfl⟩ | ⟨bullet, shaped, rfl⟩ | ⟨shaped, rfl⟩
  · refine ⟨.region extra (indent + more), by rw [frame?, shaped],
      Nat.add_right_comm indent more extra, fun body => ?_⟩
    simp only [Frame.region]
    rw [trimTail_shift, shift_newline]
  · have inner : indent + more + Columns.ofText bullet + 1 =
        indent + Columns.ofText bullet + 1 + more := by omega
    refine ⟨.hanging bullet (indent + more), by rw [frame?, shaped], inner, fun body => ?_⟩
    have whole : '\n' ∉ bullet := bulletShown_of_hanging shaped ▸ shiftable.bullet
    simp only [Frame.hanging]
    rw [inner, hang_shift whole (shown_of_hanging shaped), trimTail_shift, shift_newline]
  · refine ⟨.quote setting.options (indent + more), by rw [frame?, shaped],
      Nat.add_right_comm indent more setting.options.quoteIndent, fun body => ?_⟩
    simp only [Frame.quote]
    rw [rule_add ruled, trimTail_shift, shift_newline, shift_append_newline, shift_append_newline]

theorem closed_close {node : Node} {indent : Nat} {frame : Frame}
    (framed : frame? setting.options node indent = some frame) (body : List Char) :
    Closed (frame.close body) := by
  rcases frame_cases framed with ⟨extra, -, rfl⟩ | ⟨bullet, -, rfl⟩ | ⟨-, rfl⟩
  · exact closed_newline _
  · exact closed_newline _
  · exact closed_newline _

/-! ## Strands -/

theorem even_codes_nil : ∀ content ∈ (Strand.run []).codes, Even content :=
  List.forall_mem_nil _

/-- The codes of a span have no line boundaries but newlines. -/
theorem even_codes_strandOf {node : Node} (shiftable : node.Everywhere Shiftable)
    (span : node.isBlock = false) (place : Place) (strand : Strand)
    (meant : strandOf setting node place = .ok strand) : ∀ content ∈ strand.codes, Even content :=
  codes_strandOf node (fun inner present code => (shiftable inner present).code (Or.inl code)) span
    place strand meant

/-! ## Leaves -/

theorem leafMeaning_of_rule {node : Node} (kind : node.kind = .horizontalRule) (place : Place)
    (indent : Nat) :
    leafMeaning setting node place indent =
      .ok (horizontalRule setting.options.maxColumn indent) := by
  rw [leafMeaning, leafText, kind]
  rfl

theorem leafMeaning_of_codeblock {node : Node} (kind : node.kind = .codeblock) (place : Place)
    (indent : Nat) :
    leafMeaning setting node place indent =
      .ok (verbatim setting.options.ruleWidth indent node.payload.content.toList) := by
  rw [leafMeaning, leafText, kind]
  rfl

theorem leafMeaning_of_raw {node : Node} (kind : node.kind = .rawPassthrough)
    (block : node.isBlock = true) (place : Place) (indent : Nat) :
    leafMeaning setting node place indent = .ok (node.payload.content.toList ++ ['\n']) := by
  rw [leafMeaning, leafText, kind]
  simp only [block, if_true]
  rfl

/-- A leaf that is a block is closed. -/
theorem closed_leafMeaning {node : Node} (leaf : shape setting.options node = .leaf)
    (block : node.isBlock = true) {place : Place} {indent : Nat} {text : List Char}
    (meant : leafMeaning setting node place indent = .ok text) : Closed text := by
  rcases leaf_of_block block leaf with rule | code | raw | suppressed
  · rw [leafMeaning_of_rule rule] at meant
    cases meant
    exact closed_newline _
  · rw [leafMeaning_of_codeblock code] at meant
    cases meant
    exact closed_verbatim _ _ _
  · rw [leafMeaning_of_raw raw block] at meant
    cases meant
    exact closed_newline _
  · rw [leafMeaning, leafText_of_suppressed suppressed] at meant
    cases meant
    exact closed_nil

/-- A leaf that is a block has verbatim content between rules, which is shifted, or no
text. -/
theorem leafMeaning_add (ruled : 0 < setting.options.ruleWidth) {node : Node}
    (shiftable : Shiftable node) (leaf : shape setting.options node = .leaf)
    (block : node.isBlock = true) (place : Place) (indent more : Nat) :
    leafMeaning setting node place (indent + more) =
      (leafMeaning setting node place indent).map (shift more) := by
  rcases leaf_of_block block leaf with rule | code | raw | suppressed
  · exact absurd rule shiftable.noRule
  · rw [leafMeaning_of_codeblock code, leafMeaning_of_codeblock code,
      verbatim_add ruled (shiftable.code (Or.inr code))]
    rfl
  · rw [shiftable.noRaw raw] at block
    cases block
  · rw [leafMeaning, leafMeaning, leafText_of_suppressed suppressed,
      leafText_of_suppressed suppressed]
    rfl

/-! ## Blocks -/

theorem layoutOf_of_unknown {node : Node} (unknown : node.kind.isKnown = false) (place : Place)
    (indent : Nat) :
    layoutOf setting node place indent =
      throw (.failure (.noConversion (shownKind node.kind))) := by
  obtain ⟨kind, payload, attributes, options, children⟩ := node
  have unknown : kind.isKnown = false := unknown
  rw [layoutOf]
  simp only [unknown, Bool.not_false, if_true]
  rfl

/-- The text of a block is closed. -/
theorem closed_layoutOf {node : Node} (block : node.isBlock = true) {place : Place} {indent : Nat}
    {text : List Char} (meant : layoutOf setting node place indent = .ok text) : Closed text := by
  cases known : node.kind.isKnown with
  | false =>
      rw [layoutOf_of_unknown known] at meant
      cases meant
  | true =>
      rcases block_cases setting.options block indent with ⟨frame, framed⟩ | row | math | leaf
      · rw [layoutOf_of_frame known framed] at meant
        obtain ⟨body, -, meant⟩ := exists_of_bind_eq_ok meant
        cases meant
        exact closed_close framed body
      · rw [layoutOf_of_row row] at meant
        obtain ⟨cells, -, meant⟩ := exists_of_bind_eq_ok meant
        split at meant
        · cases meant
          exact closed_newline _
        · cases meant
      · rw [layoutOf_of_math (kind_of_math math)] at meant
        obtain ⟨content, -, meant⟩ := exists_of_bind_eq_ok meant
        cases meant
        exact Strand.closed_laid _ _ _ _
      · rw [layoutOf_of_leaf known leaf] at meant
        exact closed_leafMeaning leaf block meant

/-- A cell stands on one line. -/
theorem newline_not_mem_cellsBelow {siblings : List Node} {parent : Node} {place : Place}
    {index : Nat} {cells : List (List Char)}
    (meant : cellsBelow setting siblings parent place index = .ok cells) :
    ∀ cell ∈ cells, '\n' ∉ cell := by
  induction siblings generalizing index cells with
  | nil =>
      cases meant
      simp
  | cons child rest inductionHypothesis =>
      rw [cellsBelow] at meant
      obtain ⟨text, -, meant⟩ := exists_of_bind_eq_ok meant
      obtain ⟨others, found, meant⟩ := exists_of_bind_eq_ok meant
      cases meant
      exact List.forall_mem_cons.mpr
        ⟨newline_not_mem_collapseBreaks _, inductionHypothesis found⟩

/-- What a block means at a larger indentation is what it means, shifted. -/
def Shifts (setting : Setting) (node : Node) : Prop :=
  ∀ place indent more, layoutOf setting node place (indent + more) =
    (layoutOf setting node place indent).map (shift more)

section Unwrapped

variable (undebugged : setting.options.debug = false) (unwrapped : setting.options.wraps = false)
  (ruled : 0 < setting.options.ruleWidth)

include undebugged unwrapped ruled

/-- Siblings whose blocks are shifted are shifted, with the spans that wait before
them. -/
theorem layoutBelow_add {siblings : List Node}
    (shiftable : ∀ child ∈ siblings, child.Everywhere Shiftable)
    (each : ∀ child ∈ siblings, child.isBlock = true → Shifts setting child) (parent : Node)
    (place : Place) (index inner : Nat) (wraps : Bool) {waiting : Strand}
    (even : ∀ content ∈ waiting.codes, Even content) (more : Nat) :
    layoutBelow setting siblings parent place index (inner + more) wraps waiting =
      (layoutBelow setting siblings parent place index inner wraps waiting).map (shift more) := by
  induction siblings generalizing index waiting with
  | nil =>
      rw [layoutBelow, layoutBelow, Strand.laid_add undebugged unwrapped ruled even]
      rfl
  | cons child rest inductionHypothesis =>
      have others := inductionHypothesis
        (fun other present => shiftable other (List.mem_cons_of_mem child present))
        (fun other present => each other (List.mem_cons_of_mem child present))
      rw [layoutBelow, layoutBelow]
      cases placed : child.isBlock with
      | true =>
          have shifted := each child (by simp) placed (place.enter parent index) inner more
          have after := others (index + 1) even_codes_nil
          simp only [if_true]
          rw [shifted, after, Strand.laid_add undebugged unwrapped ruled even]
          cases meant : layoutOf setting child (place.enter parent index) inner with
          | error fault => rfl
          | ok text =>
              cases layoutBelow setting rest parent place (index + 1) inner wraps (.run []) with
              | error fault => rfl
              | ok tail =>
                  have front := Strand.closed_laid setting.options inner wraps waiting
                  have closed := front.append (closed_layoutOf placed meant)
                  exact congrArg Except.ok (by rw [closed.shift_append, front.shift_append])
      | false =>
          simp only [Bool.false_eq_true, if_false]
          cases meant : strandOf setting child (place.enter parent index) with
          | error fault => rfl
          | ok strand =>
              have strandEven :=
                even_codes_strandOf (shiftable child (by simp)) placed _ strand meant
              refine others (index + 1) ?_
              rw [Strand.codes_append]
              exact List.forall_mem_append.mpr ⟨even, strandEven⟩

/-- A block in a frame is shifted with its children. -/
theorem layoutOf_add_of_frame {node : Node}
    (shiftable : node.Everywhere Shiftable)
    (each : ∀ child ∈ node.children, child.isBlock = true → Shifts setting child)
    (known : node.kind.isKnown = true) {frame : Frame} {indent : Nat}
    (framed : frame? setting.options node indent = some frame) (place : Place) (more : Nat) :
    layoutOf setting node place (indent + more) =
      (layoutOf setting node place indent).map (shift more) := by
  obtain ⟨frame', framed', inner, close⟩ := frame?_add ruled shiftable.here framed more
  have body := layoutBelow_add undebugged unwrapped ruled
    (fun child present => shiftable.below present) each node place 0 frame.inner
    (wrapsAt node place) even_codes_nil more
  rw [layoutOf_of_frame known framed, layoutOf_of_frame known framed', inner, body]
  cases layoutBelow setting node.children node place 0 frame.inner (wrapsAt node place)
    (.run []) with
  | error fault => rfl
  | ok text => exact congrArg Except.ok (close text)

/-- Math that is a block is shifted. -/
theorem layoutOf_add_of_math {node : Node}
    (shiftable : node.Everywhere Shiftable) (math : node.kind = .math)
    (place : Place) (indent more : Nat) :
    layoutOf setting node place (indent + more) =
      (layoutOf setting node place indent).map (shift more) := by
  rw [layoutOf_of_math math, layoutOf_of_math math]
  cases meant : strandBelow setting node.children node place 0 with
  | error fault => rfl
  | ok content =>
      have contentEven := codes_strandBelow
        (fun child present => even_codes_strandOf (shiftable.below present)) node place 0 meant
      refine congrArg Except.ok (Strand.laid_add undebugged unwrapped ruled ?_ indent more false)
      rw [Strand.codes_join]
      split
      · exact even_codes_nil
      · exact contentEven

omit undebugged unwrapped ruled in
/-- The cells of a row do not depend on the indentation, and the row is shifted as a
line. -/
theorem layoutOf_add_of_row
    (separated : ∀ separator, setting.options.cellSeparator = some separator →
      '\n' ∉ separator.toList)
    {node : Node} (row : shape setting.options node = .row) (place : Place) (indent more : Nat) :
    layoutOf setting node place (indent + more) =
      (layoutOf setting node place indent).map (shift more) := by
  rw [layoutOf_of_row row, layoutOf_of_row row]
  cases meant : cellsBelow setting node.children node place 0 with
  | error fault => rfl
  | ok cells =>
      cases separator : setting.options.cellSeparator with
      | none => rfl
      | some text =>
          exact congrArg Except.ok (rowLine_add (separated text separator)
            (newline_not_mem_cellsBelow meant) indent more)

/-- By induction on the tree, every block is shifted. -/
theorem layoutOf_add
    (separated : ∀ separator, setting.options.cellSeparator = some separator →
      '\n' ∉ separator.toList)
    (node : Node) (shiftable : node.Everywhere Shiftable)
    (block : node.isBlock = true) : Shifts setting node := by
  induction node using Node.induction_on_children with
  | step node inductionHypothesis =>
      have each (child : Node) (present : child ∈ node.children) :=
        inductionHypothesis child present (shiftable.below present)
      intro place indent more
      cases known : node.kind.isKnown with
      | false =>
          rw [layoutOf_of_unknown known, layoutOf_of_unknown known]
          rfl
      | true =>
          rcases block_cases setting.options block indent with ⟨frame, framed⟩ | row | math | leaf
          · exact layoutOf_add_of_frame undebugged unwrapped ruled shiftable each known framed place
              more
          · exact layoutOf_add_of_row separated row place indent more
          · exact layoutOf_add_of_math undebugged unwrapped ruled shiftable
              (kind_of_math math) place
              indent more
          · rw [layoutOf_of_leaf known leaf, layoutOf_of_leaf known leaf,
              leafMeaning_add ruled shiftable.here leaf block]

/-! ## Conversions -/

/-- Indentation only shifts: without wrapping and debugging, and whatever code is held
before, a block that is converted at a larger indentation gives the text of the smaller
one with the difference put before each line that shows something, or stops at the same
fault.  Either conversion may stop because so much code is held that a numeral is too
long. -/
theorem convert_shift
    (separated : ∀ separator, setting.options.cellSeparator = some separator →
      '\n' ∉ separator.toList)
    {node : Node} (settled : node.Everywhere (Settled setting))
    (plainly : FlattensPlainly setting.options node)
    (shiftable : node.Everywhere Shiftable) (block : node.isBlock = true)
    (place : Place) (indent more : Nat) (before before' : Workspace) :
    let smaller := (outcome (convert setting node place indent) before).1
    let larger := (outcome (convert setting node place (indent + more)) before').1
    larger = smaller.map (shift more) ∨
      (∃ fault, smaller = .error fault ∧ Overfull (before.held.length + node.codeCount) fault) ∨
      ∃ fault, larger = .error fault ∧ Overfull (before'.held.length + node.codeCount) fault := by
  intro smaller larger
  have result := convert_eq_layoutOf_or_overfull undebugged settled plainly block place
  rcases result indent before with same | overfull
  · rcases result (indent + more) before' with same' | overfull'
    · refine Or.inl ?_
      change (outcome _ _).1 = Except.map _ (outcome _ _).1
      rw [same, same', layoutOf_add undebugged unwrapped ruled separated node shiftable block]
    · exact Or.inr (Or.inr overfull')
  · exact Or.inr (Or.inl overfull)

end Unwrapped

/-- An item with code, a quote and a row. -/
def mixedItem : Node :=
  { kind := .listItem
    payload := .item { mark := "7" }
    children := [
      { kind := .strong, children := [{ kind := .text, payload := .text "see" }] },
      { kind := .inlineCode, payload := .text "x\n\n  y" },
      { kind := .blockquote
        children := [
          { kind := .paragraph,
            children := [{ kind := .text, payload := .text " one\n\n two" }] }] },
      { kind := .tableRow
        children := [
          { kind := .tableCell, children := [{ kind := .text, payload := .text "a\nb" }] },
          { kind := .tableCell, children := [{ kind := .text, payload := .text "c" }] }] }] }

/-- Options without wrapping. -/
def unwrapped : Options := { maxColumn := 20, ruleWidth := 3, wraps := false }

theorem settled_mixedItem : mixedItem.Everywhere (Settled { options := unwrapped }) := by
  have bare : ∀ inner ∈ mixedItem.walk,
      inner.payload.NulFree ∧ inner.attributes = [] ∧ inner.options = [] ∧
        (inner.kind = .tableRow → ∀ child ∈ inner.children, child.isBlock = true) ∧
        inner.kind ≠ .reference := by decide +kernel
  intro inner present
  obtain ⟨payload, attributes, options, cells, noReference⟩ := bare inner present
  exact ⟨nulFree_bare payload attributes options, cells,
    fun reference => absurd reference noReference⟩

/-- The text of the item. -/
def mixedItemText : List Char :=
  (" (7) see\n     ---\n     x\n\n       y\n     ---\n" ++
    "     ---\n         one\n\n          two\n     ---\n     a b | c\n").toList

/-- The item is shifted by two, with other code held before. -/
theorem convert_shift_mixedItem :
    let smaller := (outcome (convert { options := unwrapped } mixedItem Place.alone 1)
      { held := ["old".toList] }).1
    let larger := (outcome (convert { options := unwrapped } mixedItem Place.alone 3) {}).1
    smaller = .ok mixedItemText ∧
      (larger = smaller.map (shift 2) ∨
        (∃ fault, smaller = .error fault ∧ Overfull 2 fault) ∨
        ∃ fault, larger = .error fault ∧ Overfull 1 fault) := by
  have plainly : FlattensPlainly unwrapped mixedItem := by decide +kernel
  have shiftable : ∀ inner ∈ mixedItem.walk, Shiftable inner := by decide +kernel
  refine ⟨by rfl, ?_⟩
  exact convert_shift rfl rfl (by decide) (by rintro _ ⟨⟩; decide) settled_mixedItem
    plainly shiftable
    rfl Place.alone 1 2 { held := ["old".toList] } {}

/-- Between the cells of a row that is flattened, a separator that spells a placeholder
shows the code of the row once more, at no indentation: the text at a larger one is not
the shifted text.  No string of the tree holds NUL, the row has cells only, and the
separator has no newline. -/
theorem convert_unshifted_codedRow :
    codedRow.isBlock = true ∧ codedRow.Everywhere Node.NulFree ∧ codedRow.Everywhere Faithful ∧
      codedRow.Everywhere Shiftable ∧
      (∀ separator ∈ spelledPlaceholder.cellSeparator, '\n' ∉ separator.toList) ∧
      (outcome (convert { options := spelledPlaceholder } codedRow Place.alone 0) {}).1 =
        .ok "--- x ---\n---\nx\n---\nb\n".toList ∧
      (outcome (convert { options := spelledPlaceholder } codedRow Place.alone 2) {}).1 =
        .ok "  --- x ---\n---\nx\n---\n  b\n".toList ∧
      shift 2 "--- x ---\n---\nx\n---\nb\n".toList =
        "  --- x ---\n  ---\n  x\n  ---\n  b\n".toList := by
  have shiftable : ∀ inner ∈ codedRow.walk, Shiftable inner := by decide +kernel
  exact ⟨rfl, codedRow_nulFree, codedRow_faithful, shiftable, by decide,
    eq_ok_of_toOption (by decide +kernel), eq_ok_of_toOption (by decide +kernel), by decide +kernel⟩

end Layout
end Galley
