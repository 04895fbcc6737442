import Galley.Proofs.Layout.Akin
import Galley.Proofs.Layout.Faithful
import Galley.Proofs.Layout.Tails
import Galley.Proofs.Layout.Woven
import Galley.Proofs.Wrap.Words
import Mathlib.Data.List.Forall2

/-!
# Words of cells

A cell of texts is laid out as a block, wrapped to the column budget, and then put on
one line.  All of this keeps the words of its texts in order, but where the wrapping
cuts a word the parts stay apart, with a space between them.
-/

namespace Galley
namespace Layout

open Text

/-! ## Regions -/

section Regions

variable {options : Options}

theorem words_layLine (indent : Nat) (line : List Char) :
    words (layLine false indent line) = words line := by
  cases blank : allBlank line with
  | true => rw [layLine_of_blank blank]
  | false => rw [layLine_of_shown blank, words_trimEnd, words_blank_append (allBlank_spaces indent)]

theorem words_indentLines (indent : Nat) (text : List Char) :
    words (indentLines false indent text) = words text := by
  have laid : indentLines false indent text =
      unlines ((lines text).map (layLine false indent)) := rfl
  rw [laid, words_unlines, List.flatMap_map, ← flatMap_words_lines text]
  exact List.flatMap_congr fun line _ => words_layLine indent line

/-- The words of a region are those of its text, wrapped if it is. -/
theorem words_fill (undebugged : options.debug = false) (indent : Nat) (wraps : Bool)
    (text : List Char) :
    words (fill options indent wraps text) =
      if wraps && options.wraps then
        words (Wrap.wrap false ((options.maxColumn : Int) - indent) (trimStart text))
      else words text := by
  have start : trimTextStart false text = trimStart text := rfl
  unfold fill
  rw [undebugged, start, words_append_blank _ (by rfl), trimTail_false, words_trimEnd,
    words_indentLines]
  split
  · rfl
  · exact words_trimStart text

/-- So are those of a run, which is left out if it shows nothing. -/
theorem words_fillRun (undebugged : options.debug = false) (indent : Nat) (wraps : Bool)
    (text : List Char) :
    words (Strand.fillRun options indent wraps text) =
      if wraps && options.wraps then
        words (Wrap.wrap false ((options.maxColumn : Int) - indent) (trimStart text))
      else words text := by
  unfold Strand.fillRun
  cases blank : allBlank text with
  | true =>
      have none : trimStart text = [] := List.dropWhile_eq_nil_iff.mpr (List.all_eq_true.mp blank)
      have wrapped (width : Int) : Wrap.wrap false width [] = [] := rfl
      rw [if_pos rfl, none, wrapped, words_of_blank blank, words_nil, ite_self]
  | false => exact words_fill undebugged indent wraps text

end Regions

/-! ## Contents of cells -/

/-- Collapsing the runs of blanks with a newline keeps words apart. -/
@[simp] theorem words_collapseBreaks (text : List Char) :
    words (collapseBreaks text) = words text := by
  refine Akin.collapseBreaks_induction
    (motive := fun text text' => words text = words text') rfl ?_ ?_ text
  · intro blanks blanks' text text' blank blank' same
    rw [words_blank_append blank, words_blank_append blank', same]
  · intro run text text' _ begins begins' same
    rw [words_append fun _ _ first found => Or.inr (begins first found),
      words_append fun _ _ first found => Or.inr (begins' first found), same]

@[simp] theorem words_cellContent (text : List Char) : words (cellContent text) = words text := by
  rw [cellContent, words_collapseBreaks, words_trim]

/-! ## Cells of texts -/

section Texts

variable {setting : Setting} (undebugged : setting.options.debug = false)

include undebugged

/-- A text is a single run if it holds no NUL, whatever code is held. -/
theorem layoutSpan_of_nulFree {text : List Char} (plain : NulFree text) (held : List (List Char))
    (indent : Nat) (wraps : Bool) :
    layoutSpan setting.options held indent wraps text =
      .ok (Strand.fillRun setting.options indent wraps text) := by
  have pieced : (Assembly.addPiece setting.options indent wraps {} text).markers = [] ∧
      (Assembly.addPiece setting.options indent wraps {} text).chunks.flatten =
        Strand.fillRun setting.options indent wraps text :=
    Assembly.addPiece_of_bare undebugged rfl wraps text
  have joined : (Assembly.addPiece setting.options indent wraps {} text).text =
      Strand.fillRun setting.options indent wraps text := by
    simpa [Assembly.text, pieced.1] using pieced.2
  rw [layoutSpan, splitHeld_of_nulFree plain, ← joined]
  rfl

theorem convert_of_text {node : Node} (text : node.kind = .text) (place : Place) (indent : Nat) :
    convert setting node place indent = pure node.payload.content.toList := by
  have known : node.kind.isKnown = true := by rw [text]; rfl
  rw [convert_of_bareText undebugged known]
  obtain ⟨_, payload, attributes, options, children⟩ := node
  cases text
  rfl

/-- Texts without NUL flow together to a run. -/
theorem flow_texts {siblings : List Node}
    (texts : ∀ child ∈ siblings, child.kind = .text ∧
        NulFree child.payload.content.toList) (parent : Node)
    (place : Place) (index inner : Nat) (wraps : Bool) {waiting : List Char}
    (plain : NulFree waiting)
    (before : Workspace) :
    outcome (flow setting siblings parent place index inner wraps waiting) before =
      (.ok (Strand.fillRun setting.options inner wraps
        (waiting ++ siblings.flatMap fun child => child.payload.content.toList)), before) := by
  induction siblings generalizing index waiting with
  | nil =>
      rw [flow, flush, outcome_get_bind, layoutSpan_of_nulFree undebugged plain, List.flatMap_nil,
        List.append_nil]
      rfl
  | cons child rest inductionHypothesis =>
      obtain ⟨⟨kind, content⟩, others⟩ := List.forall_mem_cons.mp texts
      have span : child.isBlock = false := by simp [Node.isBlock, kind, Kind.placement]
      have shown : spanPiece setting child (place.enter parent index) inner =
          pure child.payload.content.toList := by
        rw [spanPiece, convert_of_text undebugged kind, kind]
        rfl
      rw [flow_cons_of_span span, shown, pure_bind,
        inductionHypothesis others (index + 1) (nulFree_append.mpr ⟨plain, content⟩),
          List.flatMap_cons,
        List.append_assoc]

end Texts

/-- The texts of a cell, joined. -/
def cellText (cell : Node) : List Char :=
  cell.children.flatMap fun child => child.payload.content.toList

/-- A node is a cell that holds texts without NUL and nothing else. -/
structure Textual (node : Node) : Prop where
  /-- It is a cell. -/
  kind : node.kind = .tableCell
  /-- Its children are texts. -/
  texts : ∀ child ∈ node.children, child.kind = .text ∧ NulFree child.payload.content.toList

instance (node : Node) : Decidable (Textual node) :=
  decidable_of_iff (node.kind = .tableCell ∧
      ∀ child ∈ node.children, child.kind = .text ∧ NulFree child.payload.content.toList)
    ⟨fun ⟨kind, texts⟩ => ⟨kind, texts⟩, fun textual => ⟨textual.kind, textual.texts⟩⟩

/-- The words of a text in the content of its cell. -/
structure Worded (budget : Nat) (wraps : Bool) (text content : List Char) : Prop where
  /-- The content stands on one line. -/
  newline : '\n' ∉ content
  /-- Words may be split, but they are not joined, lost, added or moved. -/
  splits : Splits (words content) (words text)
  /-- Without wrapping they stay whole. -/
  unwrapped : wraps = false → words content = words text
  /-- With wrapping they stay whole exactly if they fit, where breaks stand at blanks. -/
  wrapped : wraps = true → (∀ line ∈ lines (trimStart text), Wrap.BreaksAtBlanks budget line) →
    (words content = words text ↔ ∀ word ∈ words text, Wrap.Fits budget word)

theorem newline_not_mem_of_worded {budget : Nat} {wraps : Bool} {cells : List Node}
    {contents : List (List Char)}
    (worded : List.Forall₂ (fun cell content => Worded budget wraps
        (cellText cell) content) cells contents) :
    ∀ content ∈ contents, '\n' ∉ content := by
  induction worded with
  | nil => exact List.forall_mem_nil _
  | cons here _ inductionHypothesis =>
      exact List.forall_mem_cons.mpr ⟨here.newline, inductionHypothesis⟩

/-- A cell is wrapped unless its row stands in a quote. -/
theorem wrapsAt_cell {cell row : Node} (cellKind : cell.kind = .tableCell)
    (rowKind : row.kind = .tableRow)
    (place : Place) (index : Nat) :
    wrapsAt cell (place.enter row index) = !place.within .blockquote := by
  have within : (place.enter row index).within .blockquote = place.within .blockquote := by
    unfold Place.enter
    split
    · rw [Place.within, List.any_cons, rowKind]
      rfl
    · rfl
  rw [wrapsAt, cellKind, within]
  rfl

section Rows

variable {setting : Setting} (undebugged : setting.options.debug = false)

include undebugged

theorem convert_textual {cell : Node} (textual : Textual cell) (place : Place)
    (before : Workspace) :
    outcome (convert setting cell place 0) before =
      (.ok (trimTail false (Strand.fillRun setting.options 0 (wrapsAt cell place)
          (cellText cell)) ++ ['\n']),
        before) := by
  have known : cell.kind.isKnown = true := by rw [textual.kind]; rfl
  have framed : frame? setting.options cell 0 = some (.region 0 0) := by
    rw [frame?, shape, textual.kind]
  have flowed := flow_texts undebugged textual.texts cell place 0 0
      (wrapsAt cell place) nulFree_nil before
  rw [convert_of_bareText undebugged known, bareText_of_frame undebugged framed]
  exact outcome_bind_of_ok flowed _

/-- What the layout as a block and the collapse to one line do to the words of a text. -/
theorem worded_cellContent (wraps : Bool) (text : List Char) :
    Worded (Wrap.budget setting.options.maxColumn) (wraps && setting.options.wraps) text
      (cellContent (trimTail false (Strand.fillRun setting.options 0 wraps text) ++ ['\n'])) := by
  have newline := newline_not_mem_collapseBreaks
    (trim (trimTail false (Strand.fillRun setting.options 0 wraps text) ++ ['\n']))
  have same :
      words (cellContent (trimTail false (Strand.fillRun setting.options 0 wraps text) ++ ['\n'])) =
      words (Strand.fillRun setting.options 0 wraps text) := by
    rw [words_cellContent, words_append_blank _ (by rfl), trimTail_false, words_trimEnd]
  have budget : (setting.options.maxColumn : Int) - (0 : Nat) =
      setting.options.maxColumn := by omega
  rw [words_fillRun undebugged, budget] at same
  unfold cellContent at same ⊢
  generalize collapseBreaks _ = content at newline same ⊢
  cases flowed : wraps && setting.options.wraps with
  | false =>
      rw [flowed, if_neg Bool.false_ne_true] at same
      have kept : Splits (words content) (words text) := same ▸ Splits.refl (words content)
      exact ⟨newline, kept, fun _ => same, nofun⟩
  | true =>
      rw [flowed, if_pos rfl] at same
      have parted := Wrap.splits_words_wrap setting.options.maxColumn (trimStart text)
      rw [← same, words_trimStart] at parted
      refine ⟨newline, parted, nofun, fun _ whole => ?_⟩
      have kept := Wrap.words_wrap_eq_iff whole
      rwa [← same, words_trimStart] at kept

/-- Cells of texts are converted one by one. -/
theorem convertCells_textual {siblings : List Node}
    (each : ∀ cell ∈ siblings, Textual cell) {row : Node}
    (kind : row.kind = .tableRow) (place : Place) (index : Nat) (before : Workspace) :
    ∃ contents, outcome (convertCells setting siblings row place index) before =
      (.ok contents, before) ∧
      List.Forall₂ (fun cell content => Worded (Wrap.budget setting.options.maxColumn)
        (!place.within .blockquote && setting.options.wraps)
        (cellText cell) content) siblings contents := by
  induction siblings generalizing index with
  | nil => exact ⟨[], rfl, .nil⟩
  | cons cell rest inductionHypothesis =>
      obtain ⟨here, others⟩ := List.forall_mem_cons.mp each
      obtain ⟨contents, converted, worded⟩ := inductionHypothesis others (index + 1)
      have laid := convert_textual undebugged here (place.enter row index) before
      rw [wrapsAt_cell here.kind kind] at laid
      refine ⟨_ :: contents, ?_, .cons (worded_cellContent undebugged _ (cellText cell)) worded⟩
      rw [convertCells, outcome_bind_of_ok laid, outcome_bind_of_ok converted]
      rfl

/-- A row whose cells hold texts takes one line.  In the content of each cell the words
of its texts stand in their order; none is split but where the wrapping of the cell cuts
it. -/
theorem convert_textualRow {separator : String}
    (separated : setting.options.cellSeparator = some separator)
    (whole : '\n' ∉ separator.toList) {row : Node} (kind : row.kind = .tableRow)
    (cells : ∀ cell ∈ row.children, Textual cell) (place : Place) (indent : Nat)
    (before : Workspace) :
    ∃ contents line,
      outcome (convertCells setting row.children row place 0) before = (.ok contents, before) ∧
      outcome (convert setting row place indent) before =
        (.ok (rowLine separator.toList indent contents), before) ∧
      rowLine separator.toList indent contents = line ++ ['\n'] ∧ '\n' ∉ line ∧
      List.Forall₂ (fun cell content => Worded (Wrap.budget setting.options.maxColumn)
        (!place.within .blockquote && setting.options.wraps) (cellText cell) content)
        row.children contents := by
  obtain ⟨contents, converted, worded⟩ := convertCells_textual undebugged cells kind place 0 before
  refine ⟨contents, _, converted, ?_, rfl, ?_, worded⟩
  · have known : row.kind.isKnown = true := by rw [kind]; rfl
    have shaped : shape setting.options row = .row := by rw [shape, kind]
    rw [convert_of_bareText undebugged known, bareText, shaped]
    dsimp only
    rw [outcome_bind_of_ok converted, separated]
    rfl
  · refine not_mem_trimEnd fun present => ?_
    rcases List.mem_append.mp present with margin | joined
    · exact newline_not_mem_spaces indent margin
    · exact not_mem_intercalate whole (newline_not_mem_of_worded worded) joined

end Rows

/-- Texts within six columns. -/
def narrowSetting : Setting :=
  { options := { maxColumn := 6 } }

/-- A row of two cells of texts. -/
def narrowRow : Node :=
  { kind := .tableRow
    children := [
      { kind := .tableCell
        children := [{ kind := .text, payload := .text "be " },
          { kind := .text, payload := .text "or\n not" }] },
      { kind := .tableCell, children := [{ kind := .text, payload := .text "undone" }] }] }

/-- The lines of its first cell are joined, and no word is split. -/
theorem convert_textualRow_narrowRow :
    narrowSetting.options.debug = false ∧ narrowSetting.options.cellSeparator = some " | " ∧
      '\n' ∉ " | ".toList ∧ narrowRow.kind = .tableRow ∧
      (∀ cell ∈ narrowRow.children, Textual cell) ∧
      outcome (convert narrowSetting narrowRow Place.alone 2) {} =
        (.ok "  be or not | undone\n".toList, {}) ∧
      ∃ contents,
        outcome (convertCells narrowSetting narrowRow.children narrowRow Place.alone 0)
          {} = (.ok contents, {}) ∧
        List.Forall₂ (fun cell content => words content = words (cellText cell))
          narrowRow.children contents := by
  have undebugged : narrowSetting.options.debug = false := rfl
  have separated : narrowSetting.options.cellSeparator = some " | " := rfl
  have whole : '\n' ∉ " | ".toList := by decide
  have kind : narrowRow.kind = .tableRow := rfl
  have cells : ∀ cell ∈ narrowRow.children, Textual cell := by decide +kernel
  have shown : outcome (convert narrowSetting narrowRow Place.alone 2) {} =
      (.ok "  be or not | undone\n".toList, {}) := rfl
  have narrow : ∀ cell ∈ narrowRow.children,
      (∀ line ∈ lines (trimStart (cellText cell)), Columns.ofText line ≤ 6) ∧
        ∀ word ∈ words (cellText cell), Columns.ofText word ≤ 6 := by
    decide +kernel
  obtain ⟨contents, _, converted, -, -, -, worded⟩ :=
    convert_textualRow undebugged separated whole kind cells Place.alone 2 {}
  have budget : Wrap.budget (narrowSetting.options.maxColumn : Int) = 6 := rfl
  have wraps : (!Place.alone.within .blockquote && narrowSetting.options.wraps) = true := rfl
  rw [budget, wraps] at worded
  refine ⟨undebugged, separated, whole, kind, cells, shown, contents, converted, ?_⟩
  refine ((List.forall₂_and_left _ _).mpr ⟨narrow, worded⟩).imp
    fun cell content ⟨⟨short, fit⟩, worded⟩ => ?_
  exact (worded.wrapped rfl fun line listed => Or.inl (short line listed)).mpr fun word present =>
    Or.inl (fit word present)

/-- A row with a cell whose only word is wider than the column budget. -/
def brokenRow : Node :=
  { kind := .tableRow
    children := [
      { kind := .tableCell, children := [{ kind := .text, payload := .text "unbreakable" }] }] }

/-- Within eight columns the word is cut, and its parts are two words of the row. -/
theorem convert_brokenRow :
    let setting : Setting := { options := { maxColumn := 8 } }
    setting.options.debug = false ∧ setting.options.cellSeparator = some " | " ∧
      brokenRow.kind = .tableRow ∧ (∀ cell ∈ brokenRow.children, Textual cell) ∧
      outcome (convertCells setting brokenRow.children brokenRow Place.alone 0) {} =
        (.ok ["unbreaka ble".toList], {}) ∧
      outcome (convert setting brokenRow Place.alone 0) {} = (.ok "unbreaka ble\n".toList, {}) ∧
      brokenRow.children.map (fun cell => words (cellText cell)) = [["unbreakable".toList]] ∧
      words "unbreaka ble".toList = ["unbreaka".toList, "ble".toList] :=
  ⟨rfl, rfl, rfl, by decide +kernel, rfl, rfl, rfl, rfl⟩

end Layout
end Galley
