import Galley.Proofs.Layout.EachLine
import Galley.Proofs.Layout.Indentation

/-!
# Hanging indents

Every line of a block that shows something stands behind the indentation that the block
was given.  From this invariant of all blocks the hanging indent follows: the spaces
that a bullet takes the place of are there, whatever blocks are nested on its line, and
all lines below it stay behind them.
-/

namespace Galley
namespace Layout

open Text

/-! ## Margins -/

/-- What a line shows stands behind a margin of spaces. -/
def Margined (margin : Nat) (line : List Char) : Prop :=
  allBlank line = false → spaces margin <+: line

namespace Margined

variable {margin inner : Nat} {line : List Char}

theorem of_spaces (stands : spaces margin <+: line) : Margined margin line := fun _ => stands

theorem of_blank (blank : allBlank line = true) : Margined margin line := by
  intro shown
  rw [blank] at shown
  cases shown

theorem nil : Margined margin [] := of_blank rfl

/-- A wide margin begins with a narrow one. -/
theorem mono (margined : Margined inner line) (less : margin ≤ inner) : Margined margin line := by
  refine fun shown => List.IsPrefix.trans ?_ (margined shown)
  exact ⟨spaces (inner - margin), by rw [spaces_append, Nat.add_sub_cancel' less]⟩

theorem trimEnd (margined : Margined margin line) : Margined margin (Text.trimEnd line) := by
  intro shown
  rw [allBlank_trimEnd] at shown
  exact spaces_prefix_trimEnd shown (margined shown)

theorem layLine (indent : Nat) (line : List Char) :
    Margined indent (layLine false indent line) := by
  cases shown : allBlank line with
  | true =>
      rw [layLine_of_blank shown]
      exact of_blank shown
  | false =>
      rw [layLine_of_shown shown]
      exact (of_spaces (List.prefix_append _ _)).trimEnd

theorem shiftLine (indent : Nat) (line : List Char) : Margined indent (shiftLine indent line) := by
  cases shown : allBlank line with
  | true =>
      rw [shiftLine_of_blank shown]
      exact of_blank shown
  | false =>
      rw [shiftLine_of_shown shown]
      exact of_spaces (List.prefix_append _ _)

end Margined

/-! ## Regions -/

section Regions

variable {indent : Nat} {text body : List Char}

/-- A region of span text stands behind its indentation, wrapped or not. -/
theorem margined_fillRun {options : Options} (undebugged : options.debug = false) (wraps : Bool)
    (text : List Char) : EachLine (Margined indent) (Strand.fillRun options indent wraps text) := by
  unfold Strand.fillRun
  split
  · exact EachLine.nil Margined.nil
  · unfold fill
    simp only [undebugged]
    generalize (if wraps && options.wraps then _ else _) = flowed
    refine EachLine.newline Margined.nil
      (EachLine.trimTail Margined.nil (fun _ => Margined.trimEnd) ?_)
    exact EachLine.unlines Margined.nil
      (List.forall_mem_map.mpr fun line listed => newline_not_mem_layLine
          (not_mem_of_mem_lines listed))
      (List.forall_mem_map.mpr fun line _ => Margined.layLine indent line)

theorem margined_rule (width indent : Nat) :
    EachLine (Margined indent) (rule width indent ++ ['\n']) :=
  EachLine.newline Margined.nil
    (EachLine.of_whole (whole_rule width indent) (Margined.of_spaces (List.prefix_append _ _)))

/-- What stands between two rules stands behind their indentation. -/
theorem margined_between (width : Nat) (each : EachLine (Margined indent) body)
    (closed : Closed body) :
    EachLine (Margined indent)
      (rule width indent ++ ['\n'] ++ body ++ (rule width indent ++ ['\n'])) :=
  ((margined_rule width indent).append (closed_newline _) each).append
    ((closed_newline _).append closed) (margined_rule width indent)

theorem margined_verbatim (width : Nat) {content : List Char} (even : Even content) :
    EachLine (Margined indent) (verbatim width indent content) := by
  obtain ⟨body, closed, inside⟩ := closeLine_eq content
  have evenBody : Even body := fun character present => even character (inside character present)
  have shifted : EachLine (Margined indent) (shift indent (body ++ ['\n'])) := by
    rw [EachLine, lines_shift]
    exact List.forall_mem_map.mpr fun line _ => Margined.shiftLine indent line
  have shiftedClosed : Closed (shift indent (body ++ ['\n'])) := by
    rw [shift_newline]
    exact closed_newline _
  have between := margined_between width shifted shiftedClosed
  rw [verbatim, closed, indentVerbatim_of_even evenBody]
  simpa using between

theorem margined_rowLine {separator : List Char} (whole : '\n' ∉ separator)
    {cells : List (List Char)}
    (each : ∀ cell ∈ cells, '\n' ∉ cell) (indent : Nat) :
    EachLine (Margined indent) (rowLine separator indent cells) := by
  have joined : '\n' ∉ spaces indent ++ separator.intercalate cells := by
    simp [newline_not_mem_spaces, not_mem_intercalate whole each]
  exact EachLine.newline Margined.nil (EachLine.of_whole (not_mem_trimEnd joined)
    (Margined.of_spaces (List.prefix_append _ _)).trimEnd)

/-- A strand stands behind its indentation. -/
theorem margined_laid {options : Options} (undebugged : options.debug = false) {strand : Strand}
    (even : ∀ content ∈ strand.codes, Even content) (wraps : Bool) :
    EachLine (Margined indent) (strand.laid options indent wraps) := by
  induction strand with
  | run text => exact margined_fillRun undebugged wraps text
  | code text content behind inductionHypothesis =>
      obtain ⟨contentEven, behindEven⟩ := List.forall_mem_cons.mp even
      have closed := closed_fillRun options indent wraps text
      have filled : EachLine (Margined indent) (Strand.fillRun options indent wraps text) :=
        margined_fillRun undebugged wraps text
      have front := filled.append closed (margined_verbatim options.ruleWidth contentEven)
      exact front.append (closed.append (closed_verbatim _ _ _)) (inductionHypothesis behindEven)

end Regions

/-! ## Bullets -/

/-- A line is a bullet at an indentation, alone or with a space and something that is
shown. -/
def Led (bullet : List Char) (indent : Nat) (line : List Char) : Prop :=
  line = spaces indent ++ bullet ∨
    ∃ content, allBlank content = false ∧ line = spaces indent ++ bullet ++ ' ' :: content

/-- The first line of a text is led by a bullet, and what the others show stands behind
the columns that the bullet and its space take. -/
def Hangs (bullet : List Char) (indent : Nat) (text : List Char) : Prop :=
  ∃ first rest, lines text = first :: rest ∧ Led bullet indent first ∧
    ∀ line ∈ rest, Margined (indent + Columns.ofText bullet + 1) line

section Bullets

variable {bullet line : List Char} {indent : Nat}

theorem Led.leads (led : Led bullet indent line) : spaces indent ++ bullet <+: line := by
  rcases led with rfl | ⟨content, -, rfl⟩
  · exact List.prefix_refl _
  · exact List.prefix_append _ _

theorem Led.shown (led : Led bullet indent line) (shown : allBlank bullet = false) :
    allBlank line = false := by
  obtain ⟨behind, rfl⟩ := led.leads
  simp [shown]

/-- A bullet that ends with a character that is not blank still leads the line once its
end is trimmed. -/
theorem Led.trimEnd (led : Led bullet indent line) (shown : allBlank bullet = false)
    (trimmed : Text.trimEnd bullet = bullet) : Led bullet indent (Text.trimEnd line) := by
  rcases led with rfl | ⟨content, contentShown, rfl⟩
  · rw [trimEnd_append_of_shown _ shown, trimmed]
    exact Or.inl rfl
  · refine Or.inr ⟨Text.trimEnd content, by rw [allBlank_trimEnd, contentShown], ?_⟩
    have parts := trimEnd_append_of_shown (spaces indent ++ bullet ++ [' ']) contentShown
    simpa using parts

/-- A body that stands behind the columns of a bullet hangs under it. -/
theorem hangs_hang {body : List Char} (whole : '\n' ∉ bullet)
    (each : EachLine (Margined (indent + Columns.ofText bullet + 1)) body) :
    Hangs bullet indent (hang false bullet indent (indent + Columns.ofText bullet + 1) body) := by
  have alone (only : List Char) (apart : '\n' ∉ only) : lines only = [only] :=
    lines_unlines (List.cons_ne_nil only []) (List.forall_mem_singleton.mpr apart)
  unfold hang
  cases found : (lines body).dropWhile (isBlankLine false) with
  | nil => exact ⟨_, [], alone _ (newline_not_mem_margin whole), Or.inl rfl, List.forall_mem_nil _⟩
  | cons first rest =>
      have listed : ∀ line ∈ first :: rest, line ∈ lines body := fun line present =>
        (List.dropWhile_sublist _).subset (found ▸ present)
      have shown : allBlank first = false := by
        have head := List.head?_dropWhile_not (isBlankLine false) (lines body)
        rw [found] at head
        exact head
      have firstWhole := not_mem_of_mem_lines (listed first (by simp))
      obtain ⟨behind, rfl⟩ := each first (listed first (by simp)) shown
      have hung : '\n' ∉ spaces indent ++ bullet ++ ' ' :: behind := by
        simp only [List.mem_append, not_or] at firstWhole
        simp [whole, newline_not_mem_spaces, firstWhole.2]
      have behindShown : allBlank behind = false := by
        rwa [allBlank_append, allBlank_spaces, Bool.true_and] at shown
      refine ⟨_, rest, ?_, Or.inr ⟨behind, behindShown, rfl⟩,
        fun line present => each line (listed line (List.mem_cons_of_mem _ present))⟩
      dsimp only
      rw [drop_margin]
      exact lines_unlines (List.cons_ne_nil _ _) (List.forall_mem_cons.mpr
        ⟨hung, fun line present => not_mem_of_mem_lines
          (listed line (List.mem_cons_of_mem _ present))⟩)

/-- A text that hangs under a bullet still does once its tail is trimmed. -/
theorem Hangs.trimTail {text : List Char} (hangs : Hangs bullet indent text)
    (shown : allBlank bullet = false) (trimmed : Text.trimEnd bullet = bullet) :
    Hangs bullet indent (trimTail false text ++ ['\n']) := by
  obtain ⟨first, rest, split, led, margined⟩ := hangs
  have whole : ∀ line ∈ first :: rest, '\n' ∉ line := fun line present =>
    not_mem_of_mem_lines (split ▸ present)
  have firstShown : isBlankLine false first = false := led.shown shown
  rw [← unlines_lines text, split]
  rcases all_or_exists_last (isBlankLine false) rest with
    blank | ⟨front, line, back, rfl, lineShown, blank⟩
  · have wholeAlone : ∀ line ∈ [] ++ first :: rest, '\n' ∉ line := whole
    have cut := trimTail_of_shown wholeAlone firstShown blank
    rw [List.nil_append] at cut
    refine ⟨Text.trimEnd first, [[]], ?_, led.trimEnd shown trimmed,
      List.forall_mem_singleton.mpr Margined.nil⟩
    rw [cut, lines_append_newline, lines_unlines (by simp) (whole_cut wholeAlone)]
    rfl
  · rw [← List.cons_append] at whole ⊢
    refine ⟨first, front ++ [Text.trimEnd line] ++ [[]], ?_, led, ?_⟩
    · rw [trimTail_of_shown whole lineShown blank, lines_append_newline,
        lines_unlines (by simp) (whole_cut whole)]
      rfl
    · exact List.forall_mem_append.mpr ⟨forall_mem_cut margined Margined.trimEnd,
        List.forall_mem_singleton.mpr Margined.nil⟩

end Bullets

/-! ## Nodes -/

/-- The text of a node can be aligned: its bullet is on one line, and the boundaries of
its lines are newlines. -/
structure Alignable (node : Node) : Prop where
  /-- Raw content, which is not indented, is no block. -/
  noRaw : node.kind = .rawPassthrough → node.isBlock = false
  /-- The bullet of the node has no newline. -/
  bullet : '\n' ∉ bulletShown node
  /-- Code has no line boundary but newlines. -/
  code : node.kind = .inlineCode ∨ node.kind = .codeblock → Even node.payload.content.toList

instance (node : Node) : Decidable (Alignable node) :=
  decidable_of_iff
    ((node.kind = .rawPassthrough → node.isBlock = false) ∧ '\n' ∉ bulletShown node ∧
      (node.kind = .inlineCode ∨ node.kind = .codeblock → Even node.payload.content.toList))
    ⟨fun ⟨noRaw, bullet, code⟩ => ⟨noRaw, bullet, code⟩,
      fun alignable => ⟨alignable.noRaw, alignable.bullet, alignable.code⟩⟩

/-- The end of a bullet is not trimmed. -/
theorem trimEnd_of_hanging {options : Options} {node : Node} {bullet : List Char}
    (hanging : shape options node = .hanging bullet) : Text.trimEnd bullet = bullet := by
  obtain ⟨front, last, rfl, shown⟩ := exists_last_of_hanging hanging
  rw [trimEnd_append_of_shown front (by simp [allBlank, shown]),
    trimEnd_of_unblank (List.forall_mem_singleton.mpr shown)]

/-! ## Blocks -/

section Blocks

variable {setting : Setting}

/-- What a block is laid out to stands behind its indentation. -/
def LaidMargined (setting : Setting) (node : Node) : Prop :=
  ∀ place indent text, layoutOf setting node place indent = .ok text →
  EachLine (Margined indent) text

variable (undebugged : setting.options.debug = false)

include undebugged

/-- Siblings whose blocks stand behind the indentation do so together, with the spans
that wait before them. -/
theorem margined_layoutBelow {siblings : List Node} {parent : Node} {place : Place} {inner : Nat}
    {wraps : Bool} (alignable : ∀ child ∈ siblings, child.Everywhere Alignable)
    (each : ∀ child ∈ siblings, child.isBlock = true → LaidMargined setting child)
    (index : Nat) (waiting : Strand) (even : ∀ content ∈ waiting.codes, Even content)
    (text : List Char)
    (meant : layoutBelow setting siblings parent place index inner wraps waiting = .ok text) :
    EachLine (Margined inner) text := by
  induction siblings generalizing index waiting text with
  | nil =>
      rw [layoutBelow] at meant
      obtain rfl := Except.ok.inj meant
      exact margined_laid undebugged even wraps
  | cons child rest inductionHypothesis =>
      have others := inductionHypothesis
        (fun other present => alignable other (List.mem_cons_of_mem child present))
        (fun other present => each other (List.mem_cons_of_mem child present)) (index + 1)
      rw [layoutBelow] at meant
      cases placed : child.isBlock with
      | true =>
          rw [if_pos placed] at meant
          obtain ⟨piece, pieced, meant⟩ := exists_of_bind_eq_ok meant
          obtain ⟨after, rested, meant⟩ := exists_of_bind_eq_ok meant
          cases meant
          have closed := Strand.closed_laid setting.options inner wraps waiting
          have front := (margined_laid undebugged even wraps).append closed
            (each child (by simp) placed _ inner piece pieced)
          exact front.append (closed.append (closed_layoutOf placed pieced))
            (others _ even_codes_nil after rested)
      | false =>
          rw [if_neg (by simp [placed])] at meant
          obtain ⟨strand, found, meant⟩ := exists_of_bind_eq_ok meant
          have strandEven := codes_strandOf child (fun inner present code =>
            (alignable child (by simp) inner present).code (Or.inl code)) placed _ strand found
          refine others _ ?_ text meant
          rw [Strand.codes_append]
          exact List.forall_mem_append.mpr ⟨even, strandEven⟩

/-- The body of a frame stands behind its indentation. -/
theorem margined_body {node : Node} (alignable : node.Everywhere Alignable)
    (each : ∀ child ∈ node.children, child.isBlock = true → LaidMargined setting child)
    {place : Place} {inner : Nat} {body : List Char}
    (laid : layoutBelow setting node.children node place 0 inner (wrapsAt node place) (.run []) =
      .ok body) : EachLine (Margined inner) body :=
  margined_layoutBelow undebugged (fun _ present => alignable.below present) each 0 _
    even_codes_nil body laid

/-- A block in a frame stands behind its indentation with the blocks among its
children. -/
theorem laidMargined_of_frame {node : Node} (known : node.kind.isKnown = true)
    (alignable : node.Everywhere Alignable)
    (each : ∀ child ∈ node.children, child.isBlock = true → LaidMargined setting child)
    {place : Place} {indent : Nat} {frame : Frame}
    (framed : frame? setting.options node indent = some frame) {text : List Char}
    (meant : layoutOf setting node place indent = .ok text) : EachLine (Margined indent) text := by
  rw [layoutOf_of_frame known framed] at meant
  obtain ⟨body, laid, meant⟩ := exists_of_bind_eq_ok meant
  cases meant
  have bodyMargined := margined_body undebugged alignable each laid
  have narrow (less : indent ≤ frame.inner) : EachLine (Margined indent) body :=
    bodyMargined.imp fun _ margined => margined.mono less
  have trimmed {text : List Char} (margined : EachLine (Margined indent) text) :
      EachLine (Margined indent) (trimTail false text ++ ['\n']) :=
    EachLine.newline Margined.nil (margined.trimTail Margined.nil fun _ => Margined.trimEnd)
  rcases frame_cases framed with ⟨extra, -, rfl⟩ | ⟨bullet, shaped, rfl⟩ | ⟨-, rfl⟩
  · exact trimmed (narrow (Nat.le_add_right _ _))
  · have whole : '\n' ∉ bullet := bulletShown_of_hanging shaped ▸ alignable.here.bullet
    have less : indent ≤ indent + Columns.ofText bullet + 1 := by omega
    have front (behind : List Char) : Margined indent (spaces indent ++ bullet ++ behind) :=
      Margined.of_spaces (by rw [List.append_assoc]; exact List.prefix_append _ _)
    refine trimmed (EachLine.hang Margined.nil whole ?_
      (fun line _ _ => front _) (fun line margined => margined.mono less) bodyMargined)
    exact Margined.of_spaces (List.prefix_append _ _)
  · have between := margined_between setting.options.ruleWidth
      (trimmed (narrow (Nat.le_add_right _ _))) (closed_newline _)
    simpa [Frame.quote] using between

omit undebugged in
/-- A leaf that is a block is a rule or code, or it has no text. -/
theorem laidMargined_of_leaf {node : Node} (known : node.kind.isKnown = true)
    (alignable : Alignable node) (leaf : shape setting.options node = .leaf)
    (block : node.isBlock = true) : LaidMargined setting node := by
  intro place indent text meant
  rw [layoutOf_of_leaf known leaf] at meant
  rcases leaf_of_block block leaf with rule | code | raw | suppressed
  · rw [leafMeaning_of_rule rule] at meant
    obtain rfl := Except.ok.inj meant
    exact margined_rule _ indent
  · rw [leafMeaning_of_codeblock code] at meant
    obtain rfl := Except.ok.inj meant
    exact margined_verbatim _ (alignable.code (Or.inr code))
  · rw [alignable.noRaw raw] at block
    cases block
  · rw [leafMeaning, leafText_of_suppressed suppressed] at meant
    obtain rfl := Except.ok.inj meant
    exact EachLine.nil Margined.nil

variable (separated : ∀ separator, setting.options.cellSeparator = some separator →
  '\n' ∉ separator.toList)

include separated

/-- By induction on the tree, every block stands behind its indentation. -/
theorem laidMargined (node : Node) (alignable : node.Everywhere Alignable)
    (block : node.isBlock = true) : LaidMargined setting node := by
  induction node using Node.induction_on_children with
  | step node inductionHypothesis =>
      have each (child : Node) (present : child ∈ node.children) :=
        inductionHypothesis child present (alignable.below present)
      intro place indent text meant
      cases known : node.kind.isKnown with
      | false =>
          rw [layoutOf_of_unknown known] at meant
          cases meant
      | true =>
          rcases block_cases setting.options block indent with ⟨frame, framed⟩ | row | math | leaf
          · exact laidMargined_of_frame undebugged known alignable each framed meant
          · rw [layoutOf_of_row row] at meant
            obtain ⟨cells, celled, meant⟩ := exists_of_bind_eq_ok meant
            split at meant
            · rename_i separator found
              obtain rfl := Except.ok.inj meant
              exact margined_rowLine (separated separator found) (newline_not_mem_cellsBelow celled)
                indent
            · cases meant
          · rw [layoutOf_of_math (kind_of_math math)] at meant
            obtain ⟨strand, found, meant⟩ := exists_of_bind_eq_ok meant
            obtain rfl := Except.ok.inj meant
            have even := codes_strandBelow (fun _ present => codes_strandOf _
              fun inner inside code => (alignable.below present inner inside).code (Or.inl code))
              node place 0 found
            refine margined_laid undebugged ?_ false
            rw [Strand.codes_join]
            split
            · exact even_codes_nil
            · exact even
          · exact laidMargined_of_leaf known alignable.here leaf block place indent text meant

/-- A block with a bullet hangs under it. -/
theorem hangs_layoutOf {node : Node} (alignable : node.Everywhere Alignable)
    {bullet : List Char} (shaped : shape setting.options node = .hanging bullet) {place : Place}
    {indent : Nat} {text : List Char} (meant : layoutOf setting node place indent = .ok text) :
    Hangs bullet indent text := by
  have framed : frame? setting.options node indent = some (.hanging bullet indent) := by
    rw [frame?, shaped]
  have known : node.kind.isKnown = true := by
    cases known : node.kind.isKnown with
    | true => rfl
    | false =>
        rw [layoutOf_of_unknown known] at meant
        cases meant
  have each (child : Node) (present : child ∈ node.children) :=
    laidMargined undebugged separated child (alignable.below present)
  rw [layoutOf_of_frame known framed] at meant
  obtain ⟨body, laid, meant⟩ := exists_of_bind_eq_ok meant
  obtain rfl := Except.ok.inj meant
  have whole : '\n' ∉ bullet := bulletShown_of_hanging shaped ▸ alignable.here.bullet
  exact (hangs_hang whole
    (margined_body undebugged alignable each laid)).trimTail (shown_of_hanging shaped)
    (trimEnd_of_hanging shaped)

/-! ## Conversions -/

/-- Blocks stand behind the indentation that they are given, and hang under their
bullets: without debugging, and whatever code is held before, each line of a block that
shows something begins with the spaces of its indentation, and the first line of an item
or of a numbered heading is led by its bullet, below which the other lines stand behind
the columns of the bullet and a space.  What stands between the cells of a row may be
any text without newlines, unless the row is flattened into a span. -/
theorem convert_hangs {node : Node} (settled : node.Everywhere (Settled setting))
    (plainly : FlattensPlainly setting.options node)
    (alignable : node.Everywhere Alignable) (block : node.isBlock = true)
    (place : Place) (indent : Nat) (before : Workspace) {text : List Char}
    (returned : (outcome (convert setting node place indent) before).1 = .ok text) :
    (∀ line ∈ lines text, allBlank line = false → spaces indent <+: line) ∧
      (bulletShown node ≠ [] → Hangs (bulletShown node) indent text) := by
  rcases convert_eq_layoutOf_or_overfull undebugged settled plainly block place indent before with
    same | ⟨fault, stopped, -⟩
  · rw [same] at returned
    exact ⟨laidMargined undebugged separated node alignable block place indent text returned,
      fun bulleted => hangs_layoutOf undebugged separated alignable
        (shape_of_bulletShown setting.options bulleted) returned⟩
  · rw [stopped] at returned
    cases returned

end Blocks

/-- A numbered heading with items in each other on its first line, with code and with
words that are wrapped, an empty item, a quote, a rule and a row. -/
def stackedHeading : Node :=
  { kind := .header
    payload := .heading { level := .one, fullMark := some "1.漢" }
    children := [
      { kind := .listItem
        payload := .item { mark := "b" }
        children := [
          { kind := .listItem
            children := [
              { kind := .inlineCode, payload := .text "x\n\n y" },
              { kind := .text, payload := .text "words to wrap" }] },
          { kind := .listItem },
          { kind := .blockquote, children := [{ kind := .text, payload := .text "as said" }] }] },
      { kind := .horizontalRule },
      { kind := .tableRow
        children := [
          { kind := .tableCell, children := [{ kind := .text, payload := .text "a" }] },
          { kind := .tableCell, children := [{ kind := .text, payload := .text "b" }] }] }] }

/-- Options that leave little room beside short rules, with a separator that spells a
placeholder. -/
def tight : Options := { maxColumn := 22, ruleWidth := 3, cellSeparator := some "\x000\x00" }

theorem settled_stackedHeading : stackedHeading.Everywhere (Settled { options := tight }) := by
  have bare : ∀ inner ∈ stackedHeading.walk,
      inner.payload.NulFree ∧ inner.attributes = [] ∧ inner.options = [] ∧
        (inner.kind = .tableRow → ∀ child ∈ inner.children, child.isBlock = true) ∧
        inner.kind ≠ .reference := by decide +kernel
  intro inner present
  obtain ⟨payload, attributes, options, cells, noReference⟩ := bare inner present
  exact ⟨nulFree_bare payload attributes options, cells,
    fun reference => absurd reference noReference⟩

/-- The text of the heading. -/
def stackedHeadingText : List Char :=
  (" 1.漢) (b) * ---\n             x\n\n              y\n             ---\n" ++
    "             words to\n             wrap\n           *\n           ---\n" ++
    "               as said\n           ---\n       ---------------\n       a\x000\x00b\n").toList

/-- All that is shown below the first line stands behind the seven columns of the
indentation, the section number with its wide character and parenthesis, and a space. -/
theorem convert_hangs_stackedHeading :
    bulletShown stackedHeading = "1.漢)".toList ∧
      (outcome (convert { options := tight } stackedHeading Place.alone 1)
        { held := ["old".toList] }).1 = .ok stackedHeadingText ∧
      (∀ line ∈ lines stackedHeadingText, allBlank line = false → spaces 1 <+: line) ∧
      Hangs "1.漢)".toList 1 stackedHeadingText := by
  have alignable : ∀ inner ∈ stackedHeading.walk, Alignable inner := by decide +kernel
  have separated : ∀ separator, tight.cellSeparator = some separator → '\n' ∉ separator.toList := by
    rintro separator ⟨⟩
    decide
  have plainly : FlattensPlainly tight stackedHeading := by decide +kernel
  have returned : (outcome (convert { options := tight } stackedHeading Place.alone 1)
      { held := ["old".toList] }).1 = .ok stackedHeadingText :=
    eq_ok_of_toOption (by decide +kernel)
  have bulleted : bulletShown stackedHeading = "1.漢)".toList := by decide +kernel
  obtain ⟨margined, hangs⟩ := convert_hangs rfl separated settled_stackedHeading plainly
      alignable rfl
    Place.alone 1 _ returned
  rw [bulleted] at hangs
  exact ⟨bulleted, returned, margined, hangs (by decide)⟩

/-- Between the cells of a row that is flattened, a separator that spells a placeholder
shows the code of the row once more, at no indentation.  No string of the tree holds
NUL, the row has cells only, and the separator has no newline. -/
theorem convert_unaligned_codedRow :
    codedRow.isBlock = true ∧ codedRow.Everywhere Node.NulFree ∧ codedRow.Everywhere Faithful ∧
      codedRow.Everywhere Alignable ∧
      (∀ separator ∈ spelledPlaceholder.cellSeparator, '\n' ∉ separator.toList) ∧
      ∃ text, (outcome (convert { options := spelledPlaceholder } codedRow Place.alone 2) {}).1 =
          .ok text ∧
        ∃ line ∈ lines text, allBlank line = false ∧ ¬ spaces 2 <+: line := by
  have alignable : ∀ inner ∈ codedRow.walk, Alignable inner := by decide +kernel
  refine ⟨rfl, codedRow_nulFree, codedRow_faithful, alignable, by decide,
    "  --- x ---\n---\nx\n---\n  b\n".toList, eq_ok_of_toOption (by decide +kernel), ?_⟩
  exact ⟨"x".toList, by decide +kernel, by decide, by decide⟩

end Layout
end Galley
