import Galley.Proofs.Layout.EachLine
import Galley.Proofs.Layout.Indentation
import Galley.Proofs.Wrap.Widths

/-!
# Wrapped blocks fit the column budget

A block without quotes, code, rows and verbatim math or markup, laid out where some
columns are left at each indentation that is reached, has no line beyond the budget.
Widths alone do not carry the induction: where a body hangs under a bullet, the first
line that shows something exchanges its spaces for the bullet, so that the spaces that
each line begins with are followed along with its width.
-/

namespace Galley
namespace Layout

open Text

/-! ## Lines within a number of columns -/

/-- A line is within some columns, and what it shows stands behind a margin of spaces. -/
structure Bounded (columns margin : Nat) (line : List Char) : Prop where
  /-- The line is within the columns. -/
  width : Columns.ofText line ≤ columns
  /-- What the line shows stands behind the margin. -/
  indented : allBlank line = false → spaces margin <+: line

/-- Every line of a text is bounded. -/
def Fitted (columns margin : Nat) (text : List Char) : Prop :=
  ∀ line ∈ lines text, Bounded columns margin line

section Lines

variable {columns margin inner : Nat} {line text first second : List Char}

@[simp] theorem ofText_spaces (count : Nat) : Columns.ofText (spaces count) = count :=
  Columns.ofText_replicate_space count

namespace Bounded

theorem of_blank (blank : allBlank line = true) (width : Columns.ofText line ≤ columns) :
    Bounded columns margin line :=
  ⟨width, fun shown => by rw [blank] at shown; cases shown⟩

theorem nil : Bounded columns margin [] := of_blank rfl (Nat.zero_le _)

/-- A wide margin begins with a narrow one. -/
theorem mono (bounded : Bounded columns inner line) (less : margin ≤ inner) :
    Bounded columns margin line := by
  refine ⟨bounded.width, fun shown => List.IsPrefix.trans ?_ (bounded.indented shown)⟩
  refine ⟨spaces (inner - margin), ?_⟩
  rw [spaces_append, Nat.add_sub_cancel' less]

theorem trimEnd (bounded : Bounded columns margin line) :
    Bounded columns margin (Text.trimEnd line) := by
  have part : (Text.trimEnd line).Sublist line := dropEndWhile_sublist isBlank line
  refine ⟨Nat.le_trans (Columns.ofText_le_of_sublist part) bounded.width, fun shown => ?_⟩
  rw [allBlank_trimEnd] at shown
  exact spaces_prefix_trimEnd shown (bounded.indented shown)

/-- A line is laid out within as many columns as its indentation and its text take. -/
theorem layLine {indent : Nat} (width : indent + Columns.ofText line ≤ columns) :
    Bounded columns indent (layLine false indent line) := by
  cases shown : allBlank line with
  | true =>
      rw [layLine_of_blank shown]
      exact of_blank shown (by omega)
  | false =>
      rw [layLine_of_shown shown]
      refine trimEnd ⟨?_, fun _ => List.prefix_append _ _⟩
      rwa [Columns.ofText_append, ofText_spaces]

end Bounded

namespace Fitted

theorem nil : Fitted columns margin [] := EachLine.nil Bounded.nil

/-- A single line is fitted where it is bounded. -/
theorem of_bounded (whole : '\n' ∉ line) (bounded : Bounded columns margin line) :
    Fitted columns margin line :=
  EachLine.of_whole whole bounded

theorem mono (fitted : Fitted columns inner text) (less : margin ≤ inner) :
    Fitted columns margin text :=
  EachLine.imp fitted fun _ bounded => bounded.mono less

theorem newline (fitted : Fitted columns margin text) : Fitted columns margin (text ++ ['\n']) :=
  EachLine.newline Bounded.nil fitted

theorem append (fitted : Fitted columns margin first) (closed : Closed first)
    (behind : Fitted columns margin second) : Fitted columns margin (first ++ second) :=
  EachLine.append fitted closed behind

theorem trimTail (fitted : Fitted columns margin text) :
    Fitted columns margin (trimTail false text) :=
  EachLine.trimTail Bounded.nil (fun _ => Bounded.trimEnd) fitted

end Fitted

/-- A body hangs under a bullet within its own columns: the margin of its first line
that shows something is as wide as the bullet that takes its place. -/
theorem fitted_hang {bullet body : List Char} {indent : Nat} (whole : '\n' ∉ bullet)
    (room : indent + Columns.ofText bullet + 1 ≤ columns)
    (fitted : Fitted columns (indent + Columns.ofText bullet + 1) body) :
    Fitted columns indent
      (hang false bullet indent (indent + Columns.ofText bullet + 1) body) := by
  refine EachLine.hang Bounded.nil whole ⟨?_, fun _ => List.prefix_append _ _⟩ ?_
    (fun line bounded => bounded.mono (by omega)) fitted
  · rw [Columns.ofText_append, ofText_spaces]
    omega
  · intro line bounded shown
    obtain ⟨behind, rfl⟩ := bounded.indented shown
    rw [drop_margin]
    refine ⟨?_, fun _ => ?_⟩
    · -- The bullet and the space behind it are as wide as the margin that they replace.
      have width := bounded.width
      have space : Columns.ofChar ' ' = 1 := rfl
      simp only [Columns.ofText_append, Columns.ofText_cons, ofText_spaces, space] at width ⊢
      omega
    · rw [List.append_assoc]
      exact List.prefix_append _ _

end Lines

/-! ## Regions -/

section Regions

variable {options : Options} (undebugged : options.debug = false) (wrapped : options.wraps = true)
  {indent : Nat} (room : indent + 2 ≤ options.maxColumn)

include room in
/-- Wrapping leaves the columns of the indentation free on each line. -/
theorem ofText_le_of_mem_wrap (text : List Char) :
    ∀ line ∈ lines (Wrap.wrap false ((options.maxColumn : Int) - indent) text),
      indent + Columns.ofText line ≤ options.maxColumn := by
  have budget : Wrap.budget ((options.maxColumn : Int) - indent) = options.maxColumn - indent := by
    unfold Wrap.budget
    omega
  rw [Wrap.lines_wrap, budget]
  intro line present
  obtain ⟨hard, -, inside⟩ := List.mem_flatMap.mp present
  have fits := (Wrap.fits_wrapLine _ hard line inside).ofText_le (by omega)
  omega

include undebugged wrapped room in
/-- A region of wrapped text is fitted. -/
theorem fitted_fillRun (text : List Char) :
    Fitted options.maxColumn indent (Strand.fillRun options indent true text) := by
  unfold Strand.fillRun
  split
  · exact Fitted.nil
  · unfold fill
    simp only [undebugged, wrapped, Bool.and_self, if_true]
    have narrow := ofText_le_of_mem_wrap room (trimTextStart false text)
    generalize Wrap.wrap false _ _ = flowed at narrow ⊢
    refine (Fitted.trimTail ?_).newline
    exact EachLine.unlines Bounded.nil
      (List.forall_mem_map.mpr fun line listed => newline_not_mem_layLine
          (not_mem_of_mem_lines listed))
      (List.forall_mem_map.mpr fun line present => Bounded.layLine (narrow line present))

include room in
/-- A rule takes all columns behind its indentation. -/
theorem fitted_horizontalRule :
    Fitted options.maxColumn indent (horizontalRule options.maxColumn indent) := by
  have dashes (count : Nat) : Columns.ofText (List.replicate count '-') = count := by
    induction count with
    | zero => rfl
    | succ fewer inductionHypothesis =>
        have dash : Columns.ofChar '-' = 1 := rfl
        rw [List.replicate_succ, Columns.ofText_cons, inductionHypothesis, dash, Nat.add_comm]
  refine (Fitted.of_bounded (whole_rule _ indent) ⟨?_, fun _ => List.prefix_append _ _⟩).newline
  rw [rule, Columns.ofText_append, ofText_spaces, dashes]
  omega

end Regions

/-! ## Nodes -/

/-- The lines of a node come from wrapped text, bullets and rules that fill what the
indentation leaves. -/
structure Flowing (options : Options) (node : Node) : Prop where
  /-- The node is no quote, in which text is not wrapped. -/
  noQuote : node.kind ≠ .blockquote
  /-- The node is no code, which stands as it is. -/
  noCode : node.kind ≠ .codeblock ∧ node.kind ≠ .inlineCode
  /-- The node is no row, which stands on one line. -/
  noRow : node.kind ≠ .tableRow
  /-- Math is in the flow of a span. -/
  math : node.kind = .math → node.isBlock = false
  /-- Raw content is in the flow of a span. -/
  raw : node.kind = .rawPassthrough → node.isBlock = false
  /-- The bullet of the node has no newline. -/
  bullet : ∀ bullet, shape options node = .hanging bullet → '\n' ∉ bullet

instance (options : Options) (node : Node) : Decidable (Flowing options node) :=
  decidable_of_iff
    (node.kind ≠ .blockquote ∧ (node.kind ≠ .codeblock ∧ node.kind ≠ .inlineCode) ∧
      node.kind ≠ .tableRow ∧ (node.kind = .math → node.isBlock = false) ∧
      (node.kind = .rawPassthrough → node.isBlock = false) ∧
      '\n' ∉ (shape options node).bullet)
    ⟨fun ⟨noQuote, noCode, noRow, math, raw, bullet⟩ =>
      ⟨noQuote, noCode, noRow, math, raw, not_mem_bullet_iff.mp bullet⟩,
      fun flowing => ⟨flowing.noQuote, flowing.noCode, flowing.noRow, flowing.math, flowing.raw,
        not_mem_bullet_iff.mpr flowing.bullet⟩⟩

mutual

/-- The indentations that are reached where a block is laid out: its own, the one behind
its bullet, and those of its children. -/
def reached (options : Options) (node : Node) (indent : Nat) : List Nat :=
  match node with
  | ⟨kind, payload, attributes, fields, children⟩ =>
      match shape options ⟨kind, payload, attributes, fields, children⟩ with
      | .region extra => indent :: reachedBelow options children (indent + extra)
      | .hanging bullet =>
          let inner := indent + Columns.ofText bullet + 1
          indent :: inner :: reachedBelow options children inner
      | .quote => indent :: reachedBelow options children (indent + options.quoteIndent)
      | _ => [indent]
termination_by structural node

/-- The indentations that are reached where siblings are laid out. -/
def reachedBelow (options : Options) (siblings : List Node) (inner : Nat) : List Nat :=
  match siblings with
  | [] => []
  | child :: rest => reached options child inner ++ reachedBelow options rest inner
termination_by structural siblings

end

theorem reachedBelow_eq_flatMap (options : Options) (siblings : List Node) (inner : Nat) :
    reachedBelow options siblings inner = siblings.flatMap (reached options · inner) := by
  induction siblings with
  | nil => rfl
  | cons child rest inductionHypothesis =>
      rw [reachedBelow, inductionHypothesis, List.flatMap_cons]

theorem reached_of_region {options : Options} {node : Node} {extra : Nat}
    (shaped : shape options node = .region extra) (indent : Nat) :
    reached options node indent =
      indent :: node.children.flatMap (reached options · (indent + extra)) := by
  obtain ⟨kind, payload, attributes, fields, children⟩ := node
  rw [reached]
  simp only [shaped, reachedBelow_eq_flatMap]

theorem reached_of_hanging {options : Options} {node : Node} {bullet : List Char}
    (shaped : shape options node = .hanging bullet) (indent : Nat) :
    reached options node indent =
      indent :: (indent + Columns.ofText bullet + 1) ::
        node.children.flatMap (reached options · (indent + Columns.ofText bullet + 1)) := by
  obtain ⟨kind, payload, attributes, fields, children⟩ := node
  rw [reached]
  simp only [shaped, reachedBelow_eq_flatMap]

/-- The indentation of a node itself is reached. -/
theorem mem_reached (options : Options) (node : Node) (indent : Nat) :
    indent ∈ reached options node indent := by
  obtain ⟨kind, payload, attributes, fields, children⟩ := node
  rw [reached]
  dsimp only
  split <;> exact List.mem_cons_self

/-! ## Blocks -/

section Blocks

variable {setting : Setting}

/-- Outside of quotes, and with room for two columns at each indentation that is
reached, a block is laid out within the budget. -/
def LaidFitted (setting : Setting) (node : Node) : Prop :=
  ∀ place indent text, place.within .blockquote = false →
    (∀ margin ∈ reached setting.options node indent, margin + 2 ≤ setting.options.maxColumn) →
      layoutOf setting node place indent = .ok text → Fitted setting.options.maxColumn indent text

/-- Below a node of another kind, nothing of a kind encloses more than before. -/
theorem within_enter {node : Node} {kind : Kind} {place : Place} (other : node.kind ≠ kind)
    (outside : place.within kind = false) (index : Nat) :
    (place.enter node index).within kind = false := by
  unfold Place.enter
  split
  · simpa [Place.within, other] using outside
  · exact outside

variable (undebugged : setting.options.debug = false) (wrapped : setting.options.wraps = true)

include undebugged wrapped

/-- Siblings whose blocks are fitted are fitted, with the text that waits before them. -/
theorem fitted_layoutBelow {siblings : List Node} {parent : Node} {place : Place} {inner : Nat}
    (flowing : ∀ child ∈ siblings, child.Everywhere (Flowing setting.options))
    (each : ∀ child ∈ siblings, child.isBlock = true → LaidFitted setting child)
    (outside : ∀ index, (place.enter parent index).within .blockquote = false)
    (room : inner + 2 ≤ setting.options.maxColumn)
    (deeper : ∀ child ∈ siblings, ∀ margin ∈ reached setting.options child inner,
      margin + 2 ≤ setting.options.maxColumn)
    (index : Nat) (waiting text : List Char)
    (meant : layoutBelow setting siblings parent place index inner true (.run waiting) = .ok text) :
    Fitted setting.options.maxColumn inner text := by
  have front (run : List Char) := fitted_fillRun undebugged wrapped room run
  induction siblings generalizing index waiting text with
  | nil =>
      rw [layoutBelow] at meant
      cases meant
      exact front waiting
  | cons child rest inductionHypothesis =>
      have others := inductionHypothesis
        (fun other present => flowing other (List.mem_cons_of_mem child present))
        (fun other present => each other (List.mem_cons_of_mem child present))
        (fun other present => deeper other (List.mem_cons_of_mem child present))
      rw [layoutBelow] at meant
      cases placed : child.isBlock with
      | true =>
          rw [if_pos placed] at meant
          obtain ⟨piece, pieced, meant⟩ := exists_of_bind_eq_ok meant
          obtain ⟨after, rested, meant⟩ := exists_of_bind_eq_ok meant
          cases meant
          have closed := closed_fillRun setting.options inner true waiting
          have pieceFitted := each child (by simp) placed _ inner piece (outside index)
            (deeper child (by simp)) pieced
          have afterFitted := others (index + 1) [] after rested
          exact ((front waiting).append closed pieceFitted).append
            (closed.append (closed_layoutOf placed pieced)) afterFitted
      | false =>
          rw [if_neg (by simp [placed])] at meant
          obtain ⟨strand, found, meant⟩ := exists_of_bind_eq_ok meant
          obtain ⟨run, rfl⟩ := exists_run_of_strandOf
            ((flowing child (by simp)).imp fun _ each => each.noCode.2) placed _ found
          exact others (index + 1) (waiting ++ run) text meant

/-- A block in a frame is fitted with the blocks among its children. -/
theorem laidFitted_of_frame {node : Node} (known : node.kind.isKnown = true)
    (flowing : node.Everywhere (Flowing setting.options))
    (each : ∀ child ∈ node.children, child.isBlock = true → LaidFitted setting child)
    {place : Place} (outside : place.within .blockquote = false) {indent : Nat}
    (room : ∀ margin ∈ reached setting.options node indent, margin + 2 ≤ setting.options.maxColumn)
    {frame : Frame} (framed : frame? setting.options node indent = some frame) {text : List Char}
    (meant : layoutOf setting node place indent = .ok text) :
    Fitted setting.options.maxColumn indent text := by
  have wraps : wrapsAt node place = true := by
    simp [wrapsAt, outside, flowing.here.noQuote]
  rw [layoutOf_of_frame known framed, wraps] at meant
  obtain ⟨body, laid, meant⟩ := exists_of_bind_eq_ok meant
  cases meant
  have below (own : frame.inner + 2 ≤ setting.options.maxColumn)
      (deeper : ∀ child ∈ node.children, ∀ margin ∈ reached setting.options child frame.inner,
        margin + 2 ≤ setting.options.maxColumn) :
          Fitted setting.options.maxColumn frame.inner body :=
    fitted_layoutBelow undebugged wrapped (fun child present => flowing.below present) each
      (within_enter flowing.here.noQuote outside) own deeper 0 [] body laid
  rcases frame_cases framed with ⟨extra, shaped, rfl⟩ | ⟨bullet, shaped, rfl⟩ | ⟨shaped, -⟩
  · rw [reached_of_region shaped] at room
    obtain ⟨-, room⟩ := List.forall_mem_cons.mp room
    have deeper := List.forall_mem_flatMap.mp room
    refine (Fitted.trimTail ?_).newline
    refine Fitted.mono ?_ (Nat.le_add_right indent extra)
    -- Without children nothing is laid out at the inner indentation.
    cases children : node.children with
    | nil =>
        rw [children] at laid
        cases laid
        exact Fitted.nil
    | cons child rest =>
        have own := deeper child (by simp [children]) (indent + extra) (mem_reached _ _ _)
        exact below own deeper
  · rw [reached_of_hanging shaped] at room
    obtain ⟨-, room⟩ := List.forall_mem_cons.mp room
    obtain ⟨own, room⟩ := List.forall_mem_cons.mp room
    refine (Fitted.trimTail ?_).newline
    exact fitted_hang (flowing.here.bullet bullet shaped) (by omega)
      (below own (List.forall_mem_flatMap.mp room))
  · exact absurd (kind_of_quote shaped) flowing.here.noQuote

omit undebugged wrapped in
/-- A leaf that is a block is a rule that fills its line, or it has no text. -/
theorem laidFitted_of_leaf {node : Node} (known : node.kind.isKnown = true)
    (flowing : Flowing setting.options node) (leaf : shape setting.options node = .leaf)
    (block : node.isBlock = true) : LaidFitted setting node := by
  intro place indent text outside room meant
  rw [layoutOf_of_leaf known leaf] at meant
  rcases leaf_of_block block leaf with rule | code | raw | suppressed
  · rw [leafMeaning_of_rule rule] at meant
    cases meant
    exact fitted_horizontalRule (room indent (mem_reached _ _ _))
  · exact absurd code flowing.noCode.1
  · rw [flowing.raw raw] at block
    cases block
  · rw [leafMeaning, leafText_of_suppressed suppressed] at meant
    cases meant
    exact Fitted.nil

/-- By induction on the tree, every block is fitted. -/
theorem laidFitted (node : Node) (flowing : node.Everywhere (Flowing setting.options))
    (block : node.isBlock = true) : LaidFitted setting node := by
  induction node using Node.induction_on_children with
  | step node inductionHypothesis =>
      have each (child : Node) (present : child ∈ node.children) :=
        inductionHypothesis child present (flowing.below present)
      intro place indent text outside room meant
      cases known : node.kind.isKnown with
      | false =>
          rw [layoutOf_of_unknown known] at meant
          cases meant
      | true =>
          rcases block_cases setting.options block indent with ⟨frame, framed⟩ | row | math | leaf
          · exact laidFitted_of_frame undebugged wrapped known flowing each outside room
              framed meant
          · exact absurd (kind_of_row row) flowing.here.noRow
          · rw [flowing.here.math (kind_of_math math)] at block
            cases block
          · exact laidFitted_of_leaf known flowing.here leaf block place indent text
              outside room meant

/-! ## Conversions -/

/-- Wrapped output fits the column budget at every depth: without debugging, and
whatever code is held before, no line of a block outside of quotes is wider than the
budget, where at each indentation that is reached there is room for two columns. -/
theorem convert_fits {node : Node} (settled : node.Everywhere (Settled setting))
    (flowing : node.Everywhere (Flowing setting.options)) (block : node.isBlock = true)
    {place : Place} (outside : place.within .blockquote = false) {indent : Nat}
    (room : ∀ margin ∈ reached setting.options node indent, margin + 2 ≤ setting.options.maxColumn)
    (before : Workspace) {text : List Char}
    (returned : (outcome (convert setting node place indent) before).1 = .ok text) :
    ∀ line ∈ lines text, Columns.ofText line ≤ setting.options.maxColumn := by
  have plainly : FlattensPlainly setting.options node :=
    .of_noRow (flowing.imp fun _ each => each.noRow)
  rcases convert_eq_layoutOf_or_overfull undebugged settled plainly block place indent before with
    same | ⟨fault, stopped, -⟩
  · rw [same] at returned
    have fitted := laidFitted undebugged wrapped node flowing block place indent text outside room
      returned
    exact fun line present => (fitted line present).width
  · rw [stopped] at returned
    cases returned

end Blocks

/-- A description with wide characters, a line break, a word wider than the budget,
items in each other, a rule and an item without text. -/
def nestedDescription : Node :=
  { kind := .definitionDescription
    children := [
      { kind := .text, payload := .text "a 漢字 word that is" },
      { kind := .lineBreak },
      { kind := .strong, children := [{ kind := .text, payload := .text "unbreakable-and-long" }] },
      { kind := .listItem
        payload := .item { mark := "10" }
        children := [
          { kind := .text, payload := .text "漢字漢字かな" },
          { kind := .listItem, children := [{ kind := .text, payload := .text "deep down" }] },
          { kind := .horizontalRule }] },
      { kind := .listItem, payload := .item { mark := "漢" } }] }

/-- Options that leave little room. -/
def cramped : Options := { maxColumn := 14 }

theorem settled_nestedDescription :
    nestedDescription.Everywhere (Settled { options := cramped }) := by
  have bare : ∀ inner ∈ nestedDescription.walk,
      inner.payload.NulFree ∧ inner.attributes = [] ∧ inner.options = [] ∧
        inner.kind ≠ .tableRow ∧ inner.kind ≠ .reference := by decide +kernel
  intro inner present
  obtain ⟨payload, attributes, options, noRow, noReference⟩ := bare inner present
  exact ⟨nulFree_bare payload attributes options, fun row => absurd row noRow,
    fun reference => absurd reference noReference⟩

/-- The text of the description. -/
def nestedDescriptionText : List Char :=
  ("   a 漢字 word\n   that is\n   unbreakable\n   -and-long\n   (10) 漢字漢\n" ++
    "        字かな\n        * deep\n          down\n        ------\n   (漢)\n").toList

/-- Ten columns of indentation are reached, and no line has more than the fourteen of
the budget. -/
theorem convert_fits_nestedDescription :
    (∀ margin ∈ reached cramped nestedDescription 1, margin + 2 ≤ 14) ∧
      (outcome (convert { options := cramped } nestedDescription Place.alone 1)
        { held := ["old".toList] }).1 = .ok nestedDescriptionText ∧
      ∀ line ∈ lines nestedDescriptionText, Columns.ofText line ≤ 14 := by
  have flowing : ∀ inner ∈ nestedDescription.walk, Flowing cramped inner := by decide +kernel
  have room : ∀ margin ∈ reached cramped nestedDescription 1, margin + 2 ≤ 14 := by decide +kernel
  have returned : (outcome (convert { options := cramped } nestedDescription Place.alone 1)
      { held := ["old".toList] }).1 = .ok nestedDescriptionText :=
    eq_ok_of_toOption (by decide +kernel)
  exact ⟨room, returned, convert_fits rfl rfl settled_nestedDescription flowing rfl rfl
    room _ returned⟩

end Layout
end Galley
