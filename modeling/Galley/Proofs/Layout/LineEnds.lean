import Galley.Proofs.Layout.Codeless
import Galley.Proofs.Layout.EachLine
import Galley.Proofs.Layout.Indentation
import Galley.Proofs.Layout.Rendering
import Galley.Proofs.Layout.Sites
import Galley.Proofs.Numbering.Bullets
import Galley.Proofs.Wrap.Ends

/-!
# Ends of lines

Where nothing stands verbatim, no line of a rendered text that shows something has
blanks at its end, and the text ends with a single newline.  A line that shows nothing
may have blanks in one case only: it stands inside a run of span text that is not
wrapped.
-/

namespace Galley
namespace Layout

open Text

/-! ## Lines -/

/-- The last character of a line is not blank. -/
def Unpadded (line : List Char) : Prop :=
  ∀ front last, line = front ++ [last] → isBlank last = false

/-- A line that shows something has no blanks at its end, and if asked for neither has
any other. -/
def Tidy (all : Prop) (line : List Char) : Prop :=
  allBlank line = false ∨ all → Text.trimEnd line = line

/-- Between its first and its last line that show something, a run has no line of blanks
but empty ones. -/
def Smooth (run : List Char) : Prop :=
  ∀ line ∈ lines (Text.trim run), allBlank line = true → line = []

instance : DecidablePred Smooth := fun run =>
  List.decidableBAll (fun line => allBlank line = true → line = []) (lines (Text.trim run))

section Lines

variable {all : Prop} {line front back run : List Char}

theorem unpadded_of_trimEnd (trimmed : Text.trimEnd line = line) : Unpadded line := by
  rintro front last rfl
  cases blank : isBlank last with
  | false => rfl
  | true =>
      have shorter := congrArg List.length trimmed
      rw [Text.trimEnd, dropEndWhile_append_singleton, if_pos blank] at shorter
      have less := (dropEndWhile_sublist isBlank front).length_le
      simp only [List.length_append, List.length_singleton] at shorter
      omega

theorem Tidy.nil : Tidy all [] := fun _ => rfl

theorem tidy_trimEnd (line : List Char) : Tidy all (Text.trimEnd line) :=
  fun _ => trimEnd_trimEnd line

/-- What stands before a tidy text that shows something does not matter. -/
theorem Tidy.behind (tidy : Tidy all back) (shown : allBlank back = false) (front : List Char) :
    Tidy all (front ++ back) := by
  intro _
  rw [trimEnd_append_of_shown front shown, tidy (Or.inl shown)]

/-- A line is tidy once it is laid out, unless it is made of blanks. -/
theorem tidy_layLine (empty : all → allBlank line = true → line = []) (indent : Nat) :
    Tidy all (layLine false indent line) := by
  cases shown : allBlank line with
  | true =>
      rw [layLine_of_blank shown]
      rintro (shows | asked)
      · rw [shown] at shows
        cases shows
      · rw [empty asked shown]
        rfl
  | false =>
      rw [layLine_of_shown shown]
      exact tidy_trimEnd _

/-- A rule ends with its dashes. -/
theorem tidy_rule {width : Nat} (ruled : 0 < width) (indent : Nat) :
    Tidy all (rule width indent) := by
  have dash : isBlank '-' = false := by decide
  have dashes : ∀ character ∈ List.replicate width '-', isBlank character = false :=
    fun character present => by rw [List.eq_of_mem_replicate present, dash]
  have shown : allBlank (List.replicate width '-') = false := by
    obtain ⟨fewer, rfl⟩ := Nat.exists_eq_add_of_lt ruled
    rw [Nat.zero_add, List.replicate_succ, allBlank, List.all_cons, dash, Bool.false_and]
  have tidy : Tidy all (List.replicate width '-') := fun _ => trimEnd_of_unblank dashes
  exact tidy.behind shown _

/-- Behind a bullet, a tidy line that shows something stays tidy without some of its
first spaces. -/
theorem tidy_hung (tidy : Tidy all line) (shown : allBlank line = false) (inner : Nat)
    (front : List Char) :
    Tidy all (front ++ ' ' :: line.drop (min (line.takeWhile (· == ' ')).length inner)) := by
  generalize counted : min (line.takeWhile (· == ' ')).length inner = count
  have parts : line.take count ++ line.drop count = line := List.take_append_drop count line
  have blank : allBlank (line.take count) = true := by
    refine List.all_eq_true.mpr fun character present => ?_
    have lead := List.prefix_iff_eq_take.mp (List.takeWhile_prefix (· == ' ') (l := line))
    have within : character ∈ line.takeWhile (· == ' ') := by
      rw [lead]
      exact (List.take_sublist_take_left (by omega)).subset present
    obtain rfl : character = ' ' := by simpa using List.mem_takeWhile_imp within
    decide
  have restShown : allBlank (line.drop count) = false := by
    rw [← parts, allBlank_append, blank, Bool.true_and] at shown
    exact shown
  have restTidy : Tidy all (line.drop count) := by
    intro _
    have kept := tidy (Or.inl shown)
    rw [← parts] at kept
    exact trimEnd_of_append kept
  have whole := restTidy.behind restShown (front ++ [' '])
  rwa [List.append_assoc, List.singleton_append] at whole

/-- A bullet has no blanks at its end. -/
theorem tidy_of_hanging {options : Options} {node : Node} {bullet : List Char}
    (hanging : shape options node = .hanging bullet) : Tidy all bullet := by
  obtain ⟨front, last, rfl, shown⟩ := exists_last_of_hanging hanging
  have alone : Tidy all [last] := fun _ =>
    trimEnd_of_unblank (List.forall_mem_singleton.mpr shown)
  exact alone.behind (by simp [allBlank, shown]) front

/-- A run without newlines is smooth. -/
theorem smooth_of_whole (whole : '\n' ∉ run) : Smooth run := by
  have trimmedWhole : '\n' ∉ Text.trim run := not_mem_trimEnd fun present =>
    whole ((List.dropWhile_sublist isBlank).subset present)
  have alone : lines (Text.trim run) = [Text.trim run] :=
    lines_unlines (List.cons_ne_nil _ []) (List.forall_mem_singleton.mpr trimmedWhole)
  rw [Smooth, alone]
  refine List.forall_mem_singleton.mpr fun blank => ?_
  have none := trimEnd_of_blank blank
  rwa [Text.trim, trimEnd_trimEnd] at none

end Lines

/-! ## Regions -/

section Regions

variable {options : Options} (undebugged : options.debug = false) {all : Prop}

/-- The tail of an indented text is trimmed as its own tail is, so that only lines
before its last that shows something are left as they are. -/
theorem tidy_indentLines {text : List Char} (shown : allBlank text = false)
    (empty : all → ∀ line ∈ lines (Text.trimEnd text), allBlank line = true → line = [])
    (indent : Nat) : EachLine (Tidy all) (trimTail false (indentLines false indent text)) := by
  have whole : ∀ line ∈ lines text, '\n' ∉ line := fun line => not_mem_of_mem_lines
  have split := unlines_lines text
  rcases all_or_exists_last allBlank (lines text) with
    blank | ⟨front, line, back, parts, shows, blank⟩
  · have nothing := allBlank_unlines blank
    rw [split, shown] at nothing
    cases nothing
  · rw [parts] at whole split
    rw [← split, trimEnd_unlines shows blank, lines_unlines (by simp) (whole_cut whole)] at empty
    have laidWhole : ∀ other ∈ (front ++ line :: back).map (layLine false indent), '\n' ∉ other :=
      List.forall_mem_map.mpr fun other listed => newline_not_mem_layLine (whole other listed)
    have blankBack : ∀ other ∈ back.map (layLine false indent), isBlankLine false other = true :=
      List.forall_mem_map.mpr fun other listed => by
        rw [layLine_of_blank (blank other listed)]
        exact blank other listed
    have laidShown : isBlankLine false (layLine false indent line) = false := by
      rw [layLine_of_shown shows, isBlankLine_trimEnd]
      exact (allBlank_append _ _).trans (by rw [shows, Bool.and_false])
    rw [← split, indentLines_unlines false indent (by simp) whole]
    rw [List.map_append, List.map_cons] at laidWhole ⊢
    rw [trimTail_of_shown laidWhole laidShown blankBack]
    refine EachLine.unlines Tidy.nil (whole_cut laidWhole) (List.forall_mem_append.mpr ⟨?_, ?_⟩)
    · exact List.forall_mem_map.mpr fun other listed =>
        tidy_layLine (fun asked => empty asked other (List.mem_append_left _ listed)) indent
    · exact List.forall_mem_singleton.mpr (tidy_trimEnd _)

include undebugged in
/-- A region of span text is tidy where it is wrapped, and else where its text is
smooth. -/
theorem tidy_fillRun {wraps : Bool} {text : List Char}
    (smooth : all → (wraps && options.wraps) = false → Smooth text) (indent : Nat) :
    EachLine (Tidy all) (Strand.fillRun options indent wraps text) := by
  unfold Strand.fillRun
  split
  · exact EachLine.nil Tidy.nil
  · rename_i notBlank
    have shown : allBlank (Text.trimStart text) = false := by
      have same := ink_trimStart text
      rw [Bool.eq_false_iff]
      intro blank
      apply notBlank
      rw [← ink_eq_nil_iff, ← same, ink_eq_nil_iff, blank]
    unfold fill
    simp only [undebugged]
    refine EachLine.newline Tidy.nil ?_
    cases wrapped : wraps && options.wraps with
    | false => exact tidy_indentLines shown (fun asked => smooth asked wrapped) indent
    | true =>
        have trimmed : ∀ line ∈ lines (Wrap.wrap false ((options.maxColumn : Int) - indent)
            (Text.trimStart text)), allBlank line = true → line = [] := by
          rw [Wrap.lines_wrap]
          intro line present blank
          obtain ⟨hard, -, inside⟩ := List.mem_flatMap.mp present
          rw [← Wrap.trimEnd_of_mem_wrapLine inside, trimEnd_of_blank blank]
        refine EachLine.trimTail Tidy.nil (fun line _ => tidy_trimEnd line) ?_
        refine EachLine.unlines Tidy.nil ?_ ?_
        · exact List.forall_mem_map.mpr fun line listed =>
            newline_not_mem_layLine (not_mem_of_mem_lines listed)
        · exact List.forall_mem_map.mpr fun line listed =>
            tidy_layLine (fun _ => trimmed line listed) indent

end Regions

/-! ## Runs of span text -/

/-- The runs of a strand. -/
def Strand.runs : Strand → List (List Char)
  | .run text => [text]
  | .code text _ behind => text :: behind.runs

/-- The runs of span text among siblings, behind a strand that waits to be laid out. -/
def runsBelow (setting : Setting) (parent : Node) (place : Place) :
    List Node → Nat → Strand → List (List Char)
  | [], _, waiting => waiting.runs
  | child :: rest, index, waiting =>
      if child.isBlock then
        waiting.runs ++ runsBelow setting parent place rest (index + 1) (.run [])
      else
        match strandOf setting child (place.enter parent index) with
        | .ok strand => runsBelow setting parent place rest (index + 1) (waiting.append strand)
        | .error _ => []

/-- Where a block lays out its children without wrapping, their runs are smooth. -/
def SmoothAt (setting : Setting) (site : Site) : Prop :=
  (frame? setting.options site.node site.indent).isSome = true →
    (wrapsAt site.node site.place && setting.options.wraps) = false →
      ∀ run ∈ runsBelow setting site.node site.place site.node.children 0 (.run []), Smooth run

instance (setting : Setting) (site : Site) : Decidable (SmoothAt setting site) :=
  inferInstanceAs (Decidable (_ = true → _ = false → ∀ run ∈ _, Smooth run))

/-! ## Blocks -/

/-- The lines of an annotated node come from span text, bullets, rules and rows. -/
structure Composed (options : Options) (node : Node) : Prop where
  /-- Nothing of the node is held, and a row has nothing but blocks. -/
  uncoded : Uncoded node
  /-- The node is no code, which stands as it is. -/
  noCode : node.kind ≠ .codeblock
  /-- Raw content is in the flow of a span. -/
  raw : node.kind = .rawPassthrough → node.isBlock = false
  /-- The bullet of the node has no newline. -/
  bullet : ∀ bullet, shape options node = .hanging bullet → '\n' ∉ bullet

section Blocks

variable {setting : Setting} {all : Prop}

/-- A block is laid out to tidy lines wherever the runs that it does not wrap are
smooth. -/
def LaidTidy (all : Prop) (setting : Setting) (node : Node) : Prop :=
  ∀ place indent text,
    (all → ∀ site ∈ sites setting.options node place indent, SmoothAt setting site) →
      layoutOf setting node place indent = .ok text → EachLine (Tidy all) text

theorem codeless_of_composed {node : Node} (composed : node.Everywhere (Composed setting.options)) :
    node.Everywhere fun inner => inner.kind ≠ .inlineCode :=
  composed.imp fun _ each => each.uncoded.noCode

variable (undebugged : setting.options.debug = false)

include undebugged in
/-- Siblings whose blocks are tidy are tidy, with the text that waits before them. -/
theorem tidy_layoutBelow {siblings : List Node} {parent : Node} {place : Place} {inner : Nat}
    {wraps : Bool} (composed : ∀ child ∈ siblings, child.Everywhere (Composed setting.options))
    (each : ∀ child ∈ siblings, child.isBlock = true → LaidTidy all setting child)
    (index : Nat) (waiting text : List Char)
    (smooth : all → (wraps && setting.options.wraps) = false →
      ∀ run ∈ runsBelow setting parent place siblings index (.run waiting), Smooth run)
    (below : all → ∀ site ∈ sitesBelow setting.options siblings parent place index inner,
      SmoothAt setting site)
    (meant : layoutBelow setting siblings parent place index inner wraps (.run waiting) =
        .ok text) :
    EachLine (Tidy all) text := by
  induction siblings generalizing index waiting text with
  | nil =>
      rw [layoutBelow] at meant
      obtain rfl := Except.ok.inj meant
      exact tidy_fillRun undebugged (fun asked unwrapped => smooth asked unwrapped waiting
        (List.mem_singleton_self waiting)) inner
  | cons child rest inductionHypothesis =>
      have others := inductionHypothesis
        (fun other present => composed other (List.mem_cons_of_mem child present))
        (fun other present => each other (List.mem_cons_of_mem child present))
      have belowRest (asked : all) := (List.forall_mem_append.mp (below asked)).2
      rw [layoutBelow] at meant
      simp only [runsBelow] at smooth
      cases placed : child.isBlock with
      | true =>
          rw [if_pos placed] at meant
          simp only [placed, if_true] at smooth
          obtain ⟨piece, pieced, meant⟩ := exists_of_bind_eq_ok meant
          obtain ⟨after, rested, meant⟩ := exists_of_bind_eq_ok meant
          cases meant
          have front : EachLine (Tidy all) (Strand.fillRun setting.options inner wraps waiting) :=
            tidy_fillRun undebugged (fun asked unwrapped => smooth asked unwrapped waiting
              (List.mem_append_left _ (List.mem_singleton_self waiting))) inner
          have closed := closed_fillRun setting.options inner wraps waiting
          have pieceTidy := each child (by simp) placed _ inner piece
            (fun asked => (List.forall_mem_append.mp (below asked)).1) pieced
          have afterTidy := others (index + 1) [] after
            (fun asked unwrapped => (List.forall_mem_append.mp
                (smooth asked unwrapped)).2) belowRest
            rested
          exact (front.append closed pieceTidy).append
            (closed.append (closed_layoutOf placed pieced)) afterTidy
      | false =>
          rw [if_neg (by simp [placed])] at meant
          obtain ⟨strand, found, meant⟩ := exists_of_bind_eq_ok meant
          obtain ⟨run, rfl⟩ := exists_run_of_strandOf
              (codeless_of_composed (composed child (by simp)))
            placed _ found
          simp only [placed, Bool.false_eq_true, if_false, found] at smooth
          exact others (index + 1) (waiting ++ run) text smooth belowRest meant

include undebugged in
/-- A block in a frame is tidy with the blocks among its children. -/
theorem laidTidy_of_frame (ruled : 0 < setting.options.ruleWidth) {node : Node}
    (known : node.kind.isKnown = true) (composed : node.Everywhere (Composed setting.options))
    (each : ∀ child ∈ node.children, child.isBlock = true → LaidTidy all setting child)
    {place : Place} {indent : Nat} {frame : Frame}
    (framed : frame? setting.options node indent = some frame) {text : List Char}
    (smooth : all → ∀ site ∈ sites setting.options node place indent, SmoothAt setting site)
    (meant : layoutOf setting node place indent = .ok text) : EachLine (Tidy all) text := by
  rw [layoutOf_of_frame known framed] at meant
  obtain ⟨body, laid, meant⟩ := exists_of_bind_eq_ok meant
  cases meant
  rw [sites_of_frame framed] at smooth
  have bodyTidy : EachLine (Tidy all) body := by
    refine tidy_layoutBelow undebugged (fun child present => composed.below present) each 0 [] body
      (fun asked unwrapped => ?_) (fun asked => (List.forall_mem_cons.mp (smooth asked)).2) laid
    have here := (List.forall_mem_cons.mp (smooth asked)).1
    exact here (by simp [framed]) unwrapped
  have trimmed {body : List Char} (tidy : EachLine (Tidy all) body) :
      EachLine (Tidy all) (trimTail false body ++ ['\n']) :=
    EachLine.newline Tidy.nil (tidy.trimTail Tidy.nil fun line _ => tidy_trimEnd line)
  rcases frame_cases framed with ⟨extra, -, rfl⟩ | ⟨bullet, shaped, rfl⟩ | ⟨-, rfl⟩
  · exact trimmed bodyTidy
  · have whole := composed.here.bullet bullet shaped
    refine trimmed (EachLine.hang Tidy.nil whole ?_ (fun line tidy shown => ?_)
      (fun _ => id) bodyTidy)
    · exact (tidy_of_hanging shaped).behind (shown_of_hanging shaped) _
    · exact tidy_hung tidy shown _ _
  · have bar : EachLine (Tidy all) (rule setting.options.ruleWidth indent ++ ['\n']) :=
      EachLine.newline Tidy.nil (EachLine.of_whole (whole_rule _ indent) (tidy_rule ruled indent))
    have inside := (bar.append (closed_newline _) (trimmed bodyTidy)).append
      ((closed_newline _).append (closed_newline _)) bar
    simpa [Frame.quote] using inside

/-- A row is a trimmed line. -/
theorem tidy_rowLine {separator : List Char} (whole : '\n' ∉ separator) {cells : List (List Char)}
    (each : ∀ cell ∈ cells, '\n' ∉ cell) (indent : Nat) :
    EachLine (Tidy all) (rowLine separator indent cells) := by
  have joined : '\n' ∉ spaces indent ++ separator.intercalate cells := by
    simp [newline_not_mem_spaces, not_mem_intercalate whole each]
  exact EachLine.newline Tidy.nil (EachLine.of_whole (not_mem_trimEnd joined) (tidy_trimEnd _))

/-- A leaf that is a block is a rule, or it has no text. -/
theorem laidTidy_of_leaf {node : Node} (known : node.kind.isKnown = true)
    (composed : Composed setting.options node) (leaf : shape setting.options node = .leaf)
    (block : node.isBlock = true) : LaidTidy all setting node := by
  intro place indent text smooth meant
  rw [layoutOf_of_leaf known leaf] at meant
  rcases leaf_of_block block leaf with rule | code | raw | suppressed
  · rw [leafMeaning_of_rule rule] at meant
    obtain rfl := Except.ok.inj meant
    exact EachLine.newline Tidy.nil
      (EachLine.of_whole (whole_rule _ indent) (tidy_rule (Nat.lt_of_lt_of_le Nat.one_pos
        (Nat.le_max_left 1 _)) indent))
  · exact absurd code composed.noCode
  · rw [composed.raw raw] at block
    cases block
  · rw [leafMeaning, leafText_of_suppressed suppressed] at meant
    obtain rfl := Except.ok.inj meant
    exact EachLine.nil Tidy.nil

include undebugged in
/-- By induction on the tree, every block is tidy wherever the runs that it does not
wrap are smooth. -/
theorem laidTidy (ruled : 0 < setting.options.ruleWidth)
    (separated : ∀ separator, setting.options.cellSeparator = some separator →
      '\n' ∉ separator.toList)
    (node : Node) (composed : node.Everywhere (Composed setting.options))
    (block : node.isBlock = true) : LaidTidy all setting node := by
  induction node using Node.induction_on_children with
  | step node inductionHypothesis =>
      have each (child : Node) (present : child ∈ node.children) :=
        inductionHypothesis child present (composed.below present)
      intro place indent text smooth meant
      cases known : node.kind.isKnown with
      | false =>
          rw [layoutOf_of_unknown known] at meant
          cases meant
      | true =>
          rcases block_cases setting.options block indent with ⟨frame, framed⟩ | row | math | leaf
          · exact laidTidy_of_frame undebugged ruled known composed each framed smooth meant
          · rw [layoutOf_of_row row] at meant
            obtain ⟨cells, celled, meant⟩ := exists_of_bind_eq_ok meant
            split at meant
            · rename_i separator found
              obtain rfl := Except.ok.inj meant
              exact tidy_rowLine (separated separator found)
                (newline_not_mem_cellsBelow celled) indent
            · cases meant
          · rw [layoutOf_of_math (kind_of_math math)] at meant
            obtain ⟨strand, found, meant⟩ := exists_of_bind_eq_ok meant
            obtain ⟨run, rfl⟩ := exists_run_of_strandBelow
              (fun child present => codeless_of_composed (composed.below present)) found
            dsimp only at meant
            rw [join_run] at meant
            obtain rfl := Except.ok.inj meant
            exact tidy_fillRun undebugged
              (fun _ _ => smooth_of_whole (newline_not_mem_joinLines _)) indent
          · exact laidTidy_of_leaf known composed.here leaf block place indent text smooth meant

end Blocks

/-! ## Renderings -/

/-- Nothing of a node stands verbatim, rows have cells only, and marks have no
newlines. -/
structure Typeset (node : Node) : Prop where
  /-- The node is no code. -/
  noCode : node.kind ≠ .codeblock ∧ node.kind ≠ .inlineCode
  /-- Raw content is in the flow of a span. -/
  raw : node.kind = .rawPassthrough → node.isBlock = false
  /-- A row has nothing but cells. -/
  cells : node.kind = .tableRow → ∀ child ∈ node.children, child.kind = .tableCell
  /-- A mark that the node came with has no newline. -/
  mark : Numbering.BroughtOf (· ≠ '\n') node

instance : DecidablePred Typeset := fun node =>
  decidable_of_iff
    ((node.kind ≠ .codeblock ∧ node.kind ≠ .inlineCode) ∧
      (node.kind = .rawPassthrough → node.isBlock = false) ∧
      (node.kind = .tableRow → ∀ child ∈ node.children, child.kind = .tableCell) ∧
      Numbering.BroughtOf (· ≠ '\n') node)
    ⟨fun ⟨noCode, raw, cells, mark⟩ => ⟨noCode, raw, cells, mark⟩,
      fun typeset => ⟨typeset.noCode, typeset.raw, typeset.cells, typeset.mark⟩⟩

/-- A node that stands for a typeset one is composed, apart from its bullet. -/
theorem composed_annotated {node new : Node} (stands : Numbering.Annotates node new)
    (typeset : Typeset node) (bullet : Numbering.BulletOf (· ≠ '\n') new) (options : Options) :
    Composed options new := by
  refine ⟨⟨stands.kind ▸ typeset.noCode.2, fun row child present => ?_⟩,
    stands.kind ▸ typeset.noCode.1, fun raw => ?_, fun text hanging newline => ?_⟩
  · have kinds : child.kind ∈ node.children.map Node.kind :=
      stands.below ▸ List.mem_map_of_mem present
    obtain ⟨old, member, same⟩ := List.mem_map.mp kinds
    have cell : child.kind = .tableCell :=
      same.symm.trans (typeset.cells (stands.kind ▸ row) old member)
    simp [Node.isBlock, cell, Kind.placement]
  · rw [isBlock_annotated stands]
    exact typeset.raw (stands.kind ▸ raw)
  · exact bullet options text hanging '\n' newline rfl

/-- The nodes of a numbered tree are composed where those of the tree are typeset. -/
theorem composed_numbered {tree : Node} {numbered : Numbering.Numbered}
    (returned : (Numbering.resolve tree).1 = .ok numbered) (typeset : tree.Everywhere Typeset)
    (options : Options) : numbered.tree.Everywhere (Composed options) := by
  have graphic : ∀ text, Graphic text → ∀ character ∈ text, character ≠ '\n' :=
    fun text graphic character present same => graphic.not_mem (by decide) (same ▸ present)
  have bullets := Numbering.resolve_bullet graphic returned (typeset.imp fun _ each => each.mark)
  have carried : numbered.tree.Everywhere fun now =>
      Numbering.BulletOf (· ≠ '\n') now → Composed options now :=
    (Numbering.resolve_keeps returned).1.everywhere typeset
      fun _ _ annotates each bullet => composed_annotated annotates each bullet options
  exact fun inner present => carried inner present (bullets inner present)

variable {options : Options} {tree : Node} {numbered : Numbering.Numbered}

/-- What a rendering gives is what the numbered tree is laid out to. -/
theorem layoutOf_of_renderTree (undebugged : options.debug = false)
    (returned : (Numbering.resolve tree).1 = .ok numbered) (block : tree.isBlock = true)
    (uncoded : numbered.tree.Everywhere Uncoded) {text : String}
    (rendered : (renderTree options tree).1 = .ok text) :
    layoutOf { options := options, numbered := some numbered } numbered.tree Place.root 0 =
      .ok text.toList := by
  have known := known_numbered returned
  have stands := head_annotates (Numbering.resolve_keeps returned).1
  have numberedBlock : numbered.tree.isBlock = true := (isBlock_annotated stands).trans block
  have given : Given { options := options, numbered := some numbered } numbered.tree :=
    convert_gives undebugged numbered.tree uncoded
  have meets := renderTree_of_meets (render_meets returned known fun log =>
    (given.block Place.root 0 { held := [], log := log } rfl numberedBlock).imp
      fun laid _ gives => gives.2)
  rw [rendered] at meets
  exact meets

/-- Where nothing of a tree stands verbatim, its rendered text ends with a single
newline, and no line that shows something has a blank at its end.  Where all runs of
span text that are laid out without wrapping are smooth, no line at all has a blank at
its end. -/
theorem renderTree_unpadded (returned : (Numbering.resolve tree).1 = .ok numbered)
    (root : tree.kind = .root) (typeset : tree.Everywhere Typeset)
    (separated : ∀ separator, options.cellSeparator = some separator → '\n' ∉ separator.toList)
    (undebugged : options.debug = false) (ruled : 0 < options.ruleWidth) {text : String}
    (rendered : (renderTree options tree).1 = .ok text) :
    (∃ body, text.toList = body ++ ['\n'] ∧ Unpadded body) ∧
      (∀ line ∈ lines text.toList, allBlank line = false → Unpadded line) ∧
      ((∀ site ∈ sites options numbered.tree Place.root 0,
          SmoothAt { options := options, numbered := some numbered } site) →
        ∀ line ∈ lines text.toList, Unpadded line) := by
  have composed := composed_numbered returned typeset options
  obtain ⟨stands, -⟩ := Numbering.resolve_keeps returned
  have numberedRoot : numbered.tree.kind = .root := stands.kind.trans root
  have block (node : Node) (kind : node.kind = .root) : node.isBlock = true := by
    simp [Node.isBlock, kind, Kind.placement]
  have meant := layoutOf_of_renderTree undebugged returned (block tree root)
    (composed.imp fun _ each => each.uncoded) rendered
  have tidy (all : Prop) (smooth : all → ∀ site ∈ sites options numbered.tree Place.root 0,
      SmoothAt { options := options, numbered := some numbered } site) :
      EachLine (Tidy all) text.toList :=
    laidTidy undebugged ruled separated numbered.tree composed (block _ numberedRoot) Place.root 0 _
      smooth meant
  refine ⟨?_, fun line present shown => ?_, fun smooth line present => ?_⟩
  · have framed : frame? options numbered.tree 0 = some (.region 0 0) := by
      simp [frame?, shape, numberedRoot]
    have known : numbered.tree.kind.isKnown = true := by simp [numberedRoot, Kind.isKnown]
    rw [layoutOf_of_frame known framed] at meant
    obtain ⟨body, -, closed⟩ := exists_of_bind_eq_ok meant
    refine ⟨trimTail false body, (Except.ok.inj closed).symm, unpadded_of_trimEnd ?_⟩
    exact trimEnd_trimEnd _
  · exact unpadded_of_trimEnd (tidy False False.elim line present (Or.inl shown))
  · exact unpadded_of_trimEnd (tidy True (fun _ => smooth) line present (Or.inr trivial))

/-- A paragraph, a quote with an empty line, an item without text and a row whose last
cell is empty.  The item has the given options. -/
def quotedNotes (itemOptions : Fields) : Node :=
  { kind := .root
    children := [
      { kind := .paragraph
        children := [{ kind := .text, payload := .text "one two   three " }] },
      { kind := .blockquote
        children := [{ kind := .text, payload := .text "a \n\n b " }] },
      { kind := .unorderedList
        children := [{ kind := .listItem, options := itemOptions }] },
      { kind := .table
        children := [{
          kind := .tableRow
          children := [
            { kind := .tableCell, children := [{ kind := .text, payload := .text "x" }] },
            { kind := .tableCell }] }] }] }

/-- The notes once the item is numbered. -/
def quotedNotesNumbered : Numbering.Numbered where
  tree := quotedNotes [(Node.positionKey, .int 0)]
  labels := []
  headings := {}
  items := { entries := [[2, 0]], groups := [(some [2], [[2, 0]])] }

/-- The text of the notes in nine columns between rules of six dashes. -/
def quotedNotesText : String :=
  "one two\nthree\n------\n    a\n\n     b\n------\n*\nx |\n"

/-- No line of the notes has blanks at its end. -/
theorem renderTree_unpadded_quotedNotes :
    (renderTree { maxColumn := 9, ruleWidth := 6 } (quotedNotes [])).1 = .ok quotedNotesText ∧
      ∀ line ∈ lines quotedNotesText.toList, Unpadded line := by
  have resolved : (Numbering.resolve (quotedNotes [])).1 = .ok quotedNotesNumbered := rfl
  have typeset : (quotedNotes []).Everywhere Typeset := by
    unfold Node.Everywhere
    decide +kernel
  have separated : ∀ separator, some " | " = some separator → '\n' ∉ separator.toList := by
    rintro separator ⟨⟩
    decide
  have smooth : ∀ site ∈ sites { maxColumn := 9, ruleWidth := 6 } quotedNotesNumbered.tree
      Place.root 0,
      SmoothAt
        { options := { maxColumn := 9, ruleWidth := 6 }, numbered := some quotedNotesNumbered }
        site := by
    decide +kernel
  have rendered : (renderTree { maxColumn := 9, ruleWidth := 6 } (quotedNotes [])).1 =
      .ok quotedNotesText :=
    eq_ok_of_toOption (by decide +kernel)
  obtain ⟨-, -, every⟩ := renderTree_unpadded resolved rfl typeset separated rfl
      (by decide) rendered
  exact ⟨rendered, every smooth⟩

/-- A text with a line of blanks between two words. -/
def blankedNote : Node :=
  { kind := .root
    children := [
      { kind := .paragraph, children := [{ kind := .text, payload := .text "a\n  \nb" }] }] }

/-- A line of blanks stays as it is where its text is not wrapped. -/
theorem not_unpadded_blankedNote :
    blankedNote.Everywhere Typeset ∧
      (renderTree { wraps := false } blankedNote).1 = .ok "a\n  \nb\n" ∧
      ¬ ∀ line ∈ lines "a\n  \nb\n".toList, Unpadded line := by
  have typeset : ∀ inner ∈ blankedNote.walk, Typeset inner := by decide +kernel
  have rendered : (renderTree { wraps := false } blankedNote).1 = .ok "a\n  \nb\n" :=
    eq_ok_of_toOption (by decide +kernel)
  refine ⟨typeset, rendered, fun every => ?_⟩
  have shown := every [' ', ' '] (by decide +kernel) [' '] ' ' rfl
  cases shown

end Layout
end Galley
