import Galley.Proofs.Layout.Intact
import Galley.Proofs.Layout.Leaves

/-!
# Conversions with balanced tags

By induction on the tree: where every node is intact, a conversion with tags gives text
in which the tags are matched.
-/

namespace Galley
namespace Layout

open Marker Text

variable {options : Options} {numbered : Numbering.Numbered} {workspace : Workspace}

/-! ## Laid out blocks -/

/-- A laid out block: nothing at all, or lines with matched tags. -/
def MatchedBlock (start : Start) (text : List Char) : Prop :=
  text = [] ∧ start = .none ∨ MatchedSealed start text

namespace MatchedBlock

variable {start : Start} {text : List Char}

theorem laid (stands : MatchedBlock start text) : MatchedLaid start (start ≠ .late) text := by
  rcases stands with ⟨rfl, rfl⟩ | lines
  · exact MatchedLaid.nil
  · exact lines.laid

theorem sealed (stands : MatchedBlock start text) (some : start ≠ .none) :
    MatchedSealed start text :=
  stands.resolve_left fun empty => some empty.2

/-- Where a block has no line, its tags wait for the next one. -/
theorem tag (stands : MatchedBlock start text) {node : Node} (known : node.kind.isKnown = true)
    (block : (node.isSpan && node.kind != .inlineCode) = false) :
    MatchedLaid start (start ≠ .late) (Layout.tag node text) := by
  rcases stands with ⟨rfl, rfl⟩ | lines
  · obtain ⟨opened, closed⟩ := isMarker_opening (Or.inl rfl) known
    have isTags := ((Tags.of_isMarker opened).append Tags.nil).append (Tags.of_isMarker closed)
    have bare :=
      all_flatten (List.forall_mem_cons.mpr ⟨opened, List.forall_mem_singleton.mpr closed⟩)
    simp only [List.flatten_cons, List.flatten_nil, List.append_nil] at bare
    rw [Sealed.tag_nil block]
    refine MatchedLaid.of_tags isTags ?_
    rw [enclose, List.append_nil, bare]
    exact Matched.nil.enclose (Or.inl rfl)
  · exact (lines.tag known block).laid

end MatchedBlock

/-- All held code is laid out with matched tags. -/
def Coded (workspace : Workspace) : Prop :=
  ∀ code ∈ workspace.held, MatchedSealed .shown code

/-- A sign of code stands in span text for what was just held. -/
theorem hold_balances (coded : Coded workspace) {code : List Char}
    (sealed : MatchedSealed .shown code) :
    Meets (hold code) workspace (fun _ => True) fun stand after =>
      Coded after ∧ Braids stand codeSign := by
  unfold hold
  refine Meets.read (Meets.write (Meets.give ⟨?_, Braids.held _⟩))
  exact List.forall_mem_append.mpr ⟨coded, List.forall_mem_singleton.mpr sealed⟩

theorem flush_balances (coded : Coded workspace) {text traced : List Char}
    (braids : Braids text traced) (matched : Matched (all traced))
    (ends : ∀ run ∈ runs traced, Ends run) (indent : Nat) (wraps : Bool) :
    Meets (flush (tagging options numbered true) indent wraps text) workspace (fun _ => True)
      fun laid after => after = workspace ∧ MatchedBlock (startSpan traced) laid := by
  unfold flush
  refine Meets.read (Meets.lift (fun laid returned => ⟨rfl, ?_⟩) fun _ _ => trivial)
  obtain ⟨empty, sealed⟩ := layoutSpan_matched coded braids matched ends returned
  unfold startSpan
  cases shown : isBlankLine true traced with
  | true => exact Or.inl ⟨empty shown, rfl⟩
  | false => exact Or.inr (sealed shown)

/-! ## Conversions -/

/-- What a conversion gives, and what it leaves. -/
structure Converted (options : Options) (numbered : Numbering.Numbered) (node : Node)
    (place : Place)
    (text : List Char) (after : Workspace) : Prop where
  /-- Held code has matched tags. -/
  coded : Coded after
  /-- Tags stand around the text. -/
  tagged : ∃ bare, text = tag node bare
  /-- A block is a region. -/
  block : node.isBlock = true → MatchedLaid (startOf options numbered node place)
    (startOf options numbered node place ≠ .late) text
  /-- Code is sealed. -/
  code : node.kind = .inlineCode → MatchedSealed .shown text
  /-- Any other span is span text. -/
  span : node.isBlock = false → node.kind ≠ .inlineCode → Braids text (traced numbered node place)

/-- A node is converted with balanced tags, wherever it is intact. -/
def Balances (options : Options) (numbered : Numbering.Numbered) (node : Node) : Prop :=
  ∀ place indent workspace, IntactFrom options numbered (node.placed place) → Coded workspace →
    Meets (convert (tagging options numbered true) node place indent) workspace (fun _ => True)
      (Converted options numbered node place)

theorem startOf_of_code {node : Node} (code : node.kind = .inlineCode) (place : Place) :
    startOf options numbered node place = .shown := by
  rw [startOf_of_lines options numbered (Or.inr code)]
  obtain ⟨kind, payload, attributes, fields, children⟩ := node
  obtain rfl : kind = .inlineCode := code
  rfl

/-- Spans start as their traced text does, code among them. -/
theorem startOf_eq_startSpan {node : Node} (span : node.isBlock = false) (place : Place) :
    startOf options numbered node place = startSpan (traced numbered node place) := by
  by_cases code : node.kind = .inlineCode
  · rw [startOf_of_code code, traced_of_lines numbered (Or.inr code)]
    rfl
  · exact startOf_of_span options numbered span code place

namespace Converted

variable {node : Node} {place : Place} {text : List Char} {after : Workspace}

theorem matched (converted : Converted options numbered node place text after)
    (flows : Matched (all (traced numbered node place))) : Matched (all text) := by
  cases block : node.isBlock with
  | true => exact (converted.block block).matched
  | false =>
      by_cases code : node.kind = .inlineCode
      · exact (converted.code code).matched
      · rw [(converted.span block code).all_eq]
        exact flows

theorem blank_eq (converted : Converted options numbered node place text after) :
    isBlankLine true text = !(startOf options numbered node place).shows := by
  cases block : node.isBlock with
  | true => exact (converted.block block).blank_eq
  | false =>
      by_cases code : node.kind = .inlineCode
      · rw [(converted.code code).blank_eq, startOf_of_code code]
      · rw [(converted.span block code).blank_eq, startOf_of_span options numbered block code,
          shows_startSpan, Bool.not_not]

/-- The content of a cell. -/
theorem cell (converted : Converted options numbered node place text after)
    (known : node.kind.isKnown = true) (flows : Matched (all (traced numbered node place))) :
    MatchedCell (cellContent text) ∧
      isBlankLine true (cellContent text) = !(startOf options numbered node place).shows := by
  have akin := Akin.cellContent text
  refine ⟨⟨?_, ?_, newline_not_mem_collapseBreaks _⟩, ?_⟩
  · obtain ⟨bare, rfl⟩ := converted.tagged
    exact bracketed_cellContent known bare
  · rw [akin.all_eq]
    exact converted.matched flows
  · rw [akin.blank_eq, converted.blank_eq]

end Converted

/-! ## Siblings -/

/-- A span adds text to the span text around it. -/
theorem spanPiece_balances {child : Node} (balances : Balances options numbered child)
    (span : child.isBlock = false) (place : Place) (indent : Nat)
    (intact : IntactFrom options numbered (child.placed place)) (coded : Coded workspace) :
    Meets (spanPiece (tagging options numbered true) child place indent) workspace (fun _ => True)
      fun piece after => Coded after ∧ Braids piece (traced numbered child place) := by
  have converts := balances place indent workspace intact coded
  unfold spanPiece
  split
  · -- Inline code is held, and a placeholder stands for it.
    rename_i code
    have isCode : child.kind = .inlineCode := by simpa using code
    rw [traced_of_lines numbered (Or.inr isCode)]
    exact converts.bind fun text middle converted =>
      hold_balances converted.coded (converted.code isCode)
  · rename_i code
    exact converts.imp fun text after converted =>
      ⟨converted.coded, converted.span span (by simpa using code)⟩

section Siblings

variable {siblings : List Node} (known : ∀ child ∈ siblings,
    child.Everywhere fun inner => inner.kind.isKnown = true)
  (each : ∀ child ∈ siblings, Balances options numbered child)

include known each

/-- The children of a block are laid out with matched tags, behind the span text that
waits. -/
theorem flow_balances (parent : Node) (place : Place) (index inner : Nat) (wraps : Bool)
    (intact : IntactFrom options numbered (Node.placedBelow siblings parent place index))
    {waiting traced : List Char} (braids : Braids waiting traced) (matched : Matched (all traced))
    (ends : ∀ run ∈ runs (traced ++ tracedBelow numbered siblings parent place index), Ends run)
    (coded : Coded workspace) :
    Meets (flow (tagging options numbered true) siblings parent place index inner wraps waiting)
      workspace (fun _ => True) fun body after => Coded after ∧
        MatchedLaid
          ((startSpan traced).append (startBelow options numbered siblings parent place index))
          ((startSpan traced).shows = true ∨
            leadsBelow options numbered siblings parent place index = true) body := by
  have early (text : List Char) : startSpan text ≠ .late := by
    unfold startSpan
    split <;> simp
  induction siblings generalizing index waiting traced workspace with
  | nil =>
      rw [tracedBelow_nil, List.append_nil] at ends
      rw [flow, startBelow_nil, Start.append_none]
      refine (flush_balances coded braids matched ends inner wraps).imp ?_
      rintro body _ ⟨rfl, block⟩
      exact ⟨coded, block.laid.mono fun _ => early traced⟩
  | cons child rest inductionHypothesis =>
      obtain ⟨knownHere, knownRest⟩ := List.forall_mem_cons.mp known
      obtain ⟨first, others⟩ := List.forall_mem_cons.mp each
      obtain ⟨here, later⟩ := intact.append
      rw [tracedBelow_cons] at ends
      rw [startBelow_cons, leadsBelow_cons]
      cases placed : child.isBlock with
      | false =>
          -- The text of a span, or the placeholder of code, joins the span that waits.
          have opens : Opens (Layout.traced numbered child (place.enter parent index) ++ []) :=
            opens_traced knownHere.here _ []
          rw [List.append_nil] at opens
          rw [flow_cons_of_span placed, startOf_eq_startSpan placed, ← Start.append_assoc,
            ← startSpan_append traced opens]
          rw [← List.append_assoc] at ends
          refine (spanPiece_balances first placed _ inner here coded).bind ?_
          rintro piece middle ⟨codedMiddle, piecewise⟩
          have joined : Matched
              (all (traced ++ Layout.traced numbered child (place.enter parent index))) := by
            rw [all_append traced opens]
            exact matched.append (matched_traced child knownHere _ here)
          refine (inductionHypothesis knownRest others (index + 1) later (braids.append piecewise)
            joined ends codedMiddle).imp ?_
          rintro body after ⟨codedAfter, laid⟩
          refine ⟨codedAfter, laid.mono fun leads => ?_⟩
          rw [startSpan_append traced opens, Start.shows_append, Bool.or_eq_true, or_assoc]
          exact leads.imp_right And.right
      | true =>
          -- The span before a block is laid out, and a new span begins behind it.
          rw [traced_of_lines numbered (Or.inl placed), runs_append_sign] at ends
          obtain ⟨endsBefore, endsBehind⟩ := List.forall_mem_append.mp ends
          rw [flow_cons_of_block placed]
          refine (first _ inner workspace here coded).bind fun text middle converted => ?_
          refine (flush_balances converted.coded braids matched endsBefore inner wraps).bind ?_
          rintro before _ ⟨rfl, block⟩
          refine (inductionHypothesis knownRest others (index + 1) later Braids.nil Matched.nil
            endsBehind converted.coded).bind ?_
          rintro behind after ⟨codedAfter, laid⟩
          refine Meets.give ⟨codedAfter, ?_⟩
          have whole := (block.laid.append (converted.block placed)).append laid
          rw [show startSpan [] = Start.none from rfl, Start.none_append,
            Start.append_assoc] at whole
          refine whole.mono fun leads => ?_
          rw [Start.shows_append, Bool.or_eq_true]
          rcases leads with shows | ⟨start, leads⟩
          · exact ⟨⟨early traced, Or.inl shows⟩, Or.inl (Or.inl shows)⟩
          · exact ⟨⟨early traced, Or.inr start⟩, leads.imp Or.inr Or.inr⟩

/-- The children of formatting are joined to span text. -/
theorem convertInline_balances
    (spans : options.nesting = .flatten → ∀ child ∈ siblings, child.isBlock = false)
    (parent : Node) (place : Place) (index indent : Nat)
    (intact : IntactFrom options numbered (Node.placedBelow siblings parent place index))
    (coded : Coded workspace) :
    Meets (convertInline (tagging options numbered true) siblings parent place index
      indent) workspace
      (fun _ => True) fun content after =>
        Coded after ∧ Braids content (tracedBelow numbered siblings parent place index) := by
  induction siblings generalizing index workspace with
  | nil => exact Meets.give ⟨coded, Braids.nil⟩
  | cons child rest inductionHypothesis =>
      obtain ⟨-, knownRest⟩ := List.forall_mem_cons.mp known
      obtain ⟨first, others⟩ := List.forall_mem_cons.mp each
      have otherSpans := fun lax other present =>
        spans lax other (List.mem_cons_of_mem child present)
      obtain ⟨here, later⟩ := intact.append
      rw [convertInline_cons, tracedBelow_cons]
      cases placed : child.isBlock with
      | true =>
          have strict : (tagging options numbered true).options.nesting = .reject :=
            rejects_of_block (fun lax => spans lax child (by simp)) placed
          rw [inlinePiece_of_reject strict placed]
          refine Meets.bind (?_ : Meets _ workspace _ fun _ _ => False) fun _ _ => False.elim
          exact Meets.stop trivial
      | false =>
          rw [inlinePiece_of_span placed]
          refine (spanPiece_balances first placed _ indent here coded).bind ?_
          rintro piece middle ⟨codedMiddle, braids⟩
          refine (inductionHypothesis knownRest others otherSpans (index + 1) later
            codedMiddle).bind ?_
          rintro remaining after ⟨codedAfter, braidsLater⟩
          exact Meets.give ⟨codedAfter, braids.append braidsLater⟩

/-- The cells of a row have matched tags, and they show what the children show. -/
theorem convertCells_balances (parent : Node) (place : Place) (index : Nat)
    (intact : IntactFrom options numbered (Node.placedBelow siblings parent place index))
    (coded : Coded workspace) :
    Meets (convertCells (tagging options numbered true) siblings parent place index) workspace
      (fun _ => True) fun cells after => Coded after ∧ (∀ cell ∈ cells, MatchedCell cell) ∧
        cells.length = siblings.length ∧
        cells.all (isBlankLine true) =
          !(startBelow options numbered siblings parent place index).shows := by
  induction siblings generalizing index workspace with
  | nil => exact Meets.give ⟨coded, by simp, rfl, rfl⟩
  | cons child rest inductionHypothesis =>
      obtain ⟨knownHere, knownRest⟩ := List.forall_mem_cons.mp known
      obtain ⟨first, others⟩ := List.forall_mem_cons.mp each
      obtain ⟨here, later⟩ := intact.append
      rw [convertCells]
      refine (first _ 0 workspace here coded).bind fun text middle converted => ?_
      obtain ⟨cell, shows⟩ := converted.cell knownHere.here (matched_traced child knownHere _ here)
      refine (inductionHypothesis knownRest others (index + 1) later converted.coded).bind ?_
      rintro cells after ⟨codedAfter, cellsLater, size, showsLater⟩
      refine Meets.give ⟨codedAfter, List.forall_mem_cons.mpr ⟨cell, cellsLater⟩,
        by simp [size], ?_⟩
      rw [List.all_cons, shows, showsLater, startBelow_cons, Start.shows_append, Bool.not_or]

end Siblings

/-! ## Leaves -/

/-- With tags every attribute is shown. -/
theorem attributeText_tagging (value : Datum) :
    attributeText (tagging options numbered true) value = pure value.display.toList := by
  cases value <;> rfl

/-- With tags a leaf gives its text and holds nothing. -/
theorem leafText_tagging (node : Node) (place : Place) (indent : Nat) :
    Meets (leafText (tagging options numbered true) node place indent) workspace (fun _ => True)
      fun text after =>
        after.held = workspace.held ∧ text = leafLaid options numbered node place indent := by
  obtain ⟨kind, payload, attributes, fields, children⟩ := node
  have substituted (table : List (String × String)) (unknown : String → LogEvent) :
      Meets (substitute table payload.display unknown) workspace (fun _ => True) fun text after =>
        after.held = workspace.held ∧ text = ((table.lookup payload.display).getD "").toList :=
    (substitute_meets table payload.display unknown workspace).mono (fun _ none => none.elim)
      fun _ _ gives => gives
  cases kind with
  | link =>
      change Meets (linkText _ _) _ _ _
      rcases linkText_cases ⟨.link, payload, attributes, fields, children⟩ with
        text | ⟨target, shown⟩
      · rw [text]
        exact Meets.give ⟨rfl, rfl⟩
      · rw [target, attributeText_tagging]
        exact Meets.give ⟨rfl, shown.symm⟩
  | image =>
      change Meets (imageText _ _) _ _ _
      obtain ⟨name, shown, text⟩ := imageText_cases ⟨.image, payload, attributes, fields, children⟩
      rw [text, attributeText_tagging]
      exact Meets.give ⟨rfl, shown.symm⟩
  | typographicSymbol =>
      have gives := substituted symbolSubstitutes .unknownSymbol
      rw [lookup_symbol] at gives
      exact gives
  | smartQuote =>
      have gives := substituted quoteSubstitutes .unknownQuote
      rw [lookup_quote] at gives
      exact gives
  | reference =>
      exact Meets.of_outcome (outcome_referenceText { options with debug := true } numbered _ place
        workspace) ⟨rfl, rfl⟩
  | actionItem => exact Meets.give ⟨rfl, by simp [leafLaid, leafShown]⟩
  | issueLink =>
      exact Meets.give ⟨rfl, issueText_eq ⟨.issueLink, payload, attributes, fields, children⟩⟩
  | _ => exact Meets.give ⟨rfl, rfl⟩

/-! ## Nodes by shapes -/

/-- What a conversion gives before tags are put around it. -/
structure Unbraced (options : Options) (numbered : Numbering.Numbered) (node : Node) (place : Place)
    (text : List Char) (after : Workspace) : Prop where
  /-- Held code has matched tags. -/
  coded : Coded after
  /-- A block or code has lines of its own. -/
  lines : node.isBlock = true ∨ node.kind = .inlineCode →
    MatchedBlock (startOf options numbered node place) text
  /-- Any other span is span text. -/
  span : node.isBlock = false → node.kind ≠ .inlineCode → ∃ inner,
    Braids text inner ∧ traced numbered node place = enclose spanClass node.kind.name.toList inner

section Shapes

variable {node : Node} {place : Place} {indent : Nat} {text : List Char} {after : Workspace}

/-- Tags are put around the text of a node. -/
theorem Unbraced.finish (unbraced : Unbraced options numbered node place text after)
    (known : node.kind.isKnown = true) :
    Converted options numbered node place (Layout.finish (tagging options numbered true) node text)
      after := by
  have tagged : Layout.finish (tagging options numbered true) node text = tag node text := rfl
  rw [tagged]
  refine ⟨unbraced.coded, ⟨text, rfl⟩, fun block => ?_, fun code => ?_, fun span noCode => ?_⟩
  · exact (unbraced.lines (Or.inl block)).tag known (by simp [Node.isSpan, block])
  · have sealed := (unbraced.lines (Or.inr code)).sealed (by rw [startOf_of_code code]; simp)
    rw [startOf_of_code code] at sealed
    exact sealed.tag known (by simp [code])
  · obtain ⟨inner, braids, whole⟩ := unbraced.span span noCode
    have isSpan : (node.isSpan && node.kind != .inlineCode) = true := by
      simp [Node.isSpan, span, noCode]
    rw [tag, if_pos isSpan, whole]
    exact braids.enclose known

theorem unbraced_of_block (coded : Coded after) (block : node.isBlock = true)
    (lines : MatchedBlock (startOf options numbered node place) text) :
    Unbraced options numbered node place text after := by
  refine ⟨coded, fun _ => lines, fun span => ?_⟩
  rw [block] at span
  cases span

/-- A node that is neither formatting nor a leaf is sealed by its shape. -/
theorem unbraced_of_shape {form : Shape} (shaped : shape options node = form)
    (noInline : form ≠ .inline)
    (noMath : form ≠ .math) (noLeaf : form ≠ .leaf) (coded : Coded after)
    (sealed : MatchedSealed (startShape options numbered node place
      (startBelow options numbered node.children node place 0) form) text) :
    Unbraced options numbered node place text after := by
  have block := isBlock_of_shape shaped noInline noMath noLeaf
  refine unbraced_of_block coded block (Or.inr ?_)
  rwa [startOf_of_lines options numbered (Or.inl block), shaped]

/-- The joined text of intact formatting. -/
theorem joined_braids (intact : Intact options numbered node place)
    (formatting : isFormatting node.kind = true) {content : List Char}
    (braids : Braids content (tracedBelow numbered node.children node place 0)) :
    Braids (joinLines (if node.children.isEmpty then node.payload.content.toList else content))
      (joinLines (tracedContent numbered node place)) := by
  rw [tracedContent]
  split
  · rename_i childless
    have plain := intact.nulFree (isFlowing_of_formatting formatting)
    rw [ownText_of_childless childless formatting] at plain
    exact (Braids.piece plain).joinLines
  · exact braids.joinLines

/-- Math is laid out as a block, or it is span text. -/
theorem math_balances (coded : Coded workspace) (math : shape options node = .math)
    (braids : Braids text (joinLines (tracedContent numbered node place)))
    (matched : Matched (all (joinLines (tracedContent numbered node place)))) :
    Meets
      (if node.isBlock then flush (tagging options numbered true) indent false text else pure text)
      workspace (fun _ => True) (Unbraced options numbered node place) := by
  have noCode : node.kind ≠ .inlineCode := noCode_of_shape math (by simp)
  split
  · rename_i block
    have ends : ∀ run ∈ runs (joinLines (tracedContent numbered node place)), Ends run :=
      fun run present => ends_of_not_mem
        (not_mem_of_mem_runs (newline_not_mem_joinLines _) run present)
    refine (flush_balances coded braids matched ends indent false).imp ?_
    rintro laid _ ⟨rfl, lines⟩
    refine unbraced_of_block coded block ?_
    rw [startOf_of_lines options numbered (Or.inl block), math]
    exact lines
  · rename_i block
    have span : node.isBlock = false := by simpa using block
    exact Meets.give ⟨coded, fun lines => (lines.elim block noCode).elim,
      fun _ _ => ⟨_, braids, traced_of_inline numbered span (Or.inr math) place⟩⟩

/-- The text of an intact leaf. -/
theorem leaf_unbraced (intact : Intact options numbered node place) (ruled : 0 < options.ruleWidth)
    (coded : Coded after) (leaf : shape options node = .leaf) :
    Unbraced options numbered node place (leafLaid options numbered node place indent) after := by
  have unmarked := intact.unmarked
  refine ⟨coded, fun own => ?_, fun span noCode => ?_⟩
  · rw [startOf_of_lines options numbered own, leaf, startShape]
    have verbatim (code : node.kind = .codeblock ∨ node.kind = .inlineCode) :
        MatchedBlock (startLeaf node) (leafLaid options numbered node place indent) := by
      rw [ownText_of_code code] at unmarked
      have laid := matchedSealed_verbatim ruled unmarked indent
      rcases code with code | code <;> exact Or.inr
        (by simpa [leafLaid, startLeaf, code] using laid)
    rcases own with block | code
    · rcases leaf_of_block block leaf with rule | code | raw | suppressed
      · have laid := matchedSealed_horizontalRule options.maxColumn indent
        exact Or.inr (by simpa [leafLaid, startLeaf, rule] using laid)
      · exact verbatim (Or.inl code)
      · rw [ownText_of_raw raw] at unmarked
        have lasts : Lasts (lines node.payload.content.toList) ∨
            (lines node.payload.content.toList).length = 1 := by
          obtain ⟨front, last, parts⟩ :=
            (List.eq_nil_or_concat' (lines node.payload.content.toList)).resolve_left
            (lines_ne_nil _)
          exact (intact.raw raw block).symm.imp_left fun shows =>
            ⟨front, last, parts, shows last (by simp [parts])⟩
        exact Or.inr
          (by simpa [leafLaid, startLeaf, raw, block] using matchedSealed_raw unmarked lasts)
      · have none : startLeaf node = .none := by
          obtain ⟨flexible, noMath, noRaw⟩ := suppressed
          unfold startLeaf
          split <;> simp_all [Kind.placement]
        exact Or.inl ⟨leafLaid_of_suppressed suppressed place indent, none⟩
    · exact verbatim (Or.inr code)
  · have flowing : isFlowing node = true := by simp [isFlowing, Node.isSpan, span, noCode]
    have plain := intact.nulFree flowing
    rw [ownText_of_span leaf span noCode] at plain
    rw [leafLaid_of_span span noCode]
    exact ⟨_, Braids.piece plain, traced_of_leaf numbered span noCode leaf place⟩

section Node

variable (ruled : 0 < options.ruleWidth)
  (separated : ∀ separator, options.cellSeparator = some separator →
    Unmarked separator.toList ∧ '\n' ∉ separator.toList)

include ruled separated

/-- The text of a node before its tags. -/
theorem bareText_balances (known : ∀ child ∈ node.children,
      child.Everywhere fun inner => inner.kind.isKnown = true)
    (each : ∀ child ∈ node.children, Balances options numbered child)
    (intact : IntactFrom options numbered (node.placed place)) (coded : Coded workspace) :
    Meets (bareText (tagging options numbered true) node place indent) workspace (fun _ => True)
      (Unbraced options numbered node place) := by
  rw [Node.placed_eq] at intact
  obtain ⟨first, below⟩ := List.forall_mem_cons.mp intact
  have here : Intact options numbered node place := first
  have same : shape (tagging options numbered true).options node = shape options node := rfl
  have flowed (inner : Nat) (wraps : Bool)
      (ends : ∀ run ∈ runs (tracedBelow numbered node.children node place 0), Ends run) :=
    flow_balances known each node place 0 inner wraps below Braids.nil Matched.nil ends coded
  have spans := fun formatting => convertInline_balances known each
    (fun lax => here.spans lax formatting) node place 0 indent below coded
  have matched : Matched (all (tracedBelow numbered node.children node place 0)) :=
    matched_tracedBelow (fun child present => (known child present).here)
      (fun child present => matched_traced child (known child present)) node place 0 below
  unfold bareText
  simp only [same]
  cases shaped : shape options node with
  | region extra =>
      refine (flowed _ _ (here.ends (Or.inl (by simp [gathers, shaped])))).bind ?_
      rintro body after ⟨codedAfter, laid⟩
      exact Meets.give (unbraced_of_shape shaped (by simp) (by simp)
        (by simp) codedAfter laid.trimTail)
  | hanging bullet =>
      refine (flowed _ _ (here.ends (Or.inl (by simp [gathers, shaped])))).bind ?_
      rintro body after ⟨codedAfter, laid⟩
      have leads := here.leads (by simp [hangs, shaped])
      have unmarked := here.unmarked
      rw [ownText, shaped] at unmarked
      have hung := (laid.mono fun _ => Or.inr leads).hang unmarked (here.bullet bullet shaped)
        (shown_of_hanging shaped) indent (indent + Columns.ofText bullet + 1)
      exact Meets.give (unbraced_of_shape shaped (by simp) (by simp) (by simp) codedAfter hung)
  | quote =>
      refine (flowed _ _ (here.ends (Or.inr (kind_of_quote shaped)))).bind ?_
      rintro body after ⟨codedAfter, laid⟩
      exact Meets.give (unbraced_of_shape shaped (by simp) (by simp) (by simp) codedAfter
        (laid.trimTail.quote ruled indent))
  | row =>
      refine (convertCells_balances known each node place 0 below coded).bind ?_
      rintro cells after ⟨codedAfter, eachCell, size, shows⟩
      have fields : (tagging options numbered true).options.cellSeparator =
          options.cellSeparator := rfl
      rw [fields]
      cases found : options.cellSeparator with
      | none => exact Meets.stop trivial
      | some separator =>
          obtain ⟨unmarked, whole⟩ := separated separator found
          have row := matchedSealed_row unmarked eachCell whole indent
          rw [shows, size] at row
          refine Meets.give (unbraced_of_shape shaped (by simp) (by simp) (by simp) codedAfter ?_)
          simpa [startShape, startRow, found] using row
  | inline =>
      have inline := Or.inl (b := shape options node = .math) shaped
      have formatting := isFormatting_of_inline inline
      refine (spans formatting).bind ?_
      rintro content after ⟨codedAfter, braids⟩
      have span := isBlock_of_inline shaped
      refine Meets.give ⟨codedAfter, fun lines => ?_, fun _ _ =>
        ⟨_, joined_braids here formatting braids, traced_of_inline numbered span inline place⟩⟩
      rcases lines with block | code
      · rw [span] at block
        cases block
      · exact absurd code (noCode_of_shape shaped (by simp))
  | math =>
      have formatting := isFormatting_of_inline (Or.inr (a := shape options node = .inline) shaped)
      refine (spans formatting).bind ?_
      rintro content after ⟨codedAfter, braids⟩
      exact math_balances codedAfter shaped (joined_braids here formatting braids)
        (matched_tracedContent here formatting matched)
  | leaf =>
      refine (leafText_tagging node place indent).imp ?_
      rintro _ after ⟨kept, rfl⟩
      refine leaf_unbraced here ruled ?_ shaped
      rwa [Coded, kept]

end Node

end Shapes

/-- Where every node is intact, a conversion gives text with matched tags. -/
theorem convert_balances (ruled : 0 < options.ruleWidth)
    (separated : ∀ separator, options.cellSeparator = some separator →
      Unmarked separator.toList ∧ '\n' ∉ separator.toList)
    (node : Node) (known : node.Everywhere fun inner => inner.kind.isKnown = true) :
    Balances options numbered node := by
  induction node using Node.induction_on_children with
  | step node below =>
      intro place indent workspace intact coded
      have each := fun child present => below child present (known.below present)
      rw [convert_eq_bareText _ place indent known.here]
      refine (bareText_balances ruled separated (fun _ => known.below) each intact coded).bind ?_
      intro text after unbraced
      exact Meets.give (unbraced.finish known.here)

end Layout
end Galley
