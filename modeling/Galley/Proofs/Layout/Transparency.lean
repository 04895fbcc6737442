import Galley.Proofs.Document.Everywhere
import Galley.Proofs.Layout.Abreast

/-!
# Tags are transparent

By induction on the tree: where every node is clear and the plain rendering returns a
text, so does the rendering with tags, and erasing the tags gives the plain text.
-/

namespace Galley
namespace Layout

open Marker Text

variable {options : Options} {numbered : Numbering.Numbered}

/-- The margin that a region keeps: its indentation where it hangs under a bullet. -/
def marginAt (options : Options) (place : Place) (indent : Nat) : Nat :=
  if underBullet options place then indent else 0

theorem marginAt_le (options : Options) (place : Place) (indent : Nat) :
    marginAt options place indent ≤ indent := by
  unfold marginAt
  split <;> omega

theorem underBullet_enter {place : Place} (linked : place.linked = true) (parent : Node)
    (index : Nat) :
    underBullet options (place.enter parent index) =
      (hangs options parent || underBullet options place) := by
  simp [underBullet, Place.enter, linked]

theorem marginAt_enter {place : Place} (linked : place.linked = true) (parent : Node)
    (index indent : Nat) :
    marginAt options (place.enter parent index) indent =
      if hangs options parent || underBullet options place then indent else 0 := by
  rw [marginAt, underBullet_enter linked]

/-- What a conversion gives with tags and without. -/
structure Tagged (options : Options) (numbered : Numbering.Numbered) (node : Node) (place : Place)
    (indent : Nat) (workspace workspace' : Workspace) (marked plain : List Char)
    (after after' : Workspace) : Prop where
  /-- Code is held side by side. -/
  abreast : Abreast workspace workspace' after after'
  /-- The text stands between tags. -/
  tagged : ∃ text, marked = tag node text
  /-- A block is laid out alike. -/
  block : node.isBlock = true → Laid (marginAt options place indent) marked plain
  /-- A cell is sealed. -/
  cell : node.kind = .tableCell → Sealed (marginAt options place indent) marked plain
  /-- Code is sealed. -/
  code : node.kind = .inlineCode → Sealed indent marked plain
  /-- Any other span is woven. -/
  span : node.isBlock = false → node.kind ≠ .inlineCode →
    Woven after.held after'.held indent marked plain (traced numbered node place) ∧ Opens marked

/-- The nodes at and below a place are clear. -/
def ClearFrom (options : Options) (numbered : Numbering.Numbered) (placed : List (Place × Node)) :
    Prop :=
  ∀ entry ∈ placed, Clear options numbered entry.2 entry.1

instance (options : Options) (numbered : Numbering.Numbered) (placed : List (Place × Node)) :
    Decidable (ClearFrom options numbered placed) :=
  inferInstanceAs (Decidable (∀ entry ∈ placed, Clear options numbered entry.2 entry.1))

/-- A node is converted alike with and without tags, wherever it is clear. -/
def Transparent (options : Options) (numbered : Numbering.Numbered) (node : Node) : Prop :=
  ∀ place indent workspace workspace', place.linked = true →
    ClearFrom options numbered (node.placed place) →
    workspace.held.length = workspace'.held.length →
    Follows (convert (tagging options numbered true) node place indent)
      (convert (tagging options numbered false) node place indent) workspace workspace'
      (Tagged options numbered node place indent workspace workspace')

theorem ClearFrom.append {first second : List (Place × Node)}
    (clear : ClearFrom options numbered (first ++ second)) :
    ClearFrom options numbered first ∧ ClearFrom options numbered second :=
  List.forall_mem_append.mp clear

/-! ## Siblings -/

/-- Laid out span text is a region. -/
theorem laid_of_sealed {indent smaller : Nat} {laid laid' : List Char} {blank : Prop}
    (pair : Sealed indent laid laid' ∨ laid = [] ∧ laid' = [] ∧ blank) (less : smaller ≤ indent) :
    Laid smaller laid laid' := by
  rcases pair with pair | ⟨rfl, rfl, -⟩
  · exact (pair.mono less).laid
  · exact Laid.nil

/-- A span other than a block adds alike to the text around it. -/
theorem spanPiece_follows {child : Node} (transparent : Transparent options numbered child)
    (span : child.isBlock = false) {place : Place} (linked : place.linked = true) (indent : Nat)
    (clear : ClearFrom options numbered (child.placed place)) {workspace workspace' : Workspace}
    (level : workspace.held.length = workspace'.held.length) :
    Follows (spanPiece (tagging options numbered true) child place indent)
      (spanPiece (tagging options numbered false) child place indent) workspace workspace'
      fun marked plain after after' =>
        Abreast workspace workspace' after after' ∧
          Woven after.held after'.held indent marked plain (traced numbered child place) ∧
          Opens marked := by
  have converted := transparent place indent workspace workspace' linked clear level
  unfold spanPiece
  split
  · -- Inline code is held, and a placeholder stands for it.
    rename_i code
    have isCode : child.kind = .inlineCode := by simpa using code
    rw [traced_of_lines _ (Or.inr isCode)]
    refine Follows.bind converted fun text text' middle middle' tagged => ?_
    refine (hold_follows tagged.abreast.level (tagged.code isCode)).imp ?_
    rintro stand stand' after after' ⟨grown, standing⟩
    exact ⟨tagged.abreast.trans grown, standing⟩
  · rename_i code
    refine converted.imp fun text text' after after' tagged => ?_
    exact ⟨tagged.abreast, tagged.span span (by simpa using code)⟩

/-- The children of a block are laid out alike. -/
theorem flow_follows {siblings : List Node}
    (each : ∀ child ∈ siblings, Transparent options numbered child)
    (parent : Node) {place : Place} (linked : place.linked = true) (index inner : Nat)
    (wraps : Bool)
    (clear : ClearFrom options numbered (Node.placedBelow siblings parent place index))
    {marked plain traced : List Char} {workspace workspace' : Workspace}
    (stands : Woven workspace.held workspace'.held inner marked plain traced)
    (wrappable : wraps = true → options.wraps = true →
      Wrap.Wrappable (openCodes (traced ++ tracedBelow numbered siblings parent place index)))
    (level : workspace.held.length = workspace'.held.length) :
    Follows (flow (tagging options numbered true) siblings parent place index inner wraps marked)
      (flow (tagging options numbered false) siblings parent place index inner wraps plain)
      workspace workspace' fun body body' after after' =>
        Abreast workspace workspace' after after' ∧
          Laid (marginAt options (place.enter parent 0) inner) body body' := by
  have margin (position : Nat) : marginAt options (place.enter parent position) inner =
      marginAt options (place.enter parent 0) inner := by
    rw [marginAt_enter linked, marginAt_enter linked]
  have less := marginAt_le options (place.enter parent 0) inner
  induction siblings generalizing index marked plain traced workspace workspace' with
  | nil =>
      rw [tracedBelow_nil, List.append_nil] at wrappable
      rw [flow, flow]
      refine (flush_follows stands wrappable).imp ?_
      rintro body body' after after' ⟨rfl, rfl, pair⟩
      exact ⟨Abreast.of_held level rfl rfl, laid_of_sealed pair less⟩
  | cons child rest inductionHypothesis =>
      have others := fun other present => each other (List.mem_cons_of_mem child present)
      obtain ⟨here, later⟩ := clear.append
      have entered : (place.enter parent index).linked = true := by simp [Place.enter, linked]
      rw [tracedBelow_cons] at wrappable
      cases placed : child.isBlock with
      | false =>
          -- The text of a span, or the placeholder of code, joins the span that waits.
          rw [flow_cons_of_span placed, flow_cons_of_span placed]
          rw [← List.append_assoc] at wrappable
          refine Follows.bind (spanPiece_follows (each child (by simp)) placed entered inner here
            level) ?_
          rintro piece piece' middle middle' ⟨grown, woven, opens⟩
          refine (inductionHypothesis others (index + 1) later
            ((grown.woven stands).append woven opens) wrappable grown.level).imp ?_
          rintro body body' after after' ⟨further, laid⟩
          exact ⟨grown.trans further, laid⟩
      | true =>
          -- The span before a block is laid out, and a new span begins behind it.
          rw [flow_cons_of_block placed, flow_cons_of_block placed]
          refine Follows.bind
            (each child (by simp) _ inner workspace workspace' entered here level) ?_
          intro text text' middle middle' tagged
          have region := tagged.block placed
          rw [margin] at region
          have parts := fun wrap wrapOption =>
            Wrap.wrappable_append_newline (by
              have whole := wrappable wrap wrapOption
              rwa [traced_of_lines _ (Or.inl placed), openCodes_append, openCodes_append,
                openCodes_codeSign, List.singleton_append] at whole)
          refine Follows.bind (flush_follows (tagged.abreast.woven stands) fun wrap wrapOption =>
            (parts wrap wrapOption).1) ?_
          rintro before before' _ _ ⟨rfl, rfl, pair⟩
          refine Follows.bind (inductionHypothesis others (index + 1) later Woven.nil
            (fun wrap wrapOption => (parts wrap wrapOption).2) tagged.abreast.level) ?_
          rintro body body' after after' ⟨further, laid⟩
          exact Follows.give ⟨tagged.abreast.trans further,
            ((laid_of_sealed pair less).append region).append laid⟩

/-- The children of a formatting node are woven together. -/
theorem convertInline_follows {siblings : List Node}
    (each : ∀ child ∈ siblings, Transparent options numbered child)
    (spans : options.nesting = .flatten → ∀ child ∈ siblings, child.isBlock = false)
    (parent : Node) {place : Place} (linked : place.linked = true) (index indent : Nat)
    (clear : ClearFrom options numbered (Node.placedBelow siblings parent place index))
    {workspace workspace' : Workspace} (level : workspace.held.length = workspace'.held.length) :
    Follows (convertInline (tagging options numbered true) siblings parent place index indent)
      (convertInline (tagging options numbered false) siblings parent place index indent)
      workspace workspace' fun marked plain after after' =>
        Abreast workspace workspace' after after' ∧
          Woven after.held after'.held indent marked plain
            (tracedBelow numbered siblings parent place index) ∧ Opens marked := by
  induction siblings generalizing index workspace workspace' with
  | nil => exact Follows.give ⟨Abreast.of_held level rfl rfl, Woven.nil, opens_nil⟩
  | cons child rest inductionHypothesis =>
      have others := fun other present => each other (List.mem_cons_of_mem child present)
      have otherSpans := fun lax other present =>
        spans lax other (List.mem_cons_of_mem child present)
      obtain ⟨here, later⟩ := clear.append
      have entered : (place.enter parent index).linked = true := by simp [Place.enter, linked]
      rw [convertInline_cons, convertInline_cons, tracedBelow_cons]
      cases placed : child.isBlock with
      | true =>
          -- The plain rendering refuses a block, for under the lax policy there is none.
          have strict : (tagging options numbered false).options.nesting = .reject :=
            rejects_of_block (fun lax => spans lax child (by simp)) placed
          rw [inlinePiece_of_reject strict placed]
          refine Follows.bind (?_ : Follows _ _ workspace workspace' fun _ _ _ _ => False)
            fun _ _ _ _ => False.elim
          exact Follows.stop
      | false =>
          rw [inlinePiece_of_span placed, inlinePiece_of_span placed]
          refine Follows.bind
            (spanPiece_follows (each child (by simp)) placed entered indent here level) ?_
          rintro first first' middle middle' ⟨grown, woven, opens⟩
          refine Follows.bind
            (inductionHypothesis others otherSpans (index + 1) later grown.level) ?_
          rintro remaining remaining' after after' ⟨further, wovenLater, opensLater⟩
          exact Follows.give ⟨grown.trans further,
            (further.woven woven).append wovenLater opensLater, opens_append opens opensLater⟩

/-- Where formatting holds no block, no row is flattened. -/
theorem ClearFrom.flattensPlainly {node : Node} {place : Place}
    (clear : ClearFrom options numbered (node.placed place)) (debug : Bool) :
    FlattensPlainly (tagging options numbered debug).options node :=
  fun lax => FlattensPlainly.of_spans
    (Node.Everywhere.of_placed fun entry listed => (clear entry listed).spans lax) lax

/-- A clear cell has one content with tags and without. -/
theorem cell_follows {cell : Node} (transparent : Transparent options numbered cell)
    {place : Place} (linked : place.linked = true)
    (clear : ClearFrom options numbered (cell.placed place))
    (clearCell : ClearCell options numbered cell place) {workspace workspace' : Workspace}
    (level : workspace.held.length = workspace'.held.length) :
    Follows (convert (tagging options numbered true) cell place 0)
      (convert (tagging options numbered false) cell place 0) workspace workspace'
      fun marked plain after after' => Abreast workspace workspace' after after' ∧
        erase (cellContent marked) = cellContent plain ∧ Bracketed (cellContent marked) ∧
        layoutOf (tagging options numbered false) cell place 0 = .ok plain := by
  intro plain after' returned
  obtain ⟨marked, after, found, tagged⟩ :=
    transparent place 0 workspace workspace' linked clear level plain after' returned
  have block : cell.isBlock = true := by simp [Node.isBlock, clearCell.kind, Kind.placement]
  have known : cell.kind.isKnown = true := by rw [clearCell.kind]; rfl
  have meant := layoutOf_of_convert rfl clearCell.settled (clear.flattensPlainly false) block
    returned
  have tight := clearCell.tight
  rw [cellLines, meant] at tight
  refine ⟨marked, after, found, tagged.abreast,
    erase_cellContent (tagged.cell clearCell.kind) tight, ?_, meant⟩
  obtain ⟨text, rfl⟩ := tagged.tagged
  exact bracketed_cellContent known text

/-- The cells of a row have the same contents with tags and without. -/
theorem convertCells_follows {siblings : List Node}
    (each : ∀ child ∈ siblings, Transparent options numbered child) (row : Node) {place : Place}
    (linked : place.linked = true) (index : Nat)
    (clear : ClearFrom options numbered (Node.placedBelow siblings row place index))
    (cells : ∀ entry ∈ siblings.zipIdx index,
      ClearCell options numbered entry.1 (place.enter row entry.2))
    {workspace workspace' : Workspace} (level : workspace.held.length = workspace'.held.length) :
    Follows (convertCells (tagging options numbered true) siblings row place index)
      (convertCells (tagging options numbered false) siblings row place index) workspace workspace'
      fun contents contents' after after' => Abreast workspace workspace' after after' ∧
        contents.map erase = contents' ∧
        (∀ content ∈ contents, Bracketed content ∧ '\n' ∉ content) ∧
        cellsBelow (tagging options numbered false) siblings row place index = .ok contents' := by
  induction siblings generalizing index workspace workspace' with
  | nil =>
      exact Follows.give ⟨Abreast.of_held level rfl rfl, rfl, List.forall_mem_nil _, rfl⟩
  | cons cell rest inductionHypothesis =>
      have others := fun other present => each other (List.mem_cons_of_mem cell present)
      obtain ⟨here, later⟩ := clear.append
      have entered : (place.enter row index).linked = true := by simp [Place.enter, linked]
      rw [List.zipIdx_cons] at cells
      obtain ⟨first, remaining⟩ := List.forall_mem_cons.mp cells
      rw [convertCells, convertCells, cellsBelow]
      refine Follows.bind (cell_follows (each cell (by simp)) entered here first level) ?_
      rintro marked plain middle middle' ⟨grown, erased, bracketed, meant⟩
      refine Follows.bind (inductionHypothesis others (index + 1) later remaining grown.level) ?_
      rintro contents contents' after after' ⟨further, same, proper, meantLater⟩
      refine Follows.give ⟨grown.trans further, ?_, ?_, ?_⟩
      · rw [List.map_cons, erased, same]
      · exact List.forall_mem_cons.mpr
          ⟨⟨bracketed, newline_not_mem_collapseBreaks _⟩, proper⟩
      · rw [meant, meantLater]
        rfl

/-! ## Nodes by shapes -/

/-- What a conversion gives before its tags are put around it. -/
structure Untagged (options : Options) (numbered : Numbering.Numbered) (node : Node) (place : Place)
    (indent : Nat) (workspace workspace' : Workspace) (marked plain : List Char)
    (after after' : Workspace) : Prop where
  /-- Code is held side by side. -/
  abreast : Abreast workspace workspace' after after'
  /-- A block is sealed, or it is flexible and empty, and no margin is kept. -/
  block : node.isBlock = true → Sealed (marginAt options place indent) marked plain ∨
    marked = [] ∧ plain = [] ∧ marginAt options place indent = 0 ∧
      node.kind.placement = .flexible
  /-- Code is sealed. -/
  code : node.kind = .inlineCode → Sealed indent marked plain
  /-- Any other span is woven. -/
  span : node.isBlock = false → node.kind ≠ .inlineCode → ∃ inner,
    Woven after.held after'.held indent marked plain inner ∧
      traced numbered node place = enclose spanClass node.kind.name.toList inner

/-- Tags are put around the text of a node. -/
theorem Untagged.finish {node : Node} {place : Place} {indent : Nat}
    {workspace workspace' after after' : Workspace} {marked plain : List Char}
    (untagged : Untagged options numbered node place indent workspace workspace' marked plain
      after after') (known : node.kind.isKnown = true) :
    Tagged options numbered node place indent workspace workspace'
      (Layout.finish (tagging options numbered true) node marked)
      (Layout.finish (tagging options numbered false) node plain) after after' := by
  have tagged : Layout.finish (tagging options numbered true) node marked = tag node marked := rfl
  have bare : Layout.finish (tagging options numbered false) node plain = plain := rfl
  rw [tagged, bare]
  have lines (block : node.isBlock = true) : (node.isSpan && node.kind != .inlineCode) = false := by
    simp [Node.isSpan, block]
  refine ⟨untagged.abreast, ⟨marked, rfl⟩, fun block => ?_, fun cell => ?_, fun code => ?_,
    fun span noCode => ?_⟩
  · rcases untagged.block block with pair | ⟨rfl, rfl, none, -⟩
    · exact (pair.tag known (lines block)).laid
    · obtain ⟨opened, closed⟩ := isMarker_opening (Or.inl rfl) known
      rw [Sealed.tag_nil (lines block), none]
      refine Laid.of_tags (((Tags.of_isMarker opened).append Tags.nil).append ?_)
      exact Tags.of_isMarker closed
  · have block : node.isBlock = true := by simp [Node.isBlock, cell, Kind.placement]
    rcases untagged.block block with pair | ⟨-, -, -, flexible⟩
    · exact pair.tag known (lines block)
    · rw [cell] at flexible
      cases flexible
  · exact (untagged.code code).tag known (by simp [code])
  · obtain ⟨opened, closed⟩ := isMarker_opening (Or.inr rfl) known
    obtain ⟨inner, woven, whole⟩ := untagged.span span noCode
    have isSpan : (node.isSpan && node.kind != .inlineCode) = true := by
      simp [Node.isSpan, span, noCode]
    rw [tag, if_pos isSpan, whole]
    refine ⟨woven.enclose opened closed, ?_⟩
    rw [enclose, List.append_assoc]
    exact opened.opens _

section Shapes

variable {node : Node} {place : Place} {indent : Nat} {workspace workspace' : Workspace}

/-- The margin of a block is kept below it. -/
theorem marginAt_le_below (linked : place.linked = true) (more : Nat) :
    marginAt options place indent ≤ marginAt options (place.enter node 0) (indent + more) := by
  rw [marginAt_enter linked, marginAt]
  cases underBullet options place <;> simp

/-- A span other than code is formatting or a leaf whose text is its own. -/
theorem leafLaid_of_span (span : node.isBlock = false) (noCode : node.kind ≠ .inlineCode)
    (place : Place) (indent : Nat) :
    leafLaid options numbered node place indent = leafShown numbered node place := by
  obtain ⟨kind, payload, attributes, fields, children⟩ := node
  cases kind with
  | inlineCode => exact absurd rfl noCode
  | rawPassthrough =>
      simp [leafLaid, leafShown, span]
  | horizontalRule => cases span
  | codeblock => cases span
  | _ => rfl

theorem ownText_of_leaf (leaf : shape options node = .leaf) (noBlockCode : node.kind ≠ .codeblock)
    (noCode : node.kind ≠ .inlineCode) (place : Place) :
    ownText options numbered node place = leafShown numbered node place := by
  rw [ownText, leaf]
  dsimp only
  split
  · contradiction
  · contradiction
  · rfl

/-- The text of a span that is a leaf is its own. -/
theorem ownText_of_span (leaf : shape options node = .leaf) (span : node.isBlock = false)
    (noCode : node.kind ≠ .inlineCode) (place : Place) :
    ownText options numbered node place = leafShown numbered node place := by
  refine ownText_of_leaf leaf (fun code => ?_) noCode place
  simp [Node.isBlock, code, Kind.placement] at span

theorem ownText_of_raw (raw : node.kind = .rawPassthrough) (place : Place) :
    ownText options numbered node place = node.payload.content.toList := by
  obtain ⟨kind, payload, attributes, fields, children⟩ := node
  obtain rfl : kind = .rawPassthrough := raw
  rfl

theorem ownText_of_code (code : node.kind = .codeblock ∨ node.kind = .inlineCode)
    (place : Place) :
    ownText options numbered node place = node.payload.content.toList := by
  obtain ⟨kind, payload, attributes, fields, children⟩ := node
  rcases code with code | code
  · obtain rfl : kind = .codeblock := code
    rfl
  · obtain rfl : kind = .inlineCode := code
    rfl

theorem leafLaid_of_suppressed (suppressed : Suppressed node.kind) (place : Place) (indent : Nat) :
    leafLaid options numbered node place indent = [] := by
  obtain ⟨flexible, noMath, noRaw⟩ := suppressed
  obtain ⟨kind, payload, attributes, fields, children⟩ := node
  cases kind with
  | math => exact absurd rfl noMath
  | rawPassthrough => exact absurd rfl noRaw
  | _ => first | rfl | cases flexible

/-- The text of a clear leaf before its tags. -/
theorem leaf_untagged (clear : Clear options numbered node place)
    (leaf : shape options node = .leaf) {after after' : Workspace} {marked plain : List Char}
    (level : workspace.held.length = workspace'.held.length)
    (both : GivesBoth (leafLaid options numbered node place indent) workspace workspace' marked
      plain after after') :
    Untagged options numbered node place indent workspace workspace' marked plain after after' := by
  obtain ⟨same, same', rfl, rfl⟩ := both
  have verbatim (code : node.kind = .codeblock ∨ node.kind = .inlineCode) :
      Sealed indent (leafLaid options numbered node place indent)
        (leafLaid options numbered node place indent) := by
    have unmarked := clear.unmarked
    rw [ownText_of_code code] at unmarked
    have laid := sealed_verbatim (clear.ruled (code.elim (Or.inr ∘ Or.inl) (Or.inr ∘ Or.inr)))
      unmarked indent
    rcases code with code | code <;> simpa [leafLaid, code] using laid
  refine ⟨Abreast.of_held level same same', fun block => ?_, fun code => verbatim (Or.inr code),
    fun span noCode => ?_⟩
  · have less := marginAt_le options place indent
    rcases leaf_of_block block leaf with rule | code | raw | suppressed
    · have laid := sealed_horizontalRule options.maxColumn indent
      exact Or.inl (by simpa [leafLaid, rule] using laid.mono less)
    · exact Or.inl ((verbatim (Or.inl code)).mono less)
    · have margin : marginAt options place indent = 0 := by
        cases hung : underBullet options place with
        | false => simp [marginAt, hung]
        | true =>
            have math := (clear.shows block (by rw [raw]; rfl) hung).1
            rw [raw] at math
            cases math
      have own : ownText options numbered node place = node.payload.content.toList :=
        ownText_of_raw raw place
      have unmarked := clear.unmarked
      obtain ⟨kept, head⟩ := clear.raw raw block
      rw [own] at unmarked kept head
      rw [margin]
      exact Or.inl (by simpa [leafLaid, raw, block] using sealed_raw unmarked kept head)
    · have empty : leafLaid options numbered node place indent = [] :=
        leafLaid_of_suppressed suppressed place indent
      refine Or.inr ⟨empty, empty, ?_, suppressed.1⟩
      cases hung : underBullet options place with
      | false => simp [marginAt, hung]
      | true => exact absurd (clear.shows block suppressed.1 hung).1 suppressed.2.1
  · have flowing : isFlowing node = true := by simp [isFlowing, Node.isSpan, span, noCode]
    have own : ownText options numbered node place = leafShown numbered node place :=
      ownText_of_span leaf span noCode place
    have unmarked := clear.unmarked
    have nulFree := clear.nulFree flowing
    have blanks := clear.blanks flowing
    rw [own] at unmarked nulFree blanks
    have woven : Woven after.held after'.held indent _ _ _ := Woven.piece nulFree blanks
    rw [erase_of_unmarked unmarked] at woven
    rw [leafLaid_of_span span noCode]
    exact ⟨_, woven, traced_of_leaf numbered span noCode leaf place⟩

/-- A sealed block needs no more. -/
theorem untagged_of_sealed {marked plain : List Char} {after after' : Workspace}
    (abreast : Abreast workspace workspace' after after') (block : node.isBlock = true)
    (pair : Sealed (marginAt options place indent) marked plain) :
    Untagged options numbered node place indent workspace workspace' marked plain after after' := by
  refine ⟨abreast, fun _ => Or.inl pair, fun code => absurd code (noCode_of_block block),
    fun span => ?_⟩
  rw [block] at span
  cases span

/-- The joined text of a clear formatting node. -/
theorem joined_woven (clear : Clear options numbered node place)
    (inline : shape options node = .inline ∨ shape options node = .math)
    {codes codes' : List (List Char)} {marked plain : List Char}
    (stands : Woven codes codes' indent marked plain
      (tracedBelow numbered node.children node place 0)) :
    Woven codes codes' indent
      (joinLines (if node.children.isEmpty then node.payload.content.toList else marked))
      (joinLines (if node.children.isEmpty then node.payload.content.toList else plain))
      (joinLines (tracedContent numbered node place)) := by
  have formatting := isFormatting_of_inline inline
  have content : Woven codes codes' indent
      (if node.children.isEmpty then node.payload.content.toList else marked)
      (if node.children.isEmpty then node.payload.content.toList else plain)
      (tracedContent numbered node place) := by
    rw [tracedContent]
    split
    · rename_i childless
      have own : ownText options numbered node place = node.payload.content.toList :=
        ownText_of_childless childless formatting place
      have flowing := isFlowing_of_formatting formatting
      have unmarked := clear.unmarked
      have nulFree := clear.nulFree flowing
      have blanks := clear.blanks flowing
      rw [own] at unmarked nulFree blanks
      have piece : Woven codes codes' indent _ _ _ := Woven.piece nulFree blanks
      rwa [erase_of_unmarked unmarked] at piece
    · exact stands
  exact content.joinLines ((erase_joinLines_iff _).mpr (clear.joins formatting))

/-- Math is laid out as a block, or it is woven into the span around it. -/
theorem math_follows (clear : Clear options numbered node place)
    (math : shape options node = .math) {marked plain : List Char} {after after' : Workspace}
    (abreast : Abreast workspace workspace' after after')
    (joined : Woven after.held after'.held indent marked plain
      (joinLines (tracedContent numbered node place))) :
    Follows
      (if node.isBlock then flush (tagging options numbered true) indent false marked
        else pure marked)
      (if node.isBlock then flush (tagging options numbered false) indent false plain
        else pure plain)
      after after' (Untagged options numbered node place indent workspace workspace') := by
  have noCode : node.kind ≠ .inlineCode := noCode_of_shape math (by simp)
  split
  · rename_i block
    have flushed : Follows (flush (tagging options numbered true) indent false _)
        (flush (tagging options numbered false) indent false _) after after' _ :=
      flush_follows joined (absurd · Bool.false_ne_true)
    refine flushed.imp ?_
    rintro laid laid' _ _ ⟨rfl, rfl, pair⟩
    refine ⟨abreast, fun _ => ?_, fun code => absurd code noCode, fun span => ?_⟩
    · rcases pair with pair | ⟨rfl, rfl, blank⟩
      · exact Or.inl (pair.mono (marginAt_le options place indent))
      · have flexible : node.kind.placement = .flexible := by
          simp [kind_of_math math, Kind.placement]
        refine Or.inr ⟨rfl, rfl, ?_, flexible⟩
        cases hung : underBullet options place with
        | false => simp [marginAt, hung]
        | true =>
            rw [(clear.shows block flexible hung).2] at blank
            cases blank
    · rw [block] at span
      cases span
  · rename_i block
    exact Follows.give ⟨abreast, fun also => absurd also block, fun code => absurd code noCode,
      fun span _ => ⟨_, joined, traced_of_inline numbered span (Or.inr math) place⟩⟩

/-- The text of a node before its tags. -/
theorem bareText_follows (clear : ClearFrom options numbered (node.placed place))
    (each : ∀ child ∈ node.children, Transparent options numbered child)
    (linked : place.linked = true) (indent : Nat)
    (level : workspace.held.length = workspace'.held.length) :
    Follows (bareText (tagging options numbered true) node place indent)
      (bareText (tagging options numbered false) node place indent) workspace workspace'
      (Untagged options numbered node place indent workspace workspace') := by
  rw [Node.placed_eq] at clear
  obtain ⟨first, below⟩ := List.forall_mem_cons.mp clear
  have here : Clear options numbered node place := first
  have same (debug : Bool) : shape (tagging options numbered debug).options node =
      shape options node := rfl
  have flowed (inner : Nat) (wraps : Bool)
      (wrappable : wraps = true → options.wraps = true →
        Wrap.Wrappable (openCodes (tracedBelow numbered node.children node place 0))) :=
    flow_follows each node linked 0 inner wraps below Woven.nil wrappable level
  have spans := fun formatting =>
    convertInline_follows each (fun lax => here.spans lax formatting) node linked 0 indent
      below level
  unfold bareText
  simp only [same]
  cases shaped : shape options node with
  | region extra =>
      have wraps := here.wraps (by simp [gathers, shaped])
      refine Follows.bind (flowed _ _ wraps) ?_
      rintro body body' after after' ⟨abreast, laid⟩
      exact Follows.give (untagged_of_sealed abreast
        (isBlock_of_shape shaped (by simp) (by simp) (by simp))
        (laid.trimTail.mono (marginAt_le_below linked extra)))
  | hanging bullet =>
      have wraps := here.wraps (by simp [gathers, shaped])
      refine Follows.bind (flowed _ _ wraps) ?_
      rintro body body' after after' ⟨abreast, laid⟩
      have hung : hangs options node = true := by simp [hangs, shaped]
      have unmarked := here.unmarked
      rw [ownText, shaped] at unmarked
      rw [marginAt_enter linked, hung, Bool.true_or, if_pos rfl] at laid
      exact Follows.give (untagged_of_sealed abreast
        (isBlock_of_shape shaped (by simp) (by simp) (by simp))
        ((sealed_hang laid unmarked (here.bullet bullet shaped) (shown_of_hanging shaped)).mono
          (marginAt_le options place indent)))
  | quote =>
      have quote := kind_of_quote shaped
      have unwrapped : wrapsAt node place = false := by simp [wrapsAt, quote]
      rw [unwrapped]
      refine Follows.bind (flowed _ false (absurd · Bool.false_ne_true)) ?_
      rintro body body' after after' ⟨abreast, laid⟩
      exact Follows.give (untagged_of_sealed abreast
        (isBlock_of_shape shaped (by simp) (by simp) (by simp))
        ((sealed_quote (here.ruled (Or.inl quote)) laid.trimTail).mono
          (marginAt_le options place indent)))
  | row =>
      have row := here.row (kind_of_row shaped)
      refine Follows.bind (convertCells_follows each node linked 0 below row.cells level) ?_
      rintro contents contents' after after' ⟨abreast, rfl, proper, meant⟩
      cases separated : options.cellSeparator with
      | none =>
          have missing : (tagging options numbered false).options.cellSeparator = none := separated
          simp only [missing]
          exact Follows.stop
      | some separator =>
          have given (debug : Bool) :
              (tagging options numbered debug).options.cellSeparator = some separator := separated
          simp only [given]
          obtain ⟨unmarked, whole⟩ := row.separator separator separated
          refine Follows.give (untagged_of_sealed abreast
            (isBlock_of_shape shaped (by simp) (by simp) (by simp))
            ((sealed_rowLine unmarked whole proper (fun nonempty => ?_) indent).mono
              (marginAt_le options place indent)))
          have ends := row.ends ?_ separator separated
          · rwa [cellContents, meant] at ends
          · intro childless
            rw [childless] at meant
            cases contents with
            | nil => exact nonempty rfl
            | cons content others => cases meant
  | inline =>
      have inline := Or.inl (b := shape options node = .math) shaped
      refine Follows.bind (spans (isFormatting_of_inline inline)) ?_
      rintro content content' after after' ⟨abreast, woven, -⟩
      refine Follows.give ⟨abreast, fun block => ?_,
        fun code => absurd code (noCode_of_shape shaped (by simp)), fun span _ =>
        ⟨_, joined_woven here inline woven, traced_of_inline numbered span inline place⟩⟩
      rw [isBlock_of_inline shaped] at block
      cases block
  | math =>
      have inline := Or.inr (a := shape options node = .inline) shaped
      refine Follows.bind (spans (isFormatting_of_inline inline)) ?_
      rintro content content' after after' ⟨abreast, woven, -⟩
      exact math_follows here shaped abreast (joined_woven here inline woven)
  | leaf =>
      exact (leafText_follows options node place indent).imp fun marked plain after after' both =>
        leaf_untagged here shaped level both

end Shapes

/-- A node of known kinds is converted alike with and without tags. -/
theorem convert_follows (node : Node)
    (known : node.Everywhere fun inner => inner.kind.isKnown = true) :
    Transparent options numbered node := by
  induction node using Node.induction_on_children with
  | step node below =>
      intro place indent workspace workspace' linked clear level
      have each := fun child present => below child present (known.below present)
      rw [convert_eq_bareText _ place indent known.here,
        convert_eq_bareText _ place indent known.here]
      refine Follows.bind (bareText_follows clear each linked indent level) ?_
      intro marked plain after after' untagged
      exact Follows.give (untagged.finish known.here)

end Layout
end Galley
