import Galley.Proofs.Layout.Content
import Galley.Proofs.Layout.Walked

/-!
# Conversions convey the flat text

By induction on the tree, a conversion stops at no fault, a span conveys its flat text
and a block presents it; where layout is exact, the text of a calm block hides nothing.
-/

namespace Galley
namespace Layout

open Text

/-- A node can be converted: its kind is known, its attributes are texts, and its
strings hold no NUL. -/
structure Sound (node : Node) : Prop where
  /-- The kind belongs to the closed set. -/
  known : node.kind.isKnown = true
  /-- No string holds NUL. -/
  nulFree : node.NulFree
  /-- Attributes are texts. -/
  attributes : node.TextAttributes

/-- The flat text of a node says all that its layout shows: it is no horizontal rule,
and a table row has nothing but cells. -/
structure Faithful (node : Node) : Prop where
  /-- The length of a rule depends on the room there is. -/
  noRule : node.kind ≠ .horizontalRule
  /-- Rows have cells only. -/
  cells : node.kind = .tableRow → ∀ child ∈ node.children, child.kind = .tableCell

/-- What is known of a conversion of a node: no code is held but that of the nodes
below, a span conveys what is wanted, and a block presents it, calm if the rows that are
met in it are plain. -/
structure Converts (exact : Prop) (options : Options) (node : Node) (want : List Char)
    (before : Workspace) (text : List Char) (after : Workspace) : Prop where
  /-- Only code below the node is held. -/
  grows : Grows before after (Node.codeCountBelow node.children)
  /-- A span conveys what is wanted. -/
  span : node.isBlock = false → Conveys exact after.held text want
  /-- Code hides nothing. -/
  code : node.kind = .inlineCode → NulFree text
  /-- A block presents what is wanted. -/
  block : node.isBlock = true → Presents exact (Met (PlainRow options) node) after.held text want

variable {exact : Prop} {bound : Nat} {setting : Setting} {separator : String}
  {numbered : Numbering.Numbered}

namespace Converts

variable {options : Options} {node : Node} {want text : List Char} {before after : Workspace}

theorem of_span (span : node.isBlock = false)
    (grows : Grows before after (Node.codeCountBelow node.children))
    (conveys : Conveys exact after.held text want)
    (code : node.kind = .inlineCode → NulFree text) :
    Converts exact options node want before text after :=
  ⟨grows, fun _ => conveys, code, (fun block => by rw [span] at block; cases block)⟩

theorem of_block (block : node.isBlock = true)
    (grows : Grows before after (Node.codeCountBelow node.children))
    (presents : Presents exact (Met (PlainRow options) node) after.held text want) :
    Converts exact options node want before text after :=
  ⟨grows, (fun span => by rw [span] at block; cases block),
    fun code => absurd code (noCode_of_block block), fun _ => presents⟩

/-- Any node presents what is wanted, unless it is a span and its layout is exact. -/
theorem presents (converts : Converts exact options node want before text after)
    (firm : exact → node.isBlock = true) :
    Presents exact (Met (PlainRow options) node) after.held text want := by
  cases placed : node.isBlock with
  | true => exact converts.block placed
  | false =>
      rw [placed] at firm
      exact ⟨fun _ => converts.span placed, fun asked => absurd (firm asked) (by simp),
        fun asked => absurd (firm asked) (by simp)⟩

end Converts

/-- A node is converted as is known, at every place and from every workspace with enough
room. -/
def ConvertsAnywhere (exact : Prop) (bound : Nat) (setting : Setting) (separator : String)
    (numbered : Numbering.Numbered) (node : Node) : Prop :=
  ∀ place indent workspace, Ready bound workspace node.codeCount →
    Meets (convert setting node place indent) workspace (Admitted setting.options bound)
      (Converts exact setting.options node
        (flat (dashes setting.options) separator.toList numbered node place) workspace)

theorem codeCountBelow_le (node : Node) : Node.codeCountBelow node.children ≤ node.codeCount := by
  rw [Node.codeCount_eq]
  omega

theorem codeCount_of_code {node : Node} (code : node.kind = .inlineCode) :
    node.codeCount = Node.codeCountBelow node.children + 1 := by
  rw [Node.codeCount_eq, if_pos code, Nat.add_comm]

/-- A span adds its flat text to the text around it; of code a placeholder stands for
it. -/
theorem spanPiece_meets {child : Node} (span : child.isBlock = false)
    (converts : ConvertsAnywhere exact bound setting separator numbered child)
    (place : Place) (indent : Nat) {workspace : Workspace}
    (ready : Ready bound workspace child.codeCount) :
    Meets (spanPiece setting child place indent) workspace (Admitted setting.options bound)
      fun text after =>
        Grows workspace after child.codeCount ∧
          Conveys exact after.held text
            (flat (dashes setting.options) separator.toList numbered child place) := by
  have converted := converts place indent workspace ready
  unfold spanPiece
  split
  · rename_i isCode
    have code : child.kind = .inlineCode := by simpa using isCode
    refine Meets.bind converted fun text middle converted => ?_
    have plain := converted.code code
    refine (hold_meets plain (fun asked => (converted.span span).ink_eq plain asked) _).imp ?_
    rintro stand after ⟨grows, standing⟩
    rw [codeCount_of_code code]
    exact ⟨converted.grows.trans grows, standing⟩
  · exact converted.imp fun text after converted =>
      ⟨converted.grows.mono (codeCountBelow_le child), converted.span span⟩

/-- The children of a block are laid out span by span and block by block. -/
theorem flow_meets
    (undebugged : exact → setting.options.debug = false)
    {siblings : List Node}
    (each : ∀ child ∈ siblings, ConvertsAnywhere exact bound setting separator numbered child)
    {calm : Prop} (rows : calm → ∀ child ∈ siblings, Met (PlainRow setting.options) child)
    (parent : Node) (place : Place) (index inner : Nat) (wraps : Bool)
    {span want : List Char} {workspace : Workspace}
    (ready : Ready bound workspace (Node.codeCountBelow siblings))
    (conveys : Conveys exact workspace.held span want) :
    Meets (flow setting siblings parent place index inner wraps span) workspace
      (Admitted setting.options bound) fun text after =>
        Grows workspace after (Node.codeCountBelow siblings) ∧
          Presents exact calm after.held text (want ++ (flatBelow (dashes setting.options)
            separator.toList numbered siblings parent place index).flatten) := by
  induction siblings generalizing index span want workspace with
  | nil =>
      rw [flow]
      refine (flush_meets undebugged ready conveys inner wraps).imp ?_
      rintro laid after ⟨rfl, plain, same⟩
      refine ⟨Grows.of_held rfl, Presents.of_nulFree (fun _ => plain) ?_⟩
      simpa using same
  | cons child rest inductionHypothesis =>
      have others := fun other present => each other (List.mem_cons_of_mem child present)
      have otherRows := fun still other present =>
        rows still other (List.mem_cons_of_mem child present)
      rw [Node.codeCountBelow_cons] at ready ⊢
      have room := ready.mono (Nat.le_add_right _ _)
      cases placed : child.isBlock with
      | false =>
          rw [flow_cons_of_span placed]
          refine Meets.bind (spanPiece_meets placed (each child (by simp)) _ inner room) ?_
          rintro piece middle ⟨grown, conveyed⟩
          refine (inductionHypothesis others otherRows (index + 1) (grown.ready ready)
            ((grown.conveys conveys).append conveyed)).imp ?_
          rintro final after ⟨grows, presented⟩
          exact ⟨grown.trans grows, by simpa using presented⟩
      | true =>
          -- The span before a block is laid out, and a new span begins behind it.
          rw [flow_cons_of_block placed]
          refine Meets.bind (each child (by simp) _ inner workspace room) ?_
          intro text middle converted
          have grown := converted.grows.mono (codeCountBelow_le child)
          refine Meets.bind (flush_meets undebugged ((grown.ready ready).mono (Nat.zero_le _))
            (grown.conveys conveys) inner wraps) ?_
          rintro before _ ⟨rfl, beforePlain, beforeSame⟩
          refine Meets.bind (inductionHypothesis others otherRows (index + 1) (grown.ready ready)
            Conveys.nil) fun final after later => Meets.give ?_
          obtain ⟨grows, presented⟩ := later
          have first : Presents exact calm after.held before want :=
            Presents.of_nulFree (fun _ => beforePlain) beforeSame
          have own := (grows.presents (converted.block placed)).of_calmer fun still =>
            rows still child (by simp)
          exact ⟨grown.trans grows, by simpa using (first.append own).append presented⟩

/-- A child adds its flat text to a span; of a block the words are kept, if the rows in
it are plain. -/
theorem inlinePiece_meets {child : Node}
    (converts : ConvertsAnywhere exact bound setting separator numbered child)
    (rows : setting.options.nesting = .flatten → Met (PlainRow setting.options) child)
    (parent : Node) (place : Place) (indent : Nat) {workspace : Workspace}
    (ready : Ready bound workspace child.codeCount) :
    Meets (inlinePiece setting child parent place indent) workspace (Admitted setting.options bound)
      fun text after =>
        Grows workspace after child.codeCount ∧
          Conveys exact after.held text
            (flat (dashes setting.options) separator.toList numbered child place) := by
  cases placed : child.isBlock with
  | false =>
      rw [inlinePiece_of_span placed]
      exact spanPiece_meets placed converts place indent ready
  | true =>
      rw [inlinePiece_of_block placed]
      cases nesting : setting.options.nesting with
      | reject => exact Meets.stop (Or.inr ⟨nesting, _, rfl, rfl⟩)
      | flatten =>
          unfold report
          refine Meets.change_bind (Meets.bind (converts place 0 _ ⟨ready.codes, ready.few⟩)
            fun text after converted => Meets.give ⟨?_, ?_⟩)
          · exact converted.grows.mono (codeCountBelow_le child)
          · have conveyed := (converted.block placed).conveys (rows nesting)
            exact conveyed.respace (respaced_unwords_words text)

/-- The children of a span are joined. -/
theorem convertInline_meets
    {siblings : List Node}
    (each : ∀ child ∈ siblings, ConvertsAnywhere exact bound setting separator numbered child)
    (rows : setting.options.nesting = .flatten →
      ∀ child ∈ siblings, Met (PlainRow setting.options) child)
    (parent : Node) (place : Place) (index indent : Nat) {workspace : Workspace}
    (ready : Ready bound workspace (Node.codeCountBelow siblings)) :
    Meets (convertInline setting siblings parent place index indent) workspace
      (Admitted setting.options bound) fun text after =>
        Grows workspace after (Node.codeCountBelow siblings) ∧
          Conveys exact after.held text (flatBelow (dashes setting.options)
            separator.toList numbered siblings parent place index).flatten := by
  induction siblings generalizing index workspace with
  | nil => exact Meets.give ⟨Grows.of_held rfl, Conveys.nil⟩
  | cons child rest inductionHypothesis =>
      have others := fun other present => each other (List.mem_cons_of_mem child present)
      have otherRows := fun lax other present => rows lax other (List.mem_cons_of_mem child present)
      rw [Node.codeCountBelow_cons] at ready ⊢
      rw [convertInline_cons]
      refine Meets.bind (inlinePiece_meets (each child (by simp))
        (fun lax => rows lax child (by simp))
        parent _ indent (ready.mono (Nat.le_add_right _ _))) ?_
      rintro piece middle ⟨grown, conveyed⟩
      refine Meets.bind (inductionHypothesis others otherRows (index + 1) (grown.ready ready)) ?_
      rintro remaining after ⟨grows, conveyedAfter⟩
      exact Meets.give ⟨grown.trans grows, (grows.conveys conveyed).append conveyedAfter⟩

theorem Presents.cellContent {calm : Prop} {held : List (List Char)} {text want : List Char}
    (presents : Presents exact calm held text want) :
    Presents exact calm held (cellContent text) want :=
  ((presents.respace (Respaced.trimStart text)).respace (Respaced.trimEnd _)).respace
    (respaced_collapseBreaks _)

theorem nulFree_cellContent {text : List Char} (plain : NulFree text) :
    NulFree (cellContent text) := by
  have same : ink (cellContent text) = ink text := by
    rw [cellContent, ← (respaced_collapseBreaks _).ink_eq, trim, ink_trimEnd, ink_trimStart]
  exact (nulFree_congr same).mpr plain

/-- The nodes of a row are converted to cells. -/
theorem convertCells_meets
    {siblings : List Node}
    (each : ∀ child ∈ siblings, ConvertsAnywhere exact bound setting separator numbered child)
    (cells : exact → ∀ child ∈ siblings, child.kind = .tableCell)
    {calm : Prop} (rows : calm → ∀ child ∈ siblings, Met (PlainRow setting.options) child)
    (parent : Node) (place : Place) (index : Nat) {workspace : Workspace}
    (ready : Ready bound workspace (Node.codeCountBelow siblings)) :
    Meets (convertCells setting siblings parent place index) workspace
      (Admitted setting.options bound) fun texts after =>
        Grows workspace after (Node.codeCountBelow siblings) ∧
          CellsPresent exact calm after.held texts (flatBelow (dashes setting.options)
            separator.toList numbered siblings parent place index) := by
  induction siblings generalizing index workspace with
  | nil => exact Meets.give ⟨Grows.of_held rfl, List.Forall₂.nil⟩
  | cons child rest inductionHypothesis =>
      have others := fun other present => each other (List.mem_cons_of_mem child present)
      have otherCells := fun asked other present =>
        cells asked other (List.mem_cons_of_mem child present)
      have otherRows := fun still other present =>
        rows still other (List.mem_cons_of_mem child present)
      rw [Node.codeCountBelow_cons] at ready ⊢
      rw [convertCells]
      refine Meets.bind (each child (by simp) _ 0 workspace
        (ready.mono (Nat.le_add_right _ _))) fun text middle converted => ?_
      have grown := converted.grows.mono (codeCountBelow_le child)
      refine Meets.bind (inductionHypothesis others otherCells otherRows (index + 1)
        (grown.ready ready)) ?_
      rintro texts after ⟨grows, presented⟩
      have firm : exact → child.isBlock = true := fun asked => by
        simp [Node.isBlock, cells asked child (by simp), Kind.placement]
      have own := (converted.presents firm).of_calmer fun still => rows still child (by simp)
      exact Meets.give ⟨grown.trans grows,
        List.Forall₂.cons (grows.presents own).cellContent presented⟩

/-! ## Nodes by shapes -/

theorem nulFree_headingBullet? {node : Node} (plain : node.NulFree) {bullet : List Char}
    (found : headingBullet? node = some bullet) : NulFree bullet := by
  obtain ⟨mark, marked, rfl⟩ := eq_of_headingBullet? found
  exact nulFree_append.mpr ⟨Payload.nulFree_fullMark? plain.payload marked, by decide⟩

theorem nulFree_itemBullet {node : Node} (plain : node.NulFree) : NulFree (itemBullet node) := by
  have payload := plain.payload
  unfold itemBullet
  split
  · rename_i marks carried
    rw [carried] at payload
    simp [payload.1]
  · decide

theorem nulFree_of_hanging {options : Options} {node : Node} (plain : node.NulFree)
    {bullet : List Char} (hanging : shape options node = .hanging bullet) : NulFree bullet := by
  rcases bullet_of_hanging hanging with ⟨-, found⟩ | ⟨-, rfl⟩
  · exact nulFree_headingBullet? plain found
  · exact nulFree_itemBullet plain

theorem nulFree_dashes (options : Options) : NulFree (dashes options) :=
  fun present => absurd (List.eq_of_mem_replicate present) (by decide)

theorem nulFree_rule (options : Options) (indent : Nat) :
    NulFree (rule options.ruleWidth indent) :=
  nulFree_append.mpr ⟨nulFree_of_ink_eq_nil (ink_spaces indent), nulFree_dashes options⟩

theorem presents_rule (exact calm : Prop) (held : List (List Char)) (options : Options)
    (indent : Nat) :
    Presents exact calm held (rule options.ruleWidth indent) (dashes options) :=
  Presents.of_nulFree (fun _ => nulFree_rule options indent)
    fun _ => by rw [ink_rule, dashes, ink_dashes]

/-- A row presents its cells with separators between them. -/
theorem CellsPresent.rowLine {calm : Prop} {held : List (List Char)}
    {cells wants : List (List Char)}
    {separator : List Char} (plain : calm → NulFree separator)
    (presents : CellsPresent exact calm held cells wants) (indent : Nat) :
    Presents exact calm held (rowLine separator indent cells) (separator.intercalate wants) := by
  have margin : Presents exact calm held (spaces indent) [] :=
    Presents.of_nulFree (fun _ => nulFree_of_ink_eq_nil (ink_spaces indent)) fun _ =>
      ink_spaces indent
  exact ((margin.append (presents.intercalate plain)).respace (Respaced.trimEnd _)).newline

theorem nulFree_rowLine {cells : List (List Char)} {separator : List Char}
    (plain : NulFree separator) (each : ∀ cell ∈ cells, NulFree cell) (indent : Nat) :
    NulFree (rowLine separator indent cells) := by
  refine nulFree_append.mpr ⟨(nulFree_congr (ink_trimEnd _)).mpr ?_, by decide⟩
  exact nulFree_append.mpr ⟨nulFree_of_ink_eq_nil (ink_spaces indent),
    not_mem_intercalate plain each⟩

/-- Lines with their tail trimmed and a newline behind them. -/
theorem nulFree_region (debug : Bool) {body : List Char} (plain : NulFree body) :
    NulFree (trimTail debug body ++ ['\n']) :=
  nulFree_append.mpr ⟨(keepsFront_trimTail debug body).nulFree plain, by decide⟩

/-- Lines between two rules. -/
theorem nulFree_quote (options : Options) (debug : Bool) (indent : Nat) {body : List Char}
    (plain : NulFree body) :
    NulFree (rule options.ruleWidth indent ++ '\n' :: trimTail debug body ++
      '\n' :: rule options.ruleWidth indent ++ ['\n']) := by
  have bar := nulFree_rule options indent
  simp [bar, (keepsFront_trimTail debug body).nulFree plain]

/-- The joined text of a formatting node conveys its children, or its value where it has
none. -/
theorem conveys_joinLines {node : Node} (plain : node.NulFree) {held : List (List Char)}
    {content : List Char} {wants : List (List Char)}
    (conveys : Conveys exact held content wants.flatten) :
    Conveys exact held
      (joinLines (if node.children.isEmpty then node.payload.content.toList else content))
      (if node.children.isEmpty then node.payload.content.toList else wants.flatten) := by
  refine Conveys.respace ?_ (respaced_joinLines _)
  split
  · exact Conveys.of_nulFree (Payload.nulFree_content plain.payload) fun _ => rfl
  · exact conveys

theorem math_meets (undebugged : exact → setting.options.debug = false) {node : Node}
    (math : shape setting.options node = .math) {line want : List Char} {before after : Workspace}
    (grows : Grows before after (Node.codeCountBelow node.children)) (ready : Ready bound after 0)
    (conveys : Conveys exact after.held line want) (indent : Nat) :
    Meets (if node.isBlock then flush setting indent false line else return line) after
      (Admitted setting.options bound) (Converts exact setting.options node want before) := by
  split
  · rename_i block
    refine (flush_meets undebugged ready conveys indent false).imp ?_
    rintro laid _ ⟨rfl, plain, same⟩
    exact Converts.of_block block grows (Presents.of_nulFree (fun _ => plain) same)
  · rename_i span
    exact Meets.give (Converts.of_span (by simpa using span) grows conveys
      fun code => absurd code (noCode_of_shape math (by simp)))

/-- The text of a node before its tags conveys or presents the flat text of the node. -/
theorem bareText_meets
    (whole : Whole setting separator numbered)
    (undebugged : exact → setting.options.debug = false)
    {node : Node} (sound : node.Everywhere Sound) (faithful : exact → node.Everywhere Faithful)
    (plainly : FlattensPlainly setting.options node)
    (each : isWalked node.kind = true →
      ∀ child ∈ node.children, ConvertsAnywhere exact bound setting separator numbered child)
    (place : Place) (indent : Nat) {workspace : Workspace}
    (ready : Ready bound workspace node.codeCount) :
    Meets (bareText setting node place indent) workspace (Admitted setting.options bound)
      (Converts exact setting.options node
        (flat (dashes setting.options) separator.toList numbered node place) workspace) := by
  have plain := sound.here.nulFree
  have room := ready.mono (codeCountBelow_le node)
  have rows (walked : isWalked node.kind = true) (calm : Met (PlainRow setting.options) node)
      (child : Node) (present : child ∈ node.children) : Met (PlainRow setting.options) child :=
    calm.below walked present
  have flowed (walked : isWalked node.kind = true) (inner : Nat) :=
    flow_meets undebugged (each walked) (rows walked) node place 0 inner (wrapsAt node place) room
      Conveys.nil
  have inlined (formatting : isFormatting node.kind = true) :=
    convertInline_meets (each (isWalked_of_formatting formatting))
      (fun lax child present => plainly.plainRows formatting lax present) node place 0 indent room
  unfold bareText
  cases shaped : shape setting.options node with
  | region extra =>
      have block := isBlock_of_shape shaped (by simp) (by simp) (by simp)
      refine Meets.bind (flowed (isWalked_of_shape shaped (by simp)) _) ?_
      rintro body after ⟨grows, presents⟩
      have front := keepsFront_trimTail setting.options.debug body
      rw [flat_of_region _ _ _ shaped]
      exact Meets.give (Converts.of_block block grows
        (presents.keepsFront undebugged front).newline)
  | hanging bullet =>
      have block := isBlock_of_shape shaped (by simp) (by simp) (by simp)
      have bulletPlain := nulFree_of_hanging plain shaped
      refine Meets.bind (flowed (isWalked_of_shape shaped (by simp)) _) ?_
      rintro body after ⟨grows, presents⟩
      have front := keepsFront_trimTail setting.options.debug
        (hang setting.options.debug bullet indent (indent + Columns.ofText bullet + 1) body)
      rw [flat_of_hanging _ _ _ shaped]
      exact Meets.give (Converts.of_block block grows
        ((presents.hang undebugged bulletPlain _ _).keepsFront undebugged front).newline)
  | quote =>
      have block := isBlock_of_shape shaped (by simp) (by simp) (by simp)
      refine Meets.bind (flowed (isWalked_of_shape shaped (by simp)) _) ?_
      rintro body after ⟨grows, presents⟩
      have front := keepsFront_trimTail setting.options.debug body
      have bar := presents_rule exact (Met (PlainRow setting.options) node) after.held
        setting.options indent
      have text := ((bar.newline.append (presents.keepsFront undebugged front).newline).append
        bar).newline
      rw [flat_of_quote _ _ _ shaped]
      exact Meets.give (Converts.of_block block grows (by simpa using text))
  | row =>
      have block := isBlock_of_shape shaped (by simp) (by simp) (by simp)
      have kind := kind_of_row shaped
      have cells : exact → ∀ child ∈ node.children, child.kind = .tableCell :=
        fun asked => (faithful asked).here.cells kind
      have walked := isWalked_of_shape shaped (by simp)
      refine Meets.bind (convertCells_meets (each walked) cells (rows walked) node place 0 room) ?_
      rintro texts after ⟨grows, presents⟩
      rw [whole.separated, flat_of_row _ _ _ shaped]
      have between (calm : Met (PlainRow setting.options) node) : NulFree separator.toList :=
        calm.here kind separator whole.separated
      exact Meets.give (Converts.of_block block grows (presents.rowLine between indent))
  | inline =>
      refine Meets.bind (inlined (isFormatting_of_inline (Or.inl shaped))) ?_
      rintro content after ⟨grows, conveys⟩
      rw [flat_of_inline _ _ _ (Or.inl shaped)]
      exact Meets.give (Converts.of_span (isBlock_of_inline shaped) grows
        (conveys_joinLines plain conveys) fun code =>
          absurd code (noCode_of_shape shaped (by simp)))
  | math =>
      refine Meets.bind (inlined (isFormatting_of_inline (Or.inr shaped))) ?_
      rintro content after ⟨grows, conveys⟩
      rw [flat_of_inline _ _ _ (Or.inr shaped)]
      have enough : Ready bound after 0 := grows.ready (room.mono (Nat.le_of_eq (Nat.add_zero _)))
      exact math_meets undebugged shaped grows enough (conveys_joinLines plain conveys) indent
  | leaf =>
      refine (leafText_meets whole plain sound.here.attributes
        (fun child present => (sound.below present).here.nulFree) shaped place indent
        workspace).mono
        (fun _ absurdly => absurdly.elim) ?_
      rintro text after ⟨kept, textPlain, same⟩
      have inked := fun asked : exact => same (faithful asked).here.noRule
      cases placed : node.isBlock with
      | true =>
          exact Converts.of_block placed (Grows.of_held kept)
            (Presents.of_nulFree (fun _ => textPlain) inked)
      | false =>
          exact Converts.of_span placed (Grows.of_held kept) (Conveys.of_nulFree textPlain inked)
            fun _ => textPlain

/-- A conversion of a node stops at no fault and conveys or presents the flat text of
the node. -/
theorem convert_meets
    (whole : Whole setting separator numbered)
    (undebugged : exact → setting.options.debug = false)
    (node : Node) (sound : node.Everywhere Sound) (faithful : exact → node.Everywhere Faithful)
    (plainly : FlattensPlainly setting.options node) :
    ConvertsAnywhere exact bound setting separator numbered node := by
  induction node using Node.induction_on_children with
  | step node below =>
      intro place indent workspace ready
      have known := sound.here.known
      rw [convert_eq_bareText setting place indent known]
      have each (walked : isWalked node.kind = true) (child : Node)
          (present : child ∈ node.children) :=
        below child present (sound.below present) (fun asked => (faithful asked).below present)
          (plainly.below walked present)
      refine Meets.bind
        (bareText_meets whole undebugged sound faithful plainly each place indent ready) ?_
      intro text after converted
      exact Meets.give ⟨converted.grows, fun span => (converted.span span).finish known undebugged,
        fun code => nulFree_finish known (converted.code code),
        fun block => (converted.block block).finish known undebugged⟩

/-! ## A separator that spells a placeholder -/

/-- A row in emphasis, with code in its first cell. -/
def codedRow : Node :=
  { kind := .root
    children := [{
      kind := .paragraph
      children := [{
        kind := .emphasis
        children := [{
          kind := .tableRow
          children := [
            { kind := .tableCell, children := [{ kind := .inlineCode, payload := .text "x" }] },
            { kind := .tableCell,
              children := [{ kind := .text, payload := .text "b" }] }] }] }] }] }

/-- Between cells, a placeholder of the code that is held first. -/
def spelledPlaceholder : Options :=
  { (default : Options) with
    ruleWidth := 3, wraps := false, cellSeparator := some "\x000\x00" }

theorem codedRow_nulFree : codedRow.Everywhere Node.NulFree := by
  have bare : ∀ inner ∈ codedRow.walk,
      inner.payload.NulFree ∧ inner.attributes = [] ∧ inner.options = [] := by decide +kernel
  exact fun inner present =>
    nulFree_bare (bare inner present).1 (bare inner present).2.1 (bare inner present).2.2

theorem codedRow_faithful : codedRow.Everywhere Faithful := by
  have kinds : ∀ inner ∈ codedRow.walk, inner.kind ≠ .horizontalRule ∧
      (inner.kind = .tableRow → ∀ child ∈ inner.children, child.kind = .tableCell) := by
    decide +kernel
  exact fun inner present => ⟨(kinds inner present).1, (kinds inner present).2⟩

end Layout
end Galley
