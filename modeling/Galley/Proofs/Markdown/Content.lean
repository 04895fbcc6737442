import Galley.Proofs.Document.Everywhere
import Galley.Proofs.Markdown.Gives
import Galley.Proofs.Markdown.Grammar

/-!
# A tree holds the texts of its tokens

Of well-formed tokens a tree is always made, and the payloads of its leaves, in document
order, are the texts of the tokens, in order.  Its tables hold heads of one row and
bodies of rows, and rows hold cells.
-/

namespace Galley
namespace Markdown

/-! ## Trees -/

/-- The content of a leaf. -/
def leafContent? (node : Node) : Option Datum :=
  match node.kind, node.payload with
  | .text, .data value | .codeblock, .data value | .inlineCode, .data value | .math, .data value
  | .rawHtmlElement, .data value | .xmlComment, .data value | .xmlProcessingInstruction, .data value
  | .footnote, .data value | .label, .data value | .reference, .data value => some value
  | .actionItem, _ => node.options.get? "assignee"
  | .issueLink, _ => node.options.get? "match"
  | _, _ => none

/-- The contents of the leaves of a tree, in document order. -/
def contents (tree : Node) : List Datum :=
  tree.walk.filterMap leafContent?

/-- The parts of a table are heads of one row and bodies of rows, and rows hold cells. -/
def Tabular (node : Node) : Prop :=
  match node.kind with
  | .table => ∀ part ∈ node.children, part.kind = .tableHead ∨ part.kind = .tableBody
  | .tableHead => ∃ row, node.children = [row] ∧ row.kind = .tableRow
  | .tableBody => ∀ row ∈ node.children, row.kind = .tableRow
  | .tableRow => ∀ cell ∈ node.children, cell.kind = .tableCell
  | _ => True

theorem contents_eq (node : Node) :
    contents node = (leafContent? node).toList ++ node.children.flatMap contents := by
  unfold contents
  rw [Node.walk_eq, List.filterMap_cons, List.filterMap_flatMap]
  cases leafContent? node with
  | none => rfl
  | some value => rfl

/-- No fault is admitted. -/
abbrev NoFault (_ : Fault) : Prop := False

/-- A node holds texts, and all tables in it are in shape. -/
structure Holds (held : List String) (node : Node) : Prop where
  /-- The contents of its leaves are the texts. -/
  contents : contents node = held.map Datum.text
  /-- Its tables are in shape. -/
  tabular : node.Everywhere Tabular

/-- Nodes hold texts together. -/
structure HoldAll (held : List String) (nodes : List Node) : Prop where
  /-- The contents of their leaves are the texts. -/
  contents : nodes.flatMap Markdown.contents = held.map Datum.text
  /-- Their tables are in shape. -/
  tabular : ∀ node ∈ nodes, node.Everywhere Tabular

theorem HoldAll.nil : HoldAll [] [] :=
  ⟨rfl, List.forall_mem_nil _⟩

theorem HoldAll.cons {first others : List String} {node : Node} {nodes : List Node}
    (holds : Holds first node) (hold : HoldAll others nodes) :
    HoldAll (first ++ others) (node :: nodes) := by
  constructor
  · rw [List.flatMap_cons, holds.contents, hold.contents, List.map_append]
  · exact List.forall_mem_cons.mpr ⟨holds.tabular, hold.tabular⟩

/-- A leaf holds its content. -/
theorem Holds.of_leaf {text : String} {node : Node} (childless : node.children = [])
    (content : leafContent? node = some (.text text)) (tabular : Tabular node) :
    Holds [text] node := by
  constructor
  · rw [contents_eq, content, childless]
    rfl
  · refine Node.everywhere_iff.mpr ⟨tabular, ?_⟩
    rw [childless]
    exact List.forall_mem_nil _

/-- A node without a content of its own holds what its children hold. -/
theorem Holds.of_children {held : List String} {node : Node} (alone : leafContent? node = none)
    (tabular : Tabular node) (hold : HoldAll held node.children) : Holds held node := by
  constructor
  · rw [contents_eq, alone]
    exact hold.contents
  · exact Node.everywhere_iff.mpr ⟨tabular, hold.tabular⟩

/-- A node holds the texts of a token. -/
def CarriesTo (token : Token) (node : Node) : Prop :=
  Holds (texts token) node

/-- Something is made of a token, and it holds the texts of the token. -/
def Carries (token : Token) (made : Option Node) : Prop :=
  ∃ node, made = some node ∧ CarriesTo token node

/-- Nodes made of tokens one by one hold the texts of the tokens. -/
theorem HoldAll.of_forall₂ {tokens : List Token} {nodes : List Node}
    (each : List.Forall₂ CarriesTo tokens nodes) : HoldAll (textsOf tokens) nodes := by
  induction each with
  | nil => exact HoldAll.nil
  | cons first others inductionHypothesis =>
      rw [textsOf]
      exact HoldAll.cons first inductionHypothesis

/-! ## Records of each content -/

section Records

variable {role : Role} {token : Token} {fields : Fields}

/-- Of a record that is a text, a leaf with this content is made. -/
theorem Formed.gives_leaf (formed : Formed role token fields .text) (around : Datum → Node)
    (shows : ∀ value, (around value).children = [] ∧ leafContent? (around value) = some value ∧
      Tabular (around value)) :
    Gives NoFault (Carries token) (pure (some (around (fields.getD "raw" (.text ""))))) := by
  obtain ⟨raw, found, texts⟩ := formed.exists_text
  obtain ⟨childless, content, tabular⟩ := shows (.text raw)
  rw [found]
  refine Gives.give ⟨_, rfl, ?_⟩
  rw [CarriesTo, texts]
  exact Holds.of_leaf childless content tabular

/-- Of a record that holds tokens, a node around what is made of them is made. -/
theorem Formed.gives_parent {inner : Role} {below : Reporting (List Node)}
    (formed : Formed role token fields (.tokens inner))
    (noTerm : content? role "def_list_head" ≠ some (.tokens inner))
    (children : Gives NoFault (HoldAll (textsOf token.children)) below) (around : List Node → Node)
    (shows : ∀ nodes, (around nodes).children = nodes ∧ leafContent? (around nodes) = none ∧
      Tabular (around nodes)) :
    Gives NoFault (Carries token) (some <$> around <$> below) := by
  refine (children.map fun nodes hold => ?_).map fun node holds => ⟨node, rfl, holds⟩
  obtain ⟨same, alone, tabular⟩ := shows nodes
  rw [CarriesTo, formed.texts_below noTerm]
  exact Holds.of_children alone tabular (by rwa [same])

/-- Of a record that is nothing but its kind, an empty node is made. -/
theorem Formed.gives_empty (formed : Formed role token fields .nothing)
    (noTerm : content? role "def_list_head" ≠ some .nothing)
    (noBreak : Token.kind fields ≠ .text "softbreak") {node : Node}
    (childless : node.children = []) (alone : leafContent? node = none) (tabular : Tabular node) :
    Gives NoFault (Carries token) (pure (some node)) := by
  refine Gives.give ⟨node, rfl, ?_⟩
  rw [CarriesTo, formed.texts_eq (formed.standIn_eq_nil noTerm), formed.bare nofun,
    formed.ownText_eq_nil nofun noBreak]
  refine Holds.of_children alone tabular ?_
  rw [childless]
  exact HoldAll.nil

theorem markupNode_holds (raw category : String) :
    Gives NoFault (Holds [raw]) (markupNode (.text raw) category) := by
  have kinds : markupKind raw.toList = .xmlComment ∨
      markupKind raw.toList = .xmlProcessingInstruction ∨
      markupKind raw.toList = .rawHtmlElement := by
    unfold markupKind
    dsimp only
    split
    · exact Or.inl rfl
    · split
      · exact Or.inr (Or.inl rfl)
      · exact Or.inr (Or.inr rfl)
  unfold markupNode
  refine Gives.give ?_
  rcases kinds with kind | kind | kind <;> rw [kind] <;> exact Holds.of_leaf rfl rfl trivial

/-- Of a record that is raw markup, a leaf with this content is made. -/
theorem Formed.gives_markup (formed : Formed role token fields .text) (category : String) :
    Gives NoFault (Carries token)
      (some <$> markupNode (fields.getD "raw" (.text "")) category) := by
  obtain ⟨raw, found, texts⟩ := formed.exists_text
  rw [found]
  refine (markupNode_holds raw category).map fun node holds => ⟨node, rfl, ?_⟩
  rwa [CarriesTo, texts]

end Records

/-! ## Inline tokens -/

theorem inlineFrom_carries {token : Token} {fields : Fields} {content : Content}
    {below : Reporting (List Node)} (formed : Formed .inline token fields content)
    (held : content = .tokens .inline → Gives NoFault (HoldAll (textsOf token.children)) below) :
    Gives NoFault (Carries token) (inlineFrom token fields below) := by
  obtain ⟨kind, isKind, placed⟩ := formed.exists_kind
  have isType : fields.getD "type" (.text "") = .text kind := isKind
  unfold inlineFrom
  rw [isType]
  unfold content? at placed
  dsimp only at placed
  split at placed <;> cases placed
  case h_1 => exact formed.gives_leaf (valueNode .text · []) fun _ => ⟨rfl, rfl, trivial⟩
  case h_2 => exact formed.gives_leaf (valueNode .inlineCode · []) fun _ => ⟨rfl, rfl, trivial⟩
  case h_3 => exact formed.gives_markup "span"
  case h_4 =>
    exact formed.gives_leaf (valueNode .math · [("category", .text "span")]) fun _ =>
      ⟨rfl, rfl, trivial⟩
  case h_5 =>
    exact formed.gives_leaf (valueNode .math · [("category", .text "block")]) fun _ =>
      ⟨rfl, rfl, trivial⟩
  case h_6 => exact formed.gives_leaf (valueNode .footnote · []) fun _ => ⟨rfl, rfl, trivial⟩
  case h_7 => exact formed.gives_leaf (valueNode .label · []) fun _ => ⟨rfl, rfl, trivial⟩
  case h_8 => exact formed.gives_leaf (valueNode .reference · []) fun _ => ⟨rfl, rfl, trivial⟩
  case h_9 =>
    exact formed.gives_leaf (fun raw => valueNode .actionItem .null [("assignee", raw)]) fun _ =>
      ⟨rfl, rfl, trivial⟩
  case h_10 =>
    exact formed.gives_leaf (fun raw => valueNode .issueLink .null [("match", raw)]) fun _ =>
      ⟨rfl, rfl, trivial⟩
  case h_11 =>
    -- A soft break is a newline by itself.
    refine Gives.give ⟨_, rfl, ?_⟩
    rw [CarriesTo, formed.texts_eq (formed.standIn_eq_nil nofun), formed.bare nofun,
      ownText, isKind]
    exact Holds.of_leaf rfl rfl trivial
  case h_12 => exact formed.gives_empty nofun (by simp [isKind]) rfl rfl trivial
  case h_13 =>
    exact formed.gives_parent nofun (held rfl) (parentNode .emphasis) fun _ => ⟨rfl, rfl, trivial⟩
  case h_14 =>
    exact formed.gives_parent nofun (held rfl) (parentNode .emphasis) fun _ => ⟨rfl, rfl, trivial⟩
  case h_15 =>
    exact formed.gives_parent nofun (held rfl) (parentNode .strong) fun _ => ⟨rfl, rfl, trivial⟩
  case h_16 =>
    exact formed.gives_parent nofun (held rfl) (linkNode fields) fun _ => ⟨rfl, rfl, trivial⟩

/-- By induction on the token, a well-formed inline token becomes a span that holds its
texts. -/
theorem inlineNode_carries (token : Token) (formed : isWellFormed .inline token = true) :
    Gives NoFault (Carries token) (inlineNode token) := by
  induction token using Token.induction_on_children with
  | stray value => cases formed
  | leaf fields =>
      obtain ⟨_, content, formed⟩ := exists_formed formed
      obtain rfl := Option.some.inj formed.record
      rw [inlineNode]
      exact inlineFrom_carries formed fun _ => Gives.give HoldAll.nil
  | branch fields children each =>
      obtain ⟨_, content, formed⟩ := exists_formed formed
      obtain rfl := Option.some.inj formed.record
      rw [inlineNode, inlineNodes_eq]
      refine inlineFrom_carries formed fun same => ?_
      refine (Gives.collect fun child member => ?_).imp fun _ made =>
        HoldAll.of_forall₂ made.forall₂
      exact each child member (formed.below .inline same child member)

/-- Well-formed inline tokens become as many spans, which hold their texts. -/
theorem inlineNodes_carry {tokens : List Token}
    (formed : ∀ token ∈ tokens, isWellFormed .inline token = true) :
    Gives NoFault (List.Forall₂ CarriesTo tokens) (inlineNodes tokens) := by
  rw [inlineNodes_eq]
  refine (Gives.collect fun token member => ?_).imp fun _ => Made.forall₂
  exact inlineNode_carries token (formed token member)

/-! ## Tables -/

/-- A node of one of some kinds holds the texts of a token. -/
def CarriesAs (kinds : List Kind) (token : Token) (node : Node) : Prop :=
  node.kind ∈ kinds ∧ CarriesTo token node

theorem holdAll_as {kinds : List Kind} {tokens : List Token} {nodes : List Node}
    (each : List.Forall₂ (CarriesAs kinds) tokens nodes) :
    HoldAll (textsOf tokens) nodes ∧ ∀ node ∈ nodes, node.kind ∈ kinds := by
  refine ⟨HoldAll.of_forall₂ (each.imp fun _ _ carries => carries.2), fun node present => ?_⟩
  obtain ⟨_, -, carries⟩ := exists_of_mem_forall₂ each present
  exact carries.1

theorem cellNode_carries (token : Token) (formed : isWellFormed .tableCell token = true) :
    Gives NoFault (CarriesAs [.tableCell] token) (cellNode token) := by
  obtain ⟨fields, content, formed⟩ := exists_formed formed
  obtain ⟨kind, -, placed⟩ := formed.exists_kind
  unfold content? at placed
  dsimp only at placed
  split at placed <;> cases placed
  unfold cellNode fieldsOf
  rw [formed.record, pure_bind]
  refine (inlineNodes_carry (formed.below .inline rfl)).bind fun children carry => ?_
  refine Gives.give ⟨List.mem_singleton_self _, ?_⟩
  rw [CarriesTo, formed.texts_below nofun]
  exact Holds.of_children rfl trivial (HoldAll.of_forall₂ carry)

/-- The cells below a token become one row. -/
theorem rowNode_carries {role : Role} {token : Token} (formed : isWellFormed role token = true)
    (cells : ∀ child ∈ token.children, isWellFormed .tableCell child = true) :
    Gives NoFault (fun row => row.kind = .tableRow ∧ Holds (textsOf token.children) row)
      (rowNode token) := by
  unfold rowNode
  rw [elements_eq formed, pure_bind]
  refine (Gives.mapM fun cell member => cellNode_carries cell (cells cell member)).map
    fun nodes each => ⟨rfl, ?_⟩
  obtain ⟨hold, kinds⟩ := holdAll_as each
  exact Holds.of_children rfl (fun cell member => List.mem_singleton.mp (kinds cell member)) hold

theorem bodyRow_carries (token : Token) (formed : isWellFormed .tableRow token = true) :
    Gives NoFault (CarriesAs [.tableRow] token) (rowNode token) := by
  obtain ⟨fields, content, record⟩ := exists_formed formed
  obtain ⟨kind, -, placed⟩ := record.exists_kind
  unfold content? at placed
  dsimp only at placed
  split at placed <;> cases placed
  refine (rowNode_carries formed (record.below .tableCell rfl)).imp ?_
  rintro row ⟨isRow, holds⟩
  rw [← record.texts_below nofun] at holds
  exact ⟨List.mem_singleton.mpr isRow, holds⟩

/-- A part of a table becomes a head of one row or a body of rows. -/
theorem sectionNode_carries (token : Token) (formed : isWellFormed .tablePart token = true) :
    Gives NoFault
      (fun made => ∃ part, made = some part ∧ CarriesAs [.tableHead, .tableBody] token part)
      (sectionNode? token) := by
  obtain ⟨fields, content, record⟩ := exists_formed formed
  obtain ⟨kind, isKind, placed⟩ := record.exists_kind
  have isType : fields.getD "type" (.text "") = .text kind := isKind
  unfold sectionNode? fieldsOf
  rw [record.record, pure_bind, isType]
  unfold content? at placed
  dsimp only at placed
  split at placed <;> cases placed
  · refine (rowNode_carries formed (record.below .tableCell rfl)).bind ?_
    rintro row ⟨isRow, holds⟩
    refine Gives.give ⟨_, rfl, by simp [parentNode], ?_⟩
    rw [CarriesTo, record.texts_below nofun]
    refine Holds.of_children rfl ⟨row, rfl, isRow⟩ ?_
    rw [← List.append_nil (textsOf token.children)]
    exact HoldAll.cons holds HoldAll.nil
  · rw [elements_eq formed, pure_bind]
    have rows := Gives.mapM fun row member =>
      bodyRow_carries row (record.below .tableRow rfl row member)
    refine (rows.map fun nodes each => ?_).map fun part carries => ⟨part, rfl, carries⟩
    obtain ⟨hold, kinds⟩ := holdAll_as each
    refine ⟨by simp [parentNode], ?_⟩
    rw [CarriesTo, record.texts_below nofun]
    exact Holds.of_children rfl (fun row member => List.mem_singleton.mp (kinds row member)) hold

theorem tableNode_carries {token : Token} {fields : Fields}
    (formed : Formed .block token fields (.tokens .tablePart))
    (wellFormed : isWellFormed .block token = true) :
    Gives NoFault (CarriesTo token) (tableNode token) := by
  unfold tableNode
  rw [elements_eq wellFormed, pure_bind]
  have parts := Gives.filterMapM fun part member =>
    sectionNode_carries part (formed.below .tablePart rfl part member)
  refine parts.map fun nodes made => ?_
  obtain ⟨hold, kinds⟩ := holdAll_as made.forall₂
  have shape : Tabular (parentNode .table nodes) := by
    intro part member
    simpa using kinds part member
  rw [CarriesTo, formed.texts_below nofun]
  exact Holds.of_children rfl shape hold

/-! ## Terms -/

/-- The texts of a term are those of its children, or the one that stands in for them. -/
theorem Formed.texts_term {token : Token} {fields : Fields}
    (formed : Formed .definitionPart token fields (.tokens .inline)) :
    texts token = if token.children.isEmpty then standIn fields else textsOf token.children := by
  obtain ⟨kind, isKind, placed⟩ := formed.exists_kind
  have noBreak : Token.kind fields ≠ .text "softbreak" := by
    intro same
    rw [isKind] at same
    obtain rfl := Datum.text.inj same
    cases placed
  have record := formed.record
  have own := formed.ownText_eq_nil nofun noBreak
  cases token with
  | stray value => cases record
  | leaf others =>
      obtain rfl : others = fields := Option.some.inj record
      rw [texts, own]
      rfl
  | branch others children =>
      obtain rfl : others = fields := Option.some.inj record
      rw [texts, own]
      rfl

/-- A term holds the texts of its record. -/
theorem termNode_carries {token : Token} {fields : Fields} {nodes : List Node}
    (formed : Formed .definitionPart token fields (.tokens .inline))
    (isTerm : Token.kind fields = .text "def_list_head")
    (each : List.Forall₂ CarriesTo token.children nodes) :
    CarriesTo token (termNode fields nodes) := by
  have fits := formed.fits
  unfold hasFields at fits
  rw [Bool.and_eq_true, Bool.and_eq_true] at fits
  rw [CarriesTo, formed.texts_term]
  unfold termNode
  revert each
  generalize token.children = tokens
  intro each
  cases each with
  | cons first others =>
      exact Holds.of_children rfl trivial (HoldAll.of_forall₂ (.cons first others))
  | nil =>
      have given := fits.1.2
      unfold standIn Fields.getD
      rw [isTerm]
      cases found : fields.get? "text" with
      | none => exact Holds.of_children rfl trivial HoldAll.nil
      | some value =>
          rw [found] at given
          cases value with
          | null => exact Holds.of_children rfl trivial HoldAll.nil
          | text text =>
              by_cases empty : text.isEmpty = true
              · simp only [Option.getD_some, Datum.isTruthy, empty, Bool.not_true, Bool.and_false]
                exact Holds.of_children rfl trivial HoldAll.nil
              · rw [Bool.not_eq_true] at empty
                simp only [Option.getD_some, Datum.isTruthy, empty, Bool.not_false, Bool.and_true]
                have shown : Holds [text] (valueNode .text (.text text) []) :=
                  Holds.of_leaf rfl rfl trivial
                exact Holds.of_children rfl trivial (HoldAll.cons shown HoldAll.nil)
          | _ => cases given

/-! ## Blocks -/

theorem codeOptions_gives {fields : Fields} (given : isTextIfGiven (information? fields) = true) :
    Gives NoFault (fun _ => True) (codeOptions fields) := by
  have information : (attributesOf? fields).bind (fun attributes => attributes.get? "info") =
      information? fields := rfl
  unfold codeOptions
  rw [information]
  split
  · exact Gives.give trivial
  · split <;> exact Gives.give trivial
  · rename_i value noText found
    rw [found] at given
    cases value with
    | null => exact Gives.give trivial
    | text text => exact absurd rfl (noText text)
    | _ => cases given

theorem blockFrom_carries {token : Token} {fields : Fields} {content : Content}
    {blocks parts : Reporting (List Node)} (formed : Formed .block token fields content)
    (wellFormed : isWellFormed .block token = true)
    (blocksHeld : content = .tokens .block →
        Gives NoFault (HoldAll (textsOf token.children)) blocks)
    (partsHeld : content = .tokens .definitionPart →
      Gives NoFault (HoldAll (textsOf token.children)) parts) :
    Gives NoFault (Carries token) (blockFrom token fields blocks parts) := by
  obtain ⟨kind, isKind, placed⟩ := formed.exists_kind
  have isType : fields.getD "type" (.text "") = .text kind := isKind
  have inline (same : content = .tokens .inline) :
      Gives NoFault (HoldAll (textsOf token.children)) (inlineNodes token.children) :=
    (inlineNodes_carry (formed.below .inline same)).imp fun _ => HoldAll.of_forall₂
  have shaped (fields : Fields) (nodes : List Node) : (listNode fields nodes).children = nodes ∧
      leafContent? (listNode fields nodes) = none ∧ Tabular (listNode fields nodes) := by
    unfold listNode
    dsimp only
    split <;> exact ⟨rfl, rfl, trivial⟩
  unfold blockFrom
  rw [isType]
  unfold content? at placed
  dsimp only at placed
  split at placed <;> cases placed
  case h_1 =>
    exact formed.gives_parent nofun (inline rfl) (headingNode fields) fun _ => ⟨rfl, rfl, trivial⟩
  case h_2 =>
    exact formed.gives_parent nofun (inline rfl) (parentNode .paragraph) fun _ =>
      ⟨rfl, rfl, trivial⟩
  case h_3 =>
    exact formed.gives_parent nofun (inline rfl) (parentNode .paragraph) fun _ =>
      ⟨rfl, rfl, trivial⟩
  case h_4 =>
    have fits := formed.fits
    unfold hasFields at fits
    rw [Bool.and_eq_true, Bool.and_eq_true] at fits
    refine (codeOptions_gives fits.1.1).bind fun options _ => ?_
    exact formed.gives_leaf (valueNode .codeblock · options) fun _ => ⟨rfl, rfl, trivial⟩
  case h_5 => exact formed.gives_markup "block"
  case h_6 =>
    exact formed.gives_leaf (valueNode .math · [("category", .text "block")]) fun _ =>
      ⟨rfl, rfl, trivial⟩
  case h_7 => exact formed.gives_empty nofun (by simp [isKind]) rfl rfl trivial
  case h_8 => exact formed.gives_empty nofun (by simp [isKind]) rfl rfl trivial
  case h_9 =>
    exact formed.gives_parent nofun (blocksHeld rfl) (parentNode .blockquote) fun _ =>
      ⟨rfl, rfl, trivial⟩
  case h_10 => exact formed.gives_parent nofun (blocksHeld rfl) (listNode fields) (shaped fields)
  case h_11 =>
    exact formed.gives_parent nofun (blocksHeld rfl) (parentNode .listItem) fun _ =>
      ⟨rfl, rfl, trivial⟩
  case h_12 =>
    exact (tableNode_carries formed wellFormed).map fun node holds => ⟨node, rfl, holds⟩
  case h_13 =>
    exact formed.gives_parent nofun (partsHeld rfl) (parentNode .definitionList) fun _ =>
      ⟨rfl, rfl, trivial⟩

/-- By induction on the token: a well-formed block becomes a block that holds its texts,
and a well-formed part of a definition list becomes a part that does. -/
theorem blockNode_carries (token : Token) :
    (isWellFormed .block token = true → Gives NoFault (Carries token) (blockNode token)) ∧
      (isWellFormed .definitionPart token = true →
        Gives NoFault (Carries token) (definitionPart token)) := by
  induction token using Token.induction_on_children with
  | stray value => exact ⟨nofun, nofun⟩
  | leaf fields =>
      constructor
      · intro wellFormed
        obtain ⟨_, content, formed⟩ := exists_formed wellFormed
        obtain rfl := Option.some.inj formed.record
        rw [blockNode]
        refine blockFrom_carries formed wellFormed (fun _ => Gives.give HoldAll.nil) fun _ => ?_
        unfold strayParts
        rw [elements_eq wellFormed]
        exact Gives.give HoldAll.nil
      · intro wellFormed
        obtain ⟨_, content, formed⟩ := exists_formed wellFormed
        obtain rfl := Option.some.inj formed.record
        obtain ⟨kind, isKind, placed⟩ := formed.exists_kind
        have isType : fields.getD "type" (.text "") = .text kind := isKind
        rw [definitionPart, isType]
        unfold content? at placed
        dsimp only at placed
        split at placed <;> cases placed
        · exact Gives.give ⟨_, rfl, termNode_carries formed isKind .nil⟩
        · exact formed.gives_parent nofun
            (Gives.give HoldAll.nil) (parentNode .definitionDescription)
            fun _ => ⟨rfl, rfl, trivial⟩
  | branch fields children each =>
      have blocksHeld (inside : ∀ child ∈ children, isWellFormed .block child = true) :
          Gives NoFault (HoldAll (textsOf children)) (blockNodes children) := by
        rw [blockNodes_eq]
        refine (Gives.collect fun child member => ?_).imp fun _ made =>
          HoldAll.of_forall₂ made.forall₂
        exact (each child member).1 (inside child member)
      constructor
      · intro wellFormed
        obtain ⟨_, content, formed⟩ := exists_formed wellFormed
        obtain rfl := Option.some.inj formed.record
        rw [blockNode]
        refine blockFrom_carries formed wellFormed (fun same => blocksHeld (formed.below _ same))
          fun same => ?_
        rw [definitionParts_eq]
        refine (Gives.collect fun child member => ?_).imp fun _ made =>
          HoldAll.of_forall₂ made.forall₂
        exact (each child member).2 (formed.below _ same child member)
      · intro wellFormed
        obtain ⟨_, content, formed⟩ := exists_formed wellFormed
        obtain rfl := Option.some.inj formed.record
        obtain ⟨kind, isKind, placed⟩ := formed.exists_kind
        have isType : fields.getD "type" (.text "") = .text kind := isKind
        rw [definitionPart, isType]
        unfold content? at placed
        dsimp only at placed
        split at placed <;> cases placed
        · refine ((inlineNodes_carry (formed.below _ rfl)).map fun nodes carry => ?_).map
            fun node holds => ⟨node, rfl, holds⟩
          exact termNode_carries formed isKind carry
        · exact formed.gives_parent nofun (blocksHeld (formed.below _ rfl))
            (parentNode .definitionDescription) fun _ => ⟨rfl, rfl, trivial⟩

/-- Of well-formed tokens a document is made, whatever was reported before; the contents
of its leaves, in document order, are the texts of the tokens, in order, and its tables
are in shape. -/
theorem documentFrom_contents {tokens : List Token} (formed : areWellFormed .block tokens = true)
    (log : Log) :
    ∃ tree after, outcome (documentFrom true (.ok tokens)) log = (.ok tree, after) ∧
      contents tree = (textsOf tokens).map Datum.text ∧ tree.Everywhere Tabular := by
  rw [areWellFormed_iff] at formed
  have reads : Gives NoFault (Holds (textsOf tokens)) (documentFrom true (.ok tokens)) := by
    rw [documentFrom_installed, documentOf, blockNodes_eq]
    have made := Gives.collect fun token member => (blockNode_carries token).1 (formed token member)
    refine made.bind fun nodes carry => Gives.event_bind (Gives.give ?_)
    exact Holds.of_children rfl trivial (HoldAll.of_forall₂ carry.forall₂)
  obtain ⟨tree, after, returned, holds⟩ := (reads log).exists_ok
  exact ⟨tree, after, returned, holds.contents, holds.tabular⟩

/-- A heading, a list with code, a table of one column, and a term without children. -/
def chapter : List Token := [
  .make "heading" none [("attrs", .dict [("level", .int 2)])] (some [
    .make "text" (some "one") [] none,
    .make "softbreak" none [] none,
    .make "emphasis" none [] (some [.make "asciimark_label" (some "two") [] none])]),
  .make "list" none [("attrs", .dict [("ordered", .bool true)])] (some [
    .make "list_item" none [] (some [
      .make "block_text" none [] (some [.make "codespan" (some "three") [] none]),
      .make "block_code" (some "four") [("attrs", .dict [("info", .text "lean")])] none])]),
  .make "table" none [] (some [
    .make "table_head" none [] (some [
      .make "table_cell" none [] (some [.make "asciimark_action_item" (some "five") [] none])]),
    .make "table_body" none [] (some [
      .make "table_row" none [] (some [
        .make "table_cell" none [] (some [.make "footnote_ref" (some "six") [] none])])])]),
  .make "def_list" none [] (some [
    .make "def_list_head" none [("text", .text "seven")] none,
    .make "def_list_item" none [] (some [
      .make "block_html" (some "<!-- eight -->") [] none])])]

/-- The texts of the chapter are found in its document. -/
theorem documentFrom_contents_chapter :
    areWellFormed .block chapter = true ∧
      ∃ tree after, outcome (documentFrom true (.ok chapter)) [] = (.ok tree, after) ∧
        contents tree = ["one", "\n", "two", "three", "four", "five", "six", "seven",
          "<!-- eight -->"].map Datum.text ∧
        tree.Everywhere Tabular := by
  have formed : areWellFormed .block chapter = true := by decide +kernel
  have texts : textsOf chapter = ["one", "\n", "two", "three", "four", "five", "six", "seven",
      "<!-- eight -->"] := by decide +kernel
  exact ⟨formed, texts ▸ documentFrom_contents formed []⟩

end Markdown
end Galley
