import Galley.Proofs.Layout.Agreement
import Galley.Proofs.Layout.Composition
import Galley.Proofs.Layout.Nesting
import Galley.Proofs.Markdown.Gives

/-!
# Where blocks stand in a tree that was read

Block tokens become blocks and inline tokens become spans, except that math on lines of
its own is a block wherever it is found.  So a block stands in a span only where such
math is found directly inside emphasis, strong text or a link; without it no rendering
refuses the tree.
-/

namespace Galley
namespace Markdown

/-! ## Tokens -/

/-- Whether a token is a record of math on lines of its own. -/
def isBlockMath (token : Token) : Bool :=
  match token.fields?.map Token.kind with
  | some (.text "block_math") => true
  | _ => false

/-- Whether records of a kind become spans around the nodes of their children. -/
def isEnclosing (kind : Datum) : Bool :=
  match kind with
  | .text "emphasis" | .text "strikethrough" | .text "strong" | .text "link" => true
  | _ => false

mutual

/-- Whether math on lines of its own is found directly inside a record that becomes a
span: in the token or in one below it. -/
def encloses (token : Token) : Bool :=
  match token with
  | .leaf _ | .stray _ => false
  | .branch fields children =>
      isEnclosing (Token.kind fields) && children.any isBlockMath || enclose children
termination_by structural token

/-- Whether math on lines of its own is found directly inside a record that becomes a
span, in some tokens. -/
def enclose (tokens : List Token) : Bool :=
  match tokens with
  | [] => false
  | token :: rest => encloses token || enclose rest
termination_by structural tokens

end

theorem enclose_of_mem {tokens : List Token} {token : Token} (member : token ∈ tokens)
    (found : encloses token = true) : enclose tokens = true := by
  induction tokens with
  | nil => cases member
  | cons first rest inductionHypothesis =>
      rw [enclose, Bool.or_eq_true]
      rcases List.mem_cons.mp member with rfl | later
      · exact Or.inl found
      · exact Or.inr (inductionHypothesis later)

theorem encloses_branch {fields : Fields} {children : List Token}
    (found : enclose children = true) : encloses (.branch fields children) = true := by
  rw [encloses, found, Bool.or_true]

/-! ## Nodes -/

/-- A block stands in a span only where it is math in emphasis, in strong text or in a
link, and only if such a place was found; math holds nothing. -/
structure Nests (found : Prop) (node : Node) : Prop where
  /-- Blocks in a span are math, and a place for them was found. -/
  span : node.isBlock = false → ∀ child ∈ node.children, child.isBlock = true →
    child.kind = .math ∧ (node.kind = .emphasis ∨ node.kind = .strong ∨ node.kind = .link) ∧ found
  /-- Math has no children. -/
  math : node.kind = .math → node.children = []

section Nests

variable {found : Prop} {node : Node}

theorem nests_of_childless (childless : node.children = []) : node.Everywhere (Nests found) := by
  refine Node.everywhere_iff.mpr ⟨⟨fun _ => ?_, fun _ => childless⟩, ?_⟩
  · rw [childless]
    exact List.forall_mem_nil _
  · rw [childless]
    exact List.forall_mem_nil _

theorem nests_of_block (block : node.isBlock = true) (noMath : node.kind ≠ .math)
    (below : ∀ child ∈ node.children, child.Everywhere (Nests found)) :
    node.Everywhere (Nests found) := by
  refine Node.everywhere_iff.mpr ⟨⟨fun span => ?_, fun math => absurd math noMath⟩, below⟩
  rw [block] at span
  cases span

theorem nests_mono {wider : Prop} (nests : node.Everywhere (Nests found))
    (implied : found → wider) : node.Everywhere (Nests wider) := by
  refine nests.imp fun inner holds => ⟨fun span child member block => ?_, holds.math⟩
  obtain ⟨math, outer, place⟩ := holds.span span child member block
  exact ⟨math, outer, implied place⟩

end Nests

/-! ## Inline tokens -/

/-- No fault is excluded. -/
abbrev AnyFault (_ : Fault) : Prop := True

theorem Gives.any (action : Reporting α) : Gives AnyFault (fun _ => True) action :=
  fun log => Meets.unconditional action log

/-- What may be made of an inline token: a block is math on lines of its own. -/
def InlineMade (token : Token) (made : Option Node) : Prop :=
  ∀ node ∈ made, node.Everywhere (Nests (encloses token = true)) ∧
    (node.isBlock = true → node.kind = .math ∧ isBlockMath token = true)

/-- What may be made of the children of a record. -/
def MadeBelow (token : Token) (kind : Datum) (nodes : List Node) : Prop :=
  ∀ node ∈ nodes, node.Everywhere (Nests (encloses token = true)) ∧
    (node.isBlock = true → node.kind = .math ∧ (isEnclosing kind = true → encloses token = true))

theorem inlineMade_of_childless {token : Token} {node : Node} (childless : node.children = [])
    (span : node.isBlock = false) : InlineMade token (some node) := by
  rintro _ ⟨⟩
  refine ⟨nests_of_childless childless, fun block => ?_⟩
  rw [span] at block
  cases block

/-- Emphasis, strong text and links are made around their children. -/
theorem inlineMade_of_enclosing {token : Token} {kind : Datum} {node : Node}
    (enclosing : isEnclosing kind = true)
    (outer : node.kind = .emphasis ∨ node.kind = .strong ∨ node.kind = .link)
    (made : MadeBelow token kind node.children) : InlineMade token (some node) := by
  rintro _ ⟨⟩
  have span : node.isBlock = false := by
    rcases outer with same | same | same <;> simp [Node.isBlock, same, Kind.placement]
  have noMath : node.kind ≠ .math := by
    rcases outer with same | same | same <;> simp [same]
  constructor
  · refine Node.everywhere_iff.mpr ⟨⟨fun _ child member block => ?_, fun math => ?_⟩, ?_⟩
    · obtain ⟨math, place⟩ := (made child member).2 block
      exact ⟨math, outer, place enclosing⟩
    · exact absurd math noMath
    · exact fun child member => (made child member).1
  · rw [span]
    intro block
    cases block

/-- Raw markup in a category. -/
theorem markupNode_gives (content : Datum) (category : String) :
    Gives AnyFault (fun node => node.children = [] ∧ node.isBlock = (category == "block"))
      (markupNode content category) := by
  unfold markupNode
  split
  · refine Gives.give ⟨rfl, ?_⟩
    unfold markupKind
    dsimp only
    split
    · rfl
    · split <;> rfl
  · exact Gives.stop trivial

theorem inlineFrom_gives {token : Token} {fields : Fields} {below : Reporting (List Node)}
    (record : token.fields? = some fields)
    (children : Gives AnyFault (MadeBelow token (Token.kind fields)) below) :
    Gives AnyFault (InlineMade token) (inlineFrom token fields below) := by
  have leaf (node : Node) (childless : node.children = []) (span : node.isBlock = false) :
      Gives AnyFault (InlineMade token) (pure (some node)) :=
    Gives.give (inlineMade_of_childless childless span)
  have parent (kind : Kind) (enclosing : isEnclosing (Token.kind fields) = true)
      (outer : kind = .emphasis ∨ kind = .strong ∨ kind = .link) :
      Gives AnyFault (InlineMade token) (some <$> parentNode kind <$> below) := by
    refine (children.map fun nodes made => ?_).map fun _ holds => holds
    exact inlineMade_of_enclosing enclosing outer made
  have isKind {name : String} (same : fields.getD "type" (.text "") = .text name) :
      Token.kind fields = .text name := same
  unfold inlineFrom
  dsimp only
  split
  case h_1 => exact leaf _ rfl rfl
  case h_2 => exact leaf _ rfl rfl
  case h_3 => exact leaf _ rfl rfl
  case h_4 same => exact parent .emphasis (by rw [isKind same]; rfl) (Or.inl rfl)
  case h_5 same => exact parent .emphasis (by rw [isKind same]; rfl) (Or.inl rfl)
  case h_6 same => exact parent .strong (by rw [isKind same]; rfl) (Or.inr (Or.inl rfl))
  case h_7 => exact leaf _ rfl rfl
  case h_8 same =>
    refine (children.map fun nodes made => ?_).map fun _ holds => holds
    exact inlineMade_of_enclosing (by rw [isKind same]; rfl) (Or.inr (Or.inr rfl)) made
  case h_9 =>
    have image : Gives AnyFault (fun node => node.kind = .image ∧ node.children = [])
        (imageNode token fields) :=
      (Gives.any _).bind fun _ _ => Gives.give ⟨rfl, rfl⟩
    refine image.map ?_
    rintro node ⟨isImage, childless⟩
    exact inlineMade_of_childless childless (by simp [Node.isBlock, isImage, Kind.placement])
  case h_10 =>
    refine (markupNode_gives _ _).map ?_
    rintro node ⟨childless, span⟩
    exact inlineMade_of_childless childless span
  case h_11 => exact leaf _ rfl rfl
  case h_12 same =>
    refine Gives.give ?_
    rintro _ ⟨⟩
    refine ⟨nests_of_childless rfl, fun _ => ⟨rfl, ?_⟩⟩
    rw [isBlockMath, record, Option.map_some, isKind same]
    rfl
  case h_13 =>
    have abbreviation : Gives AnyFault (fun node => node.kind = .abbreviation ∧ node.children = [])
        (abbreviationNode token fields) :=
      (Gives.any _).bind fun _ _ => Gives.give ⟨rfl, rfl⟩
    refine abbreviation.map ?_
    rintro node ⟨isAbbreviation, childless⟩
    exact inlineMade_of_childless childless
      (by simp [Node.isBlock, isAbbreviation, Kind.placement])
  case h_14 => exact leaf _ rfl rfl
  case h_15 => exact leaf _ rfl rfl
  case h_16 => exact leaf _ rfl rfl
  case h_17 => exact leaf _ rfl rfl
  case h_18 => exact leaf _ rfl rfl
  case h_19 =>
    refine Gives.event_bind (Gives.give ?_)
    intro node made
    cases made

/-- What is made of a child of a record is made below the record. -/
theorem InlineMade.below {fields : Fields} {children : List Token} {nodes : List Node}
    (made : Made InlineMade children nodes) :
    MadeBelow (.branch fields children) (Token.kind fields) nodes := by
  intro node present
  obtain ⟨token, member, holds⟩ := made.exists_item present
  obtain ⟨nests, block⟩ := holds node rfl
  constructor
  · exact nests_mono nests fun found => encloses_branch (enclose_of_mem member found)
  · intro placed
    obtain ⟨math, found⟩ := block placed
    refine ⟨math, fun enclosing => ?_⟩
    have some : children.any isBlockMath = true := List.any_eq_true.mpr ⟨token, member, found⟩
    rw [encloses, enclosing, some, Bool.true_and, Bool.true_or]

/-- By induction on the token, one case for each way a token is built. -/
theorem inlineNode_gives (token : Token) :
    Gives AnyFault (InlineMade token) (inlineNode token) := by
  induction token using Token.induction_on_children with
  | stray value => exact Gives.stop trivial
  | leaf fields =>
      rw [inlineNode]
      refine inlineFrom_gives rfl (Gives.give ?_)
      exact List.forall_mem_nil _
  | branch fields children each =>
      rw [inlineNode, inlineNodes_eq]
      exact inlineFrom_gives rfl ((Gives.collect each).imp fun _ => InlineMade.below)

/-! ## Block tokens -/

/-- The nodes nest as the tokens inside a token do. -/
def NestIn (token : Token) (nodes : List Node) : Prop :=
  ∀ node ∈ nodes, node.Everywhere (Nests (encloses token = true))

/-- What is made of tokens inside a token nests as they do. -/
theorem nestIn_of_made {outer : Token} {related : Token → Option Node → Prop} {tokens : List Token}
    {nodes : List Node} (inside : ∀ token ∈ tokens, encloses token = true → encloses outer = true)
    (nests : ∀ token node, related token (some node) → NestIn token [node])
    (made : Made related tokens nodes) : NestIn outer nodes := by
  intro node present
  obtain ⟨token, member, holds⟩ := made.exists_item present
  exact nests_mono (nests token node holds node List.mem_cons_self) (inside token member)

/-- A block around nodes that nest. -/
theorem nestIn_of_block {token : Token} {node : Node} (block : node.isBlock = true)
    (noMath : node.kind ≠ .math) (below : NestIn token node.children) : NestIn token [node] := by
  intro other present
  obtain rfl := List.mem_singleton.mp present
  exact nests_of_block block noMath below

theorem nestIn_of_childless {token : Token} {node : Node} (childless : node.children = []) :
    NestIn token [node] := by
  intro other present
  obtain rfl := List.mem_singleton.mp present
  exact nests_of_childless childless

/-- Inline tokens below a token. -/
theorem inlineNodes_nest (token : Token) :
    Gives AnyFault (NestIn token) (inlineNodes token.children) := by
  rw [inlineNodes_eq]
  refine (Gives.collect fun inner _ => inlineNode_gives inner).imp fun nodes made => ?_
  refine nestIn_of_made ?_ ?_ made
  · intro inner member found
    cases token with
    | leaf fields => cases member
    | stray value => cases member
    | branch fields children => exact encloses_branch (enclose_of_mem member found)
  · intro inner node holds other present
    obtain rfl := List.mem_singleton.mp present
    exact (holds _ rfl).1

/-- What a rule goes through one by one holds no more than the token does. -/
theorem elements_inside (token : Token) :
    Gives AnyFault (fun items => ∀ item ∈ items, encloses item = true → encloses token = true)
      (elements token) := by
  cases token with
  | branch fields children =>
      refine Gives.give fun item member found => ?_
      exact encloses_branch (enclose_of_mem member found)
  | stray value => exact Gives.stop trivial
  | leaf fields =>
      rw [elements]
      split
      · exact Gives.give (List.forall_mem_nil _)
      · refine Gives.give fun item member found => ?_
        obtain ⟨_, -, rfl⟩ := List.mem_map.mp member
        cases found
      · refine Gives.give fun item member found => ?_
        obtain ⟨_, -, rfl⟩ := List.mem_map.mp member
        cases found
      · exact Gives.stop trivial

theorem cellNode_nests (token : Token) :
    Gives AnyFault (fun node => NestIn token [node]) (cellNode token) := by
  unfold cellNode
  refine (Gives.any _).bind fun fields _ => ?_
  refine (inlineNodes_nest token).bind fun children below => ?_
  exact Gives.give (nestIn_of_block rfl nofun below)

/-- Something made of each element is put into a block. -/
theorem elements_nest {token : Token} {make : Token → Reporting Node} {around : List Node → Node}
    (each : ∀ item, Gives AnyFault (fun node => NestIn item [node]) (make item))
    (block : ∀ nodes, (around nodes).isBlock = true ∧ (around nodes).kind ≠ .math)
    (holds : ∀ nodes, (around nodes).children = nodes) :
    Gives AnyFault (fun node => NestIn token [node]) (do
      let items ← elements token
      around <$> items.mapM make) := by
  refine (elements_inside token).bind fun items inside => ?_
  refine (Gives.mapM fun item _ => each item).map fun nodes made => ?_
  obtain ⟨isBlock, noMath⟩ := block nodes
  refine nestIn_of_block isBlock noMath ?_
  rw [holds]
  intro node present
  obtain ⟨item, member, nests⟩ := exists_of_mem_forall₂ made present
  exact nests_mono (nests node List.mem_cons_self) (inside item member)

theorem rowNode_nests (token : Token) :
    Gives AnyFault (fun node => NestIn token [node]) (rowNode token) := by
  have around (nodes : List Node) : (parentNode .tableRow nodes).children = nodes := rfl
  exact elements_nest cellNode_nests (fun _ => ⟨rfl, nofun⟩) around

/-- What may be made of a token that is no inline token. -/
def BlockMade (token : Token) (made : Option Node) : Prop :=
  ∀ node ∈ made, NestIn token [node]

theorem blockMade_of_nestIn {token : Token} {node : Node} (nests : NestIn token [node]) :
    BlockMade token (some node) := by
  rintro _ ⟨⟩
  exact nests

theorem sectionNode_nests (token : Token) :
    Gives AnyFault (BlockMade token) (sectionNode? token) := by
  unfold sectionNode?
  refine (Gives.any _).bind fun fields _ => ?_
  split
  · refine (rowNode_nests token).bind fun row nests => ?_
    exact Gives.give (blockMade_of_nestIn (nestIn_of_block rfl nofun nests))
  · have around (nodes : List Node) : (parentNode .tableBody nodes).children = nodes := rfl
    have body : Gives AnyFault (fun node => NestIn token [node]) (do
        let rows ← elements token
        parentNode .tableBody <$> rows.mapM rowNode) :=
      elements_nest rowNode_nests (fun _ => ⟨rfl, nofun⟩) around
    simpa only [map_bind] using body.map fun _ => blockMade_of_nestIn
  · exact Gives.give nofun

theorem tableNode_nests (token : Token) :
    Gives AnyFault (fun node => NestIn token [node]) (tableNode token) := by
  unfold tableNode
  refine (elements_inside token).bind fun items inside => ?_
  refine (Gives.filterMapM fun item _ => sectionNode_nests item).map fun nodes made => ?_
  exact nestIn_of_block rfl nofun (nestIn_of_made inside (fun _ node holds => holds node rfl) made)

/-- What the children of a block record become nests as the record does. -/
theorem blockFrom_nests {token : Token} {fields : Fields} {blocks parts : Reporting (List Node)}
    (blocksNest : Gives AnyFault (NestIn token) blocks)
    (partsNest : Gives AnyFault (NestIn token) parts) :
    Gives AnyFault (BlockMade token) (blockFrom token fields blocks parts) := by
  have leaf (node : Node) (childless : node.children = []) :
      Gives AnyFault (BlockMade token) (pure (some node)) :=
    Gives.give (blockMade_of_nestIn (nestIn_of_childless childless))
  have parent {below : Reporting (List Node)} {around : List Node → Node}
      (nests : Gives AnyFault (NestIn token) below)
      (block : ∀ nodes, (around nodes).isBlock = true ∧ (around nodes).kind ≠ .math ∧
        (around nodes).children = nodes) :
      Gives AnyFault (BlockMade token) (some <$> around <$> below) := by
    refine (nests.map fun nodes holds => ?_).map fun _ => blockMade_of_nestIn
    obtain ⟨isBlock, noMath, same⟩ := block nodes
    exact nestIn_of_block isBlock noMath (by rwa [same])
  unfold blockFrom
  dsimp only
  split
  case h_1 => exact parent (inlineNodes_nest token) fun _ => ⟨rfl, nofun, rfl⟩
  case h_2 => exact parent (inlineNodes_nest token) fun _ => ⟨rfl, nofun, rfl⟩
  case h_3 => exact parent (inlineNodes_nest token) fun _ => ⟨rfl, nofun, rfl⟩
  case h_4 => exact leaf _ rfl
  case h_5 => exact (Gives.any _).bind fun _ _ => leaf _ rfl
  case h_6 => exact parent blocksNest fun _ => ⟨rfl, nofun, rfl⟩
  case h_7 =>
    refine parent blocksNest fun items => ?_
    unfold listNode
    dsimp only
    split <;> exact ⟨rfl, nofun, rfl⟩
  case h_8 => exact parent blocksNest fun _ => ⟨rfl, nofun, rfl⟩
  case h_9 => exact leaf _ rfl
  case h_10 =>
    refine (markupNode_gives _ _).map ?_
    rintro node ⟨childless, -⟩
    exact blockMade_of_nestIn (nestIn_of_childless childless)
  case h_11 => exact (tableNode_nests token).map fun _ => blockMade_of_nestIn
  case h_12 => exact leaf _ rfl
  case h_13 => exact parent partsNest fun _ => ⟨rfl, nofun, rfl⟩
  case h_14 => exact Gives.event_bind (Gives.give nofun)

theorem termNode_nests {token : Token} {fields : Fields} {nodes : List Node}
    (below : NestIn token nodes) : NestIn token [termNode fields nodes] := by
  refine nestIn_of_block rfl nofun ?_
  unfold termNode parentNode
  dsimp only
  split
  · exact nestIn_of_childless rfl
  · exact below

/-- By induction on the token: it nests as a block, and as a part of a definition list. -/
theorem blockNode_nests (token : Token) :
    Gives AnyFault (BlockMade token) (blockNode token) ∧
      Gives AnyFault (BlockMade token) (definitionPart token) := by
  induction token using Token.induction_on_children with
  | stray value => exact ⟨Gives.stop trivial, Gives.stop trivial⟩
  | leaf fields =>
      constructor
      · rw [blockNode]
        refine blockFrom_nests (Gives.give (List.forall_mem_nil _)) ?_
        refine (Gives.any _).bind fun found _ => ?_
        split
        · exact Gives.give (List.forall_mem_nil _)
        · exact Gives.stop trivial
      · rw [definitionPart]
        split
        · exact Gives.give (blockMade_of_nestIn (termNode_nests (List.forall_mem_nil _)))
        · exact Gives.give (blockMade_of_nestIn (nestIn_of_block rfl nofun (List.forall_mem_nil _)))
        · exact Gives.give nofun
  | branch fields children each =>
      have inside (inner : Token) (member : inner ∈ children) (found : encloses inner = true) :
          encloses (.branch fields children) = true :=
        encloses_branch (enclose_of_mem member found)
      have gathered {nodes : List Node} (made : Made BlockMade children nodes) :
          NestIn (.branch fields children) nodes :=
        nestIn_of_made inside (fun _ node holds => holds node rfl) made
      have blocks : Gives AnyFault (NestIn (.branch fields children)) (blockNodes children) := by
        rw [blockNodes_eq]
        exact (Gives.collect fun inner member => (each inner member).1).imp fun _ => gathered
      constructor
      · rw [blockNode]
        refine blockFrom_nests blocks ?_
        rw [definitionParts_eq]
        exact (Gives.collect fun inner member => (each inner member).2).imp fun _ => gathered
      · rw [definitionPart]
        split
        · refine ((inlineNodes_nest (.branch fields children)).map fun nodes below => ?_).map
            fun _ => blockMade_of_nestIn
          exact termNode_nests below
        · refine (blocks.map fun nodes below => ?_).map fun _ => blockMade_of_nestIn
          exact nestIn_of_block rfl nofun below
        · exact Gives.give nofun

/-- In a document, blocks stand in spans only as the tokens make them. -/
theorem documentOf_nests (tokens : List Token) :
    Gives AnyFault (fun tree => tree.Everywhere (Nests (enclose tokens = true)))
      (documentOf tokens) := by
  unfold documentOf
  rw [blockNodes_eq]
  refine (Gives.collect fun inner _ => (blockNode_nests inner).1).bind fun nodes made => ?_
  refine Gives.event_bind (Gives.give (nests_of_block rfl nofun ?_))
  intro node present
  obtain ⟨token, member, holds⟩ := made.exists_item present
  exact nests_mono (holds node rfl node List.mem_cons_self) (enclose_of_mem member)

end Markdown

namespace Layout

/-- Where no formatting node holds a block, no rendering refuses the tree, under
whatever policy. -/
theorem not_isRefusal_of_spans {options : Options} {tree : Node}
    (spans : tree.Everywhere fun node => isFormatting node.kind = true → hasBlock node = false)
    {fault : Fault} (stopped : (renderTree options tree).1 = .error fault) : ¬ IsRefusal fault := by
  cases resolved : (Numbering.resolve tree).1 with
  | error other =>
      have ended : outcome (numberTree tree) {} =
          (.error other, (outcome (numberTree tree) {}).2) := by
        rw [outcome_numberTree, resolved]
      have rendered : (renderTree options tree).1 = .error other := by
        change (outcome (render options tree) {}).1 = .error other
        rw [render, outcome_bind, ended]
      rw [rendered] at stopped
      obtain rfl := Except.error.inj stopped
      rintro ⟨report, failed, -⟩
      exact Numbering.noFailure_of_resolve resolved report failed
  | ok numbered =>
      have retains := Numbering.resolve_retains resolved
      have spansNow : numbered.tree.Everywhere fun node =>
          options.nesting = .reject → isFormatting node.kind = true →
            ∀ child ∈ node.children, child.isBlock = false := by
        intro now present _ formatting child member
        obtain ⟨path, foundNow⟩ := Node.mem_walk_iff.mp present
        obtain ⟨given, found, kept⟩ := retains.exists_given foundNow
        have none : hasBlock now = false := by
          rw [hasBlock_retained retains found foundNow]
          apply spans given (Node.mem_walk_iff.mpr ⟨path, found⟩)
          rwa [← kept.kind]
        unfold hasBlock at none
        rw [List.any_eq_false] at none
        exact Bool.not_eq_true _ ▸ none child member
      have meets : Meets (render options tree) {} ConversionFault fun _ _ => True :=
        render_meets resolved (known_numbered resolved) fun log =>
          (lenient_steps { options := options, numbered := some numbered }).convert numbered.tree
            spansNow Place.root 0 { held := [], log := log }
      have ended := renderTree_of_meets meets
      rw [stopped] at ended
      exact ended.not_isRefusal

end Layout

namespace Markdown

/-- In a document that was read, a block stands in a span only where it is math on lines
of its own that the tokens held directly inside emphasis, strong text or a link.  Where
they held none, no span holds a block, and no rendering refuses the document, under
whatever policy. -/
theorem documentFrom_nests {installed : Bool} {tokens : List Token} {log after : Log} {tree : Node}
    (returned : outcome (documentFrom installed (.ok tokens)) log = (.ok tree, after)) :
    (∀ span ∈ tree.walk, span.isBlock = false → ∀ child ∈ span.children, child.isBlock = true →
        child.kind = .math ∧
          (span.kind = .emphasis ∨ span.kind = .strong ∨ span.kind = .link) ∧
          enclose tokens = true) ∧
      (enclose tokens = false →
        (∀ span ∈ tree.walk, span.isBlock = false → ∀ child ∈ span.children,
          child.isBlock = false) ∧
        ∀ options fault, (Layout.renderTree options tree).1 = .error fault →
          ¬ Layout.IsRefusal fault) := by
  have nests : tree.Everywhere (Nests (enclose tokens = true)) :=
    (documentOf_nests tokens log).of_ok (documentOf_of_documentFrom returned)
  refine ⟨fun span present => (nests span present).span, fun apart => ?_⟩
  have spans : ∀ span ∈ tree.walk, span.isBlock = false → ∀ child ∈ span.children,
      child.isBlock = false := by
    intro span present isSpan child member
    cases block : child.isBlock with
    | false => rfl
    | true =>
        obtain ⟨-, -, found⟩ := (nests span present).span isSpan child member block
        rw [apart] at found
        cases found
  refine ⟨spans, fun options fault stopped => ?_⟩
  -- Math may be a block, but then it has no children.
  refine Layout.not_isRefusal_of_spans (fun node present formatting => ?_) stopped
  unfold Layout.hasBlock
  rw [List.any_eq_false]
  intro child member block
  by_cases math : node.kind = .math
  · rw [(nests node present).math math] at member
    cases member
  · have isSpan := Layout.isBlock_of_formatting formatting math
    rw [spans node present isSpan child member] at block
    cases block

/-- A paragraph with math on lines of its own, and with emphasis around math within a
line. -/
def formulas : List Token := [
  .make "paragraph" none [] (some [
    .make "block_math" (some "x") [] none,
    .make "emphasis" none [] (some [.make "inline_math" (some "y") [] none])])]

/-- The document of the two formulas. -/
def formulasDocument : Node where
  kind := .root
  children := [{
    kind := .paragraph
    children := [
      { kind := .math, payload := .text "x", options := [("category", .text "block")] },
      { kind := .emphasis
        children := [
          { kind := .math, payload := .text "y", options := [("category", .text "span")] }] }] }]

/-- No span of the document holds a block, and it is not refused. -/
theorem documentFrom_nests_formulas :
    outcome (documentFrom true (.ok formulas)) [] = (.ok formulasDocument, [.blocksRead 1]) ∧
      (∀ span ∈ formulasDocument.walk, span.isBlock = false → ∀ child ∈ span.children,
        child.isBlock = false) ∧
      ∀ options fault, (Layout.renderTree options formulasDocument).1 = .error fault →
        ¬ Layout.IsRefusal fault := by
  have returned : outcome (documentFrom true (.ok formulas)) [] =
      (.ok formulasDocument, [.blocksRead 1]) := rfl
  exact ⟨returned, (documentFrom_nests returned).2 rfl⟩

/-- A paragraph with emphasis around math on lines of its own. -/
def emphasizedFormula : List Token := [
  .make "paragraph" none [] (some [
    .make "emphasis" none [] (some [.make "block_math" (some "x") [] none])])]

/-- The document of the emphasized formula. -/
def emphasizedFormulaDocument : Node where
  kind := .root
  children := [{
    kind := .paragraph
    children := [{
      kind := .emphasis
      children := [
        { kind := .math, payload := .text "x", options := [("category", .text "block")] }] }] }]

/-- A block stands in the emphasis of the document, and the strict policy refuses it. -/
theorem documentFrom_emphasizedFormula :
    outcome (documentFrom true (.ok emphasizedFormula)) [] =
        (.ok emphasizedFormulaDocument, [.blocksRead 1]) ∧
      (∃ span ∈ emphasizedFormulaDocument.walk, span.isBlock = false ∧
        ∃ child ∈ span.children, child.isBlock = true) ∧
      ∃ fault, (Layout.renderTree { nesting := .reject } emphasizedFormulaDocument).1 =
          .error fault ∧ Layout.IsRefusal fault := by
  refine ⟨rfl, by decide +kernel, _, rfl, _, rfl, rfl⟩

end Markdown
end Galley
