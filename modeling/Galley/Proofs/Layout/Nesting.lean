import Galley.Proofs.Layout.Agreement

/-!
# Which trees the strict policy refuses

Conversion goes through the children of some kinds only.  A tree is refused if it holds
a block directly inside a span that conversion goes through, and otherwise it is
rendered; blocks in other spans are not looked at.
-/

namespace Galley
namespace Layout

open Text

/-! ## Blocks in spans -/

/-- Whether a block stands directly inside a node. -/
def hasBlock (node : Node) : Bool :=
  node.children.any Node.isBlock

/-- A block stands directly inside a formatting node that is met by a conversion of the
tree. -/
def Misnested (tree : Node) : Prop :=
  ∃ entry ∈ tree.located [],
    isMet tree entry.1 = true ∧ isFormatting entry.2.kind = true ∧ hasBlock entry.2 = true

instance : DecidablePred Misnested := fun tree =>
  inferInstanceAs (Decidable (∃ entry ∈ tree.located [], _ ∧ _ ∧ _))

mutual

/-- The blocks that a conversion meets directly inside spans, in document order, each
with its span. -/
def misnestings (node : Node) : List (Kind × Kind) :=
  match node with
  | ⟨kind, _, _, _, children⟩ => if isWalked kind then misnestingsBelow kind children else []
termination_by structural node

/-- The blocks that are met directly inside spans among siblings and below, in a node of
the given kind. -/
def misnestingsBelow (outer : Kind) (siblings : List Node) : List (Kind × Kind) :=
  match siblings with
  | [] => []
  | child :: rest =>
      (if isFormatting outer && child.isBlock then [(outer, child.kind)] else []) ++
        misnestings child ++ misnestingsBelow outer rest
termination_by structural siblings

end

theorem misnestings_eq (node : Node) :
    misnestings node = if isWalked node.kind then misnestingsBelow node.kind
      node.children else [] := by
  cases node
  rfl

/-- Where nothing is a leaf, blocks in spans are met among the children and below. -/
theorem misnestings_of_shape {options : Options} {node : Node} {form : Shape}
    (shaped : shape options node = form) (inner : form ≠ .leaf) :
    misnestings node = misnestingsBelow node.kind node.children := by
  rw [misnestings_eq, if_pos (isWalked_of_shape shaped inner)]

theorem misnestingsBelow_eq_nil_iff (outer : Kind) (siblings : List Node) :
    misnestingsBelow outer siblings = [] ↔
      (isFormatting outer = true → siblings.any Node.isBlock = false) ∧
        ∀ child ∈ siblings, misnestings child = [] := by
  induction siblings with
  | nil => simp [misnestingsBelow]
  | cons child rest inductionHypothesis =>
      rw [misnestingsBelow, List.append_eq_nil_iff, List.append_eq_nil_iff, inductionHypothesis,
        List.forall_mem_cons, List.any_cons]
      cases isFormatting outer <;> cases child.isBlock <;> simp [and_left_comm]

/-- No block is met directly inside a span if no path leads to such a span. -/
theorem misnestings_eq_nil_iff (node : Node) :
    misnestings node = [] ↔ ∀ path span, node.at? path = some span → isMet node path = true →
      isFormatting span.kind = true → hasBlock span = false := by
  induction node using Node.induction_on_children with
  | step node below =>
      rw [misnestings_eq]
      constructor
      · intro none path span found met formatting
        cases path with
        | nil =>
            obtain rfl := Option.some.inj found
            have walked : isWalked node.kind = true := by simp [isWalked, formatting]
            rw [if_pos walked, misnestingsBelow_eq_nil_iff] at none
            exact none.1 formatting
        | cons index rest =>
            obtain ⟨child, entered, deeper⟩ := Option.bind_eq_some_iff.mp found
            rw [isMet_cons entered, Bool.and_eq_true] at met
            rw [if_pos met.2, misnestingsBelow_eq_nil_iff] at none
            have member := List.mem_of_getElem? entered
            exact (below child member).mp (none.2 child member) rest span deeper met.1 formatting
      · intro each
        split
        · rename_i walked
          refine (misnestingsBelow_eq_nil_iff _ _).mpr
            ⟨each [] node rfl rfl, fun child member => ?_⟩
          obtain ⟨index, entered⟩ := List.getElem?_of_mem member
          refine (below child member).mpr fun path span found met => each (index :: path) span ?_ ?_
          · rw [Node.at?_cons, entered, Option.bind_some, found]
          · rw [isMet_cons entered, met, walked, Bool.and_self]
        · rfl

/-- A tree is misnested if some path leads to a formatting node that is met and holds a
block. -/
theorem misnested_iff (tree : Node) :
    Misnested tree ↔ ∃ path span, tree.at? path = some span ∧ isMet tree path = true ∧
      isFormatting span.kind = true ∧ hasBlock span = true := by
  constructor
  · rintro ⟨⟨path, span⟩, listed, holds⟩
    obtain ⟨_, rfl, found⟩ := Node.mem_located_iff.mp listed
    exact ⟨path, span, found, holds⟩
  · rintro ⟨path, span, found, holds⟩
    exact ⟨(path, span), Node.mem_located_iff.mpr ⟨path, rfl, found⟩, holds⟩

/-- Conversion meets a block directly inside a span exactly if the tree is misnested. -/
theorem misnestings_eq_nil_iff_not_misnested (tree : Node) :
    misnestings tree = [] ↔ ¬ Misnested tree := by
  rw [misnestings_eq_nil_iff, misnested_iff]
  simp only [not_exists, not_and, Bool.not_eq_true]

/-! ## Rows below -/

/-- What is misnested below a node that conversion goes through is misnested in the
node. -/
theorem Misnested.of_child {node child : Node} (walked : isWalked node.kind = true)
    (member : child ∈ node.children) (misnested : Misnested child) : Misnested node := by
  obtain ⟨index, entered⟩ := List.getElem?_of_mem member
  obtain ⟨path, span, found, met, holds⟩ := (misnested_iff child).mp misnested
  refine (misnested_iff node).mpr ⟨index :: path, span, ?_, ?_, holds⟩
  · rw [Node.at?_cons, entered, Option.bind_some, found]
  · rw [isMet_cons entered, met, walked, Bool.and_self]

/-- Where a tree is not misnested, no node that is met is. -/
theorem met_not_misnested {tree : Node} (fine : ¬ Misnested tree) :
    Met (fun inner => ¬ Misnested inner) tree := by
  refine met_iff_at?.mpr fun path inner found met => ?_
  induction path generalizing tree with
  | nil =>
      obtain rfl := Option.some.inj found
      exact fine
  | cons index rest inductionHypothesis =>
      obtain ⟨child, entered, deeper⟩ := Option.bind_eq_some_iff.mp found
      rw [isMet_cons entered, Bool.and_eq_true] at met
      have member := List.mem_of_getElem? entered
      exact inductionHypothesis (fun below => fine (below.of_child met.2 member)) deeper met.1

/-- A block that is met below formatting stands directly inside of it, or below a span
that is formatting too. -/
theorem misnested_of_block {node block : Node} (formatting : isFormatting node.kind = true)
    {index : Nat} {rest : Path} (found : node.at? (index :: rest) = some block)
    (met : isMet node (index :: rest) = true) (placed : block.isBlock = true) : Misnested node := by
  induction rest generalizing node index with
  | nil =>
      have member : block ∈ node.children := List.mem_of_getElem? (by simpa using found)
      exact (misnested_iff node).mpr
        ⟨[], node, rfl, rfl, formatting, List.any_eq_true.mpr ⟨block, member, placed⟩⟩
  | cons next rest inductionHypothesis =>
      obtain ⟨child, entered, deeper⟩ := Option.bind_eq_some_iff.mp found
      have member := List.mem_of_getElem? entered
      have walked := isWalked_of_formatting formatting
      rw [isMet_cons entered, Bool.and_eq_true] at met
      cases childPlaced : child.isBlock with
      | true =>
          exact (misnested_iff node).mpr
            ⟨[], node, rfl, rfl, formatting, List.any_eq_true.mpr ⟨child, member, childPlaced⟩⟩
      | false =>
          obtain ⟨grandchild, enteredNext, -⟩ := Option.bind_eq_some_iff.mp deeper
          have childWalked := met.1
          rw [isMet_cons enteredNext, Bool.and_eq_true] at childWalked
          have childFormatting := isFormatting_of_walked childPlaced childWalked.2
          exact (inductionHypothesis childFormatting deeper met.1).of_child walked member

/-- In a tree that is not misnested no row is flattened. -/
theorem flattensPlainly_of_not_misnested {options : Options} {tree : Node}
    (fine : ¬ Misnested tree) :
    FlattensPlainly options tree := by
  intro _ entry listed met formatting
  have inside : ¬ Misnested entry.2 := met_not_misnested fine entry listed met
  refine met_iff_at?.mpr fun path row found reached kind => ?_
  cases path with
  | nil =>
      obtain rfl := Option.some.inj found
      rw [kind] at formatting
      cases formatting
  | cons index rest =>
      have placed : row.isBlock = true := by simp [Node.isBlock, kind, Kind.placement]
      exact absurd (misnested_of_block formatting found reached placed) inside

/-! ## The numbered tree -/

/-- Whether a node is a block does not depend on what numbering adds to it. -/
theorem isBlock_retained {given now : Node} (retains : Numbering.Retains given now) :
    now.isBlock = given.isBlock := by
  by_cases header : given.kind = .header
  · simp [Node.isBlock, retains.kind, header, Kind.placement]
  · by_cases item : given.kind = .listItem
    · simp [Node.isBlock, retains.kind, item, Kind.placement]
    · rw [Node.isBlock, Node.isBlock, retains.kind, (retains.unchanged header item).2]

/-- Whether a block stands directly inside a node does not depend on it either. -/
theorem hasBlock_retained {tree new given now : Node} {path : Path}
    (retains : tree.Matches (fun _ => Numbering.Retains) new)
    (found : tree.at? path = some given) (foundNow : new.at? path = some now) :
    hasBlock now = hasBlock given := by
  have below := (retains.at_path found foundNow).map_children fun _ _ _ kept =>
    isBlock_retained kept
  have any (node : Node) : hasBlock node = (node.children.map Node.isBlock).any id := by
    rw [List.any_map]
    rfl
  rw [any, any, below]

/-- Numbering neither makes a tree misnested nor mends it. -/
theorem misnested_numbered {tree : Node} {numbered : Numbering.Numbered}
    (returned : (Numbering.resolve tree).1 = .ok numbered) :
    Misnested numbered.tree ↔ Misnested tree := by
  have retains := Numbering.resolve_retains returned
  have met (path : Path) : isMet numbered.tree path = isMet tree path :=
    retains.all_ancestorsAt (fun _ _ _ kept => kept.kind) isWalked path
  rw [misnested_iff, misnested_iff]
  constructor
  · rintro ⟨path, now, foundNow, rest⟩
    obtain ⟨given, found, kept⟩ := retains.exists_given foundNow
    rw [met, kept.kind, hasBlock_retained retains found foundNow] at rest
    exact ⟨path, given, found, rest⟩
  · rintro ⟨path, given, found, rest⟩
    obtain ⟨now, foundNow, kept⟩ := retains.exists_now found
    rw [← met, ← kept.kind, ← hasBlock_retained retains found foundNow] at rest
    exact ⟨path, now, foundNow, rest⟩

/-! ## What is flattened -/

/-- A computation that returns has reported these flattenings. -/
def Flattens (action : Render α) (pairs : List (Kind × Kind)) : Prop :=
  ∀ before, Meets action before (fun _ => True) fun _ after =>
    flattenings after.log = flattenings before.log ++ pairs

namespace Flattens

variable {α β : Type} {action : Render α} {pairs others : List (Kind × Kind)}

theorem of_silent (silent : Silent action) : Flattens action [] := by
  intro before
  obtain ⟨events, logged, unlike⟩ := silent before
  unfold Meets
  split
  · rename_i value after returned
    rw [returned] at logged
    rw [logged, flattenings_append, flattenings, flattenings, List.filterMap_eq_nil_iff.mpr unlike]
  · trivial

theorem bind {next : α → Render β} (first : Flattens action pairs)
    (second : ∀ value, Flattens (next value) others) :
    Flattens (action >>= next) (pairs ++ others) := by
  intro before
  refine Meets.bind (first before) fun value middle reported => ?_
  refine (second value middle).imp fun result after reportedMore => ?_
  rw [reportedMore, reported, List.append_assoc]

theorem bind_silent {next : α → Render β} (first : Flattens action pairs)
    (second : ∀ value, Silent (next value)) : Flattens (action >>= next) pairs := by
  have both := first.bind fun value => of_silent (second value)
  rwa [List.append_nil] at both

theorem silent_bind {next : α → Render β} (first : Silent action)
    (second : ∀ value, Flattens (next value) pairs) : Flattens (action >>= next) pairs :=
  (of_silent first).bind second

end Flattens

section Conversions

variable {setting : Setting} (flattens : setting.options.nesting = .flatten) {siblings : List Node}

/-- The conversion of the node flattens the blocks in spans that it meets, wherever the
node stands. -/
def Collects (setting : Setting) (node : Node) : Prop :=
  ∀ place indent, Flattens (convert setting node place indent) (misnestings node)

theorem spanPiece_collects {child : Node} (collects : Collects setting child) (place : Place)
    (indent : Nat) : Flattens (spanPiece setting child place indent) (misnestings child) := by
  unfold spanPiece
  split
  · exact (collects place indent).bind_silent fun text => Silent.hold text
  · exact collects place indent

/-- Siblings in a node that is no formatting flatten what is flattened inside of them. -/
theorem flow_collects (each : ∀ child ∈ siblings, Collects setting child) {outer : Kind}
    (unlike : isFormatting outer = false) (parent : Node) (place : Place) (index inner : Nat)
    (wraps : Bool) (waiting : List Char) :
    Flattens (flow setting siblings parent place index inner wraps waiting)
      (misnestingsBelow outer siblings) := by
  induction siblings generalizing index waiting with
  | nil => exact .of_silent (Silent.flush setting inner wraps waiting)
  | cons child rest inductionHypothesis =>
      obtain ⟨first, others⟩ := List.forall_mem_cons.mp each
      rw [misnestingsBelow, unlike, Bool.false_and, if_neg Bool.false_ne_true, List.nil_append]
      cases placed : child.isBlock with
      | false =>
          rw [flow_cons_of_span placed]
          exact (spanPiece_collects first _ inner).bind fun piece =>
            inductionHypothesis others (index + 1) _
      | true =>
          rw [flow_cons_of_block placed]
          refine (first _ inner).bind fun text => ?_
          refine Flattens.silent_bind (Silent.flush setting inner wraps waiting) fun front => ?_
          exact (inductionHypothesis others (index + 1) []).bind_silent fun back => Adds.give _

theorem convertCells_collects (each : ∀ child ∈ siblings, Collects setting child) {outer : Kind}
    (unlike : isFormatting outer = false) (parent : Node) (place : Place) (index : Nat) :
    Flattens (convertCells setting siblings parent place index)
      (misnestingsBelow outer siblings) := by
  induction siblings generalizing index with
  | nil => exact .of_silent (Adds.give [])
  | cons child rest inductionHypothesis =>
      obtain ⟨first, others⟩ := List.forall_mem_cons.mp each
      rw [misnestingsBelow, unlike, Bool.false_and, if_neg Bool.false_ne_true, List.nil_append,
        convertCells]
      refine (first _ 0).bind fun text => ?_
      exact (inductionHypothesis others (index + 1)).bind_silent fun more => Adds.give _

include flattens in
/-- A block among the children of a formatting node is flattened. -/
theorem inlinePiece_collects {child : Node} (collects : Collects setting child) {parent : Node}
    (formatting : isFormatting parent.kind = true) (place : Place) (indent : Nat) :
    Flattens (inlinePiece setting child parent place indent)
      ((if isFormatting parent.kind && child.isBlock then [(parent.kind, child.kind)] else []) ++
        misnestings child) := by
  cases placed : child.isBlock with
  | false =>
      rw [inlinePiece_of_span placed, Bool.and_false, if_neg Bool.false_ne_true, List.nil_append]
      exact spanPiece_collects collects place indent
  | true =>
      have reports : Flattens (report (.blockFlattened parent.kind child.kind))
          [(parent.kind, child.kind)] := fun before => Meets.change (flattenings_append _ _)
      rw [inlinePiece_of_block placed, flattens, formatting, Bool.and_self, if_pos rfl]
      exact reports.bind fun _ => (collects place 0).bind_silent fun text => Adds.give _

include flattens in
theorem convertInline_collects (each : ∀ child ∈ siblings, Collects setting child) {parent : Node}
    (formatting : isFormatting parent.kind = true) (place : Place) (index indent : Nat) :
    Flattens (convertInline setting siblings parent place index indent)
      (misnestingsBelow parent.kind siblings) := by
  induction siblings generalizing index with
  | nil => exact .of_silent (Adds.give [])
  | cons child rest inductionHypothesis =>
      obtain ⟨first, others⟩ := List.forall_mem_cons.mp each
      rw [convertInline_cons, misnestingsBelow]
      refine (inlinePiece_collects flattens first formatting _ indent).bind fun piece => ?_
      exact (inductionHypothesis others (index + 1)).bind_silent fun more => Adds.give _

include flattens in
/-- By induction on the tree, a conversion flattens the blocks in spans that it meets,
in document order. -/
theorem convert_collects (node : Node) : Collects setting node := by
  induction node using Node.induction_on_children with
  | step node each =>
      intro place indent
      cases known : node.kind.isKnown with
      | false =>
          rw [convert_of_unknown setting place indent known]
          exact fun before => Meets.stop trivial
      | true =>
          rw [convert_eq_bareText setting place indent known]
          refine Flattens.bind_silent ?_ fun text => Adds.give _
          unfold bareText
          cases shaped : shape setting.options node with
          | region extra =>
              rw [misnestings_of_shape shaped (by simp)]
              exact (flow_collects each (isFormatting_of_shape shaped (by simp) (by simp))
                node place 0
                _ _ []).bind_silent fun body => Adds.give _
          | hanging bullet =>
              rw [misnestings_of_shape shaped (by simp)]
              exact (flow_collects each (isFormatting_of_shape shaped (by simp) (by simp))
                node place 0
                _ _ []).bind_silent fun body => Adds.give _
          | quote =>
              rw [misnestings_of_shape shaped (by simp)]
              exact (flow_collects each (isFormatting_of_shape shaped (by simp) (by simp))
                node place 0
                _ _ []).bind_silent fun body => Adds.give _
          | row =>
              rw [misnestings_of_shape shaped (by simp)]
              refine (convertCells_collects each (isFormatting_of_shape shaped (by simp)
                (by simp)) node
                place 0).bind_silent fun cells => ?_
              cases setting.options.cellSeparator with
              | none => exact Adds.stop _
              | some separator => exact Adds.give _
          | inline =>
              rw [misnestings_of_shape shaped (by simp)]
              have formatting := isFormatting_of_inline (Or.inl shaped)
              exact (convertInline_collects flattens each formatting place 0 indent).bind_silent
                fun content => Adds.give _
          | math =>
              rw [misnestings_of_shape shaped (by simp)]
              have formatting := isFormatting_of_inline (Or.inr shaped)
              refine (convertInline_collects flattens each formatting place 0 indent).bind_silent
                fun content => ?_
              dsimp only
              split
              · exact Silent.flush setting indent false _
              · exact Adds.give _
          | leaf =>
              have unwalked : isWalked node.kind = false := by
                rw [Bool.eq_false_iff, ne_eq, isWalked_iff_shape setting.options, shaped]
                simp
              rw [misnestings_eq, unwalked]
              exact .of_silent (Silent.of_terse (Terse.leafText setting node place indent))

end Conversions

/-! ## Renderings -/

section Renderings

variable {options : Options} {tree : Node} {numbered : Numbering.Numbered}

/-- A rendering that returns has flattened the blocks in spans that it met. -/
theorem flattenings_renderTree (returned : (Numbering.resolve tree).1 = .ok numbered)
    {text : String}
    (rendered : (renderTree (options.withNesting .flatten) tree).1 = .ok text) :
    flattenings (renderTree (options.withNesting .flatten) tree).2 = misnestings numbered.tree := by
  obtain ⟨opens, closes, openSilent, closeSilent, split⟩ := exists_render_eq options
  have numbers : outcome (numberTree tree) {} =
      (.ok numbered, { log := (Numbering.resolve tree).2 }) := by
    rw [outcome_numberTree, returned]
    rfl
  have quiet := (Flattens.of_silent (silent_numberTree tree) {}).of_ok numbers
  let setting : Setting := { options := options.withNesting .flatten, numbered := some numbered }
  have flattens : setting.options.nesting = .flatten := rfl
  have converts := convert_collects flattens numbered.tree Place.root 0
  have rest := Flattens.silent_bind (openSilent numbered) fun _ => converts.bind_silent closeSilent
  change (outcome (render (options.withNesting .flatten) tree) {}).1 = .ok text at rendered
  change flattenings (outcome (render (options.withNesting .flatten) tree) {}).2.log = _
  rw [split, outcome_bind_of_ok numbers] at rendered ⊢
  have reported := (rest { log := (Numbering.resolve tree).2 }).of_ok (Prod.ext rendered rfl)
  rw [reported, quiet]
  rfl

/-- Under the strict policy a misnested tree is refused, and any other gives a text. -/
theorem renderTree_strict {separator : String}
    (returned : (Numbering.resolve tree).1 = .ok numbered)
    (plain : tree.Everywhere Node.NulFree) (attributes : tree.Everywhere Node.TextAttributes)
    (separated : options.cellSeparator = some separator)
    (few : tree.codeCount ≤ 10 ^ numeralLimit) (rejects : options.nesting = .reject) :
    (Misnested tree ∧ ∃ outer inner,
        (renderTree options tree).1 = .error (.failure (.blockInSpan outer inner))) ∨
      ¬ Misnested tree ∧ ∃ text, (renderTree options tree).1 = .ok text := by
  have strict : options.withNesting .reject = options := by
    rw [Options.withNesting, ← rejects]
  have lax : (options.withNesting .flatten).cellSeparator = some separator := separated
  have none := (misnestings_eq_nil_iff_not_misnested numbered.tree).trans
    (not_congr (misnested_numbered returned))
  -- A lax rendering that returns and flattens nothing has met no block in a span.
  have fineOf {text : String}
      (rendered : (renderTree (options.withNesting .flatten) tree).1 = .ok text)
      (nothing : flattenings (renderTree (options.withNesting .flatten) tree).2 = []) :
      ¬ Misnested tree :=
    none.mp ((flattenings_renderTree returned rendered).symm.trans nothing)
  have mirrored := renderTree_mirrors options tree
  rw [strict] at mirrored
  cases first : (flattenings (renderTree (options.withNesting .flatten) tree).2).head? with
  | none =>
      rw [first] at mirrored
      have same : renderTree options tree =
          renderTree (options.withNesting .flatten) tree := mirrored
      have ended := renderTree_of_meets (render_flat returned separated (.of_reject rejects) plain
        attributes (fun absurdly : False => absurdly.elim) fun absurdly => absurdly.elim)
      cases rendered : (renderTree options tree).1 with
      | ok text =>
          exact Or.inr ⟨fineOf (same ▸ rendered) (List.head?_eq_none_iff.mp first), text, rfl⟩
      | error fault =>
          rw [rendered] at ended
          rcases ended with overfull | ⟨-, refused⟩
          · exact absurd overfull.1 (Nat.not_lt.mpr few)
          · exact absurd refused (not_isRefusal_of_flatten returned rfl (same ▸ rendered))
  | some pair =>
      rw [first] at mirrored
      refine Or.inl ⟨by_contra fun fine => ?_, _, _, mirrored⟩
      -- Otherwise the lax rendering would return, and report what it met.
      have ended := renderTree_of_meets (render_flat returned lax
        (flattensPlainly_of_not_misnested fine) plain attributes
        (fun absurdly : False => absurdly.elim) fun absurdly => absurdly.elim)
      cases rendered : (renderTree (options.withNesting .flatten) tree).1 with
      | ok text =>
          rw [flattenings_renderTree returned rendered, none.mpr fine] at first
          cases first
      | error fault =>
          rw [rendered] at ended
          exact absurd (ended.overfull rfl).1 (Nat.not_lt.mpr few)

/-- Under the strict policy a tree is refused exactly if it is misnested, and otherwise
it is rendered.  In a tree whose nodes with blocks directly inside are spans exactly if
they are formatting that is met, this is whether a block stands directly inside any
span. -/
theorem renderTree_rejects {separator : String}
    (returned : (Numbering.resolve tree).1 = .ok numbered)
    (plain : tree.Everywhere Node.NulFree) (attributes : tree.Everywhere Node.TextAttributes)
    (separated : options.cellSeparator = some separator)
    (few : tree.codeCount ≤ 10 ^ numeralLimit) (rejects : options.nesting = .reject) :
    ((∃ outer inner, (renderTree options tree).1 = .error (.failure (.blockInSpan outer inner))) ↔
        Misnested tree) ∧
      (¬ Misnested tree → ∃ text, (renderTree options tree).1 = .ok text) ∧
      ((∀ entry ∈ tree.located [], hasBlock entry.2 = true →
          (entry.2.isBlock = false ↔
            isMet tree entry.1 = true ∧ isFormatting entry.2.kind = true)) →
        ((∃ outer inner, (renderTree options tree).1 =
            .error (.failure (.blockInSpan outer inner))) ↔
          ∃ node ∈ tree.walk, node.isBlock = false ∧ hasBlock node = true)) := by
  have ended := renderTree_strict returned plain attributes separated few rejects
  have refused : (∃ outer inner,
      (renderTree options tree).1 = .error (.failure (.blockInSpan outer inner))) ↔
      Misnested tree := by
    rcases ended with ⟨misnested, stopped⟩ | ⟨fine, text, rendered⟩
    · exact iff_of_true stopped misnested
    · refine iff_of_false ?_ fine
      rintro ⟨outer, inner, stopped⟩
      rw [rendered] at stopped
      cases stopped
  refine ⟨refused, fun fine => ?_, fun told => refused.trans ?_⟩
  · exact (ended.resolve_left fun misnested => fine misnested.1).2
  · rw [Misnested, ← Node.map_snd_located tree []]
    constructor
    · rintro ⟨entry, listed, met, formatting, holds⟩
      exact ⟨entry.2, List.mem_map_of_mem listed, (told entry listed holds).mpr
        ⟨met, formatting⟩, holds⟩
    · rintro ⟨node, present, span, holds⟩
      obtain ⟨entry, listed, rfl⟩ := List.mem_map.mp present
      obtain ⟨met, formatting⟩ := (told entry listed holds).mp span
      exact ⟨entry, listed, met, formatting, holds⟩

end Renderings

/-- A paragraph in an emphasis, behind a word. -/
def emphasizedParagraph : Node :=
  note [{
    kind := .emphasis
    children := [
      { kind := .text, payload := .text "so " },
      { kind := .paragraph, children := [{ kind := .text, payload := .text "there" }] }] }]

/-- The note once numbered: nothing in it is counted. -/
def emphasizedParagraphNumbered : Numbering.Numbered where
  tree := emphasizedParagraph
  labels := []
  headings := {}
  items := {}

/-- The paragraph in the emphasis is refused. -/
theorem renderTree_rejects_emphasizedParagraph :
    (∃ node ∈ emphasizedParagraph.walk, node.isBlock = false ∧ hasBlock node = true) ∧
      ∃ outer inner, (renderTree { nesting := .reject } emphasizedParagraph).1 =
        .error (.failure (.blockInSpan outer inner)) := by
  have resolved : (Numbering.resolve emphasizedParagraph).1 = .ok emphasizedParagraphNumbered := rfl
  have bare : ∀ inner ∈ emphasizedParagraph.walk,
      inner.payload.NulFree ∧ inner.attributes = [] ∧ inner.options = [] := by decide +kernel
  have plain : emphasizedParagraph.Everywhere Node.NulFree := fun inner present =>
    nulFree_bare (bare inner present).1 (bare inner present).2.1 (bare inner present).2.2
  have attributes : emphasizedParagraph.Everywhere Node.TextAttributes := fun inner present =>
    textAttributes_bare (bare inner present).2.1
  have separated : ({ nesting := .reject } : Options).cellSeparator = some " | " := rfl
  have few : emphasizedParagraph.codeCount ≤ 10 ^ numeralLimit := Nat.zero_le _
  have spans : ∃ node ∈ emphasizedParagraph.walk, node.isBlock = false ∧ hasBlock node = true := by
    decide +kernel
  have told : ∀ entry ∈ emphasizedParagraph.located [], hasBlock entry.2 = true →
      (entry.2.isBlock = false ↔
        isMet emphasizedParagraph entry.1 = true ∧ isFormatting entry.2.kind = true) := by
    decide +kernel
  obtain ⟨-, -, refused⟩ :=
    renderTree_rejects resolved plain attributes separated few rfl
  exact ⟨spans, (refused told).mpr spans⟩

/-- A paragraph in a link. -/
def linkedParagraph : Node :=
  note [{
    kind := .link
    children := [{ kind := .paragraph, children := [{ kind := .text, payload := .text "a" }] }] }]

/-- The paragraph in the link is not refused, since the children of a link are not
converted. -/
theorem renderTree_linkedParagraph :
    (∃ node ∈ linkedParagraph.walk, node.isBlock = false ∧ hasBlock node = true) ∧
      (renderTree { nesting := .reject } linkedParagraph).1 = .ok "\n" := by
  constructor
  · decide +kernel
  · exact eq_ok_of_toOption (by decide +kernel)

end Layout
end Galley
