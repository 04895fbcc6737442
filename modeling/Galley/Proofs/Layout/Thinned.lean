import Galley.Proofs.Layout.Blind
import Galley.Proofs.Layout.Policies
import Galley.Proofs.Layout.Rendering
import Galley.Proofs.Numbering.Thinned

/-!
# Rendering a thinned tree

Spans that show nothing leave no trace: without debugging, a tree is rendered to the
same text without them, whatever stands beside them, around them or below their
siblings, and a rendering that stops does so at the same fault.
-/

namespace Galley
namespace Layout

open Galley.Numbering (Moved NumberedAlike Numbered offset?)

variable {steps : Path → Nat → Nat} {hidden : String → Prop}

/-! ## References -/

section References

variable {thin numbered : Numbered} (alike : NumberedAlike steps hidden thin numbered)

include alike

theorem markAt?_thinned (path : Path) :
    numbered.markAt? (Path.rename steps [] path) = thin.markAt? path :=
  alike.tree.bind_at? path fun _ _ payload _ => by rw [Node.fullMark?, Node.fullMark?, payload]

theorem positionAt?_thinned (path : Path) :
    numbered.positionAt? (Path.rename steps [] path) = thin.positionAt? path := by
  unfold Numbered.positionAt?
  congr 1
  exact alike.tree.bind_at? path fun _ _ _ options => by
    rw [Node.position?, Node.position?, options]

variable (apart : ∀ base, Function.Injective (steps base))

include apart

theorem stepFrom?_thinned {table tableWas : PositionTable (Option Path) Path}
    (renamed : tableWas = table.rename (Option.map (Path.rename steps [])) (Path.rename steps []))
    (anchor : Path) (offset : Int) :
    numbered.stepFrom? tableWas (Path.rename steps [] anchor) offset =
      (thin.stepFrom? table anchor offset).map (Path.rename steps []) := by
  unfold Numbered.stepFrom?
  rw [positionAt?_thinned alike, Path.parent?_rename, renamed]
  cases thin.positionAt? anchor with
  | none => rfl
  | some position =>
      exact PositionTable.relative_rename (Numbering.scopes_injective apart) _ table _
        position offset

/-- A relative reference leads to the same node. -/
theorem relativeTarget?_thinned {place placeWas : Place} (moved : Moved steps place placeWas)
    (offset : Int) :
    numbered.relativeTarget? placeWas offset =
      (thin.relativeTarget? place offset).map (Path.rename steps []) := by
  unfold Numbered.relativeTarget?
  rw [moved.nearest?, moved.nearest?]
  cases place.nearest? [.header] with
  | some anchor => exact stepFrom?_thinned alike apart alike.headings anchor offset
  | none =>
      cases place.nearest? [.listItem] with
      | some anchor => exact stepFrom?_thinned alike apart alike.items anchor offset
      | none => rfl

/-- A reference that names nothing hidden shows the same. -/
theorem lookUp_thinned {place placeWas : Place} (moved : Moved steps place placeWas)
    {expression : String} (shown : ¬ hidden expression) :
    thin.lookUp place expression = numbered.lookUp placeWas expression := by
  unfold Numbered.lookUp
  rw [alike.labels expression shown]
  cases thin.labels.lookup expression with
  | some path =>
      rw [Option.map_some]
      dsimp only
      rw [markAt?_thinned alike]
  | none =>
      rw [Option.map_none]
      dsimp only
      cases offset? expression with
      | none => rfl
      | some offset =>
          have marks : ((thin.relativeTarget? place offset).map (Path.rename steps [])).bind
              numbered.markAt? = (thin.relativeTarget? place offset).bind thin.markAt? := by
            rw [Option.bind_map]
            congr 1
            funext path
            exact markAt?_thinned alike path
          dsimp only
          rw [relativeTarget?_thinned alike apart moved, marks]

end References

/-! ## Leaves -/

section Leaves

variable {thin node : Node} {base : Path}

/-- The shape of a node does not depend on its children. -/
theorem shape_own (own : KeepsOwn hidden thin node) (options : Options) :
    shape options thin = shape options node := by
  unfold shape headingBullet? itemBullet Node.fullMark?
  rw [own.kind, own.payload]

theorem isBlock_own (own : KeepsOwn hidden thin node) : thin.isBlock = node.isBlock := by
  unfold Node.isBlock
  rw [own.kind, own.options]

/-- A link shows the same, as nothing is taken out of it. -/
theorem linkText_thinned (thins : Thins steps hidden thin node base) (link : node.kind = .link)
    (options : Options) {numbered numberedWas : Option Numbered} :
    linkText { options := options, numbered := numbered } thin =
      linkText { options := options, numbered := numberedWas } node := by
  have own := thins.own
  have below := thins.below.whole (Or.inl link)
  have attributes : attributeText { options := options, numbered := numbered }
      (thin.attributes.getD "href" (.text "")) =
      attributeText { options := options, numbered := numberedWas }
        (node.attributes.getD "href" (.text "")) := by
    rw [own.attributes]
    rfl
  unfold linkText
  generalize thin.children = children at below ⊢
  generalize node.children = childrenWas at below ⊢
  cases below with
  | nil => exact attributes
  | cons first others =>
      rename_i child childWas _ _
      obtain ⟨kind, payload, _, _, _⟩ := child
      obtain ⟨kindWas, payloadWas, _, _, _⟩ := childWas
      obtain rfl : kind = kindWas := first.kind
      obtain rfl : payload = payloadWas := first.payload
      cases others with
      | cons second more => cases kind <;> exact attributes
      | nil =>
          cases kind with
          | text =>
              dsimp only
              split
              · rfl
              · exact attributes
          | _ => exact attributes

/-- A leaf shows the same. -/
theorem leafText_thinned (thins : Thins steps hidden thin node base) (options : Options)
    {numbered numberedWas : Numbered} (alike : NumberedAlike steps hidden numbered numberedWas)
    (apart : ∀ base, Function.Injective (steps base)) {place placeWas : Place}
    (moved : Moved steps place placeWas) (indent : Nat) :
    leafText { options := options, numbered := some numbered } thin place indent =
      leafText { options := options, numbered := some numberedWas } node placeWas indent := by
  have own := thins.own
  unfold leafText
  rw [own.kind, own.payload, own.options, isBlock_own own]
  split
  case h_6 link => exact linkText_thinned thins link options
  case h_7 =>
    unfold imageText
    rw [own.attributes]
    rfl
  case h_10 reference =>
    unfold referenceText
    dsimp only
    rw [own.payload, lookUp_thinned alike apart moved (own.reference reference)]
  case h_12 =>
    unfold issueText
    rw [own.payload, own.options]
  all_goals rfl

end Leaves

/-! ## Conversions -/

/-- A span that may be taken out shows nothing. -/
theorem convert_traceless {outer : Kind} {child : Node} (traceless : Traceless hidden outer child)
    {setting : Setting} (undebugged : setting.options.debug = false) (place : Place)
    (indent : Nat) : convert setting child place indent = pure [] := by
  have isTraceless := traceless.kind
  obtain ⟨kind, payload, attributes, options, children⟩ := child
  have plain : finish setting ⟨kind, payload, attributes, options, children⟩ [] = [] := by
    rw [finish, undebugged]
    rfl
  cases kind with
  | footnote | rawHtmlElement | xmlComment | xmlProcessingInstruction | label =>
      rw [convert_eq_bareText setting place indent rfl]
      change pure [] >>= _ = _
      rw [pure_bind, plain]
  | _ => cases isTraceless

section Conversions

variable {setting settingWas : Setting} {thin siblings : List Node} {parent parentWas : Node}
  {place placeWas : Place} {index position : Nat}

/-- A thinned tree is converted like a tree, at whatever place and indentation. -/
def ConvertsAlike (steps : Path → Nat → Nat) (hidden : String → Prop)
    (setting settingWas : Setting) (node : Node) : Prop :=
  ∀ thin place placeWas indent, Thins steps hidden thin node place.path →
    Moved steps place placeWas →
    convert setting thin place indent = convert settingWas node placeWas indent

variable (options : settingWas.options = setting.options)
  (undebugged : setting.options.debug = false) (own : KeepsOwn hidden parent parentWas)
  (each : ∀ child ∈ siblings, ConvertsAlike steps hidden setting settingWas child)
  (moved : Moved steps place placeWas)

include options undebugged own each moved

theorem flow_thinned
    (thins : ThinsBelow steps hidden thin siblings parentWas.kind place.path index position)
    (inner : Nat) (wraps : Bool) (waiting : List Char) :
    flow setting thin parent place index inner wraps waiting =
      flow settingWas siblings parentWas placeWas position inner wraps waiting := by
  have flushed (text : List Char) :
      flush setting inner wraps text = flush settingWas inner wraps text := by
    unfold flush
    rw [options]
  induction siblings generalizing thin index position waiting with
  | nil =>
      obtain ⟨rfl, -⟩ := thins
      rw [flow, flow]
      exact flushed waiting
  | cons child rest inductionHypothesis =>
      obtain ⟨here, others⟩ := List.forall_mem_cons.mp each
      rcases thins with ⟨first, remaining, rfl, step, thinsFirst, below⟩ | ⟨traceless, below⟩
      · have entered := moved.enter own.kind own.options step
        rw [← moved.path_enter parent] at thinsFirst
        rw [flow, flow, here _ _ _ _ thinsFirst entered, thinsFirst.own.kind, Node.isSpan,
          Node.isSpan,
          isBlock_own thinsFirst.own]
        congr 1
        funext text
        split
        · congr 1
          funext stand
          exact inductionHypothesis others below _
        · split
          · exact inductionHypothesis others below _
          · rw [flushed, inductionHypothesis others below]
      · rw [inductionHypothesis others below, flow_cons_of_span traceless.span, spanPiece]
        have noCode : (child.kind == .inlineCode) = false :=
          beq_false_of_ne (traceless.kind_ne rfl)
        simp only [noCode, Bool.false_eq_true, if_false]
        rw [convert_traceless traceless (options ▸ undebugged), pure_bind, List.append_nil]

theorem convertInline_thinned
    (thins : ThinsBelow steps hidden thin siblings parentWas.kind place.path index position)
    (indent : Nat) :
    convertInline setting thin parent place index indent =
      convertInline settingWas siblings parentWas placeWas position indent := by
  induction siblings generalizing thin index position with
  | nil =>
      obtain ⟨rfl, -⟩ := thins
      rfl
  | cons child rest inductionHypothesis =>
      obtain ⟨here, others⟩ := List.forall_mem_cons.mp each
      rcases thins with ⟨first, remaining, rfl, step, thinsFirst, below⟩ | ⟨traceless, below⟩
      · have entered := moved.enter own.kind own.options step
        rw [← moved.path_enter parent] at thinsFirst
        rw [convertInline_cons, convertInline_cons, inductionHypothesis others below]
        unfold inlinePiece
        rw [here _ _ _ _ thinsFirst entered, here _ _ _ _ thinsFirst entered, thinsFirst.own.kind,
          isBlock_own thinsFirst.own, own.kind, options]
      · rw [inductionHypothesis others below, convertInline_cons,
          inlinePiece_of_span traceless.span,
          spanPiece]
        have noCode : (child.kind == .inlineCode) = false :=
          beq_false_of_ne (traceless.kind_ne rfl)
        simp only [noCode, Bool.false_eq_true, if_false]
        rw [convert_traceless traceless (options ▸ undebugged), pure_bind]
        simp

omit options undebugged in
theorem convertCells_thinned
    (thins : ThinsBelow steps hidden thin siblings parentWas.kind place.path index position)
    (row : parentWas.kind = .tableRow) :
    convertCells setting thin parent place index =
      convertCells settingWas siblings parentWas placeWas position := by
  induction siblings generalizing thin index position with
  | nil =>
      obtain ⟨rfl, -⟩ := thins
      rfl
  | cons child rest inductionHypothesis =>
      obtain ⟨here, others⟩ := List.forall_mem_cons.mp each
      rcases thins with ⟨first, remaining, rfl, step, thinsFirst, below⟩ | ⟨traceless, -⟩
      · have entered := moved.enter own.kind own.options step
        rw [← moved.path_enter parent] at thinsFirst
        rw [convertCells, convertCells, here _ _ _ _ thinsFirst entered,
          inductionHypothesis others below]
      · exact absurd row traceless.noRow

end Conversions

/-- The text of formatting is that of its children or its own, and a value that shows
something is not uncovered by taking out children. -/
theorem content_thinned {setting settingWas : Setting} {thin node : Node} {place placeWas : Place}
    {indent : Nat} (own : KeepsOwn hidden thin node) (formatting : isFormatting node.kind = true)
    (spans : convertInline setting thin.children thin place 0 indent =
      convertInline settingWas node.children node placeWas 0 indent)
    (bare : node.children = [] → thin.children = []) (finishing : List Char → Render (List Char)) :
    (do
      let content ← convertInline setting thin.children thin place 0 indent
      finishing (if thin.children.isEmpty then thin.payload.content.toList else content)) =
    (do
      let content ← convertInline settingWas node.children node placeWas 0 indent
      finishing (if node.children.isEmpty then node.payload.content.toList else content)) := by
  rw [← spans, own.payload]
  by_cases shown : node.payload.content = ""
  · by_cases empty : thin.children = []
    · have nothing : "".toList = [] := rfl
      rw [empty, convertInline, pure_bind, pure_bind, shown, nothing, ite_self, ite_self]
    · have filled : node.children ≠ [] := fun emptyWas => empty (bare emptyWas)
      simp only [List.isEmpty_iff, empty, filled]
  · rw [own.value formatting shown]

/-- By induction on the tree, a thinned tree is converted like the tree. -/
theorem convert_thinned {options : Options} (undebugged : options.debug = false)
    {numbered numberedWas : Numbered} (alike : NumberedAlike steps hidden numbered numberedWas)
    (apart : ∀ base, Function.Injective (steps base)) (node : Node) :
    ConvertsAlike steps hidden { options := options, numbered := some numbered }
      { options := options, numbered := some numberedWas } node := by
  induction node using Node.induction_on_children with
  | step node each =>
      intro thin place placeWas indent thins moved
      have own := thins.own
      have below := thins.below
      have wraps : wrapsAt thin place = wrapsAt node placeWas := by
        rw [wrapsAt, wrapsAt, own.kind, moved.within]
      have same : (Setting.mk options (some numberedWas)).options =
          (Setting.mk options (some numbered)).options := rfl
      have framed (inner : Nat) := flow_thinned same undebugged own each moved below inner
        (wrapsAt node placeWas) []
      have spans := convertInline_thinned same undebugged own each moved below indent
      have bare (empty : node.children = []) : thin.children = [] := by
        rw [empty] at below
        exact below.1
      cases known : node.kind.isKnown with
      | false =>
          rw [convert_of_unknown _ place indent (own.kind ▸ known),
            convert_of_unknown _ placeWas indent known, own.kind]
      | true =>
          have plain (numbered : Option Numbered) (node : Node) (text : List Char) :
              finish { options := options, numbered := numbered } node text = text := by
            rw [finish, undebugged]
            rfl
          rw [convert_eq_bareText _ place indent (own.kind ▸ known),
            convert_eq_bareText _ placeWas indent known]
          simp only [plain, bind_pure]
          unfold bareText
          rw [shape_own own, wraps]
          dsimp only
          cases shaped : shape options node with
          | region extra =>
              dsimp only
              rw [framed]
          | hanging bullet =>
              dsimp only
              rw [framed]
          | quote =>
              dsimp only
              rw [framed]
          | row =>
              dsimp only
              rw [convertCells_thinned own each moved below (kind_of_row shaped)]
          | inline =>
              exact content_thinned own (isFormatting_of_inline (Or.inl shaped)) spans
                bare fun text =>
                pure (joinLines text)
          | math =>
              dsimp only
              rw [isBlock_own own]
              exact content_thinned own (isFormatting_of_inline (Or.inr shaped)) spans
                bare fun text =>

                if node.isBlock then
                  flush { options := options, numbered := some numbered } indent false
                    (joinLines text)
                else pure (joinLines text)
          | leaf => exact leafText_thinned thins options alike apart moved indent

/-! ## Renderings -/

theorem numberTree_thinned {thin node : Node} (apart : ∀ base, Function.Injective (steps base))
    (thins : Thins steps hidden thin node []) (workspace workspaceWas : Workspace) :
    Retraces Unexcused (numberTree thin) (numberTree node) workspace workspaceWas
      fun numbered numberedWas _ _ => NumberedAlike steps hidden numbered numberedWas := by
  have alike := Numbering.resolve_renamed apart thins
  unfold numberTree
  rcases resolved : Numbering.resolve thin with ⟨result, events⟩
  rcases resolvedWas : Numbering.resolve node with ⟨resultWas, eventsWas⟩
  rw [resolved, resolvedWas] at alike
  exact Retraces.change_bind (Retraces.lift alike)

/-- Without debugging, a thinned tree is rendered like the tree. -/
theorem renderTree_thinned {options : Options} (undebugged : options.debug = false)
    (apart : ∀ base, Function.Injective (steps base)) {thin node : Node}
    (thins : Thins steps hidden thin node []) :
    (renderTree options thin).1 = (renderTree options node).1 := by
  have rendered : Retraces Unexcused (render options thin) (render options node) {} {}
      fun text textWas _ _ => text = textWas := by
    unfold render
    refine Retraces.bind (numberTree_thinned apart thins _ _) ?_
    intro numbered numberedWas after afterWas alike
    simp only [undebugged, Bool.false_eq_true, if_false]
    refine Retraces.change_bind ?_
    rw [convert_thinned undebugged alike apart numberedWas.tree numbered.tree Place.root
      Place.root 0
      alike.tree Moved.root]
    refine Retraces.bind (blind_convert _ numberedWas.tree Place.root 0 _ _ rfl) ?_
    rintro text _ ended endedWas ⟨rfl, -⟩
    exact Retraces.change_bind (Retraces.give rfl)
  exact Retraces.eq_of_resultsAlike rendered.results

/-- No reference of a tree holds a name. -/
def Unnamed (tree : Node) (name : String) : Prop :=
  ∀ reference ∈ tree.walk, reference.kind = .reference → reference.payload.content ≠ name

/-- A suppressed span leaves no trace.  It is a footnote, raw markup or a label that no
reference names; it has no children, and it stands neither in a link nor in a row, nor
alone in formatting that has a value of its own.  Without debugging, a tree is rendered
in the same way without it: to the same text, or up to the same fault. -/
theorem renderTree_without {options : Options} (undebugged : options.debug = false)
    {tree parent node : Node} {path : Path} {index : Nat}
    (reached : tree.at? path = some parent) (found : parent.children[index]? = some node)
    (childless : node.children = []) (span : node.isBlock = false)
    (suppressed : node.kind = .footnote ∨ node.kind = .rawHtmlElement ∨ node.kind = .xmlComment ∨
      node.kind = .xmlProcessingInstruction ∨
      node.kind = .label ∧ (node.payload.isTruthy = true → Unnamed tree node.payload.display))
    (noLink : parent.kind ≠ .link) (noRow : parent.kind ≠ .tableRow)
    (value : isFormatting parent.kind = true → parent.payload.content ≠ "" →
      parent.children ≠ [node]) :
    (renderTree options (tree.without (path ++ [index]))).1 = (renderTree options tree).1 := by
  have unhidden : Unhidden (Unnamed tree) tree :=
    fun inner present reference unnamed => unnamed inner present reference rfl
  have traceless : Traceless (Unnamed tree) parent.kind node := by
    refine ⟨?_, span, childless, fun label => ?_, noLink, noRow⟩
    · rcases suppressed with kind | kind | kind | kind | ⟨kind, -⟩ <;> rw [kind] <;> rfl
    · rw [label] at suppressed
      simpa using suppressed
  have thins : Thins (stepsOver ([] ++ path) index) (Unnamed tree) (tree.without (path ++ [index]))
      tree [] :=
    thins_without reached found traceless value unhidden
  exact renderTree_thinned undebugged (stepsOver_injective _ index) thins

/-- Two headings; the first starts with a label that nothing names and refers to the
second. -/
def remarked : Node where
  kind := .root
  children := [
    { kind := .header
      payload := .heading { level := .one }
      children := [
        { kind := .label, payload := .text "start" },
        { kind := .text, payload := .text " see " },
        { kind := .reference, payload := .text "+" }] },
    { kind := .header
      payload := .heading { level := .one }
      children := [{ kind := .text, payload := .text "End" }] }]

/-- The label leaves no trace; the reference still leads to the second heading. -/
theorem renderTree_without_remarked :
    (renderTree {} remarked).1 = .ok "1) see (2)\n2) End\n" ∧
      (renderTree {} (remarked.without [0, 0])).1 = .ok "1) see (2)\n2) End\n" := by
  have rendered : (renderTree {} remarked).1 = .ok "1) see (2)\n2) End\n" :=
    eq_ok_of_toOption (by decide +kernel)
  have unnamed : Unnamed remarked "start" := by
    unfold Unnamed
    decide +kernel
  have reached : remarked.at? [0] = some (remarked.children.get ⟨0, by decide⟩) := rfl
  refine ⟨rendered, ?_⟩
  rw [← rendered]
  exact renderTree_without rfl reached rfl rfl rfl
    (Or.inr (Or.inr (Or.inr (Or.inr ⟨rfl, fun _ => unnamed⟩)))) nofun nofun nofun

end Layout
end Galley
