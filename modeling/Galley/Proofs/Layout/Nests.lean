import Galley.Proofs.Layout.Faithful

/-!
# Text, code and formatting in each other

The children of a block that are text, code and formatting, nested to any depth, are one
strand: their codes and the runs of text between them in document order, where
formatting joins the lines of its runs.  The body of the block is the layout of that
strand, whatever code is held before.
-/

namespace Galley
namespace Layout

open Text

/-- Text, code and formatting with children, in each other. -/
inductive Nest : Node → Prop
  /-- Text. -/
  | text {node : Node} : node.kind = .text → Nest node
  /-- Code. -/
  | code {node : Node} : node.kind = .inlineCode → Nest node
  /-- Formatting around nests. -/
  | formatting {node : Node} : isFormatting node.kind = true → node.isBlock = false →
      node.children ≠ [] → (∀ child ∈ node.children, Nest child) → Nest node

mutual

/-- The codes of a nest with the runs of text between them. -/
def flattened (node : Node) : Strand :=
  match node with
  | ⟨.text, payload, _, _, _⟩ => .run payload.content.toList
  | ⟨.inlineCode, payload, _, _, _⟩ => .ofCode payload.content.toList
  | ⟨_, _, _, _, children⟩ => (flattenedBelow children).join
termination_by structural node

/-- The codes of nests side by side with the runs of text between them. -/
def flattenedBelow (siblings : List Node) : Strand :=
  match siblings with
  | [] => .run []
  | child :: rest => (flattened child).append (flattenedBelow rest)
termination_by structural siblings

end

@[simp] theorem flattenedBelow_nil : flattenedBelow [] = .run [] := rfl

@[simp] theorem flattenedBelow_cons (child : Node) (rest : List Node) :
    flattenedBelow (child :: rest) = (flattened child).append (flattenedBelow rest) := rfl

theorem flattened_of_formatting {node : Node} (formatting : isFormatting node.kind = true) :
    flattened node = (flattenedBelow node.children).join := by
  obtain ⟨kind, payload, attributes, options, children⟩ := node
  cases kind with
  | emphasis => rfl
  | strong => rfl
  | entity => rfl
  | abbreviation => rfl
  | math => rfl
  | _ => cases formatting

theorem Nest.isBlock {node : Node} (nest : Nest node) : node.isBlock = false := by
  cases nest with
  | text kind => simp [Node.isBlock, kind, Kind.placement]
  | code kind => simp [Node.isBlock, kind, Kind.placement]
  | formatting _ span _ _ => exact span

theorem shape_of_formatting {options : Options} {node : Node}
    (formatting : isFormatting node.kind = true) :
    shape options node = .inline ∨ shape options node = .math := by
  obtain ⟨kind, payload, attributes, fields, children⟩ := node
  cases kind with
  | emphasis => exact Or.inl rfl
  | strong => exact Or.inl rfl
  | entity => exact Or.inl rfl
  | abbreviation => exact Or.inl rfl
  | math => exact Or.inr rfl
  | _ => cases formatting

/-- The codes of a walk, in document order. -/
def codesAmong (nodes : List Node) : List (List Char) :=
  (nodes.filter fun inner => inner.kind == .inlineCode).map (·.payload.content.toList)

@[simp] theorem codesAmong_append (first second : List Node) :
    codesAmong (first ++ second) = codesAmong first ++ codesAmong second := by
  simp [codesAmong]

/-- Siblings whose codes stand in their strands have their codes in the strand side by
side. -/
theorem codes_flattenedBelow {siblings : List Node}
    (each : ∀ child ∈ siblings, (flattened child).codes = codesAmong child.walk) :
    (flattenedBelow siblings).codes = codesAmong (siblings.flatMap Node.walk) := by
  induction siblings with
  | nil => rfl
  | cons child rest inductionHypothesis =>
      rw [flattenedBelow_cons, Strand.codes_append, List.flatMap_cons, codesAmong_append,
        each child (by simp),
        inductionHypothesis fun other present => each other (List.mem_cons_of_mem child present)]

/-- Every code of a nest stands in its strand once, in document order. -/
theorem Nest.codes_flattened {node : Node} (nest : Nest node)
    (leaves : node.Everywhere fun inner => isFormatting inner.kind = false → inner.children = []) :
    (flattened node).codes = codesAmong node.walk := by
  induction nest with
  | @text node kind =>
      have none := leaves.here (by rw [kind]; rfl)
      obtain ⟨_, payload, attributes, options, children⟩ := node
      cases kind
      cases none
      rfl
  | @code node kind =>
      have none := leaves.here (by rw [kind]; rfl)
      obtain ⟨_, payload, attributes, options, children⟩ := node
      cases kind
      cases none
      rfl
  | @formatting node kind _ _ _ inductionHypothesis =>
      have noCode : (node.kind == .inlineCode) = false := by
        cases found : node.kind with
        | inlineCode =>
            rw [found] at kind
            cases kind
        | _ => rfl
      rw [flattened_of_formatting kind, Strand.codes_join,
        codes_flattenedBelow fun child present =>
          inductionHypothesis child present (leaves.below present),
        Node.walk_eq, codesAmong, codesAmong, List.filter_cons_of_neg (by simp [noCode])]

variable {setting : Setting}

/-- Siblings whose strands are known mean these strands side by side. -/
theorem strandBelow_of_flattened {siblings : List Node}
    (spans : ∀ child ∈ siblings, child.isBlock = false)
    (strands : ∀ child ∈ siblings, ∀ place, strandOf setting child place = .ok (flattened child))
    (parent : Node) (place : Place) (index : Nat) :
    strandBelow setting siblings parent place index = .ok (flattenedBelow siblings) := by
  induction siblings generalizing index with
  | nil => rfl
  | cons child rest inductionHypothesis =>
      rw [strandBelow_cons, pieceOf, if_neg (by simp [spans child]), strands child (by simp),
        inductionHypothesis (fun other present => spans other (List.mem_cons_of_mem child present))
          (fun other present => strands other (List.mem_cons_of_mem child present))]
      rfl

/-- The meaning of a nest is its strand. -/
theorem Nest.strandOf_eq {node : Node} (nest : Nest node) (place : Place) :
    strandOf setting node place = .ok (flattened node) := by
  induction nest generalizing place with
  | @text node kind =>
      obtain ⟨_, payload, attributes, options, children⟩ := node
      cases kind
      rfl
  | @code node kind =>
      obtain ⟨_, payload, attributes, options, children⟩ := node
      cases kind
      rfl
  | @formatting node kind _ some below inductionHypothesis =>
      rw [strandOf_of_inline (shape_of_formatting kind), flattened_of_formatting kind,
        strandBelow_of_flattened (fun child present => (below child present).isBlock)
          (fun child present => inductionHypothesis child present)]
      have filled : node.children.isEmpty = false := by simpa using some
      simp only [filled, Bool.false_eq_true, if_false]
      rfl

/-- Nests side by side are laid out as one strand. -/
theorem layoutBelow_of_nest {siblings : List Node} (nests : ∀ child ∈ siblings, Nest child)
    (parent : Node) (place : Place) (index inner : Nat) (wraps : Bool) (waiting : Strand) :
    layoutBelow setting siblings parent place index inner wraps waiting =
      .ok ((waiting.append (flattenedBelow siblings)).laid setting.options inner wraps) := by
  induction siblings generalizing index waiting with
  | nil => rw [layoutBelow, flattenedBelow_nil, Strand.append_nil]
  | cons child rest inductionHypothesis =>
      have nest := nests child (by simp)
      rw [layoutBelow, if_neg (by simp [nest.isBlock]), nest.strandOf_eq, flattenedBelow_cons,
        ← Strand.append_assoc]
      exact inductionHypothesis (fun other present => nests other
        (List.mem_cons_of_mem child present))
        (index + 1) (waiting.append (flattened child))

/-- Formatting has no cells and looks nothing up. -/
theorem settled_of_formatting {node : Node} (plain : node.NulFree)
    (formatting : isFormatting node.kind = true) : Settled setting node where
  nulFree := plain
  cells row := by rw [row] at formatting; cases formatting
  tables reference := by rw [reference] at formatting; cases formatting

/-- A nest is no row. -/
theorem Nest.kind_ne_row {node : Node} (nest : Nest node) : node.kind ≠ .tableRow := by
  cases nest with
  | text kind => simp [kind]
  | code kind => simp [kind]
  | formatting kind _ _ _ =>
      intro row
      rw [row] at kind
      cases kind

/-- All that a conversion meets in a nest are nests. -/
theorem Nest.met {node : Node} (nest : Nest node) : Met Nest node := by
  induction nest with
  | text kind => exact met_iff.mpr ⟨.text kind, fun walked => by rw [kind] at walked; cases walked⟩
  | code kind => exact met_iff.mpr ⟨.code kind, fun walked => by rw [kind] at walked; cases walked⟩
  | formatting kind span some below inductionHypothesis =>
      exact met_iff.mpr ⟨.formatting kind span some below, fun _ => inductionHypothesis⟩

theorem Nest.plainRows {options : Options} {node : Node} (nest : Nest node) :
    Met (PlainRow options) node :=
  nest.met.imp fun _ inner row => absurd row inner.kind_ne_row

theorem Nest.flattensPlainly {options : Options} {node : Node} (nest : Nest node) :
    FlattensPlainly options node :=
  fun _ => nest.met.imp fun _ inner _ => inner.plainRows

/-- The conversion of a nest is a thread of its strand. -/
theorem Nest.realized (undebugged : setting.options.debug = false) {bound : Nat} {node : Node}
    (nest : Nest node) (plain : node.Everywhere Node.NulFree) : Realized bound setting node := by
  refine ⟨?_, fun place indent before few block => ?_⟩
  · induction nest with
    | @text node kind =>
        intro place indent before few span noCode
        have content : NulFree node.payload.content.toList :=
          Payload.nulFree_content plain.here.payload
        have known : node.kind.isKnown = true := by rw [kind]; rfl
        rw [convert_of_bareText undebugged known, Nest.strandOf_eq (.text kind)]
        obtain ⟨_, payload, attributes, options, children⟩ := node
        cases kind
        exact Realizes.give ⟨Grows.of_held rfl, Threads.run content⟩
    | code kind => exact fun place indent before few span noCode => absurd kind noCode
    | @formatting node kind isSpan some below inductionHypothesis =>
        intro place indent before few span noCode
        have known : node.kind.isKnown = true := by
          cases found : node.kind with
          | foreign name =>
              rw [found] at kind
              cases kind
          | _ => rfl
        rw [convert_of_bareText undebugged known]
        refine bareText_realizes_strand undebugged (settled_of_formatting plain.here kind)
          (Nest.flattensPlainly (.formatting kind isSpan some below)) known
          (fun child present => (plain.below present).here)
          (fun _ child present => ⟨(plain.below present).here, ?_⟩) span noCode place indent few
        refine ⟨inductionHypothesis child present (plain.below present),
          fun place indent before few block => ?_⟩
        rw [(below child present).isBlock] at block
        cases block
  · rw [nest.isBlock] at block
    cases block

/-- A frame is that of a kind that is known. -/
theorem known_of_frame {node : Node} {indent : Nat} {frame : Frame}
    (framed : frame? setting.options node indent = some frame) : node.kind.isKnown = true := by
  obtain ⟨kind, payload, attributes, options, children⟩ := node
  cases kind with
  | foreign name => cases framed
  | _ => rfl

/-- Held code comes back: whatever code is held before, the body of a block of nests is
the layout of their strand, in which each run that shows something fills a region and
each code stands between its rules, and the text of the block is made of that body.  No
placeholder is left, and the codes of the strand are those of the tree, each once and in
document order. -/
theorem flow_flattened (undebugged : setting.options.debug = false) {node : Node} {indent : Nat}
    {frame : Frame} (framed : frame? setting.options node indent = some frame)
    (nests : ∀ child ∈ node.children, Nest child) (plain : node.Everywhere Node.NulFree)
    (place : Place) (before : Workspace) :
    let body := (flattenedBelow node.children).laid setting.options frame.inner (wrapsAt node place)
    let refused := Overfull (before.held.length + node.codeCount)
    Meets (flow setting node.children node place 0 frame.inner (wrapsAt node place) [])
      before refused
        (fun text _ => text = body ∧ NulFree text) ∧
      Meets (convert setting node place indent) before refused
        (fun text _ => text = frame.close body) ∧
      ((∀ child ∈ node.children, child.Everywhere fun inner =>
          isFormatting inner.kind = false → inner.children = []) →
        (flattenedBelow node.children).codes = codesAmong (node.children.flatMap Node.walk)) := by
  intro body refused
  have each (child : Node) (present : child ∈ node.children) :
      child.NulFree ∧ Realized (before.held.length + node.codeCount) setting child :=
    ⟨(plain.below present).here, (nests child present).realized undebugged (plain.below present)⟩
  have rows (_ : True) (child : Node) (present : child ∈ node.children) :
      Met (PlainRow setting.options) child := (nests child present).plainRows
  have few := Nat.add_le_add_left (codeCountBelow_le node) before.held.length
  have flowed := flow_realizes undebugged each rows node place 0 frame.inner
      (wrapsAt node place) few
    (Threads.run nulFree_nil)
  rw [layoutBelow_of_nest nests, Strand.append, Strand.prepend_nil] at flowed
  have meets : Meets (flow setting node.children node place 0 frame.inner (wrapsAt node place) [])
      before refused fun text _ => text = body ∧ NulFree text := by
    refine flowed.meets.imp ?_
    rintro text after ⟨-, rfl, textPlain⟩
    exact ⟨rfl, textPlain trivial⟩
  refine ⟨meets, ?_, fun leaves => codes_flattenedBelow fun child present =>
    (nests child present).codes_flattened (leaves child present)⟩
  rw [convert_of_bareText undebugged (known_of_frame framed), bareText_of_frame undebugged framed]
  refine Meets.bind meets ?_
  rintro text after ⟨rfl, -⟩
  exact Meets.give rfl

/-- An item with code inside its formatting. -/
def codeItem : Node :=
  { kind := .listItem
    children := [
      { kind := .text, payload := .text "see" },
      { kind := .strong
        children := [
          { kind := .text, payload := .text " the\n   long " },
          { kind := .inlineCode, payload := .text "x  y\n z" },
          { kind := .emphasis, children := [{ kind := .text, payload := .text " name" }] }] },
      { kind := .text, payload := .text " of it" }] }

theorem nest_codeItem : ∀ child ∈ codeItem.children, Nest child := by
  have text (value : String) : Nest { kind := .text, payload := .text value } := .text rfl
  have emphasis :
      Nest { kind := .emphasis, children := [{ kind := .text, payload := .text " name" }] } :=
    .formatting rfl rfl (by simp) (by simpa using text " name")
  have strong : Nest (codeItem.children[1]) :=
    .formatting rfl rfl (by simp [codeItem]) (by
      simpa [codeItem] using ⟨text " the\n   long ", .code rfl, emphasis⟩)
  simpa [codeItem] using ⟨text "see", strong, text " of it"⟩

theorem nulFree_codeItem : codeItem.Everywhere Node.NulFree := by
  have bare : ∀ inner ∈ codeItem.walk,
      inner.payload.NulFree ∧ inner.attributes = [] ∧ inner.options = [] := by decide +kernel
  exact fun inner present =>
    nulFree_bare (bare inner present).1 (bare inner present).2.1 (bare inner present).2.2

/-- The body of the item. -/
def codeItemBody : List Char :=
  "    see\n    thelong\n    ---\n    x  y\n     z\n    ---\n    name of it\n".toList

/-- The code of the item stands on lines of its own, with other code held before. -/
theorem flow_flattened_codeItem :
    Meets (flow { options := { maxColumn := 14, ruleWidth := 3 } } codeItem.children codeItem
        Place.alone 0 4 true []) { held := ["old".toList] } (Overfull 2)
        (fun text _ => text = codeItemBody ∧ NulFree text) ∧
      Meets (convert { options := { maxColumn := 14, ruleWidth := 3 } } codeItem Place.alone 2)
        { held := ["old".toList] } (Overfull 2)
        (fun text _ => text = "  * ".toList ++ codeItemBody.drop 4) ∧
      (flattenedBelow codeItem.children).codes = ["x  y\n z".toList] := by
  let options : Options := { maxColumn := 14, ruleWidth := 3 }
  obtain ⟨frame, framed, inner, close⟩ : ∃ frame, frame? options codeItem 2 = some frame ∧
      frame.inner = 4 ∧ frame.close codeItemBody = "  * ".toList ++ codeItemBody.drop 4 :=
    ⟨_, rfl, rfl, by decide +kernel⟩
  have laid : (flattenedBelow codeItem.children).laid options 4 true = codeItemBody := by
    decide +kernel
  have wraps : wrapsAt codeItem Place.alone = true := rfl
  have undebugged : ({ options := options } : Setting).options.debug = false := rfl
  have leaves : ∀ child ∈ codeItem.children, ∀ inner ∈ child.walk,
      isFormatting inner.kind = false → inner.children = [] := by decide +kernel
  obtain ⟨flowed, converted, codes⟩ := flow_flattened undebugged framed nest_codeItem
    nulFree_codeItem Place.alone { held := ["old".toList] }
  simp only [inner, wraps, laid, close] at flowed converted
  exact ⟨flowed, converted, (codes leaves).trans (by decide +kernel)⟩

end Layout
end Galley
