import Galley.Proofs.Layout.Braids
import Galley.Proofs.Layout.Transparency

/-!
# Where tags stay balanced

Lines that show nothing are dropped at the end of span text and before the text under a
bullet, with the tags on them.  A node is intact if no line is dropped there that has
one tag of a node without the other, and if no text reads as a tag.  Whether that is so
can be told from the traced text of the tree and from the way its blocks start, before
anything is laid out.
-/

namespace Galley
namespace Layout

open Marker Text

/-! ## How nodes start -/

/-- How laid out span text starts: at once, and not at all where it shows nothing. -/
def startSpan (traced : List Char) : Start :=
  if isBlankLine true traced then .none else .shown

/-- How a block that is a leaf starts. -/
def startLeaf (node : Node) : Start :=
  match node.kind with
  | .horizontalRule | .codeblock | .inlineCode => .shown
  | .rawPassthrough => Start.ofLines (lines node.payload.content.toList)
  | _ => .none

/-- How a row starts, given what its cells show and how many there are. -/
def startRow (options : Options) (shows : Bool) (count : Nat) : Start :=
  if !shows && (decide (count ≤ 1) || allBlank (options.cellSeparator.getD "").toList) then .blank
  else .shown

section Definitions

variable (options : Options) (numbered : Numbering.Numbered)

/-- How a block or code of a shape starts, given how its children do. -/
def startShape (node : Node) (place : Place) (below : Start) : Shape → Start
  | .region _ => below.append .blank
  | .hanging _ | .quote => .shown
  | .row => startRow options below.shows node.children.length
  | .math => startSpan (joinLines (tracedContent numbered node place))
  | .inline => .none
  | .leaf => startLeaf node

mutual

/-- How the lines of a node start. -/
def startOf (node : Node) (place : Place) : Start :=
  match node with
  | ⟨kind, payload, attributes, fields, children⟩ =>
      let bare : Node := ⟨kind, payload, attributes, fields, children⟩
      if bare.isBlock || kind == .inlineCode then
        startShape options numbered bare place (startBelow children bare place 0)
          (shape options bare)
      else startSpan (traced numbered bare place)
termination_by structural node

/-- How the lines of siblings start, the first of which has the given position under its
parent. -/
def startBelow (siblings : List Node) (parent : Node) (place : Place) (index : Nat) : Start :=
  match siblings with
  | [] => .none
  | child :: rest =>
      (startOf child (place.enter parent index)).append (startBelow rest parent place (index + 1))
termination_by structural siblings

end

/-- Whether the first of some siblings that shows anything does so on its first line. -/
def leadsBelow (siblings : List Node) (parent : Node) (place : Place) (index : Nat) : Bool :=
  match siblings with
  | [] => true
  | child :: rest =>
      let start := startOf options numbered child (place.enter parent index)
      start != .late && (start.shows || leadsBelow rest parent place (index + 1))

/-- Tags stay balanced at a node. -/
structure Intact (node : Node) (place : Place) : Prop where
  /-- The text of the node holds no marker. -/
  unmarked : Unmarked (ownText options numbered node place)
  /-- Span text holds no NUL, so it is not mistaken for a placeholder. -/
  nulFree : isFlowing node = true → NulFree (ownText options numbered node place)
  /-- Joining the lines of formatting makes no marker. -/
  joins : isFormatting node.kind = true →
    all (joinLines (tracedContent numbered node place)) = all (tracedContent numbered node place)
  /-- Under the lax policy formatting holds no block. -/
  spans : options.nesting = .flatten → SpansOnly node
  /-- Each run of span text shows nothing, or its last line shows something. -/
  ends : gathers options node = true ∨ node.kind = .blockquote →
    ∀ run ∈ runs (tracedBelow numbered node.children node place 0), Ends run
  /-- A bullet stands on one line. -/
  bullet : ∀ text, shape options node = .hanging text → '\n' ∉ text
  /-- Whatever comes first under a bullet and shows anything does so on its first line. -/
  leads : hangs options node = true → leadsBelow options numbered node.children node place 0 = true
  /-- Raw text on lines of its own is one line, or its last line shows something. -/
  raw : node.kind = .rawPassthrough → node.isBlock = true →
    (lines node.payload.content.toList).length = 1 ∨
      ∀ line ∈ (lines node.payload.content.toList).getLast?, isBlankLine true line = false

set_option synthInstance.maxSize 400 in
instance (node : Node) (place : Place) : Decidable (Intact options numbered node place) :=
  decidable_of_iff
    (Unmarked (ownText options numbered node place) ∧
      (isFlowing node = true → NulFree (ownText options numbered node place)) ∧
      (isFormatting node.kind = true →
        all (joinLines (tracedContent numbered node place)) =
          all (tracedContent numbered node place)) ∧
      (options.nesting = .flatten → SpansOnly node) ∧
      (gathers options node = true ∨ node.kind = .blockquote →
        ∀ run ∈ runs (tracedBelow numbered node.children node place 0), Ends run) ∧
      '\n' ∉ (shape options node).bullet ∧
      (hangs options node = true → leadsBelow options numbered node.children node place 0 = true) ∧
      (node.kind = .rawPassthrough → node.isBlock = true →
        (lines node.payload.content.toList).length = 1 ∨
          ∀ line ∈ (lines node.payload.content.toList).getLast?, isBlankLine true line = false))
    ⟨fun ⟨unmarked, nulFree, joins, spans, ends, bullet, leads, raw⟩ =>
        { unmarked, nulFree, joins, spans, ends, leads, raw
          bullet := not_mem_bullet_iff.mp bullet },
      fun intact => ⟨intact.unmarked, intact.nulFree, intact.joins, intact.spans, intact.ends,
        not_mem_bullet_iff.mpr intact.bullet, intact.leads, intact.raw⟩⟩

/-- Tags stay balanced at the nodes at and below a place. -/
def IntactFrom (placed : List (Place × Node)) : Prop :=
  ∀ entry ∈ placed, Intact options numbered entry.2 entry.1

instance (placed : List (Place × Node)) : Decidable (IntactFrom options numbered placed) :=
  inferInstanceAs (Decidable (∀ entry ∈ placed, Intact options numbered entry.2 entry.1))

@[simp] theorem startBelow_nil (parent : Node) (place : Place) (index : Nat) :
    startBelow options numbered [] parent place index = .none := rfl

@[simp] theorem startBelow_cons (child : Node) (rest : List Node) (parent : Node) (place : Place)
    (index : Nat) :
    startBelow options numbered (child :: rest) parent place index =
      (startOf options numbered child (place.enter parent index)).append
        (startBelow options numbered rest parent place (index + 1)) := rfl

theorem leadsBelow_cons (child : Node) (rest : List Node) (parent : Node) (place : Place)
    (index : Nat) :
    leadsBelow options numbered (child :: rest) parent place index = true ↔
      startOf options numbered child (place.enter parent index) ≠ .late ∧
        ((startOf options numbered child (place.enter parent index)).shows = true ∨
          leadsBelow options numbered rest parent place (index + 1) = true) := by
  simp [leadsBelow]

/-- A block or code starts by its shape. -/
theorem startOf_of_lines {node : Node} (lines : node.isBlock = true ∨ node.kind = .inlineCode)
    (place : Place) :
    startOf options numbered node place =
      startShape options numbered node place
        (startBelow options numbered node.children node place 0)
        (shape options node) := by
  obtain ⟨kind, payload, attributes, fields, children⟩ := node
  have found : (Node.isBlock ⟨kind, payload, attributes, fields, children⟩ || kind == .inlineCode) =
      true := by
    rcases lines with block | rfl
    · simp [block]
    · simp
  rw [startOf, if_pos found]

/-- Any other span starts as its text does. -/
theorem startOf_of_span {node : Node} (span : node.isBlock = false)
    (noCode : node.kind ≠ .inlineCode)
    (place : Place) :
    startOf options numbered node place = startSpan (traced numbered node place) := by
  obtain ⟨kind, payload, attributes, fields, children⟩ := node
  have other : ¬ (Node.isBlock ⟨kind, payload, attributes, fields, children⟩ ||
      kind == .inlineCode) = true := by
    have different : kind ≠ .inlineCode := noCode
    simp [span, different]
  rw [startOf, if_neg other]

end Definitions

theorem shows_startSpan (traced : List Char) :
    (startSpan traced).shows = !isBlankLine true traced := by
  unfold startSpan
  cases isBlankLine true traced <;> rfl

/-- Span text and more behind it start as the first that shows something. -/
theorem startSpan_append (front : List Char) {back : List Char} (opens : Opens back) :
    startSpan (front ++ back) = (startSpan front).append (startSpan back) := by
  unfold startSpan
  rw [isBlankLine_append front opens]
  cases isBlankLine true front <;> cases isBlankLine true back <;> rfl

/-! ## Matched span text -/

variable {options : Options} {numbered : Numbering.Numbered}

theorem IntactFrom.append {first second : List (Place × Node)}
    (intact : IntactFrom options numbered (first ++ second)) :
    IntactFrom options numbered first ∧ IntactFrom options numbered second :=
  List.forall_mem_append.mp intact

/-- A text between tags has the markers of the text between them. -/
theorem all_enclose {kind : Kind} (known : kind.isKnown = true) (text : List Char) :
    all (enclose spanClass kind.name.toList text) =
      opening spanClass kind.name.toList :: all text ++ [closing spanClass kind.name.toList] := by
  obtain ⟨opened, closed⟩ := isMarker_opening (Or.inr rfl) known
  have last := all_flatten (List.forall_mem_singleton.mpr closed)
  rw [List.flatten_singleton] at last
  rw [enclose, List.append_assoc, all_marker opened,
    (Tags.of_isMarker closed).all_append_right, last]
  rfl

/-- Traced text begins with a tag or with a sign of code. -/
theorem opens_traced {node : Node} (known : node.kind.isKnown = true) (place : Place)
    (rest : List Char) : Opens (traced numbered node place ++ rest) := by
  rw [traced_eq]
  split
  · exact opens_sign rest
  · obtain ⟨opened, -⟩ := isMarker_opening (Or.inr rfl) known
    rw [enclose, List.append_assoc, List.append_assoc]
    exact opened.opens _

theorem opens_tracedBelow {siblings : List Node}
    (known : ∀ child ∈ siblings, child.kind.isKnown = true) (parent : Node) (place : Place)
    (index : Nat) : Opens (tracedBelow numbered siblings parent place index) := by
  cases siblings with
  | nil => exact opens_nil
  | cons child rest =>
      rw [tracedBelow_cons]
      exact opens_traced (known child (by simp)) _ _

/-- The traced text of siblings is matched where that of each is. -/
theorem matched_tracedBelow {siblings : List Node}
    (known : ∀ child ∈ siblings, child.kind.isKnown = true)
    (each : ∀ child ∈ siblings, ∀ inside, IntactFrom options numbered (child.placed inside) →
      Matched (all (traced numbered child inside)))
    (parent : Node) (place : Place) (index : Nat)
    (intact : IntactFrom options numbered (Node.placedBelow siblings parent place index)) :
    Matched (all (tracedBelow numbered siblings parent place index)) := by
  induction siblings generalizing index with
  | nil => exact Matched.nil
  | cons child rest inductionHypothesis =>
      obtain ⟨here, later⟩ := intact.append
      obtain ⟨-, knownRest⟩ := List.forall_mem_cons.mp known
      obtain ⟨first, others⟩ := List.forall_mem_cons.mp each
      rw [tracedBelow_cons, all_append _ (opens_tracedBelow knownRest parent place (index + 1))]
      exact (first _ here).append (inductionHypothesis knownRest others (index + 1) later)

/-- The joined text of intact formatting is matched where that of its children is. -/
theorem matched_tracedContent {node : Node} {place : Place}
    (intact : Intact options numbered node place) (formatting : isFormatting node.kind = true)
    (below : Matched (all (tracedBelow numbered node.children node place 0))) :
    Matched (all (joinLines (tracedContent numbered node place))) := by
  rw [intact.joins formatting, tracedContent]
  split
  · rename_i childless
    have bare := all_of_unmarked intact.unmarked
    rw [ownText_of_childless childless formatting] at bare
    rw [bare]
    exact Matched.nil
  · exact below

/-- The traced text of an intact node is matched. -/
theorem matched_traced (node : Node)
    (known : node.Everywhere fun inner => inner.kind.isKnown = true) (place : Place)
    (intact : IntactFrom options numbered (node.placed place)) :
    Matched (all (traced numbered node place)) := by
  induction node using Node.induction_on_children generalizing place with
  | step node below =>
      rw [Node.placed_eq] at intact
      obtain ⟨first, later⟩ := List.forall_mem_cons.mp intact
      have here : Intact options numbered node place := first
      have bare := all_of_unmarked here.unmarked
      rw [traced_eq]
      split
      · exact Matched.nil
      · rename_i flows
        rw [Bool.or_eq_true, not_or] at flows
        have span : node.isBlock = false := by simpa using flows.1
        have noCode : node.kind ≠ .inlineCode := by simpa using flows.2
        rw [all_enclose known.here]
        refine Matched.enclose (Or.inr rfl) ?_
        split
        · rename_i formatting
          exact matched_tracedContent here formatting
            (matched_tracedBelow (fun child present => (known.below present).here)
              (fun child present => below child present (known.below present)) node place 0 later)
        · rename_i other
          have leaf : shape options node = .leaf := by
            rcases shape_of_span options span with inline | leaf
            · exact absurd (isFormatting_of_inline inline) other
            · exact leaf
          rw [ownText_of_span leaf span noCode] at bare
          rw [bare]
          exact Matched.nil

end Layout
end Galley
