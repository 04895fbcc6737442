import Galley.Proofs.Layout.Faithful
import Galley.Proofs.Layout.Rendering
import Galley.Proofs.Layout.Sites
import Galley.Proofs.Numbering.Stability

/-!
# Verbatim passages

Code that stands as a block passes through the layout untouched.  Blocks around it put
text before and behind it, cut blanks off at the end and take blanks away at the start;
since a passage starts and ends with a dash, none of this reaches into it.
-/

namespace Galley
namespace Layout

open Text

/-! ## Pieces of a text -/

/-- The pieces stand in the text one behind the other, each in one stretch. -/
def Carries : List (List Char) → List Char → Prop
  | [], _ => True
  | piece :: rest, text => ∃ front back, text = front ++ piece ++ back ∧ Carries rest back

/-- A piece starts with a character that is not blank and ends with such a character and
a newline. -/
structure Walled (piece : List Char) : Prop where
  /-- The first character is not blank. -/
  start : ∃ first rest, piece = first :: rest ∧ isBlank first = false
  /-- Neither is the one before the newline at the end. -/
  stop : ∃ front last, piece = front ++ [last] ++ ['\n'] ∧ isBlank last = false

namespace Carries

variable {pieces others : List (List Char)} {text rest : List Char}

theorem before (carries : Carries pieces text) (front : List Char) :
    Carries pieces (front ++ text) := by
  cases pieces with
  | nil => trivial
  | cons piece others =>
      obtain ⟨lead, back, rfl, behind⟩ := carries
      exact ⟨front ++ lead, back, by simp only [List.append_assoc], behind⟩

theorem append (first : Carries pieces text) (second : Carries others rest) :
    Carries (pieces ++ others) (text ++ rest) := by
  induction pieces generalizing text with
  | nil => exact second.before text
  | cons piece pieces inductionHypothesis =>
      obtain ⟨front, back, rfl, behind⟩ := first
      exact ⟨front, back ++ rest, by simp only [List.append_assoc], inductionHypothesis behind⟩

theorem behind (carries : Carries pieces text) (back : List Char) :
    Carries pieces (text ++ back) := by
  have none : Carries [] back := trivial
  have both := carries.append none
  rwa [List.append_nil] at both

/-- Blanks carry no piece that shows something. -/
theorem eq_nil_of_blank (carries : Carries pieces text) (walled : ∀ piece ∈ pieces, Walled piece)
    (blank : allBlank text = true) : pieces = [] := by
  cases pieces with
  | nil => rfl
  | cons piece others =>
      obtain ⟨front, back, rfl, -⟩ := carries
      obtain ⟨first, tail, rfl, shown⟩ := (walled piece (by simp)).start
      simp [allBlank, shown] at blank

/-- Blanks before the first piece may be taken away. -/
theorem of_blank_append {lead : List Char} (carries : Carries pieces (lead ++ text))
    (walled : ∀ piece ∈ pieces, Walled piece) (blank : allBlank lead = true) :
    Carries pieces text := by
  cases pieces with
  | nil => trivial
  | cons piece others =>
      obtain ⟨front, back, parts, behind⟩ := carries
      rw [List.append_assoc] at parts
      rcases List.append_eq_append_iff.mp parts with ⟨more, rfl, rfl⟩ | ⟨more, rfl, within⟩
      · exact ⟨more, back, by simp, behind⟩
      · -- The piece would start among the blanks, unless none of them are left.
        obtain ⟨first, tail, rfl, shown⟩ := (walled piece (by simp)).start
        cases more with
        | nil => exact ⟨[], back, by simpa using within.symm, behind⟩
        | cons character others =>
            obtain ⟨rfl, -⟩ := List.cons.inj within
            simp [allBlank, shown] at blank

/-- Trimming the end of a text leaves its pieces, once the last line is closed again. -/
theorem trimEnd (carries : Carries pieces text) (walled : ∀ piece ∈ pieces, Walled piece) :
    Carries pieces (Text.trimEnd text ++ ['\n']) := by
  induction pieces generalizing text with
  | nil => trivial
  | cons piece others inductionHypothesis =>
      obtain ⟨front, back, rfl, behind⟩ := carries
      obtain ⟨here, walledOthers⟩ := List.forall_mem_cons.mp walled
      cases shown : allBlank back with
      | false =>
          rw [trimEnd_append_of_shown _ shown]
          exact ⟨front, Text.trimEnd back ++ ['\n'], by simp only [List.append_assoc],
            inductionHypothesis behind walledOthers⟩
      | true =>
          obtain rfl := behind.eq_nil_of_blank walledOthers shown
          obtain ⟨inside, last, rfl, visible⟩ := here.stop
          have newline : allBlank ['\n'] = true := by decide
          have kept : Text.trimEnd (front ++ inside ++ [last]) = front ++ inside ++ [last] :=
            dropEndWhile_of_last (front ++ inside) visible (by simp)
          rw [trimEnd_append_of_blank _ shown, ← List.append_assoc, ← List.append_assoc,
            trimEnd_append_of_blank _ newline, kept]
          exact ⟨front, [], by simp, trivial⟩

/-- Hanging a text under a bullet leaves its pieces. -/
theorem hang (carries : Carries pieces text) (walled : ∀ piece ∈ pieces, Walled piece)
    (bullet : List Char) (indent inner : Nat) :
    Carries pieces (Layout.hang false bullet indent inner text) := by
  obtain ⟨lead, gap, rest, rfl, lost, -, hung⟩ := exists_hang false bullet indent inner text
  rw [hung]
  exact (carries.of_blank_append walled (ink_eq_nil_iff.mp (lost.blank rfl))).before _

/-- What is made of the body of a block carries the pieces of the body. -/
theorem close {options : Options} {node : Node} {indent : Nat} {frame : Frame}
    (carries : Carries pieces text) (walled : ∀ piece ∈ pieces, Walled piece)
    (framed : frame? options node indent = some frame) : Carries pieces (frame.close text) := by
  rcases frame_cases framed with ⟨extra, -, rfl⟩ | ⟨bullet, -, rfl⟩ | ⟨-, rfl⟩
  · have trimmed := carries.trimEnd walled
    rwa [← trimTail_false] at trimmed
  · have trimmed :=
      (carries.hang walled bullet indent (indent + Columns.ofText bullet + 1)).trimEnd walled
    rwa [← trimTail_false] at trimmed
  · have trimmed := carries.trimEnd walled
    rw [← trimTail_false] at trimmed
    have quoted := (trimmed.before (rule options.ruleWidth indent ++ ['\n'])).behind
      (rule options.ruleWidth indent ++ ['\n'])
    simpa [Frame.quote] using quoted

end Carries

/-! ## Passages -/

/-- A code block from the first dash of its opening rule through its closing rule. -/
def passage (options : Options) (site : Site) : List Char :=
  List.replicate options.ruleWidth '-' ++ '\n' ::
    indentVerbatim site.indent (closeLine site.node.payload.content.toList) ++
    rule options.ruleWidth site.indent ++ ['\n']

/-- The passages of the code blocks among some sites, in order. -/
def passages (options : Options) (places : List Site) : List (List Char) :=
  (places.filter fun site => site.node.kind == .codeblock).map (passage options)

theorem passages_append (options : Options) (first second : List Site) :
    passages options (first ++ second) = passages options first ++ passages options second := by
  rw [passages, List.filter_append, List.map_append]
  rfl

/-- What is no code block has no passage of its own. -/
theorem passages_cons_of_noCode {options : Options} {site : Site}
    (noCode : site.node.kind ≠ .codeblock)
    (rest : List Site) : passages options (site :: rest) = passages options rest := by
  rw [passages, List.filter_cons, if_neg (by simpa using noCode)]
  rfl

/-- Without indentation the content stands between two rules of dashes as it is, apart
from a newline at its end. -/
theorem passage_of_outermost (options : Options) {site : Site} (outermost : site.indent = 0) :
    passage options site =
      List.replicate options.ruleWidth '-' ++ '\n' :: closeLine site.node.payload.content.toList ++
        List.replicate options.ruleWidth '-' ++ ['\n'] := by
  rw [passage, outermost]
  rfl

section Rules

variable {options : Options} (ruled : 0 < options.ruleWidth)

include ruled

theorem walled_passage (site : Site) : Walled (passage options site) := by
  obtain ⟨fewer, width⟩ := Nat.exists_eq_succ_of_ne_zero ruled.ne'
  have dash : isBlank '-' = false := by decide
  constructor
  · exact ⟨'-', _, by rw [passage, width, List.replicate_succ]; rfl, dash⟩
  · refine ⟨List.replicate options.ruleWidth '-' ++ '\n' ::
      indentVerbatim site.indent (closeLine site.node.payload.content.toList) ++
      (spaces site.indent ++ List.replicate fewer '-'), '-', ?_, dash⟩
    rw [passage, rule, width, List.replicate_succ']
    simp

theorem walled_passages (places : List Site) : ∀ piece ∈ passages options places, Walled piece := by
  intro piece present
  obtain ⟨site, -, rfl⟩ := List.mem_map.mp present
  exact walled_passage ruled site

end Rules

section Conversions

variable {setting : Setting} (undebugged : setting.options.debug = false)

include undebugged

/-- A code block is converted to its passage behind its indentation, and nothing else
happens. -/
theorem outcome_convert_codeblock {node : Node} (code : node.kind = .codeblock) (place : Place)
    (indent : Nat) (before : Workspace) :
    outcome (convert setting node place indent) before =
      (.ok (spaces indent ++ passage setting.options ⟨node, place, indent⟩), before) := by
  rw [convert_of_code undebugged (Or.inr code), verbatim, passage]
  simp only [rule, List.append_assoc]
  rfl

omit undebugged

/-- A span is no code block, and no code block is reached from it. -/
theorem passages_of_span {node : Node} (span : node.isBlock = false) (place : Place)
    (indent : Nat) :
    passages setting.options (sites setting.options node place indent) = [] := by
  have unframed : frame? setting.options node indent = none := by
    rw [← Option.isNone_iff_eq_none, ← Option.not_isSome, isSome_frame?, isFramed_of_span span]
    rfl
  have noCode : node.kind ≠ .codeblock := by
    intro code
    simp [Node.isBlock, code, Kind.placement] at span
  rw [sites_of_unframed unframed, passages_cons_of_noCode noCode]
  rfl

/-- A conversion of the node carries the code blocks that are reached from it, wherever
the node stands. -/
def Conveyed (setting : Setting) (node : Node) : Prop :=
  ∀ place indent before, Meets (convert setting node place indent) before (fun _ => True)
    fun text _ => Carries (passages setting.options (sites setting.options node place indent)) text

/-- Siblings carry the code blocks that are reached from them. -/
theorem flow_conveys {siblings : List Node} (each : ∀ child ∈ siblings, Conveyed setting child)
    (parent : Node) (place : Place) (index inner : Nat) (wraps : Bool) (waiting : List Char)
    (before : Workspace) :
    Meets (flow setting siblings parent place index inner wraps waiting) before (fun _ => True)
      fun text _ => Carries
        (passages setting.options (sitesBelow setting.options siblings parent place index inner))
        text := by
  induction siblings generalizing index waiting before with
  | nil => exact (Meets.unconditional _ before).imp fun text after _ => trivial
  | cons child rest inductionHypothesis =>
      obtain ⟨first, others⟩ := List.forall_mem_cons.mp each
      rw [sitesBelow_cons, passages_append]
      cases placed : child.isBlock with
      | false =>
          rw [flow_cons_of_span placed, passages_of_span placed, List.nil_append]
          exact Meets.bind (Meets.unconditional _ before) fun piece after _ =>
            inductionHypothesis others (index + 1) _ after
      | true =>
          rw [flow_cons_of_block placed]
          refine Meets.bind (first _ inner before) fun text converted carries => ?_
          refine Meets.bind (Meets.unconditional _ converted) fun front flushed _ => ?_
          refine Meets.bind (inductionHypothesis others (index + 1) [] flushed)
            fun back after rested => ?_
          exact Meets.give ((carries.before front).append rested)

/-- By induction on the tree, every conversion carries the code blocks that are reached
from its node. -/
theorem convert_conveys (undebugged : setting.options.debug = false)
    (ruled : 0 < setting.options.ruleWidth) (node : Node) : Conveyed setting node := by
  induction node using Node.induction_on_children with
  | step node below =>
      intro place indent before
      cases known : node.kind.isKnown with
      | false =>
          rw [convert_of_unknown setting place indent known]
          exact Meets.stop trivial
      | true =>
          cases framed : frame? setting.options node indent with
          | some frame =>
              have noCode : node.kind ≠ .codeblock := by
                intro code
                have has := isSome_frame? setting.options node indent
                rw [framed, code] at has
                cases has
              rw [sites_of_frame framed, passages_cons_of_noCode noCode,
                convert_of_bareText undebugged known, bareText_of_frame undebugged framed]
              refine Meets.bind (flow_conveys below node place 0 frame.inner
                (wrapsAt node place) [] before)
                fun body after carries => ?_
              exact Meets.give (carries.close (walled_passages ruled _) framed)
          | none =>
              rw [sites_of_unframed framed]
              by_cases code : node.kind = .codeblock
              · refine Meets.of_outcome
                  (outcome_convert_codeblock undebugged code place indent before) ?_
                have own : passages setting.options [⟨node, place, indent⟩] =
                    [passage setting.options ⟨node, place, indent⟩] := by
                  simp [passages, code]
                rw [own]
                exact ⟨spaces indent, [], by simp, trivial⟩
              · rw [passages_cons_of_noCode code]
                exact (Meets.unconditional _ before).imp fun text after _ => trivial

end Conversions

/-! ## Renderings -/

/-- The code blocks of a tree around which all nodes lay out their children in frames,
in document order, each with its path. -/
def framedCodes (tree : Node) : List (Path × Node) :=
  (tree.located []).filter fun entry =>
    entry.2.kind == .codeblock && (tree.ancestorsAt entry.1).all fun node => isFramed node.kind

/-- The sites of the code blocks of a tree. -/
def codeSites (options : Options) (tree : Node) : List Site :=
  (sites options tree Place.root 0).filter fun site => site.node.kind == .codeblock

/-- The code blocks that are laid out by frames are those around which all nodes have
frames. -/
theorem map_codeSites (options : Options) (tree : Node) :
    (codeSites options tree).map (fun site => (site.place.path, site.node)) = framedCodes tree := by
  have reached : (sites options tree Place.root 0).map (fun site => (site.place, site.node)) =
      (tree.placed Place.root).filter fun entry => inFrames entry.1 :=
    map_sites tree rfl rfl 0
  have listed : tree.placed Place.root =
      (tree.located []).map fun entry => (Place.ofPath tree entry.1, entry.2) :=
    Node.placed_eq_located (Node.at?_nil tree)
  have parts : (codeSites options tree).map (fun site => (site.place.path, site.node)) =
      (((sites options tree Place.root 0).map fun site => (site.place, site.node)).filter
        fun entry => entry.2.kind == .codeblock).map fun entry => (entry.1.path, entry.2) := by
    rw [List.filter_map, List.map_map]
    rfl
  rw [parts, reached, listed, List.filter_map, List.filter_map, List.map_map, List.filter_filter]
  exact List.map_id _

/-- Numbering keeps the code blocks of a tree. -/
theorem framedCodes_numbered {tree : Node} {numbered : Numbering.Numbered}
    (returned : (Numbering.resolve tree).1 = .ok numbered) :
    (framedCodes numbered.tree).map (fun entry => (entry.1, entry.2.payload)) =
      (framedCodes tree).map fun entry => (entry.1, entry.2.payload) := by
  have retains := Numbering.resolve_retains returned
  have read (node : Node) : (framedCodes node).map (fun entry => (entry.1, entry.2.payload)) =
      (node.located []).filterMap fun entry =>
        if entry.2.kind == .codeblock && (node.ancestorsAt entry.1).all fun node =>
          isFramed node.kind
        then some (entry.1, entry.2.payload) else none := by
    rw [framedCodes, ← List.filterMap_eq_map, List.filterMap_filter]
    rfl
  rw [read, read]
  refine retains.filterMap_located fun path given now kept => ?_
  have around := retains.all_ancestorsAt (fun _ _ _ kept => kept.kind) isFramed path
  simp only [Function.comp_def] at around
  simp only [around, kept.kind]
  by_cases code : given.kind = .codeblock
  · obtain ⟨payload, -⟩ := kept.unchanged (by simp [code]) (by simp [code])
    rw [payload]
  · simp [code]

/-- The code blocks that are reached through blocks which lay out their children as
lines stand untouched in a rendered text, in document order and apart from each other:
each from the first dash of its opening rule through its closing rule, as a conversion
at its indentation gives it behind this indentation.  Without indentation its content
stands there as it is. -/
theorem renderTree_carries {options : Options} {tree : Node} {numbered : Numbering.Numbered}
    (returned : (Numbering.resolve tree).1 = .ok numbered)
    (undebugged : options.debug = false) (ruled : 0 < options.ruleWidth) {text : String}
    (rendered : (renderTree options tree).1 = .ok text) :
    (codeSites options numbered.tree).map (fun site => (site.place.path, site.node.payload)) =
        (framedCodes tree).map (fun entry => (entry.1, entry.2.payload)) ∧
      (∀ site ∈ codeSites options numbered.tree, ∀ before,
        outcome (convert { options := options, numbered := some numbered } site.node site.place
            site.indent) before =
          (.ok (spaces site.indent ++ passage options site), before)) ∧
      Carries ((codeSites options numbered.tree).map (passage options)) text.toList ∧
      ∀ site ∈ codeSites options numbered.tree, site.indent = 0 →
        passage options site =
          List.replicate options.ruleWidth '-' ++ '\n' ::
            closeLine site.node.payload.content.toList ++
            List.replicate options.ruleWidth '-' ++ ['\n'] := by
  refine ⟨?_, fun site present before => ?_, ?_, fun site _ => passage_of_outermost options⟩
  · have same := congrArg (List.map fun entry => (entry.1, entry.2.payload))
      (map_codeSites options numbered.tree)
    rw [List.map_map, framedCodes_numbered returned] at same
    exact same
  · have code : site.node.kind = .codeblock := by simpa using (List.mem_filter.mp present).2
    exact outcome_convert_codeblock undebugged code site.place site.indent before
  · have meets := renderTree_of_meets (render_meets returned (known_numbered returned) fun log =>
      convert_conveys undebugged ruled numbered.tree Place.root 0 { held := [], log := log })
    rw [rendered] at meets
    exact meets

/-- Code at the start of an item and in a quote behind it, and code at the margin.  The
item has the given payload and options. -/
def quotedCode (mark : Payload) (itemOptions : Fields) : Node :=
  { kind := .root
    children := [
      { kind := .orderedList
        children := [{
          kind := .listItem
          payload := mark
          options := itemOptions
          children := [
            { kind := .codeblock, payload := .text "x\n\n  y" },
            { kind := .blockquote
              children := [
                { kind := .text, payload := .text "or" },
                { kind := .codeblock, payload := .text "\n z\n" }] }] }] },
      { kind := .codeblock, payload := .text " at the margin " }] }

/-- The code once its item is numbered. -/
def quotedCodeNumbered : Numbering.Numbered where
  tree := quotedCode (.item { mark := "1", fullMark := some "1" }) [(Node.positionKey, .int 0)]
  labels := []
  headings := {}
  items := { entries := [[0, 0]], groups := [(some [0], [[0, 0]])] }

/-- The text of the code between rules of three dashes. -/
def quotedCodeText : String :=
  "(1) ---\n    x\n\n      y\n    ---\n    ---\n        or\n        ---\n\n         z\n" ++
    "        ---\n    ---\n---\n at the margin \n---\n"

/-- The code blocks stand one behind the other, the first of them behind a bullet. -/
theorem renderTree_carries_quotedCode :
    (renderTree { ruleWidth := 3 } (quotedCode .none [])).1 = .ok quotedCodeText ∧
      Carries ["---\n    x\n\n      y\n    ---\n".toList, "---\n\n         z\n        ---\n".toList,
        "---\n at the margin \n---\n".toList] quotedCodeText.toList := by
  have resolved : (Numbering.resolve (quotedCode .none [])).1 = .ok quotedCodeNumbered := rfl
  have rendered : (renderTree { ruleWidth := 3 } (quotedCode .none [])).1 = .ok quotedCodeText :=
    eq_ok_of_toOption (by decide +kernel)
  have pieces : (codeSites { ruleWidth := 3 } quotedCodeNumbered.tree).map
      (passage { ruleWidth := 3 }) =
      ["---\n    x\n\n      y\n    ---\n".toList, "---\n\n         z\n        ---\n".toList,
        "---\n at the margin \n---\n".toList] := by
    decide +kernel
  obtain ⟨-, -, carries, -⟩ := renderTree_carries resolved rfl (by decide) rendered
  rw [pieces] at carries
  exact ⟨rendered, carries⟩

end Layout
end Galley
