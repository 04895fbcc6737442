import Galley.Proofs.Document.Strings
import Galley.Proofs.Layout.Flat
import Galley.Proofs.Layout.Regions
import Galley.Proofs.Layout.Shapes

/-!
# Texts of leaves

A leaf whose attributes are texts is converted without a fault and without holding code.
Its text holds no NUL where its strings hold none, and its ink is that of the flat text.
-/

namespace Galley
namespace Layout

open Text

/-- A numbered tree is rendered as a whole: cells have a separator between them, and
references are looked up in the tree. -/
structure Whole (setting : Setting) (separator : String) (numbered : Numbering.Numbered) :
    Prop where
  /-- The separator of cells is a text. -/
  separated : setting.options.cellSeparator = some separator
  /-- References are looked up. -/
  looked : setting.numbered = some numbered
  /-- No string of the tree holds NUL. -/
  tree_nulFree : numbered.tree.Everywhere Node.NulFree

/-- What stands for a reference holds no NUL where the marks of the tree hold none. -/
theorem nulFree_lookUp {numbered : Numbering.Numbered}
    (plain : numbered.tree.Everywhere Node.NulFree) (place : Place) (expression : String) :
    NulFree (numbered.lookUp place expression).1.toList := by
  have unresolved : NulFree Numbering.unresolvedText.toList := by decide
  have marks {target : Option Path} {text : String}
      (shown : Numbering.formatReference (target.bind numbered.markAt?) = some text) :
      NulFree text.toList := by
    cases marked : target.bind numbered.markAt? with
    | none => simp [marked, Numbering.formatReference] at shown
    | some mark =>
        obtain ⟨path, -, atPath⟩ := Option.bind_eq_some_iff.mp marked
        obtain ⟨node, found, noted⟩ := Option.bind_eq_some_iff.mp atPath
        have markPlain := Payload.nulFree_fullMark?
            (plain node (Node.mem_walk_iff.mpr ⟨path, found⟩)).payload noted
        rw [marked, Numbering.formatReference] at shown
        split at shown
        · cases shown
        · obtain rfl := Option.some.inj shown
          simp [markPlain]
  unfold Numbering.Numbered.lookUp
  split
  · rename_i path _
    split
    · rename_i text shown
      have direct : Numbering.formatReference ((some path).bind numbered.markAt?) =
          some text := shown
      exact marks direct
    · exact unresolved
  · split
    · exact unresolved
    · split
      · rename_i text shown
        exact marks shown
      · exact unresolved

/-! ## Attributes -/

theorem attribute_text {node : Node} (attributes : node.TextAttributes) (name : String) :
    ∃ text, node.attributes.getD name (.text "") = .text text := by
  unfold Fields.getD
  cases found : node.attributes.get? name with
  | none => exact ⟨"", rfl⟩
  | some value =>
      obtain ⟨text, rfl⟩ := attributes name value found
      exact ⟨text, rfl⟩

theorem nulFree_getD {fields : Fields}
    (plain : ∀ name value, fields.get? name = some value → value.NulFree)
    (name : String) {fallback : Datum} (fallbackPlain : fallback.NulFree) :
    (fields.getD name fallback).NulFree := by
  unfold Fields.getD
  cases found : fields.get? name with
  | none => exact fallbackPlain
  | some value => exact plain name value found

theorem nulFree_attributeShown {node : Node} (plain : node.NulFree) (name : String) :
    NulFree (attributeShown node name) :=
  Datum.nulFree_display
    (nulFree_getD plain.attributes name (show (Datum.text "").NulFree from nulFree_nil))

/-- The text of an attribute is shown as it is. -/
theorem attributeText_eq {node : Node} (attributes : node.TextAttributes) (setting : Setting)
    (name : String) :
    attributeText setting (node.attributes.getD name (.text "")) =
      pure (attributeShown node name) := by
  obtain ⟨text, found⟩ := attribute_text attributes name
  simp [attributeText, attributeShown, found]

theorem linkText_eq {node : Node} (attributes : node.TextAttributes) (setting : Setting) :
    linkText setting node = pure (linkShown node) := by
  rcases linkText_cases node with text | ⟨target, shown⟩
  · exact text setting
  · rw [target, shown, attributeText_eq attributes]

theorem imageText_eq {node : Node} (attributes : node.TextAttributes) (setting : Setting) :
    imageText setting node = pure (imageShown node) := by
  obtain ⟨name, shown, text⟩ := imageText_cases node
  rw [shown, text, attributeText_eq attributes]

theorem nulFree_linkShown {node : Node} (plain : node.NulFree)
    (below : ∀ child ∈ node.children, child.NulFree) : NulFree (linkShown node) := by
  unfold linkShown
  split
  · rename_i found
    split
    · have shown := Payload.nulFree_display (below _ (found ▸ List.mem_singleton_self _)).payload
      simp [shown]
    · exact nulFree_attributeShown plain "href"
  · exact nulFree_attributeShown plain "href"

theorem nulFree_imageShown {node : Node} (plain : node.NulFree) : NulFree (imageShown node) := by
  unfold imageShown
  split <;> exact nulFree_attributeShown plain _

/-- A symbol is replaced by its substitute, or by nothing where it has none. -/
theorem substitute_meets (table : List (String × String)) (key : String)
    (unknown : String → LogEvent) (workspace : Workspace) :
    Meets (substitute table key unknown) workspace (fun _ => False) fun text after =>
      after.held = workspace.held ∧ text = ((table.lookup key).getD "").toList := by
  unfold substitute report
  split
  · rename_i text found
    exact Meets.give ⟨rfl, by rw [found]; rfl⟩
  · rename_i missing
    exact Meets.change_bind (Meets.give ⟨rfl, by rw [missing]; rfl⟩)

theorem nulFree_lookup {table : List (String × String)}
    (plain : ∀ entry ∈ table, NulFree entry.2.toList) (key : String) :
    NulFree ((table.lookup key).getD "").toList := by
  induction table with
  | nil => exact nulFree_nil
  | cons entry rest inductionHypothesis =>
      obtain ⟨name, text⟩ := entry
      by_cases same : key = name
      · subst same
        simpa using plain (key, text) (by simp)
      · have apart : (key == name) = false := by simpa using same
        simpa [List.lookup_cons, apart] using
          inductionHypothesis fun other present => plain other (by simp [present])

/-! ## Leaves -/

variable {setting : Setting} {separator : String} {numbered : Numbering.Numbered}

/-- The ink of a leaf is that of its flat text, unless it is a rule; its text holds no
NUL. -/
def LeafShows (setting : Setting) (separator : String) (numbered : Numbering.Numbered)
    (node : Node) (place : Place) (text : List Char) : Prop :=
  NulFree text ∧ (node.kind ≠ .horizontalRule →
    ink text = ink (flat (dashes setting.options) separator.toList numbered node place))

theorem nulFree_verbatim {content : List Char} (plain : NulFree content) (width indent : Nat) :
    NulFree (verbatim width indent content) := by
  have rules : NulFree (List.replicate width '-') := fun present =>
    absurd (List.eq_of_mem_replicate present) (by decide)
  refine (nulFree_congr ((ink_verbatim width indent content).trans ?_)).mpr
    (nulFree_append.mpr ⟨nulFree_append.mpr ⟨rules, plain⟩, rules⟩)
  simp

theorem nulFree_horizontalRule (maxColumn indent : Nat) :
    NulFree (horizontalRule maxColumn indent) := by
  have dashed : NulFree (List.replicate (max 1 (maxColumn - indent)) '-') := fun present =>
    absurd (List.eq_of_mem_replicate present) (by decide)
  have indented : NulFree (spaces indent) := nulFree_of_ink_eq_nil (ink_spaces indent)
  exact nulFree_append.mpr ⟨nulFree_append.mpr ⟨indented, dashed⟩, by decide⟩

theorem nulFree_issueText {node : Node} (plain : node.NulFree) : NulFree (issueText node) := by
  unfold issueText
  split
  · exact nulFree_nil
  · rename_i found
    exact Datum.nulFree_display (plain.options _ _ found)
  · exact Payload.nulFree_content plain.payload

theorem leafText_meets
    (whole : Whole setting separator numbered)
    {node : Node} (plain : node.NulFree) (attributes : node.TextAttributes)
    (below : ∀ child ∈ node.children, child.NulFree)
    (leaf : shape setting.options node = .leaf)
    (place : Place) (indent : Nat) (workspace : Workspace) :
    Meets (leafText setting node place indent) workspace (fun _ => False) fun text after =>
      after.held = workspace.held ∧ LeafShows setting separator numbered node place text := by
  obtain ⟨kind, payload, attributeFields, options, children⟩ := node
  have content : NulFree payload.content.toList := Payload.nulFree_content plain.payload
  cases kind with
  | text => exact Meets.give ⟨rfl, content, fun _ => rfl⟩
  | lineBreak => exact Meets.give ⟨rfl, by decide, fun _ => rfl⟩
  | horizontalRule =>
      exact Meets.give ⟨rfl, nulFree_horizontalRule _ _, fun other => absurd rfl other⟩
  | codeblock =>
      refine Meets.give ⟨rfl, nulFree_verbatim content _ _, fun _ => ?_⟩
      rw [ink_verbatim]
      simp [flat, dashes]
  | inlineCode =>
      refine Meets.give ⟨rfl, nulFree_verbatim content _ _, fun _ => ?_⟩
      rw [ink_verbatim]
      simp [flat, dashes]
  | link =>
      change Meets (linkText setting _) _ _ _
      rw [linkText_eq attributes]
      exact Meets.give ⟨rfl, nulFree_linkShown plain below, fun _ => rfl⟩
  | image =>
      change Meets (imageText setting _) _ _ _
      rw [imageText_eq attributes]
      exact Meets.give ⟨rfl, nulFree_imageShown plain, fun _ => rfl⟩
  | typographicSymbol =>
      refine (substitute_meets _ _ _ workspace).imp ?_
      rintro _ after ⟨kept, rfl⟩
      exact ⟨kept, nulFree_lookup (by decide) _, fun _ => by rw [lookup_symbol]; rfl⟩
  | smartQuote =>
      refine (substitute_meets _ _ _ workspace).imp ?_
      rintro _ after ⟨kept, rfl⟩
      exact ⟨kept, nulFree_lookup (by decide) _, fun _ => by rw [lookup_quote]; rfl⟩
  | reference =>
      obtain ⟨settings, tables⟩ := setting
      obtain rfl : tables = some numbered := whole.looked
      rw [leafText]
      unfold Meets
      rw [outcome_referenceText]
      exact ⟨rfl, nulFree_lookUp whole.tree_nulFree place _, fun _ => rfl⟩
  | actionItem =>
      have assignee := Datum.nulFree_display
        (nulFree_getD plain.options "assignee" (show (Datum.text "").NulFree from nulFree_nil))
      refine Meets.give ⟨rfl, ?_, fun _ => ?_⟩
      · simp [assignee]
      · simp [flat, leafShown]
  | issueLink =>
      have same := issueText_eq ⟨.issueLink, payload, attributeFields, options, children⟩
      exact Meets.give ⟨rfl, nulFree_issueText plain, fun _ => congrArg ink same⟩
  | rawPassthrough =>
      refine Meets.give ⟨rfl, ?_, fun _ => ?_⟩
      · split <;> simp [content]
      · have newline : ink ['\n'] = [] := rfl
        split <;> simp [flat, leafShown, newline]
  | header =>
      simp only [shape] at leaf
      split at leaf <;> cases leaf
  | footnote => exact Meets.give ⟨rfl, nulFree_nil, fun _ => rfl⟩
  | label => exact Meets.give ⟨rfl, nulFree_nil, fun _ => rfl⟩
  | rawHtmlElement => exact Meets.give ⟨rfl, nulFree_nil, fun _ => rfl⟩
  | xmlComment => exact Meets.give ⟨rfl, nulFree_nil, fun _ => rfl⟩
  | xmlProcessingInstruction => exact Meets.give ⟨rfl, nulFree_nil, fun _ => rfl⟩
  | foreign name => exact Meets.give ⟨rfl, nulFree_nil, fun _ => rfl⟩
  | _ => cases leaf

end Layout
end Galley
