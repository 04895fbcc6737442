import Galley.Proofs.Layout.Shapes

/-!
# The flat text of a tree

What a tree shows, without any layout: bullets, rules, separators and the texts of the
leaves in document order.  It depends on neither the column budget nor any indentation.
-/

namespace Galley
namespace Layout

/-- The dashes of a rule around quotes and code. -/
def dashes (options : Options) : List Char :=
  List.replicate options.ruleWidth '-'

/-- The text of an attribute, or nothing. -/
def attributeShown (node : Node) (name : String) : List Char :=
  (node.attributes.getD name (.text "")).display.toList

/-- A link shows the text that is its only child in brackets, or else its target. -/
def linkShown (node : Node) : List Char :=
  match node.children with
  | [⟨.text, payload, _, _, _⟩] =>
      if payload.isTruthy then '[' :: payload.display.toList ++ [']']
      else attributeShown node "href"
  | _ => attributeShown node "href"

/-- A link shows the text of its only child, or it shows its target. -/
theorem linkText_cases (node : Node) :
    (∀ setting, linkText setting node = pure (linkShown node)) ∨
      (∀ setting, linkText setting node =
        attributeText setting (node.attributes.getD "href" (.text ""))) ∧
        linkShown node = attributeShown node "href" := by
  by_cases alone : ∃ payload attributes options children,
      node.children = [⟨.text, payload, attributes, options, children⟩]
  · obtain ⟨payload, attributes, options, children, found⟩ := alone
    cases shows : payload.isTruthy with
    | true =>
        refine Or.inl fun setting => ?_
        rw [linkText, linkShown, found]
        simp [shows]
    | false =>
        refine Or.inr ⟨fun setting => ?_, ?_⟩
        · rw [linkText, found]
          simp [shows]
        · rw [linkShown, found]
          simp [shows]
  · refine Or.inr ⟨fun setting => ?_, ?_⟩
    · unfold linkText
      split
      · rename_i found
        exact absurd ⟨_, _, _, _, found⟩ alone
      · rfl
    · unfold linkShown
      split
      · rename_i found
        exact absurd ⟨_, _, _, _, found⟩ alone
      · rfl

/-- An image shows its source, or else its target. -/
def imageShown (node : Node) : List Char :=
  if (node.attributes.getD "src" .null).isTruthy then attributeShown node "src"
  else attributeShown node "href"

/-- An image shows one of its attributes. -/
theorem imageText_cases (node : Node) :
    ∃ name, imageShown node = attributeShown node name ∧
      ∀ setting, imageText setting node =
        attributeText setting (node.attributes.getD name (.text "")) := by
  unfold imageShown
  cases truthy : (node.attributes.getD "src" .null).isTruthy with
  | false => exact ⟨"href", rfl, fun setting => by simp [imageText, truthy]⟩
  | true =>
      have same : node.attributes.getD "src" .null = node.attributes.getD "src" (.text "") := by
        unfold Fields.getD at truthy ⊢
        cases found : node.attributes.get? "src" with
        | none => simp [found, Datum.isTruthy] at truthy
        | some value => rfl
      refine ⟨"src", rfl, fun setting => ?_⟩
      rw [imageText, ← same]
      simp [truthy]

/-- What stands for a typographic symbol, if it is one of seven. -/
def symbolShown : String → String
  | "mdash" => "---"
  | "ndash" => "--"
  | "hellip" => "..."
  | "laquo" => "<< "
  | "raquo" => " >>"
  | "laquo_space" => "<<"
  | "raquo_space" => ">>"
  | _ => ""

/-- What stands for a quote, if it is one of four. -/
def quoteShown : String → String
  | "lsquo" | "rsquo" => "'"
  | "ldquo" | "rdquo" => "\""
  | _ => ""

theorem lookup_symbol (key : String) :
    (symbolSubstitutes.lookup key).getD "" = symbolShown key := by
  unfold symbolShown
  split
  case h_8 =>
    have missing : symbolSubstitutes.lookup key = none :=
      List.lookup_eq_none_iff.mpr (by simp_all [symbolSubstitutes])
    rw [missing]
    rfl
  all_goals rfl

theorem lookup_quote (key : String) :
    (quoteSubstitutes.lookup key).getD "" = quoteShown key := by
  unfold quoteShown
  split
  case h_5 =>
    have missing : quoteSubstitutes.lookup key = none :=
      List.lookup_eq_none_iff.mpr (by simp_all [quoteSubstitutes])
    rw [missing]
    rfl
  all_goals rfl

/-- An issue link shows what it matched, or else its value. -/
def issueShown (node : Node) : List Char :=
  match node.options.getD "match" (.text node.payload.content) with
  | .null => []
  | value => value.display.toList

theorem issueText_eq (node : Node) : issueText node = issueShown node := by
  unfold issueText issueShown Fields.getD
  cases found : node.options.get? "match" with
  | none => rfl
  | some value => cases value <;> rfl

/-- The text that a leaf shows. -/
def leafShown (numbered : Numbering.Numbered) (node : Node) (place : Place) : List Char :=
  match node.kind with
  | .text | .rawPassthrough => node.payload.content.toList
  | .lineBreak => ['\n']
  | .link => linkShown node
  | .image => imageShown node
  | .typographicSymbol => (symbolShown node.payload.display).toList
  | .smartQuote => (quoteShown node.payload.display).toList
  | .reference => (numbered.lookUp place node.payload.content).1.toList
  | .actionItem =>
      "-->(".toList ++ (node.options.getD "assignee" (.text "")).display.toList ++ [')']
  | .issueLink => issueShown node
  | _ => []

variable (bar separator : List Char) (numbered : Numbering.Numbered)

mutual

/-- The flat text of a node: marked headings and items with their bullets, quotes and
code between bars, the cells of a row with separators between them, formatting as its
children or else its value, and leaves as their texts.  Horizontal rules, whose length
depends on the room there is, are left out. -/
def flat (node : Node) (place : Place) : List Char :=
  match node with
  | ⟨kind, payload, attributes, options, children⟩ =>
      let bare : Node := ⟨kind, payload, attributes, options, children⟩
      let below := flatBelow children bare place 0
      match kind with
      | .root | .blank | .paragraph | .unorderedList | .orderedList | .table | .tableHead
      | .tableBody | .tableFoot | .tableCell | .definitionList | .definitionTerm
      | .definitionDescription => below.flatten
      | .header | .listItem => bulletShown bare ++ below.flatten
      | .blockquote => bar ++ below.flatten ++ bar
      | .codeblock | .inlineCode => bar ++ payload.content.toList ++ bar
      | .tableRow => separator.intercalate below
      | .emphasis | .strong | .entity | .abbreviation | .math =>
          if children.isEmpty then payload.content.toList else below.flatten
      | _ => leafShown numbered bare place
termination_by structural node

/-- The flat texts of siblings, the first of which has the given position under its
parent. -/
def flatBelow (siblings : List Node) (parent : Node) (place : Place) (index : Nat) :
    List (List Char) :=
  match siblings with
  | [] => []
  | child :: rest =>
      flat child (place.enter parent index) :: flatBelow rest parent place (index + 1)
termination_by structural siblings

end

/-- The flat text of a whole annotated tree. -/
def flatText : List Char :=
  flat bar separator numbered numbered.tree Place.root

@[simp] theorem flatBelow_nil (parent : Node) (place : Place) (index : Nat) :
    flatBelow bar separator numbered [] parent place index = [] := rfl

@[simp] theorem flatBelow_cons (child : Node) (rest : List Node) (parent : Node) (place : Place)
    (index : Nat) :
    flatBelow bar separator numbered (child :: rest) parent place index =
      flat bar separator numbered child (place.enter parent index) ::
        flatBelow bar separator numbered rest parent place (index + 1) := rfl

/-! ## Flat texts by shapes -/

section Shapes

variable {options : Options} {node : Node}

theorem flat_of_region {extra : Nat} (region : shape options node = .region extra) (place : Place) :
    flat bar separator numbered node place =
      (flatBelow bar separator numbered node.children node place 0).flatten := by
  have bare := bulletShown_of_shape region
  obtain ⟨kind, payload, attributes, fields, children⟩ := node
  cases kind with
  | header =>
      rw [flat, bare]
      rfl
  | _ => first | rfl | cases region

theorem flat_of_hanging {bullet : List Char} (hanging : shape options node = .hanging bullet)
    (place : Place) :
    flat bar separator numbered node place =
      bullet ++ (flatBelow bar separator numbered node.children node place 0).flatten := by
  have bulleted := bulletShown_of_hanging hanging
  obtain ⟨kind, payload, attributes, fields, children⟩ := node
  cases kind with
  | header => rw [flat, bulleted]
  | listItem => rw [flat, bulleted]
  | _ => cases hanging

theorem flat_of_quote (quote : shape options node = .quote) (place : Place) :
    flat bar separator numbered node place =
      bar ++ (flatBelow bar separator numbered node.children node place 0).flatten ++ bar := by
  obtain ⟨kind, payload, attributes, fields, children⟩ := node
  cases kind with
  | blockquote => rfl
  | header =>
      simp only [shape] at quote
      split at quote <;> cases quote
  | _ => cases quote

theorem flat_of_row (row : shape options node = .row) (place : Place) :
    flat bar separator numbered node place =
      separator.intercalate (flatBelow bar separator numbered node.children node place 0) := by
  have kind := kind_of_row row
  obtain ⟨_, payload, attributes, fields, children⟩ := node
  cases kind
  rfl

theorem flat_of_inline (inline : shape options node = .inline ∨ shape options node = .math)
    (place : Place) :
    flat bar separator numbered node place =
      if node.children.isEmpty then node.payload.content.toList
      else (flatBelow bar separator numbered node.children node place 0).flatten := by
  obtain ⟨kind, payload, attributes, fields, children⟩ := node
  cases kind with
  | emphasis => rfl
  | strong => rfl
  | entity => rfl
  | abbreviation => rfl
  | math => rfl
  | header =>
      simp only [shape] at inline
      split at inline <;> rcases inline with inline | inline <;> cases inline
  | _ => rcases inline with inline | inline <;> cases inline

end Shapes

end Layout
end Galley
