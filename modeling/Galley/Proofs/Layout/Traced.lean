import Galley.Proofs.Layout.Flat

/-!
# Traced text

The span text of a tree with its debug tags, before it is laid out.  It depends on no
indentation and no index of held code: code and blocks, which take lines of their own,
are left as a sign.
-/

namespace Galley
namespace Layout

/-- What stands for code and for blocks in traced text. -/
def codeSign : List Char := ['\x00']

/-- Traced text with its signs turned into line breaks. -/
def openCodes (traced : List Char) : List Char :=
  traced.map fun character => if character = '\x00' then '\n' else character

@[simp] theorem openCodes_append (first second : List Char) :
    openCodes (first ++ second) = openCodes first ++ openCodes second := List.map_append

@[simp] theorem openCodes_codeSign : openCodes codeSign = ['\n'] := rfl

/-- Whether a kind shows its children, or else its value, without line breaks. -/
def isFormatting : Kind → Bool
  | .emphasis | .strong | .entity | .abbreviation | .math => true
  | _ => false

variable (numbered : Numbering.Numbered)

mutual

/-- The span text of a node between its tags. -/
def traced (node : Node) (place : Place) : List Char :=
  match node with
  | ⟨kind, payload, attributes, options, children⟩ =>
      let bare : Node := ⟨kind, payload, attributes, options, children⟩
      if bare.isBlock || kind == .inlineCode then codeSign
      else
        enclose Marker.spanClass kind.name.toList
          (if isFormatting kind then
            joinLines
              (if children.isEmpty then payload.content.toList
              else tracedBelow children bare place 0)
          else leafShown numbered bare place)
termination_by structural node

/-- The span text of siblings, the first of which has the given position under its
parent. -/
def tracedBelow (siblings : List Node) (parent : Node) (place : Place) (index : Nat) : List Char :=
  match siblings with
  | [] => []
  | child :: rest =>
      traced child (place.enter parent index) ++ tracedBelow rest parent place (index + 1)
termination_by structural siblings

end

@[simp] theorem tracedBelow_nil (parent : Node) (place : Place) (index : Nat) :
    tracedBelow numbered [] parent place index = [] := rfl

@[simp] theorem tracedBelow_cons (child : Node) (rest : List Node) (parent : Node) (place : Place)
    (index : Nat) :
    tracedBelow numbered (child :: rest) parent place index =
      traced numbered child (place.enter parent index) ++
        tracedBelow numbered rest parent place (index + 1) := rfl

/-- The span text inside a formatting node: of its children, or its value where it has
none. -/
def tracedContent (node : Node) (place : Place) : List Char :=
  if node.children.isEmpty then node.payload.content.toList
  else tracedBelow numbered node.children node place 0

section Shapes

variable {options : Options} {node : Node}

theorem traced_eq (place : Place) :
    traced numbered node place =
      if node.isBlock || node.kind == .inlineCode then codeSign
      else
        enclose Marker.spanClass node.kind.name.toList
          (if isFormatting node.kind then joinLines (tracedContent numbered node place)
          else leafShown numbered node place) := by
  obtain ⟨kind, payload, attributes, fields, children⟩ := node
  rw [traced]
  rfl

/-- Formatting has a shape of its own. -/
theorem isFormatting_iff_shape (options : Options) (node : Node) :
    isFormatting node.kind = true ↔
      shape options node = .inline ∨ shape options node = .math := by
  obtain ⟨kind, payload, attributes, fields, children⟩ := node
  cases kind with
  | header =>
      simp only [shape]
      cases headingBullet? ⟨.header, payload, attributes, fields, children⟩ <;> simp [isFormatting]
  | _ => simp [isFormatting, shape]

/-- Formatting other than math is always a span. -/
theorem isBlock_of_formatting {node : Node} (formatting : isFormatting node.kind = true)
    (noMath : node.kind ≠ .math) : node.isBlock = false := by
  rcases (isFormatting_iff_shape {} node).mp formatting with inline | math
  · exact isBlock_of_inline inline
  · exact absurd (kind_of_math math) noMath

theorem isFormatting_of_inline
    (inline : shape options node = .inline ∨ shape options node = .math) :
    isFormatting node.kind = true :=
  (isFormatting_iff_shape options node).mpr inline

theorem isFormatting_of_shape {form : Shape} (shaped : shape options node = form)
    (noInline : form ≠ .inline) (noMath : form ≠ .math) : isFormatting node.kind = false := by
  rw [Bool.eq_false_iff, ne_eq, isFormatting_iff_shape options, shaped, not_or]
  exact ⟨noInline, noMath⟩

/-- Blocks and code are left as a sign. -/
theorem traced_of_lines (lines : node.isBlock = true ∨ node.kind = .inlineCode) (place : Place) :
    traced numbered node place = codeSign := by
  rw [traced_eq]
  rcases lines with block | code
  · simp [block]
  · simp [code]

theorem traced_of_inline (span : node.isBlock = false)
    (inline : shape options node = .inline ∨ shape options node = .math) (place : Place) :
    traced numbered node place = enclose Marker.spanClass node.kind.name.toList
      (joinLines (tracedContent numbered node place)) := by
  have formatting := isFormatting_of_inline inline
  have other : node.kind ≠ .inlineCode := by
    intro code
    rw [code] at formatting
    cases formatting
  rw [traced_eq, formatting]
  simp [span, other]

theorem traced_of_leaf (span : node.isBlock = false) (other : node.kind ≠ .inlineCode)
    (leaf : shape options node = .leaf) (place : Place) :
    traced numbered node place = enclose Marker.spanClass node.kind.name.toList
      (leafShown numbered node place) := by
  rw [traced_eq, isFormatting_of_shape leaf (by simp) (by simp)]
  simp [span, other]

/-- A span is a formatting node or a leaf. -/
theorem shape_of_span (options : Options) (span : node.isBlock = false) :
    (shape options node = .inline ∨ shape options node = .math) ∨ shape options node = .leaf := by
  obtain ⟨kind, payload, attributes, fields, children⟩ := node
  cases kind with
  | emphasis => exact Or.inl (Or.inl rfl)
  | strong => exact Or.inl (Or.inl rfl)
  | entity => exact Or.inl (Or.inl rfl)
  | abbreviation => exact Or.inl (Or.inl rfl)
  | math => exact Or.inl (Or.inr rfl)
  | _ => first | exact Or.inr rfl | cases span

/-- A node that is neither formatting nor a leaf is a block. -/
theorem isBlock_of_shape {form : Shape} (shaped : shape options node = form)
    (noInline : form ≠ .inline)
    (noMath : form ≠ .math) (noLeaf : form ≠ .leaf) : node.isBlock = true := by
  cases block : node.isBlock with
  | true => rfl
  | false =>
      rcases shape_of_span options block with (inline | math) | leaf
      · exact absurd (shaped.symm.trans inline) noInline
      · exact absurd (shaped.symm.trans math) noMath
      · exact absurd (shaped.symm.trans leaf) noLeaf

end Shapes

end Layout
end Galley
