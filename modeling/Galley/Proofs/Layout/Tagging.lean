import Galley.Proofs.Layout.Rendering
import Galley.Proofs.Layout.Transparency

/-!
# Renderings with tags

Where every node of the annotated tree is clear, a rendering with tags returns whenever
the plain one does, and without its tags it is the plain one.
-/

namespace Galley
namespace Layout

open Marker Text

variable {options : Options} {tree : Node} {numbered : Numbering.Numbered}

theorem numberTree_follows (returned : (Numbering.resolve tree).1 = .ok numbered)
    (workspace workspace' : Workspace) :
    Follows (numberTree tree) (numberTree tree) workspace workspace' fun first second _ _ =>
      first = numbered ∧ second = numbered := by
  unfold numberTree
  cases resolved : Numbering.resolve tree with
  | mk result events =>
      rw [resolved] at returned
      obtain rfl : result = .ok numbered := returned
      exact Follows.change_bind (Follows.give ⟨rfl, rfl⟩)

/-- A whole rendering with tags does what the plain one does. -/
theorem render_follows (returned : (Numbering.resolve tree).1 = .ok numbered)
    (clear : ClearFrom options numbered (numbered.tree.placed Place.root)) :
    Follows (render { options with debug := true } tree)
      (render { options with debug := false } tree)
      {} {} fun marked plain _ _ => erase marked.toList = plain.toList := by
  have known := known_numbered returned
  obtain ⟨found, listed⟩ := lines_ok numbered.tree 0 known
  have formatted : Listing.format numbered.tree = .ok ("\n".intercalate found ++ "\n") := by
    rw [Listing.format, listed]
    rfl
  unfold render
  refine Follows.bind (numberTree_follows returned _ _) ?_
  rintro result result' first second ⟨same, same'⟩
  rw [same, same']
  simp only [if_true, Bool.false_eq_true, if_false]
  rw [formatted]
  -- The listing is reported in one of the two renderings only.
  refine Follows.ahead rfl ?_
  unfold report
  refine Follows.ahead rfl (Follows.change_bind ?_)
  refine Follows.bind (convert_follows numbered.tree known Place.root 0 _ _ rfl clear rfl) ?_
  intro marked plain after after' tagged
  refine Follows.change_bind (Follows.give ?_)
  rw [String.toList_ofList, String.toList_ofList]
  cases block : numbered.tree.isBlock with
  | true => exact (tagged.block block).erase_eq
  | false =>
      by_cases code : numbered.tree.kind = .inlineCode
      · exact (tagged.code code).laid.erase_eq
      · exact (tagged.span block code).1.erase_eq

/-- Debug tags are transparent: where every node of the annotated tree is clear and the
plain rendering returns a text, the rendering with tags returns that text with tags in
it. -/
theorem erase_renderTree (returned : (Numbering.resolve tree).1 = .ok numbered)
    (clear : ClearFrom options numbered (numbered.tree.placed Place.root)) {plain : String}
    (rendered : (renderTree { options with debug := false } tree).1 = .ok plain) :
    ∃ marked, (renderTree { options with debug := true } tree).1 = .ok marked ∧
      erase marked.toList = plain.toList := by
  have follows := render_follows returned clear
  cases ended : outcome (render { options with debug := false } tree) {} with
  | mk result after' =>
      have same : result = .ok plain := by
        have first := congrArg Prod.fst ended
        exact first.symm.trans rendered
      rw [same] at ended
      obtain ⟨marked, after, found, erased⟩ := follows plain after' ended
      exact ⟨marked, congrArg Prod.fst found, erased⟩

/-- Five columns of text. -/
def narrow : Options :=
  { maxColumn := 5, ruleWidth := 3 }

/-- A paragraph in which words begin behind their tags, and a row with a cell that takes
several lines of its own. -/
def partedNote : Node :=
  { kind := .root
    children := [
      { kind := .paragraph
        children := [
          { kind := .text, payload := .text "aa bb" },
          { kind := .emphasis, children := [{ kind := .text, payload := .text " c\n c" }] },
          { kind := .inlineCode, payload := .text "x" }] },
      { kind := .table
        children := [
          { kind := .tableRow
            children := [
              { kind := .tableCell, children := [{ kind := .text, payload := .text "be" }] },
              { kind := .tableCell
                children := [
                  { kind := .text, payload := .text "or" },
                  { kind := .strong, children := [{ kind := .text, payload := .text " not" }] },
                  { kind := .inlineCode, payload := .text "x" }] }] }] }] }

/-- The tags of the note disappear, and its lines stay as they are. -/
theorem erase_renderTree_partedNote :
    ∃ marked, (renderTree { narrow with debug := true } partedNote).1 = .ok marked ∧
      erase marked.toList = "aa bb\ncc\n---\nx\n---\nbe | or not --- x ---\n".toList := by
  have resolved : (Numbering.resolve partedNote).1 =
      .ok { tree := partedNote, labels := [], headings := {}, items := {} } := rfl
  exact erase_renderTree resolved (by decide +kernel) rfl

/-- A paragraph with a word that is partly emphasized. -/
def joinedNote : Node :=
  { kind := .root
    children := [
      { kind := .paragraph
        children := [
          { kind := .text, payload := .text "aa bb" },
          { kind := .emphasis, children := [{ kind := .text, payload := .text "cc" }] }] }] }

/-- A word with a tag in it is wrapped as two words, so that the lines of the note
depend on the tags. -/
theorem erase_renderTree_joinedNote :
    (∀ node ∈ joinedNote.walk, Unmarked node.payload.display.toList ∧
        node.attributes = [] ∧ node.options = []) ∧
      (renderTree { narrow with debug := false } joinedNote).1 = .ok "aa\nbbcc\n" ∧
      ∃ marked, (renderTree { narrow with debug := true } joinedNote).1 = .ok marked ∧
        erase marked.toList = "aa bb\ncc\n".toList ∧
        erase marked.toList ≠ "aa\nbbcc\n".toList := by
  refine ⟨by decide +kernel, rfl, _, rfl, ?_⟩
  decide +kernel

end Layout
end Galley
