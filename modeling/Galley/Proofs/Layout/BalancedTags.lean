import Galley.Proofs.Layout.Balancing
import Galley.Proofs.Layout.Rendering

/-!
# Renderings with balanced tags

Where every node of the annotated tree is intact, a rendering with tags closes every
tag, innermost first.  A blank line at the end of a text takes the closing tag with it.
-/

namespace Galley
namespace Layout

open Marker Text

/-- Debug tags are balanced: where every node of the annotated tree is intact, every
closing tag of a rendering closes the last open tag, which has its class and kind, and
in the end no tag is open. -/
theorem renderTree_balanced {options : Options} {tree : Node} {numbered : Numbering.Numbered}
    (returned : (Numbering.resolve tree).1 = .ok numbered)
    (ruled : 0 < options.ruleWidth)
    (separated : ∀ separator, options.cellSeparator = some separator →
      Unmarked separator.toList ∧ '\n' ∉ separator.toList)
    (intact : IntactFrom options numbered (numbered.tree.placed Place.root)) {text : String}
    (rendered : (renderTree { options with debug := true } tree).1 = .ok text) :
    Balanced text.toList := by
  have known := known_numbered returned
  have matched (log : Log) : Meets
      (convert { options := { options with debug := true }, numbered := some numbered }
          numbered.tree
        Place.root 0)
      { held := [], log := log } (fun _ => True) fun text _ => Matched (all text) := by
    have converts := convert_balances ruled separated numbered.tree known Place.root 0
      { held := [], log := log } intact (fun _ absent => (by cases absent))
    exact converts.imp fun text after converted =>
      converted.matched (matched_traced numbered.tree known Place.root intact)
  have meets := renderTree_of_meets (render_meets returned known matched)
  rw [rendered] at meets
  exact Matched.balanced meets

/-- A list item with an empty paragraph before its text, a line break, code in an
emphasis, and a row with an empty cell. -/
def braidedNote : Node :=
  { kind := .root
    children := [
      { kind := .unorderedList
        children := [
          { kind := .listItem
            children := [
              { kind := .paragraph },
              { kind := .paragraph
                children := [
                  { kind := .text, payload := .text "aa" },
                  { kind := .lineBreak },
                  { kind := .emphasis
                    children := [
                      { kind := .text, payload := .text "bb\n cc" },
                      { kind := .inlineCode, payload := .text "x" }] }] }] }] },
      { kind := .tableRow
        children := [
          { kind := .tableCell },
          { kind := .tableCell, children := [{ kind := .text, payload := .text "d" }] }] }] }

/-- The characters of a string that is put together from them. -/
theorem toList_of_eq_ofList {text : String} {characters : List Char}
    (composed : text = String.ofList characters) : text.toList = characters :=
  composed ▸ String.toList_ofList

/-- The empty paragraph is dropped with both its tags, and the closing tags of the text
stand on lines that show something. -/
theorem renderTree_balanced_braidedNote :
    ∃ text, (renderTree { ruleWidth := 3, debug := true } braidedNote).1 = .ok text ∧
      erase text.toList = "* aa\n  bbcc\n  ---\n  x\n  ---\n | d\n".toList ∧
      Balanced text.toList := by
  have rendered : (renderTree { ruleWidth := 3, debug := true } braidedNote).1 =
      .ok ("<BLOCK:root><BLOCK:unordered-list><BLOCK:list-item>* <BLOCK:paragraph>" ++
        "<SPAN:text>aa</SPAN:text><SPAN:line-break>\n" ++
        "  </SPAN:line-break><SPAN:emphasis><SPAN:text>bbcc</SPAN:text>\n" ++
        "  <BLOCK:inline-code>---\n  x\n  ---</BLOCK:inline-code></SPAN:emphasis>" ++
        "</BLOCK:paragraph></BLOCK:list-item></BLOCK:unordered-list>\n" ++
        "<BLOCK:table-row><BLOCK:table-cell></BLOCK:table-cell> | " ++
        "<BLOCK:table-cell><SPAN:text>d</SPAN:text></BLOCK:table-cell></BLOCK:table-row>" ++
        "</BLOCK:root>\n") :=
    eq_ok_of_toOption (by decide +kernel)
  have separated : ∀ separator, ({ ruleWidth := 3 } : Options).cellSeparator = some separator →
      Unmarked separator.toList ∧ '\n' ∉ separator.toList := by
    rintro separator found
    obtain rfl := Option.some.inj found
    decide
  refine ⟨_, rendered, ?_,
    renderTree_balanced rfl (by decide) separated (by decide +kernel) rendered⟩
  -- The literals are turned into lists first: evaluated, they would be decoded byte by
  -- byte.
  simp only [String.toList_append]
  repeat rw [toList_of_eq_ofList rfl]
  decide +kernel

/-- A text that ends with a newline. -/
def brokenNote : Node :=
  note [{ kind := .text, payload := .text "a\n" }]

/-- The line behind the newline shows nothing, so it is dropped with the closing tag of
the text on it. -/
theorem not_balanced_brokenNote :
    brokenNote.isBlock = true ∧
      (∀ node ∈ brokenNote.walk, Unmarked node.payload.display.toList ∧
        NulFree node.payload.display.toList ∧ node.attributes = [] ∧ node.options = []) ∧
      ∃ text, (renderTree { debug := true } brokenNote).1 = .ok text ∧ ¬ Balanced text.toList := by
  refine ⟨rfl, by decide +kernel,
    "<BLOCK:root><BLOCK:paragraph><SPAN:text>a</BLOCK:paragraph></BLOCK:root>\n", ?_, by
      decide +kernel⟩
  exact eq_ok_of_toOption (by decide +kernel)

end Layout
end Galley
