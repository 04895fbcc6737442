import Galley.Proofs.Document.Matching
import Galley.Proofs.Layout.Traced
import Galley.Proofs.Text.Ink

/-!
# What a conversion meets

A conversion goes through the children of some kinds only.  It meets the nodes around
which all nodes are of such kinds.  A row that is met inside formatting is flattened,
and its text is laid out once more, so there it matters which characters stand between
its cells.
-/

namespace Galley
namespace Layout

open Text

/-! ## Kinds -/

/-- Whether nodes of a kind lay out their children in a frame. -/
def isFramed : Kind → Bool
  | .root | .blank | .paragraph | .header | .blockquote | .table | .tableCell | .tableHead
  | .tableBody | .tableFoot | .unorderedList | .orderedList | .listItem | .definitionList
  | .definitionTerm | .definitionDescription => true
  | _ => false

theorem isFramed_of_span {node : Node} (span : node.isBlock = false) :
    isFramed node.kind = false := by
  obtain ⟨kind, payload, attributes, fields, children⟩ := node
  cases kind with
  | _ => first | rfl | cases span

/-- Whether nodes of a kind are converted by converting their children. -/
def isWalked (kind : Kind) : Bool :=
  isFramed kind || kind == .tableRow || isFormatting kind

/-- A node with a shape other than that of a leaf is converted by converting its
children. -/
theorem isWalked_iff_shape (options : Options) (node : Node) :
    isWalked node.kind = true ↔ shape options node ≠ .leaf := by
  obtain ⟨kind, payload, attributes, fields, children⟩ := node
  cases kind with
  | header =>
      simp only [shape]
      cases headingBullet? ⟨.header, payload, attributes, fields, children⟩ <;>
        simp [isWalked, isFramed]
  | _ => simp [isWalked, isFramed, isFormatting, shape]

theorem isWalked_of_shape {options : Options} {node : Node} {form : Shape}
    (shaped : shape options node = form) (inner : form ≠ .leaf) : isWalked node.kind = true :=
  (isWalked_iff_shape options node).mpr (shaped ▸ inner)

theorem isWalked_of_formatting {kind : Kind} (formatting : isFormatting kind = true) :
    isWalked kind = true := by
  simp [isWalked, formatting]

/-- A span that is converted by converting its children is formatting. -/
theorem isFormatting_of_walked {node : Node} (span : node.isBlock = false)
    (walked : isWalked node.kind = true) : isFormatting node.kind = true := by
  rcases shape_of_span {} span with inline | leaf
  · exact isFormatting_of_inline inline
  · exact absurd leaf ((isWalked_iff_shape {} node).mp walked)

/-! ## Nodes that are met -/

/-- Whether all nodes around a path are converted by converting their children. -/
def isMet (tree : Node) (path : Path) : Bool :=
  (tree.ancestorsAt path).all fun around => isWalked around.kind

/-- Conversion meets a node below a node of a kind that it goes through. -/
theorem isMet_cons {node child : Node} {index : Nat}
    (entered : node.children[index]? = some child) (rest : Path) :
    isMet node (index :: rest) = (isMet child rest && isWalked node.kind) := by
  simp [isMet, Node.ancestorsAt, entered]

/-- All nodes that a conversion of a tree meets have a property. -/
def Met (property : Node → Prop) (tree : Node) : Prop :=
  ∀ entry ∈ tree.located [], isMet tree entry.1 = true → property entry.2

instance (property : Node → Prop) [DecidablePred property] : DecidablePred (Met property) :=
  fun tree => inferInstanceAs (Decidable (∀ entry ∈ tree.located [], _ → _))

section Met

variable {property weaker : Node → Prop} {node child tree : Node}

/-- The nodes that are met stand at paths. -/
theorem met_iff_at? : Met property tree ↔
    ∀ path inner, tree.at? path = some inner → isMet tree path = true → property inner := by
  constructor
  · intro met path inner found reached
    exact met (path, inner) (Node.mem_located_iff.mpr ⟨path, rfl, found⟩) reached
  · rintro each ⟨path, inner⟩ listed reached
    obtain ⟨_, rfl, found⟩ := Node.mem_located_iff.mp listed
    exact each path inner found reached

/-- What is met is the node and, if conversion goes through it, what is met below its
children. -/
theorem met_iff : Met property node ↔
    property node ∧ (isWalked node.kind = true → ∀ child ∈ node.children, Met property child) := by
  constructor
  · intro met
    refine ⟨met_iff_at?.mp met [] node rfl rfl, fun walked child member => ?_⟩
    obtain ⟨index, entered⟩ := List.getElem?_of_mem member
    refine met_iff_at?.mpr fun path inner found reached => ?_
    refine met_iff_at?.mp met (index :: path) inner ?_ ?_
    · rw [Node.at?_cons, entered, Option.bind_some, found]
    · rw [isMet_cons entered, reached, walked, Bool.and_self]
  · rintro ⟨here, below⟩
    refine met_iff_at?.mpr fun path inner found reached => ?_
    cases path with
    | nil =>
        obtain rfl := Option.some.inj found
        exact here
    | cons index rest =>
        obtain ⟨child, entered, deeper⟩ := Option.bind_eq_some_iff.mp found
        rw [isMet_cons entered, Bool.and_eq_true] at reached
        have met := below reached.2 child (List.mem_of_getElem? entered)
        exact met_iff_at?.mp met rest inner deeper reached.1

namespace Met

theorem here (met : Met property node) : property node :=
  (met_iff.mp met).1

theorem below (met : Met property node) (walked : isWalked node.kind = true)
    (member : child ∈ node.children) : Met property child :=
  (met_iff.mp met).2 walked child member

theorem imp (met : Met property node) (implied : ∀ inner, property inner → weaker inner) :
    Met weaker node :=
  fun entry listed reached => implied entry.2 (met entry listed reached)

theorem of_everywhere (all : tree.Everywhere property) : Met property tree :=
  fun _ listed _ => all.of_mem_located listed

/-- In a tree that matches another with the same kinds, the same paths are met. -/
theorem of_matches {related : Path → Node → Node → Prop} {new : Node} (met : Met property tree)
    (matching : tree.Matches related new)
    (kinds : ∀ path given now, related path given now → now.kind = given.kind)
    (carry : ∀ path given now, given.Matches (fun rest => related (path ++ rest)) now →
      property given → weaker now) : Met weaker new := by
  refine met_iff_at?.mpr fun path now foundNow reached => ?_
  obtain ⟨given, found, -⟩ := matching.exists_given foundNow
  have same : isMet new path = isMet tree path := matching.all_ancestorsAt kinds isWalked path
  exact carry path given now (matching.at_path found foundNow)
    (met_iff_at?.mp met path given found (same ▸ reached))

end Met

end Met

/-! ## Rows that are flattened -/

/-- No NUL stands between the cells of a row. -/
def PlainRow (options : Options) (node : Node) : Prop :=
  node.kind = .tableRow → ∀ separator ∈ options.cellSeparator, NulFree separator.toList

instance (options : Options) : DecidablePred (PlainRow options) :=
  fun node => inferInstanceAs (Decidable (node.kind = .tableRow → _))

/-- Of the rows that are flattened, which are met inside formatting under the lax
policy, none has NUL between its cells. -/
def FlattensPlainly (options : Options) (tree : Node) : Prop :=
  options.nesting = .flatten →
    Met (fun node => isFormatting node.kind = true → Met (PlainRow options) node) tree

instance (options : Options) : DecidablePred (FlattensPlainly options) :=
  fun tree => inferInstanceAs (Decidable (options.nesting = .flatten → Met _ tree))

/-- Formatting holds no block. -/
def SpansOnly (node : Node) : Prop :=
  isFormatting node.kind = true → ∀ child ∈ node.children, child.isBlock = false

instance : DecidablePred SpansOnly := fun node =>
  inferInstanceAs (Decidable (isFormatting node.kind = true → _))

/-- No row is met in a span where formatting holds no block. -/
theorem plainRows_of_span {options : Options} {node : Node} (spans : node.Everywhere SpansOnly)
    (span : node.isBlock = false) : Met (PlainRow options) node := by
  induction node using Node.induction_on_children with
  | step node below =>
      refine met_iff.mpr ⟨fun row => ?_, fun walked child member => ?_⟩
      · simp [Node.isBlock, row, Kind.placement] at span
      · have spansHere := spans.here (isFormatting_of_walked span walked)
        exact below child member (spans.below member) (spansHere child member)

namespace FlattensPlainly

variable {options : Options} {node child tree : Node}

theorem below (plainly : FlattensPlainly options node) (walked : isWalked node.kind = true)
    (member : child ∈ node.children) : FlattensPlainly options child :=
  fun lax => (plainly lax).below walked member

/-- The rows that are met below the children of formatting are plain. -/
theorem plainRows (plainly : FlattensPlainly options node)
    (formatting : isFormatting node.kind = true) (lax : options.nesting = .flatten)
    (member : child ∈ node.children) : Met (PlainRow options) child :=
  ((plainly lax).here formatting).below (isWalked_of_formatting formatting) member

/-- The strict policy flattens nothing. -/
theorem of_reject (rejects : options.nesting = .reject) : FlattensPlainly options tree := by
  intro lax
  rw [rejects] at lax
  cases lax

/-- A separator without NUL spoils no row. -/
theorem of_nulFree (plain : ∀ separator ∈ options.cellSeparator, NulFree separator.toList) :
    FlattensPlainly options tree :=
  fun _ => Met.of_everywhere fun _ _ _ => Met.of_everywhere fun _ _ _ => plain

/-- Without rows, no row is flattened. -/
theorem of_noRow (noRow : tree.Everywhere fun inner => inner.kind ≠ .tableRow) :
    FlattensPlainly options tree := by
  refine fun _ => met_iff_at?.mpr fun path span found _ _ => met_iff_at?.mpr ?_
  intro rest inner foundInside _ row
  have reached : tree.at? (path ++ rest) = some inner := by
    rw [Node.at?_append, found, Option.bind_some, foundInside]
  exact absurd row (noRow inner (Node.mem_walk_iff.mpr ⟨_, reached⟩))

/-- Where formatting holds no block, no row is flattened. -/
theorem of_spans (spans : tree.Everywhere SpansOnly) : FlattensPlainly options tree := by
  intro lax
  induction tree using Node.induction_on_children with
  | step node below =>
      refine met_iff.mpr ⟨fun formatting => met_iff.mpr ⟨fun row => ?_, ?_⟩, ?_⟩
      · rw [row] at formatting
        cases formatting
      · exact fun _ child member =>
          plainRows_of_span (spans.below member) (spans.here formatting child member)
      · exact fun _ child member => below child member (spans.below member)

/-- Which rows are flattened depends on the kinds of a tree. -/
theorem of_matches {related : Path → Node → Node → Prop} {new : Node}
    (plainly : FlattensPlainly options tree) (matching : tree.Matches related new)
    (kinds : ∀ path given now, related path given now → now.kind = given.kind) :
    FlattensPlainly options new := by
  intro lax
  refine (plainly lax).of_matches matching kinds fun path given now inside rows formatting => ?_
  rw [kinds _ given now inside.here] at formatting
  refine Met.of_matches (rows formatting) inside (fun rest => kinds (path ++ rest)) ?_
  intro rest givenRow nowRow deeper plain row
  exact plain ((kinds _ givenRow nowRow deeper.here).symm.trans row)

end FlattensPlainly

end Layout
end Galley
