import Galley.Proofs.Layout.Shapes
import Galley.Proofs.Numbering.Members

/-!
# References

The text of a reference in a numbered tree is what the reference means in the tree: the
pass and its tables agree with the declarations, anchors and siblings that the tree
itself has.
-/

namespace Galley
namespace Numbering

/-! ## Labels -/

/-- A declared label leads to what it was declared for; the others stay. -/
theorem lookup_declare (table : LabelTable) (label name : String) (path : Path) :
    (table.declare label path).lookup name =
      if name = label then some path else table.lookup name := by
  induction table with
  | nil =>
      by_cases same : name = label
      · simp [LabelTable.declare, same]
      · have apart : (name == label) = false := by simpa using same
        simp [LabelTable.declare, List.lookup_cons, same, apart]
  | cons entry rest inductionHypothesis =>
      obtain ⟨known, place⟩ := entry
      by_cases replaced : known = label
      · subst replaced
        by_cases same : name = known
        · simp [LabelTable.declare, same]
        · have apart : (name == known) = false := by simpa using same
          simp [LabelTable.declare, List.lookup_cons, same, apart]
      · simp only [LabelTable.declare, replaced, if_false, List.lookup_cons, inductionHypothesis]
        by_cases same : name = known
        · subst same
          simp [replaced]
        · have apart : (name == known) = false := by simpa using same
          simp [apart]

/-- The last declaration of a label wins. -/
theorem lookup_declareAll (table : LabelTable) (declared : List (String × Path)) (name : String) :
    (table.declareAll declared).lookup name =
      (declared.reverse.lookup name).or (table.lookup name) := by
  induction declared generalizing table with
  | nil => rfl
  | cons entry rest inductionHypothesis =>
      obtain ⟨label, path⟩ := entry
      have unfolded : table.declareAll ((label, path) :: rest) =
          (table.declare label path).declareAll rest := rfl
      rw [unfolded, inductionHypothesis, lookup_declare, List.reverse_cons, List.lookup_append]
      by_cases same : name = label
      · subst same
        simp
      · have apart : (name == label) = false := by simpa using same
        simp [same, List.lookup_cons, apart]

/-! ## Runs of signs -/

theorem dropFinalNewline_run {sign : Char} {count : Nat} {expression : String}
    (plain : sign ≠ '\n')
    (run : IsRun sign count expression) :
    dropFinalNewline expression.toList = List.replicate count sign := by
  obtain ⟨positive, bare | closed⟩ := run
  · have last : (List.replicate count sign).getLast? ≠ some '\n' := by
      intro same
      exact plain (List.eq_of_mem_replicate (List.mem_of_getLast? same)).symm
    rw [bare, dropFinalNewline, if_neg last]
  · rw [closed, dropFinalNewline, if_pos (by simp), List.dropLast_concat]

theorem offset?_plus {count : Nat} {expression : String} (run : IsRun '+' count expression) :
    offset? expression = some (count : Int) := by
  obtain ⟨more, rfl⟩ : ∃ more, count = more + 1 := ⟨count - 1, by have := run.1; omega⟩
  simp [offset?, dropFinalNewline_run (by decide) run, List.replicate_succ]

theorem offset?_minus {count : Nat} {expression : String} (run : IsRun '-' count expression) :
    offset? expression = some (-(count : Int)) := by
  obtain ⟨more, rfl⟩ : ∃ more, count = more + 1 := ⟨count - 1, by have := run.1; omega⟩
  simp [offset?, dropFinalNewline_run (by decide) run, List.replicate_succ]

/-- Only runs of one sign denote an offset. -/
theorem isRun_of_offset?
    {expression : String} {offset : Int}
    (denoted : offset? expression = some offset) :
    ∃ count, IsRun '+' count expression ∨ IsRun '-' count expression := by
  have whole : ∀ sign, (∀ other ∈ dropFinalNewline expression.toList, other = sign) →
      dropFinalNewline expression.toList ≠ [] →
      IsRun sign (dropFinalNewline expression.toList).length expression := by
    intro sign uniform more
    refine ⟨List.length_pos_iff.mpr more, ?_⟩
    have run : dropFinalNewline expression.toList =
        List.replicate (dropFinalNewline expression.toList).length sign :=
      List.eq_replicate_iff.mpr ⟨rfl, uniform⟩
    rw [← run]
    unfold dropFinalNewline
    split
    · rename_i closed
      exact Or.inr (List.dropLast_append_getLast? _ closed).symm
    · exact Or.inl rfl
  unfold offset? at denoted
  split at denoted
  · simp at denoted
  · rename_i sign rest shown
    have more : dropFinalNewline expression.toList ≠ [] := by simp [shown]
    dsimp only at denoted
    split at denoted
    · rename_i plus
      rw [← shown] at plus
      exact ⟨_, Or.inl (whole '+' (by simpa using plus) more)⟩
    · split at denoted
      · rename_i minus
        rw [← shown] at minus
        exact ⟨_, Or.inr (whole '-' (by simpa using minus) more)⟩
      · simp at denoted

/-! ## The numbered tree -/

/-- The tables of a numbered tree hold what the tree itself holds. -/
structure Tabulated (numbered : Numbered) : Prop where
  /-- The labels are declared in document order. -/
  labels : numbered.labels = LabelTable.declareAll [] (declarations numbered.tree)
  /-- Headings are grouped by their parent. -/
  headings : ∀ scope, numbered.headings.group scope =
    membersIn .header scope (numbered.tree.located [])
  /-- So are items. -/
  items : ∀ scope, numbered.items.group scope =
    membersIn .listItem scope (numbered.tree.located [])
  /-- Positions lead back to headings. -/
  headingPositions : PositionsIn .header numbered.headings (numbered.tree.located [])
  /-- Positions lead back to items. -/
  itemPositions : PositionsIn .listItem numbered.items (numbered.tree.located [])

theorem declared_placed (tree : Node) :
    (tree.placed Place.root).filterMap (fun entry => declared? entry.2 entry.1) =
      declarations tree := by
  have places := Node.placed_eq_located (Node.at?_nil tree)
  rw [Place.ofPath_nil] at places
  rw [places, declarations, List.filterMap_map]
  refine List.filterMap_congr fun entry present => ?_
  obtain ⟨rest, place, found⟩ := Node.mem_located_iff.mp present
  rw [List.nil_append] at place
  exact declared?_ofPath (place ▸ found)

/-- The pass gathers what the annotated tree holds. -/
theorem resolve_tabulated
    {tree : Node} {numbered : Numbered}
    (returned : (resolve tree).1 = .ok numbered) :
    Tabulated numbered := by
  have alike : Alike Place.root Place.root := ⟨rfl, rfl, rfl, rfl⟩
  refine resolve_meets Tabulated returned ((annotate_gathered tree Place.root {} rfl).imp ?_)
  rintro annotated after ⟨-, gathered⟩
  have found := gathered Place.root alike
  refine ⟨?_, fun scope => ?_, fun scope => ?_, found.headingPositions, found.itemPositions⟩
  · rw [found.labels, declared_placed]
  · rw [found.headings, group_enroll]
    rfl
  · rw [found.items, group_enroll]
    rfl

/-- The only member of the scope above the root is the root, at the first position. -/
theorem eq_zero_of_member_above
    {tree : Node} {kind : Kind} {position : Nat} {path : Path}
    (found : (membersIn kind none (tree.located []))[position]? = some path) :
    position = 0 := by
  rw [membersIn_located_none] at found
  split at found
  · have inside := (List.getElem?_eq_some_iff.mp found).1
    simpa using inside
  · simp at found

/-- A step from a position, forward or backward. -/
theorem relative_signed
    (table : PositionTable (Option Path) Path)
    (scope : Option Path) (position count : Nat) (forward : Bool) :
    table.relative scope position (if forward then (count : Int) else -(count : Int)) =
      if forward then (table.group scope)[position + count]?
      else if count ≤ position then (table.group scope)[position - count]? else none := by
  unfold PositionTable.relative
  cases forward with
  | true =>
      have ahead : ¬ (position : Int) + (count : Int) < 0 := by omega
      simp only [if_true, ahead, if_false]
      congr 1
  | false =>
      by_cases reached : count ≤ position
      · have inside : ¬ (position : Int) + -(count : Int) < 0 := by omega
        simp only [Bool.false_eq_true, if_false, inside, reached, if_true]
        congr 1
        omega
      · have below : (position : Int) + -(count : Int) < 0 := by omega
        simp [below, reached]

/-- Steps in a table lead to siblings in the tree. -/
theorem stepFrom?_eq_siblingAt?
    {numbered : Numbered} {kind : Kind} {table : PositionTable (Option Path) Path}
    (groups : ∀ scope, table.group scope = membersIn kind scope (numbered.tree.located []))
    (positions : PositionsIn kind table (numbered.tree.located []))
    {anchor : Path} {node : Node}
    (found : numbered.tree.at? anchor = some node)
    (sameKind : node.kind = kind)
    (forward : Bool) {count : Nat} (moves : 0 < count) :
    numbered.stepFrom? table anchor (if forward then (count : Int) else -(count : Int)) =
      siblingAt? numbered.tree kind anchor forward count := by
  have listed : (anchor, node) ∈ numbered.tree.located [] :=
    Node.mem_located_iff.mpr ⟨anchor, by simp, found⟩
  obtain ⟨position, known, member⟩ := positions anchor node listed sameKind
  have placed : numbered.positionAt? anchor = some (position : Int) := by
    simp [Numbered.positionAt?, found, known, Datum.number?]
  rw [groups] at member
  rw [Numbered.stepFrom?, placed, Option.bind_some, relative_signed, groups, siblingAt?]
  cases scope : Path.parent? anchor with
  | none =>
      -- The root has no siblings: a step from its position leaves its scope.
      rw [scope] at member
      obtain rfl := eq_zero_of_member_above member
      have away : (membersIn kind none (numbered.tree.located []))[count]? = none := by
        refine Option.eq_none_iff_forall_ne_some.mpr fun path other => ?_
        have := eq_zero_of_member_above other
        omega
      have stuck : ¬ count ≤ 0 := by omega
      simp [away, stuck]
  | some above =>
      rw [scope, membersIn_located] at member
      rw [membersIn_located, Option.bind_some]
      have distinct := membersOf_nodup numbered.tree kind above
      cases forward with
      | true => exact (getElem?_dropWhile_ne distinct member count).symm
      | false => exact (getElem?_reverse_dropWhile_ne distinct member count).symm

/-- What the tree has above a path is a node of the tree. -/
theorem exists_of_nearestAbove
    {tree : Node} {kinds : List Kind} {path anchor : Path}
    (nearest : nearestAbove tree kinds path = some anchor) :
    ∃ node, tree.at? anchor = some node ∧ node.kind ∈ kinds := by
  have holds := List.find?_some nearest
  cases found : tree.at? anchor with
  | none => simp [found] at holds
  | some node => exact ⟨node, rfl, by simpa [found] using holds⟩

/-- Relative references lead where the tree says. -/
theorem relativeTarget?_eq_relativeAt?
    {numbered : Numbered}
    (tabulated : Tabulated numbered)
    {path : Path} {node : Node}
    (found : numbered.tree.at? path = some node)
    (forward : Bool) {count : Nat} (moves : 0 < count) :
    numbered.relativeTarget? (Place.ofPath numbered.tree path)
        (if forward then (count : Int) else -(count : Int)) =
      relativeAt? numbered.tree path forward count := by
  unfold Numbered.relativeTarget? relativeAt? anchor?
  rw [nearest?_ofPath _ found, nearest?_ofPath _ found]
  cases heading : nearestAbove numbered.tree [.header] path with
  | some anchor =>
      obtain ⟨target, there, sameKind⟩ := exists_of_nearestAbove heading
      exact stepFrom?_eq_siblingAt? tabulated.headings tabulated.headingPositions there
        (List.mem_singleton.mp sameKind) forward moves
  | none =>
      cases item : nearestAbove numbered.tree [.listItem] path with
      | some anchor =>
          obtain ⟨target, there, sameKind⟩ := exists_of_nearestAbove item
          exact stepFrom?_eq_siblingAt? tabulated.items tabulated.itemPositions there
            (List.mem_singleton.mp sameKind) forward moves
      | none => rfl

/-! ## Texts -/

/-- A mark that is shown, and the text where none is. -/
theorem formatReference_markAt?
    (numbered : Numbered) (target : Option Path) :
    (formatReference (target.bind numbered.markAt?)).getD unresolvedText =
      shownMark numbered.tree target := by
  have marks : target.bind numbered.markAt? =
      (target.bind numbered.tree.at?).bind Node.fullMark? := by
    cases target <;> rfl
  rw [marks, formatReference.eq_def, shownMark]
  cases (target.bind numbered.tree.at?).bind Node.fullMark? with
  | none => rfl
  | some mark =>
      by_cases empty : mark = ""
      · subst empty
        rfl
      · have shown : mark.isEmpty = false := by simpa using empty
        simp [empty, shown]

/-- A label that is declared decides what is looked up. -/
theorem lookUp_label
    {numbered : Numbered} {place : Place} {expression : String} {target : Path}
    (declared : numbered.labels.lookup expression = some target) :
    (numbered.lookUp place expression).1 = shownMark numbered.tree (some target) := by
  rw [← formatReference_markAt?, Option.bind_some, Numbered.lookUp, declared]
  dsimp only
  cases formatReference (numbered.markAt? target) <;> rfl

/-- Where no label is declared, the offset that a run denotes decides. -/
theorem lookUp_offset
    {numbered : Numbered} {place : Place} {expression : String} {offset : Int}
    (undeclared : numbered.labels.lookup expression = none)
    (denoted : offset? expression = some offset) :
    (numbered.lookUp place expression).1 =
      shownMark numbered.tree (numbered.relativeTarget? place offset) := by
  rw [← formatReference_markAt?, Numbered.lookUp, undeclared, denoted]
  dsimp only
  cases formatReference ((numbered.relativeTarget? place offset).bind numbered.markAt?) <;> rfl

/-- The text of a reference is the one it means. -/
theorem lookUp_meaning
    {numbered : Numbered}
    (tabulated : Tabulated numbered)
    {path : Path} {node : Node}
    (found : numbered.tree.at? path = some node)
    (expression : String) :
    ReferenceMeaning numbered.tree path expression
      (numbered.lookUp (Place.ofPath numbered.tree path) expression).1 := by
  have labels : numbered.labels.lookup expression = lastDeclared? numbered.tree expression := by
    rw [tabulated.labels, lookup_declareAll]
    simp [lastDeclared?]
  constructor
  · intro target declared
    exact lookUp_label (labels.trans declared)
  · intro undeclared count run
    rw [lookUp_offset (labels.trans undeclared) (offset?_plus run)]
    exact congrArg _ (relativeTarget?_eq_relativeAt? tabulated found true run.1)
  · intro undeclared count run
    rw [lookUp_offset (labels.trans undeclared) (offset?_minus run)]
    exact congrArg _ (relativeTarget?_eq_relativeAt? tabulated found false run.1)
  · intro undeclared noRun
    have silent : offset? expression = none := by
      refine Option.eq_none_iff_forall_ne_some.mpr fun offset denoted => ?_
      obtain ⟨count, plus | minus⟩ := isRun_of_offset? denoted
      · exact (noRun count).1 plus
      · exact (noRun count).2 minus
    rw [Numbered.lookUp, labels.trans undeclared, silent]
    rfl

/-- In a whole rendering a reference never stops the conversion, and its text is what it
means in the numbered tree. -/
theorem convert_reference
    {tree : Node} {numbered : Numbered}
    (returned : (resolve tree).1 = .ok numbered)
    {path : Path} {node : Node}
    (found : numbered.tree.at? path = some node)
    (reference : node.kind = .reference)
    (options : Layout.Options) (indent : Nat) (workspace : Layout.Workspace) :
    ∃ text log, ReferenceMeaning numbered.tree path node.payload.content text ∧
      outcome
          (Layout.convert { options := options, numbered := some numbered } node
            (Place.ofPath numbered.tree path) indent) workspace =
        (.ok (Layout.finish { options := options, numbered := some numbered } node text.toList),
          { workspace with log := log }) := by
  have meaning := lookUp_meaning (resolve_tabulated returned) found node.payload.content
  refine ⟨_, workspace.log ++
    (numbered.lookUp (Place.ofPath numbered.tree path) node.payload.content).2.toList, meaning, ?_⟩
  have leaf : Layout.shape options node = .leaf := by simp [Layout.shape, reference]
  have known : node.kind.isKnown = true := by rw [reference]; rfl
  rw [Layout.convert_eq_bareText _ _ _ known, outcome_bind, Layout.bareText, leaf]
  dsimp only
  rw [Layout.leafText, reference]
  dsimp only
  rw [Layout.outcome_referenceText]
  rfl

/-- Two headings, with a reference one step forward under the first. -/
def twoHeadings : Node :=
  { kind := .root
    children := [
      { kind := .header
        children := [{ kind := .reference, payload := .text "+" }] },
      { kind := .header }] }

/-- What the pass makes of the two headings. -/
def twoHeadingsNumbered : Numbered where
  tree :=
    { kind := .root
      children := [
        { kind := .header
          payload := .heading { level := .one, mark := some "1", fullMark := some "1" }
          options := [(Node.positionKey, .int 0)]
          children := [{ kind := .reference, payload := .text "+" }] },
        { kind := .header
          payload := .heading { level := .one, mark := some "2", fullMark := some "2" }
          options := [(Node.positionKey, .int 1)] }] }
  labels := []
  headings := { entries := [[0], [1]], groups := [(some [], [[0], [1]])] }
  items := {}

/-- The reference under the first of two headings shows the section number of the
second. -/
theorem convert_reference_twoHeadings :
    (resolve twoHeadings).1 = .ok twoHeadingsNumbered ∧
      ∃ log, outcome
          (Layout.convert { options := {}, numbered := some twoHeadingsNumbered }
            { kind := .reference, payload := .text "+" }
            (Place.ofPath twoHeadingsNumbered.tree [0, 0]) 0) {} =
        (.ok ['(', '2', ')'], { log := log }) := by
  have resolved : (resolve twoHeadings).1 = .ok twoHeadingsNumbered := rfl
  have found : twoHeadingsNumbered.tree.at? [0, 0] =
      some { kind := .reference, payload := .text "+" } := rfl
  obtain ⟨text, log, meaning, converted⟩ := convert_reference resolved found rfl {} 0 {}
  have next : relativeAt? twoHeadingsNumbered.tree [0, 0] true 1 = some [1] := by decide
  have shown := meaning.ofPlus rfl 1 ⟨by decide, Or.inl rfl⟩
  rw [next] at shown
  obtain rfl : text = "(2)" := shown
  exact ⟨resolved, log, converted⟩

end Numbering
end Galley
