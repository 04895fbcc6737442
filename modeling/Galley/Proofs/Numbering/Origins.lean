import Galley.Proofs.Document.Matching
import Galley.Proofs.Numbering.Visit

/-!
# Where annotated nodes come from

The pass keeps the shape of the tree: each annotated node comes from the node at the
same path.  What it is made of is that node, the place of that node, and the marks of
the annotated items around it; the stack of open marks holds exactly those marks.
-/

namespace Galley
namespace Numbering

/-- The marks of the items that enclose a path, outermost first. -/
def marksAbove (tree : Node) (path : Path) : List String :=
  (tree.ancestorsAt path).reverse.filterMap openedMark?

@[simp] theorem marksAbove_nil (tree : Node) : marksAbove tree [] = [] := rfl

/-- The mark of a node stands in front of the marks below it. -/
theorem marksAbove_cons
    {tree child : Node} {index : Nat}
    (member : tree.children[index]? = some child)
    (path : Path) :
    marksAbove tree (index :: path) = (openedMark? tree).toList ++ marksAbove child path := by
  unfold marksAbove
  rw [Node.ancestorsAt, member]
  cases mark : openedMark? tree <;> simp [mark]

/-- An annotated node comes from a node at a place while some marks are open. -/
structure Becomes (opened : List String) (place : Place) (given now : Node) : Prop where
  /-- The kind is kept. -/
  kind : now.kind = given.kind
  /-- So is the label. -/
  label : now.label? = given.label?
  /-- Only headings and items gain options. -/
  options : given.kind ≠ .header → given.kind ≠ .listItem → now.options = given.options
  /-- Only headings and items gain marks. -/
  payload : given.kind ≠ .header → given.kind ≠ .listItem → now.payload = given.payload
  /-- An item is marked by its position and completed by the open marks. -/
  item : given.kind = .listItem → ∃ (position : Nat) (payload : Payload),
    now.position? = some (.int position) ∧
      itemPayload given.payload place position = .ok payload ∧
      now.payload = chainMarks opened payload

/-- A visit makes a node of the given one and opens no marks, whatever is put below the
node. -/
theorem visit_becomes (node : Node) (place : Place) (state : State) :
    Meets (visit node place) state (fun _ => True) fun new after =>
      after.openMarks = state.openMarks ∧
        ∀ below, Becomes state.openMarks place node { new with children := below } := by
  unfold visit
  split
  · rename_i header
    refine (visitHeading_meets node place state).mono (fun _ _ => trivial) ?_
    rintro new after ⟨marks, -, rfl, log, rfl⟩
    refine ⟨rfl, fun below => ⟨rfl, label?_positioned node .none _,
      fun other => absurd header other,
      fun other => absurd header other, fun item => ?_⟩⟩
    rw [header] at item
    cases item
  · rename_i item
    refine (visitItem_meets node place state).mono (fun _ _ => trivial) ?_
    rintro new after ⟨payload, made, rfl, log, rfl⟩
    refine ⟨rfl, fun below => ⟨rfl, label?_positioned node .none _,
      fun _ other => absurd item other,
      fun _ other => absurd item other, fun _ => ⟨_, payload, ?_, made, rfl⟩⟩⟩
    simp [Node.position?, positioned]
  · rename_i label
    refine (visitLabel_meets node place state label _).imp ?_
    rintro new after ⟨rfl, log, rfl⟩
    exact ⟨rfl, fun below => ⟨rfl, rfl, fun _ _ => rfl, fun _ _ => rfl, by simp [label]⟩⟩
  · exact Meets.stop trivial
  · rename_i notItem _ _
    exact Meets.give ⟨rfl, fun below =>
      ⟨rfl, rfl, fun _ _ => rfl, fun _ _ => rfl, fun item => absurd item notItem⟩⟩

/-- Annotating a node restores the open marks, and each node of the new tree comes from
the node at the same path under the marks of the new items around it. -/
theorem annotate_becomes
    {tree node : Node} {base : Path}
    (found : tree.at? base = some node)
    (state : State) :
    Meets (annotate node (Place.ofPath tree base)) state (fun _ => True) fun new after =>
      after.openMarks = state.openMarks ∧
        node.Matches
          (fun path => Becomes (state.openMarks ++ marksAbove new path)
            (Place.ofPath tree (base ++ path))) new := by
  induction node using Node.induction_on_children generalizing base state with
  | step node below =>
      have siblings (members : List Node) (index : Nat) (state : State)
          (known : node.children.drop index = members) :
          Meets (annotateSiblings members node (Place.ofPath tree base) index) state
            (fun _ => True) fun news after =>
              after.openMarks = state.openMarks ∧
                ∀ step, Option.Rel
                  (fun child now => Node.Matches
                    (fun path => Becomes (state.openMarks ++ marksAbove now path)
                      (Place.ofPath tree (base ++ (index + step) :: path))) child now)
                  members[step]? news[step]? := by
        induction members generalizing index state with
        | nil => exact Meets.give ⟨rfl, fun _ => Option.Rel.none⟩
        | cons child rest inductionHypothesis =>
            have member : node.children[index]? = some child := by
              have opened : (node.children.drop index)[0]? = some child := by rw [known]; rfl
              rwa [List.getElem?_drop] at opened
            have later : node.children.drop (index + 1) = rest := by
              simpa using congrArg List.tail known
            rw [annotateSiblings, ← Place.ofPath_append_singleton found member]
            refine Meets.bind (below child (List.mem_of_getElem? member)
              ((Node.at?_append_singleton found index).trans member) state) ?_
            rintro first middle ⟨restored, matching⟩
            refine Meets.bind (inductionHypothesis (index + 1) middle later) ?_
            rintro others after ⟨restoredAfter, each⟩
            refine Meets.give ⟨restoredAfter.trans restored, fun step => ?_⟩
            cases step with
            | zero =>
                simp only [List.append_assoc, List.singleton_append] at matching
                exact Option.Rel.some matching
            | succ step =>
                have shifted := each step
                rw [restored, show index + 1 + step = index + (step + 1) by omega] at shifted
                simpa using shifted
      obtain ⟨kind, payload, attributes, options, children⟩ := node
      rw [annotate]
      refine Meets.bind (visit_becomes _ (Place.ofPath tree base) state)
        fun numbered visited becomes => ?_
      obtain ⟨kept, made⟩ := becomes
      dsimp only
      refine Meets.change_bind (Meets.bind (siblings children 0 _ (by simp)) ?_)
      rintro news after ⟨restored, each⟩
      refine Meets.change_bind (Meets.give ⟨?_, ?_⟩)
      · -- What was opened for the children is taken back.
        rw [restored, kept]
        simp
      · refine Node.Matches.of_children (by simpa using made news) fun index => ?_
        have inside := each index
        dsimp only at inside ⊢
        cases member : children[index]? <;> cases now : news[index]? <;>
          simp only [member, now, Option.rel_some_some, Option.not_rel_some_none,
            Option.not_rel_none_some, Option.rel_none_none] at inside ⊢
        rw [kept, Nat.zero_add] at inside
        intro path
        have above : marksAbove { numbered with children := news } (index :: path) =
            (openedMark? numbered).toList ++ marksAbove _ path := marksAbove_cons now path
        dsimp only
        rw [above, ← List.append_assoc]
        exact inside path

/-- Each node of the annotated tree comes from the node at the same path. -/
theorem resolve_becomes
    {tree : Node} {numbered : Numbered}
    (returned : (resolve tree).1 = .ok numbered) :
    tree.Matches
      (fun path => Becomes (marksAbove numbered.tree path) (Place.ofPath tree path))
      numbered.tree := by
  refine resolve_meets
    (fun numbered => tree.Matches
      (fun path => Becomes (marksAbove numbered.tree path) (Place.ofPath tree path)) numbered.tree)
    returned ((annotate_becomes (Node.at?_nil tree) {}).imp ?_)
  rintro annotated after ⟨-, matching⟩
  exact matching

end Numbering
end Galley
