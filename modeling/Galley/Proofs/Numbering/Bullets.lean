import Galley.Proofs.Layout.Shapes
import Galley.Proofs.Numbering.Annotation
import Galley.Proofs.Numbering.Stability

/-!
# What bullets are made of

The bullets of a numbered tree are made of the marks that its headings and items came
with and of graphic characters, since all marks that the pass makes are numerals and
letters.
-/

namespace Galley
namespace Numbering

open Text

/-- The mark that a heading or an item came with, as it stands in a bullet. -/
def broughtMark? (node : Node) : Option String :=
  match node.kind, node.payload with
  | .header, .heading marks => marks.fullMark
  | .listItem, .item marks => some marks.mark
  | .listItem, .data (.text mark) => some mark
  | _, _ => none

section Allowed

variable {allowed : Char → Prop}

/-- The bullet of a node is made of allowed characters. -/
def BulletOf (allowed : Char → Prop) (node : Node) : Prop :=
  ∀ options bullet, Layout.shape options node = .hanging bullet →
    ∀ character ∈ bullet, allowed character

/-- The mark that a node came with is made of allowed characters. -/
def BroughtOf (allowed : Char → Prop) (node : Node) : Prop :=
  ∀ mark ∈ broughtMark? node, ∀ character ∈ mark.toList, allowed character

instance [DecidablePred allowed] (node : Node) : Decidable (BroughtOf allowed node) :=
  have : DecidablePred fun mark : String => ∀ character ∈ mark.toList, allowed character :=
    fun mark => List.decidableBAll allowed mark.toList
  Option.decidableForallMem (broughtMark? node)

variable (graphic : ∀ text, Graphic text → ∀ character ∈ text, allowed character)

include graphic

/-- A heading shows the section number that it came with, or its counts. -/
theorem allowed_markHeading {node : Node} (header : node.kind = .header)
    (brought : BroughtOf allowed node) {marks : HeadingMark}
    (read : headingMarks node.payload node.options = .ok marks) (counters : List Nat) :
    ∀ number ∈ (markHeading counters marks).fullMark, ∀ character ∈ number.toList,
      allowed character := by
  obtain ⟨-, -, given⟩ := headingMarks_given read
  intro number shown
  cases supplied : marks.fullMark with
  | some own =>
      rw [fullMark_markHeading supplied] at shown
      obtain rfl := Option.some.inj shown
      apply brought own
      rw [supplied] at given
      unfold givenNumber? at given
      unfold broughtMark?
      rw [header]
      split at given
      · rename_i carried
        rw [carried]
        exact given.symm
      · cases given
  | none =>
      rw [markHeading, supplied] at shown
      obtain rfl := Option.some.inj shown
      exact graphic _ (graphic_sectionNumber counters)

/-- An item shows the mark that it came with, or its ordinal. -/
theorem allowed_itemPayload {node : Node} (item : node.kind = .listItem)
    (brought : BroughtOf allowed node) {place : Place} {position : Nat} {payload : Payload}
    (made : itemPayload node.payload place position = .ok payload) (opened : List String) :
    ∀ marks, chainMarks opened payload = .item marks →
      ∀ character ∈ marks.mark.toList, allowed character := by
  have known : ∀ marks, payload = .item marks →
      ∀ character ∈ marks.mark.toList, allowed character := by
    rintro marks rfl
    have own {mark : String} (carried : broughtMark? node = some mark) := brought mark carried
    unfold broughtMark? at own
    rw [item] at own
    unfold itemPayload at made
    split at made
    · rename_i mark carried
      rw [carried] at own
      split at made
      · have kept := carried.symm.trans (Except.ok.inj made)
        cases kept
      · obtain rfl := Payload.item.inj (Except.ok.inj made)
        exact own rfl
    · rename_i carried
      have kept (same : node.payload = .item marks) : False := by
        rw [carried] at same
        cases same
      split at made
      · split at made
        · obtain ⟨start, -, made⟩ := exists_of_bind_eq_ok made
          obtain rfl := Payload.item.inj (Except.ok.inj made)
          exact graphic _ (graphic_ordinal _ _)
        · exact (kept (Except.ok.inj made)).elim
      · exact (kept (Except.ok.inj made)).elim
    · have carried : node.payload = .item marks := Except.ok.inj made
      rw [carried] at own
      exact own rfl
  intro marks chained
  unfold chainMarks at chained
  split at chained
  · rename_i own
    split at chained
    · exact known marks chained
    · obtain rfl := Payload.item.inj chained
      exact known own rfl
  · exact known marks chained

/-- What a visit makes of a node with an allowed mark has an allowed bullet. -/
theorem visit_bullet (node : Node) (place : Place) (state : State) :
    Meets (visit node place) state (fun _ => True) fun new _ => ∀ below,
      BroughtOf allowed node → BulletOf allowed { new with children := below } := by
  have closing : ∀ character ∈ [')'], allowed character :=
    graphic _ (graphic_singleton.mpr (by decide))
  have others {new : Node} (noHeader : new.kind ≠ .header) (noItem : new.kind ≠ .listItem)
      (below : List Node) : BulletOf allowed { new with children := below } := by
    intro options bullet hanging
    rcases Layout.bullet_of_hanging hanging with ⟨header, -⟩ | ⟨item, -⟩
    · exact absurd header noHeader
    · exact absurd item noItem
  unfold visit
  split
  · rename_i header
    refine (visitHeading_meets node place state).mono (fun _ _ => trivial) ?_
    rintro new after ⟨marks, read, rfl, -⟩ below brought options bullet hanging
    rcases Layout.bullet_of_hanging hanging with ⟨-, found⟩ | ⟨item, -⟩
    · obtain ⟨mark, shown, rfl⟩ := Layout.eq_of_headingBullet? found
      have own := allowed_markHeading graphic header brought read _ mark shown
      exact List.forall_mem_append.mpr ⟨own, closing⟩
    · exact absurd (header.symm.trans item) (by decide)
  · rename_i item
    refine (visitItem_meets node place state).mono (fun _ _ => trivial) ?_
    rintro new after ⟨payload, made, rfl, -⟩ below brought options bullet hanging
    rcases Layout.bullet_of_hanging hanging with ⟨header, -⟩ | ⟨-, rfl⟩
    · exact absurd (item.symm.trans header) (by decide)
    · unfold Layout.itemBullet
      split
      · rename_i marks carried
        have own := allowed_itemPayload graphic item brought made _ marks carried
        have opening : ∀ character ∈ "(".toList, allowed character :=
          graphic _ (graphic_singleton.mpr (by decide))
        rw [String.toList_append, String.toList_append]
        exact List.forall_mem_append.mpr ⟨List.forall_mem_append.mpr ⟨opening, own⟩, closing⟩
      · exact graphic _ (graphic_singleton.mpr (by decide))
  · rename_i label
    refine (visitLabel_meets node place state label _).imp ?_
    rintro new after ⟨rfl, -⟩ below -
    exact others (by simp [label]) (by simp [label]) below
  · exact Meets.stop trivial
  · rename_i notHeader notItem _ _
    exact Meets.give fun below _ => others notHeader notItem below

/-- Where all marks that a tree came with are made of allowed characters, so are all
bullets of the numbered tree. -/
theorem resolve_bullet {tree : Node} {numbered : Numbered}
    (returned : (resolve tree).1 = .ok numbered) (brought : tree.Everywhere (BroughtOf allowed)) :
    numbered.tree.Everywhere (BulletOf allowed) := by
  have matching : tree.Matches
      (fun _ node new => BroughtOf allowed node → BulletOf allowed new) numbered.tree :=
    resolve_meets (fun numbered => tree.Matches
      (fun _ node new => BroughtOf allowed node → BulletOf allowed new) numbered.tree) returned
      (annotate_matches (visit_bullet graphic) tree Place.root {})
  exact matching.everywhere brought fun _ _ _ made => made

end Allowed

end Numbering
end Galley
