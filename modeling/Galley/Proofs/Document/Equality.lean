import Galley.Numbering.Pass

/-!
# Equality of trees

Equality of dynamic values, of nodes and of numbered trees is decidable, so that what a
computation makes of a given tree can be checked.
-/

namespace Galley

namespace Datum

mutual

/-- Whether two values are built alike. -/
def alike : Datum → Datum → Bool
  | .null, .null => true
  | .bool left, .bool right => left == right
  | .int left, .int right => left == right
  | .text left, .text right => left == right
  | .list left, .list right => alikeItems left right
  | .dict left, .dict right => alikeEntries left right
  | _, _ => false

/-- Whether two lists have values built alike. -/
def alikeItems : List Datum → List Datum → Bool
  | [], [] => true
  | left :: others, right :: others' => alike left right && alikeItems others others'
  | _, _ => false

/-- Whether two dictionaries have the same names in order, and values built alike. -/
def alikeEntries : List (String × Datum) → List (String × Datum) → Bool
  | [], [] => true
  | (name, left) :: others, (name', right) :: others' =>
      name == name' && alike left right && alikeEntries others others'
  | _, _ => false

end

mutual

/-- Values that are built alike are equal. -/
theorem alike_iff (left right : Datum) : alike left right = true ↔ left = right := by
  cases left with
  | null => cases right <;> simp [alike]
  | bool value => cases right <;> simp [alike]
  | int value => cases right <;> simp [alike]
  | text value => cases right <;> simp [alike]
  | list items => cases right <;> simp [alike, alikeItems_iff items]
  | dict entries => cases right <;> simp [alike, alikeEntries_iff entries]

theorem alikeItems_iff (left right : List Datum) : alikeItems left right = true ↔ left = right := by
  cases left with
  | nil => cases right <;> simp [alikeItems]
  | cons first others =>
      cases right with
      | nil => simp [alikeItems]
      | cons _ _ => simp [alikeItems, alike_iff first, alikeItems_iff others]

theorem alikeEntries_iff (left right : List (String × Datum)) :
    alikeEntries left right = true ↔ left = right := by
  cases left with
  | nil => cases right <;> simp [alikeEntries]
  | cons first others =>
      obtain ⟨name, value⟩ := first
      cases right with
      | nil => simp [alikeEntries]
      | cons _ _ => simp [alikeEntries, alike_iff value, alikeEntries_iff others, Prod.ext_iff]

end

instance : DecidableEq Datum := fun left right => decidable_of_iff _ (alike_iff left right)

end Datum

deriving instance DecidableEq for Payload

namespace Node

mutual

/-- Nodes are compared part by part. -/
def decideEq : (left right : Node) → Decidable (left = right)
  | ⟨kind, payload, attributes, options, children⟩,
      ⟨kind', payload', attributes', options', children'⟩ =>
      match decideEqBelow children children' with
      | isTrue same =>
          decidable_of_iff
            (kind = kind' ∧ payload = payload' ∧ attributes = attributes' ∧ options = options')
            (by simp [same])
      | isFalse differ => isFalse (by simp [differ])

/-- Siblings are compared one by one. -/
def decideEqBelow : (left right : List Node) → Decidable (left = right)
  | [], [] => isTrue rfl
  | [], _ :: _ => isFalse nofun
  | _ :: _, [] => isFalse nofun
  | first :: others, first' :: others' =>
      match decideEq first first' with
      | isTrue same =>
          match decideEqBelow others others' with
          | isTrue sameOthers => isTrue (by rw [same, sameOthers])
          | isFalse differ => isFalse (by simp [differ])
      | isFalse differ => isFalse (by simp [differ])

end

instance : DecidableEq Node := decideEq

end Node

namespace Numbering

deriving instance DecidableEq for PositionTable
deriving instance DecidableEq for Numbered

end Numbering

end Galley
