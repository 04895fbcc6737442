import Galley.Failure

/-!
# Positions in a sequence

Positions count from the start, or from the end where they are negative.  Iteration goes
up from the start and ends at the first position that has no entry.  A slice takes every
entry from a first position up to, but not including, a last one, in steps that may go
backward; bounds beyond the ends are moved to the ends.
-/

namespace Galley
namespace Sequence

/-- The entry at a position. -/
def get (items : List α) (position : Int) : Except Fault α :=
  let index := if position < 0 then position + items.length else position
  if index < 0 then .error .outOfRange
  else
    match items[index.toNat]? with
    | some item => .ok item
    | none => .error .outOfRange

theorem get_eq_ok_iff {items : List α} {position : Nat} {item : α} :
    get items position = .ok item ↔ items[position]? = some item := by
  have inside : ¬ (position : Int) < 0 := by omega
  cases present : items[position]? <;> simp [get, inside, present]

theorem length_le_of_get_eq_error {items : List α} {position : Nat} {fault : Fault}
    (missed : get items position = .error fault) : items.length ≤ position := by
  rcases Nat.lt_or_ge position items.length with inside | beyond
  · have present := get_eq_ok_iff.mpr (List.getElem?_eq_getElem inside)
    rw [missed] at present
    cases present
  · exact beyond

/-- The entries at the positions from a given one on, up to the first position that has
none. -/
def iterateFrom (items : List α) (position : Nat) : List α :=
  match found : get items position with
  | .ok item => item :: iterateFrom items (position + 1)
  | .error _ => []
termination_by items.length - position
decreasing_by
  have inside := (List.getElem?_eq_some_iff.mp (get_eq_ok_iff.mp found)).1
  omega

/-- The entries of a sequence, one after the other. -/
def iterate (items : List α) : List α :=
  iterateFrom items 0

/-- A bound of a slice, moved to the ends of the sequence. -/
def clampBound (length : Nat) (backward : Bool) (bound : Int) : Int :=
  let lowest : Int := if backward then -1 else 0
  let highest : Int := if backward then (length : Int) - 1 else length
  let position := if bound < 0 then bound + length else bound
  max lowest (min highest position)

/-- The positions of a slice. -/
def slicePositions (length : Nat) (start stop : Option Int) (step : Int) : List Nat :=
  let backward := decide (step < 0)
  let first := (start.map (clampBound length backward)).getD
    (if backward then (length : Int) - 1 else 0)
  let last := (stop.map (clampBound length backward)).getD (if backward then -1 else length)
  let distance := if backward then first - last else last - first
  let count := if distance ≤ 0 then 0 else ((distance - 1) / step.natAbs + 1).toNat
  (List.range count).map fun (index : Nat) => (first + step * (index : Int)).toNat

/-- The entries of a slice; a step of zero is refused. -/
def slice (items : List α) (start stop : Option Int) (step : Int) : Except Fault (List α) :=
  if step = 0 then .error (.value .zeroStep)
  else .ok ((slicePositions items.length start stop step).filterMap fun position =>
    items[position]?)

theorem iterateFrom_eq_drop (items : List α) (position : Nat) :
    iterateFrom items position = items.drop position := by
  fun_induction iterateFrom items position with
  | case1 position item found inductionHypothesis =>
      obtain ⟨inside, rfl⟩ := List.getElem?_eq_some_iff.mp (get_eq_ok_iff.mp found)
      rw [inductionHypothesis, List.drop_eq_getElem_cons inside]
  | case2 position fault missed =>
      exact (List.drop_eq_nil_of_le (length_le_of_get_eq_error missed)).symm

/-- Iteration passes over every entry once, in order. -/
@[simp] theorem iterate_eq (items : List α) : iterate items = items :=
  iterateFrom_eq_drop items 0

end Sequence
end Galley
