import Galley.Text.Numeral
import Galley.Text.Quoted

/-!
# Dynamic values

Node metadata and tokens carry values whose type is not fixed: null, truth values,
integers, texts, lists and dictionaries.  This module holds the type, its truth test,
its equality (in which a truth value equals the integer it stands for), and its two
spellings: the display, in which a text stands for itself, and the quoted form.
-/

namespace Galley

/-- A value of no fixed type. -/
inductive Datum where
  | null
  | bool (value : Bool)
  | int (value : Int)
  | text (value : String)
  | list (items : List Datum)
  | dict (entries : List (String × Datum))
  deriving Repr, Inhabited

/-- Named values in the order in which they were given. -/
abbrev Fields := List (String × Datum)

namespace Fields

/-- The value under a name. -/
def get? (fields : Fields) (name : String) : Option Datum :=
  fields.lookup name

/-- The value under a name, or a default where the name is absent. -/
def getD (fields : Fields) (name : String) (fallback : Datum) : Datum :=
  (fields.get? name).getD fallback

/-- Put a value under a name: in place where the name is known, else at the end. -/
def set : Fields → String → Datum → Fields
  | [], name, value => [(name, value)]
  | (key, present) :: rest, name, value =>
      if key = name then (key, value) :: rest else (key, present) :: set rest name value

@[simp] theorem get?_set_self (fields : Fields) (name : String) (value : Datum) :
    (fields.set name value).get? name = some value := by
  induction fields with
  | nil => simp [set, get?]
  | cons field rest inductionHypothesis =>
      obtain ⟨key, present⟩ := field
      simp only [get?] at inductionHypothesis
      by_cases same : key = name
      · simp [set, get?, same]
      · have apart : (name == key) = false := by simpa using Ne.symm same
        simp [set, get?, same, apart, List.lookup_cons, inductionHypothesis]

/-- Putting a value under one name leaves the values under the others. -/
theorem get?_set_of_ne (fields : Fields) {name other : String} (value : Datum)
    (different : other ≠ name) : (fields.set name value).get? other = fields.get? other := by
  have apart : (other == name) = false := by simpa using different
  induction fields with
  | nil => simp [set, get?, List.lookup_cons, apart]
  | cons field rest inductionHypothesis =>
      obtain ⟨key, present⟩ := field
      simp only [get?] at inductionHypothesis
      by_cases same : key = name
      · subst same
        simp [set, get?, List.lookup_cons, apart]
      · simp only [set, same, if_false, get?, List.lookup_cons, inductionHypothesis]

/-- Of two values put under one name the second stays. -/
@[simp] theorem set_set (fields : Fields) (name : String) (first second : Datum) :
    (fields.set name first).set name second = fields.set name second := by
  induction fields with
  | nil => simp [set]
  | cons field rest inductionHypothesis =>
      obtain ⟨key, present⟩ := field
      by_cases same : key = name <;> simp [set, same, inductionHypothesis]

end Fields

namespace Datum

/-- The integer that a truth value stands for. -/
def ofTruth (value : Bool) : Int :=
  if value then 1 else 0

/-- Null, false, zero and everything empty are not truthy. -/
def isTruthy : Datum → Bool
  | .null => false
  | .bool value => value
  | .int value => value != 0
  | .text value => !value.isEmpty
  | .list items => !items.isEmpty
  | .dict entries => !entries.isEmpty

/-- The text that a value is. -/
def text? : Datum → Option String
  | .text value => some value
  | _ => none

/-- An integer or the integer that a truth value stands for. -/
def number? : Datum → Option Int
  | .bool value => some (ofTruth value)
  | .int value => some value
  | _ => none

mutual

/-- Equality of values; a truth value equals its integer, and the order of dictionary
entries is immaterial. -/
def same : Datum → Datum → Bool
  | .null, .null => true
  | .bool left, .bool right => left == right
  | .bool left, .int right => ofTruth left == right
  | .int left, .bool right => left == ofTruth right
  | .int left, .int right => left == right
  | .text left, .text right => left == right
  | .list left, .list right => sameItems left right
  | .dict left, .dict right => left.length == right.length && sameEntries left right
  | _, _ => false

/-- Equality of value lists, place by place. -/
def sameItems : List Datum → List Datum → Bool
  | [], [] => true
  | left :: lefts, right :: rights => left.same right && sameItems lefts rights
  | _, _ => false

/-- Every entry on the left has an equal one on the right. -/
def sameEntries : List (String × Datum) → List (String × Datum) → Bool
  | [], _ => true
  | (name, left) :: lefts, rights =>
      (match rights.lookup name with
        | some right => left.same right
        | none => false) && sameEntries lefts rights

end

mutual

/-- The form of a value inside messages and inside other values. -/
def quoted : Datum → String
  | .null => "None"
  | .bool value => if value then "True" else "False"
  | .int value => toString value
  | .text value => Text.quoted value
  | .list items => "[" ++ ", ".intercalate (quotedItems items) ++ "]"
  | .dict entries => "\x7b" ++ ", ".intercalate (quotedEntries entries) ++ "\x7d"

/-- The forms of the items of a list. -/
def quotedItems : List Datum → List String
  | [] => []
  | item :: rest => item.quoted :: quotedItems rest

/-- The forms of the entries of a dictionary. -/
def quotedEntries : List (String × Datum) → List String
  | [] => []
  | (name, value) :: rest => (Text.quoted name ++ ": " ++ value.quoted) :: quotedEntries rest

end

/-- The text of a value: a text stands for itself, everything else for its quoted form. -/
def display : Datum → String
  | .text value => value
  | value => value.quoted

@[simp] theorem display_text (value : String) : (Datum.text value).display = value := rfl

end Datum

end Galley
