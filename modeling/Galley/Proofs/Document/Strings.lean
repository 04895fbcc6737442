import Galley.Proofs.Document.Everywhere
import Galley.Proofs.Text.Graphic

/-!
# Strings of a document

A value holds no NUL if it is no text with a NUL in it.  Values that are no texts are
shown in a form that escapes every character that cannot be printed, so what a node
shows holds no NUL where its strings hold none.
-/

namespace Galley

open Text

namespace Text

theorem nulFree_toDigits {base : Nat} (proper : 1 < base) (number : Nat) :
    NulFree (Nat.toDigits base number) :=
  (graphic_toDigits proper number).not_mem (by decide)

theorem nulFree_toString_int (number : Int) : NulFree (toString number).toList :=
  (graphic_toString_int number).not_mem (by decide)

/-- Every character that is not printable is quoted by an escape. -/
theorem nulFree_quotedChar {quote : Char} (plain : quote ≠ '\x00') (character : Char) :
    NulFree (quotedChar quote character) := by
  have padded (width number : Nat) : NulFree (paddedHex width number) := by
    refine nulFree_append.mpr ⟨fun present => ?_, nulFree_toDigits (by decide) number⟩
    have zero := List.eq_of_mem_replicate present
    exact absurd zero (by decide)
  have hidden : isPrintable '\x00' = false := by decide +kernel
  unfold quotedChar
  split
  · rename_i escaped
    have shown : character ≠ '\x00' := by
      rintro rfl
      simp [plain.symm] at escaped
    simp [shown]
  · split
    · decide
    · split
      · decide
      · split
        · decide
        · split
          · rename_i printable
            have shown : character ≠ '\x00' := by
              rintro rfl
              simp [hidden] at printable
            simp [shown]
          · unfold codePointEscape
            dsimp only
            split
            · exact nulFree_append.mpr ⟨by simp, padded _ _⟩
            · split <;> exact nulFree_append.mpr ⟨by simp, padded _ _⟩

/-- Quoted text holds no NUL. -/
theorem nulFree_quoted (text : String) : NulFree (quoted text).toList := by
  have mark : quoteMark text.toList ≠ '\x00' := by
    unfold quoteMark
    split <;> decide
  have inside : NulFree (text.toList.flatMap (quotedChar (quoteMark text.toList))) := by
    intro present
    obtain ⟨character, -, hidden⟩ := List.mem_flatMap.mp present
    exact nulFree_quotedChar mark character hidden
  simp [quoted, mark, inside]

theorem nulFree_intercalate {separator : String} (plain : NulFree separator.toList)
    {texts : List String} (each : ∀ text ∈ texts, NulFree text.toList) :
    NulFree (separator.intercalate texts).toList := by
  have apart {text : List Char} (free : NulFree text) : ∀ character ∈ text, character ≠ '\x00' :=
    fun character present same => free (same ▸ present)
  exact fun present => forall_mem_intercalate (apart plain)
    (fun text listed => apart (each text listed)) _ present rfl

end Text

namespace Datum

/-- A value is no text with a NUL in it. -/
def NulFree : Datum → Prop
  | .text value => Text.NulFree value.toList
  | _ => True

instance : DecidablePred NulFree
  | .text value => inferInstanceAs (Decidable (Text.NulFree value.toList))
  | .null | .bool _ | .int _ | .list _ | .dict _ => .isTrue trivial

mutual

/-- A value that is quoted shows no NUL. -/
theorem nulFree_quoted : (value : Datum) → Text.NulFree value.quoted.toList
  | .null => by simp only [quoted]; decide
  | .bool true => by simp only [quoted]; decide
  | .bool false => by simp only [quoted]; decide
  | .int value => by simp only [quoted]; exact Text.nulFree_toString_int value
  | .text value => by simp only [quoted]; exact Text.nulFree_quoted value
  | .list items => by
      simp only [quoted, String.toList_append, nulFree_append]
      exact ⟨⟨by decide, Text.nulFree_intercalate (by decide) (nulFree_quotedItems items)⟩,
        by decide⟩
  | .dict entries => by
      simp only [quoted, String.toList_append, nulFree_append]
      exact ⟨⟨by decide, Text.nulFree_intercalate (by decide) (nulFree_quotedEntries entries)⟩,
        by decide⟩

theorem nulFree_quotedItems :
    (items : List Datum) → ∀ text ∈ quotedItems items, Text.NulFree text.toList
  | [] => by simp [quotedItems]
  | item :: rest => by
      intro text present
      rcases List.mem_cons.mp (by simpa only [quotedItems] using present) with rfl | later
      · exact nulFree_quoted item
      · exact nulFree_quotedItems rest text later

theorem nulFree_quotedEntries :
    (entries : List (String × Datum)) → ∀ text ∈ quotedEntries entries, Text.NulFree text.toList
  | [] => by simp [quotedEntries]
  | (name, value) :: rest => by
      intro text present
      rcases List.mem_cons.mp (by simpa only [quotedEntries] using present) with rfl | later
      · simp only [String.toList_append, nulFree_append]
        exact ⟨⟨Text.nulFree_quoted name, by decide⟩, nulFree_quoted value⟩
      · exact nulFree_quotedEntries rest text later

end

theorem nulFree_display {value : Datum} (plain : value.NulFree) :
    Text.NulFree value.display.toList := by
  cases value with
  | text value => exact plain
  | null => exact nulFree_quoted _
  | bool value => exact nulFree_quoted _
  | int value => exact nulFree_quoted _
  | list items => exact nulFree_quoted _
  | dict entries => exact nulFree_quoted _

end Datum

/-- The strings of a payload hold no NUL. -/
def Payload.NulFree : Payload → Prop
  | .data value => value.NulFree
  | .heading marks =>
      (∀ mark ∈ marks.mark, Text.NulFree mark.toList) ∧
        ∀ mark ∈ marks.fullMark, Text.NulFree mark.toList
  | .item marks =>
      Text.NulFree marks.mark.toList ∧ ∀ mark ∈ marks.fullMark, Text.NulFree mark.toList

namespace Payload

instance : DecidablePred NulFree
  | .data value => inferInstanceAs (Decidable value.NulFree)
  | .heading marks => inferInstanceAs (Decidable
      ((∀ mark ∈ marks.mark, Text.NulFree mark.toList) ∧
        ∀ mark ∈ marks.fullMark, Text.NulFree mark.toList))
  | .item marks => inferInstanceAs (Decidable
      (Text.NulFree marks.mark.toList ∧ ∀ mark ∈ marks.fullMark, Text.NulFree mark.toList))

theorem nulFree_display {payload : Payload} (plain : payload.NulFree) :
    Text.NulFree payload.display.toList := by
  cases payload with
  | data value => exact Datum.nulFree_display plain
  | heading marks =>
      obtain ⟨level, mark, fullMark⟩ := marks
      cases fullMark with
      | none => exact nulFree_nil
      | some chain => exact plain.2 chain rfl
  | item marks =>
      obtain ⟨mark, fullMark⟩ := marks
      cases fullMark with
      | none => exact plain.1
      | some chain =>
          simp only [display]
          split
          · exact plain.1
          · exact plain.2 chain rfl

theorem nulFree_content {payload : Payload} (plain : payload.NulFree) :
    Text.NulFree payload.content.toList := by
  unfold content
  split
  · exact nulFree_nil
  · exact nulFree_display plain

theorem nulFree_fullMark? {payload : Payload} (plain : payload.NulFree) {mark : String}
    (marked : payload.fullMark? = some mark) : Text.NulFree mark.toList := by
  cases payload with
  | data value => cases marked
  | heading marks => exact plain.2 mark marked
  | item marks => exact plain.2 mark marked

end Payload

/-- The strings of a node hold no NUL. -/
structure Node.NulFree (node : Node) : Prop where
  /-- Neither do those of the payload. -/
  payload : node.payload.NulFree
  /-- Neither do the attributes. -/
  attributes : ∀ name value, node.attributes.get? name = some value → value.NulFree
  /-- Neither do the options. -/
  options : ∀ name value, node.options.get? name = some value → value.NulFree

/-- Whether a value is a text. -/
def Datum.isText : Datum → Bool
  | .text _ => true
  | _ => false

/-- The attributes of a node are texts. -/
def Node.TextAttributes (node : Node) : Prop :=
  ∀ name value, node.attributes.get? name = some value → ∃ text, value = .text text

/-- A field that is found is listed. -/
theorem Fields.mem_of_get? {fields : Fields} {name : String} {value : Datum}
    (found : fields.get? name = some value) : (name, value) ∈ fields := by
  obtain ⟨before, after, split, -⟩ := List.lookup_eq_some_iff.mp found
  simp [split]

/-- The fields that are found are those that are found under a listed name. -/
theorem Fields.forall_get?_iff {fields : Fields} {property : Datum → Prop} :
    (∀ name value, fields.get? name = some value → property value) ↔
      ∀ field ∈ fields, ∀ value ∈ fields.get? field.1, property value :=
  ⟨fun each field _ value found => each field.1 value found,
    fun each _ value found => each _ (Fields.mem_of_get? found) value found⟩

instance : DecidablePred Node.NulFree := fun node =>
  decidable_of_iff
    (node.payload.NulFree ∧
      (∀ field ∈ node.attributes, ∀ value ∈ node.attributes.get? field.1, value.NulFree) ∧
      ∀ field ∈ node.options, ∀ value ∈ node.options.get? field.1, value.NulFree)
    ⟨fun ⟨payload, attributes, options⟩ =>
        ⟨payload, Fields.forall_get?_iff.mpr attributes, Fields.forall_get?_iff.mpr options⟩,
      fun plain => ⟨plain.payload, Fields.forall_get?_iff.mp plain.attributes,
        Fields.forall_get?_iff.mp plain.options⟩⟩

/-- A node holds no NUL where its payload holds none and none of its fields does. -/
theorem nulFree_of_fields {node : Node} (payload : node.payload.NulFree)
    (attributes : ∀ field ∈ node.attributes, field.2.NulFree)
    (options : ∀ field ∈ node.options, field.2.NulFree) : node.NulFree :=
  ⟨payload, fun _ _ found => attributes _ (Fields.mem_of_get? found),
    fun _ _ found => options _ (Fields.mem_of_get? found)⟩

/-- A node without attributes and options holds no NUL where its payload holds none. -/
theorem nulFree_bare {node : Node} (payload : node.payload.NulFree)
    (attributes : node.attributes = []) (options : node.options = []) : node.NulFree :=
  nulFree_of_fields payload (by simp [attributes]) (by simp [options])

/-- Where every attribute is a text, those that are found are. -/
theorem textAttributes_of_fields {node : Node}
    (attributes : ∀ field ∈ node.attributes, field.2.isText = true) : node.TextAttributes := by
  intro name value found
  have text := attributes _ (Fields.mem_of_get? found)
  cases value with
  | text content => exact ⟨content, rfl⟩
  | _ => cases text

/-- The attributes of a node without attributes are texts. -/
theorem textAttributes_bare {node : Node} (attributes : node.attributes = []) :
    node.TextAttributes :=
  textAttributes_of_fields (by simp [attributes])

end Galley
