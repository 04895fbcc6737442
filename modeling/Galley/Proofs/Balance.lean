import Galley.Proofs.Erasure

/-!
# Balanced tags

The markers of a text are read from left to right: an opening tag is open until the
closing tag of its class and kind, which must come before any tag around it is closed.
Markers are matched if reading them leaves the open tags as they were; matched runs can
be put one behind the other, taken out, and put between the two tags of a kind.
-/

namespace Galley

/-- The markers among symbols. -/
def Symbol.tags (symbols : List Symbol) : List (List Char) :=
  symbols.filterMap fun symbol =>
    match symbol with
    | .marker text => some text
    | .char _ => none

namespace Symbol

@[simp] theorem tags_nil : tags [] = [] := rfl

@[simp] theorem tags_marker (marker : List Char) (rest : List Symbol) :
    tags (.marker marker :: rest) = marker :: tags rest := rfl

@[simp] theorem tags_char (character : Char) (rest : List Symbol) :
    tags (.char character :: rest) = tags rest := rfl

@[simp] theorem tags_append (first second : List Symbol) :
    tags (first ++ second) = tags first ++ tags second :=
  List.filterMap_append

@[simp] theorem tags_map_char (text : List Char) : tags (text.map .char) = [] := by
  induction text with
  | nil => rfl
  | cons character rest inductionHypothesis => simp [inductionHypothesis]

@[simp] theorem tags_filter_isMarker (symbols : List Symbol) :
    tags (symbols.filter isMarker) = tags symbols := by
  induction symbols with
  | nil => rfl
  | cons symbol rest inductionHypothesis =>
      cases symbol with
      | marker text =>
          have kept : isMarker (.marker text) = true := rfl
          rw [List.filter_cons_of_pos kept, tags_marker, tags_marker, inductionHypothesis]
      | char character =>
          have dropped : ¬ isMarker (.char character) = true := by simp [isMarker]
          rw [List.filter_cons_of_neg dropped, tags_char, inductionHypothesis]

end Symbol

namespace Marker

/-! ## The markers of a text -/

theorem all_eq_tags (text : List Char) : all text = Symbol.tags (symbols text) := rfl

@[simp] theorem all_nil : all [] = [] := rfl

/-- The markers of a text that is cut before what goes on with no marker. -/
theorem all_append (front : List Char) {back : List Char} (opens : Opens back) :
    all (front ++ back) = all front ++ all back := by
  simp only [all_eq_tags, symbols_append front opens, Symbol.tags_append]

theorem all_spell {symbols : List Symbol} (legible : Legible symbols) :
    all (Symbol.spell symbols) = Symbol.tags symbols := by
  rw [all_eq_tags, symbols_spell legible]

theorem all_of_unmarked {text : List Char} (unmarked : Unmarked text) : all text = [] := by
  rw [all_eq_tags, symbols_of_unmarked unmarked, Symbol.tags_map_char]

theorem all_marker {marker : List Char} (isMarker : IsMarker marker) (rest : List Char) :
    all (marker ++ rest) = marker :: all rest := by
  rw [all_eq_tags, symbols_marker isMarker, Symbol.tags_marker, all_eq_tags]

/-- What holds no bracket holds no marker. -/
theorem all_append_left {front : List Char} (plain : '<' ∉ front) (back : List Char) :
    all (front ++ back) = all back := by
  induction front with
  | nil => rfl
  | cons character rest inductionHypothesis =>
      obtain ⟨apart, others⟩ : '<' ≠ character ∧ '<' ∉ rest := by simpa using plain
      rw [List.cons_append, all_eq_tags, symbols_cons (length?_eq_none_of_ne _ apart.symm),
        Symbol.tags_char, ← all_eq_tags, inductionHypothesis others]

/-- The markers of a text are those of its lines. -/
theorem all_unlines (lines : List (List Char)) : all (Text.unlines lines) = lines.flatMap all := by
  induction lines with
  | nil => rfl
  | cons line rest inductionHypothesis =>
      cases rest with
      | nil => simp
      | cons next others =>
          have newline := all_append_left (show '<' ∉ ['\n'] by decide)
            (Text.unlines (next :: others))
          rw [List.singleton_append] at newline
          rw [Text.unlines_cons (by simp), all_append line (opens_newline _), newline,
            inductionHypothesis, ← List.flatMap_cons]

/-- The markers of a run of tags are its tags. -/
theorem all_flatten {markers : List (List Char)} (each : ∀ marker ∈ markers, IsMarker marker) :
    all markers.flatten = markers := by
  induction markers with
  | nil => rfl
  | cons marker rest inductionHypothesis =>
      obtain ⟨first, others⟩ := List.forall_mem_cons.mp each
      rw [List.flatten_cons, all_marker first, inductionHypothesis others]

theorem isMarker_of_mem_all {text marker : List Char} (present : marker ∈ all text) :
    IsMarker marker := by
  obtain ⟨symbol, read, found⟩ := List.mem_filterMap.mp present
  cases symbol with
  | marker other =>
      obtain rfl : other = marker := by simpa using found
      exact isMarker_of_mem_symbols read
  | char character => cases found

namespace Tags

variable {text : List Char}

/-- The markers of a text, without what stands between them. -/
theorem of_all (text : List Char) : Tags (all text).flatten :=
  ⟨_, rfl, fun _ => isMarker_of_mem_all⟩

/-- Tags before a text are read before it. -/
theorem all_append (tags : Tags text) (rest : List Char) :
    all (text ++ rest) = all text ++ all rest := by
  obtain ⟨markers, rfl, each⟩ := tags
  rw [all_flatten each]
  induction markers with
  | nil => rfl
  | cons marker others inductionHypothesis =>
      obtain ⟨first, later⟩ := List.forall_mem_cons.mp each
      rw [List.flatten_cons, List.append_assoc, all_marker first, inductionHypothesis later,
        List.cons_append]

/-- Tags behind a text are read behind it. -/
theorem all_append_right (tags : Tags text) (front : List Char) :
    all (front ++ text) = all front ++ all text := by
  have opens := tags.opens opens_nil
  rw [List.append_nil] at opens
  exact Marker.all_append front opens

end Tags

/-! ## Reading tags -/

/-- Read a marker while some tags are open, the last one first.  An opening tag is open
from then on; a closing tag must close the last open tag, so its class and kind are the
same. -/
def readTag (opened : List (List Char)) : List Char → Option (List (List Char))
  | '<' :: '/' :: name =>
      match opened with
      | last :: others => if last = name then some others else none
      | [] => none
  | '<' :: name => some (name :: opened)
  | _ => none

/-- Read markers from left to right. -/
def readTags (opened markers : List (List Char)) : Option (List (List Char)) :=
  markers.foldlM readTag opened

/-- Every closing tag of a text closes the last open tag, which has its class and kind,
and in the end no tag is open. -/
def Balanced (text : List Char) : Prop :=
  readTags [] (all text) = some []

instance : DecidablePred Balanced := fun text =>
  inferInstanceAs (Decidable (readTags [] (all text) = some []))

theorem readTags_append (opened first second : List (List Char)) :
    readTags opened (first ++ second) =
      (readTags opened first).bind fun middle => readTags middle second :=
  List.foldlM_append

/-- Reading the markers closes all that they open, and nothing else. -/
def Matched (markers : List (List Char)) : Prop :=
  ∀ opened, readTags opened markers = some opened

namespace Matched

variable {first second : List (List Char)}

theorem balanced {text : List Char} (matched : Matched (all text)) : Balanced text :=
  matched []

theorem nil : Matched [] := fun _ => rfl

theorem append (left : Matched first) (right : Matched second) : Matched (first ++ second) := by
  intro opened
  rw [readTags_append, left, Option.bind_some, right]

/-- What stands behind a matched run is matched where the whole is. -/
theorem of_append_left (whole : Matched (first ++ second)) (left : Matched first) :
    Matched second := by
  intro opened
  have read := whole opened
  rwa [readTags_append, left, Option.bind_some] at read

/-- What stands before a matched run is matched where the whole is. -/
theorem of_append_right (whole : Matched (first ++ second)) (right : Matched second) :
    Matched first := by
  intro opened
  have read := whole opened
  rw [readTags_append] at read
  obtain ⟨middle, found, rest⟩ := Option.bind_eq_some_iff.mp read
  rw [right] at rest
  rw [found, rest]

/-- Matched runs one behind the other are matched. -/
theorem flatMap {items : List α} {markers : α → List (List Char)}
    (each : ∀ item ∈ items, Matched (markers item)) : Matched (items.flatMap markers) := by
  induction items with
  | nil => exact nil
  | cons item rest inductionHypothesis =>
      obtain ⟨here, others⟩ := List.forall_mem_cons.mp each
      exact here.append (inductionHypothesis others)

/-- A matched run may be put anywhere among markers. -/
theorem readTags_insert (matched : Matched first) (opened before after : List (List Char)) :
    readTags opened (before ++ first ++ after) = readTags opened (before ++ after) := by
  rw [List.append_assoc, readTags_append, readTags_append]
  refine congrArg _ (funext fun middle => ?_)
  rw [readTags_append, matched, Option.bind_some]

/-- A matched run stands between the two tags of a kind. -/
theorem enclose {tagClass kind : List Char} (known : tagClass = blockClass ∨ tagClass = spanClass)
    (matched : Matched first) :
    Matched (opening tagClass kind :: first ++ [closing tagClass kind]) := by
  intro opened
  have opens : readTag opened (opening tagClass kind) =
      some ((tagClass ++ ':' :: kind ++ ['>']) :: opened) := by
    rcases known with rfl | rfl <;> rfl
  have closes : readTag ((tagClass ++ ':' :: kind ++ ['>']) :: opened) (closing tagClass kind) =
      some opened := by
    simp [readTag, closing]
  calc readTags opened (opening tagClass kind :: first ++ [closing tagClass kind])
      = (readTag opened (opening tagClass kind)).bind
          fun middle => readTags middle (first ++ [closing tagClass kind]) := rfl
    _ = (readTags ((tagClass ++ ':' :: kind ++ ['>']) :: opened) first).bind
          fun middle => readTags middle [closing tagClass kind] := by
        rw [opens, Option.bind_some, readTags_append]
    _ = some opened := by
        rw [matched, Option.bind_some]
        change (readTag _ _).bind _ = _
        rw [closes]
        rfl

end Matched

end Marker
end Galley
