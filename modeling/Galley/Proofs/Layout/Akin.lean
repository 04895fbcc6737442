import Galley.Proofs.Balance
import Galley.Proofs.Layout.Filling
import Galley.Proofs.Layout.Joining

/-!
# What respacing keeps of marked texts

Two marked texts are akin if they have the same markers and both show something or both
nothing.  Trimming, with or without regard to markers, indenting and collapsing the
blanks of a cell give akin texts: a marker holds no blank, so it stays whole.
-/

namespace Galley
namespace Layout

open Marker Text

theorem not_bracket_of_allBlank {text : List Char} (blank : allBlank text = true) : '<' ∉ text :=
  fun present => absurd (List.all_eq_true.mp blank _ present) (by decide)

/-- A text shows something if one of its two parts does. -/
theorem isBlankLine_append (front : List Char) {back : List Char} (opens : Opens back) :
    isBlankLine true (front ++ back) = (isBlankLine true front && isBlankLine true back) := by
  simp [isBlankLine, erase_append front opens, allBlank]

/-- Two marked texts have the same markers, and both show something or both nothing. -/
structure Akin (text other : List Char) : Prop where
  /-- The markers are the same. -/
  all_eq : all text = all other
  /-- Both show something or both nothing. -/
  blank_eq : isBlankLine true text = isBlankLine true other

namespace Akin

variable {text other third : List Char}

theorem refl (text : List Char) : Akin text text := ⟨rfl, rfl⟩

theorem trans (first : Akin text other) (second : Akin other third) : Akin text third :=
  ⟨first.all_eq.trans second.all_eq, first.blank_eq.trans second.blank_eq⟩

theorem opens_of_begins {text : List Char} (begins : ∀ first ∈ text.head?, isBlank first = true) :
    Opens text := by
  cases text with
  | nil => exact opens_nil
  | cons first rest => exact opens_of_blank (Or.inl (begins first rfl)) rest

/-- Akin texts stay akin behind the same text, if they may be cut off there. -/
theorem append_left (akin : Akin text other) (front : List Char) (opens : Opens text)
    (opens' : Opens other) : Akin (front ++ text) (front ++ other) := by
  constructor
  · rw [all_append front opens, all_append front opens', akin.all_eq]
  · rw [isBlankLine_append front opens, isBlankLine_append front opens', akin.blank_eq]

/-- Blanks may stand before a text. -/
theorem blank_append {blanks : List Char} (blank : allBlank blanks = true) (text : List Char) :
    Akin (blanks ++ text) text := by
  have plain := not_bracket_of_allBlank blank
  refine ⟨all_append_left plain text, ?_⟩
  have shown : blanks.all isBlank = true := blank
  simp [isBlankLine, erase_append_left plain, allBlank, shown]

/-- Blanks may stand behind a text. -/
theorem append_blank {blanks : List Char} (blank : allBlank blanks = true) (text : List Char) :
    Akin (text ++ blanks) text := by
  have unmarked := unmarked_of_allBlank blank
  have opens := opens_of_allBlank blank
  constructor
  · rw [all_append text opens, all_of_unmarked unmarked, List.append_nil]
  · rw [isBlankLine_append text opens, isBlankLine_of_allBlank true blank, Bool.and_true]

theorem trimEnd (text : List Char) : Akin (Text.trimEnd text) text := by
  obtain ⟨tail, parts, blank⟩ := exists_trimEnd text
  have dropped := append_blank blank (Text.trimEnd text)
  rw [parts] at dropped
  exact ⟨dropped.all_eq.symm, dropped.blank_eq.symm⟩

theorem trimStart (text : List Char) : Akin (Text.trimStart text) text := by
  have blank : allBlank (text.takeWhile isBlank) = true :=
    List.all_eq_true.mpr fun _ present => List.mem_takeWhile_imp present
  have dropped := blank_append blank (Text.trimStart text)
  have parts : text.takeWhile isBlank ++ Text.trimStart text = text :=
    List.takeWhile_append_dropWhile
  rw [parts] at dropped
  exact ⟨dropped.all_eq.symm, dropped.blank_eq.symm⟩

theorem trim (text : List Char) : Akin (Text.trim text) text :=
  (trimEnd (Text.trimStart text)).trans (trimStart text)

/-! ## Trimming with regard to markers -/

theorem trimMarkedStart (text : List Char) : Akin (Layout.trimMarkedStart text) text := by
  obtain ⟨lead, rest, whole, trimmed, loose, -⟩ := exists_lead text
  have read := symbols_trimmedStart whole
  have blank : (Symbol.chars lead).all isBlank = true := allBlank_chars loose
  constructor
  · rw [all_eq_tags, all_eq_tags, trimmed, read, whole, Symbol.tags_append, Symbol.tags_append,
      Symbol.tags_filter_isMarker]
  · simp only [isBlankLine, if_true, erase_eq_chars, trimmed, read, whole, Symbol.chars_append,
      chars_filter_isMarker, List.nil_append, allBlank, List.all_append, blank, Bool.true_and]

theorem trimMarkedEnd (line : List Char) : Akin (Layout.trimMarkedEnd line) line := by
  refine ⟨?_, isBlankLine_trimMarkedEnd line⟩
  obtain ⟨body, tail, whole, trimmed, -, -⟩ := exists_end line
  rw [all_eq_tags, all_eq_tags, trimmed, symbols_trimmedEnd whole, whole, Symbol.tags_append,
    Symbol.tags_append, Symbol.tags_filter_isMarker]

/-- Laying out a line moves blanks only. -/
theorem layLine (indent : Nat) (line : List Char) :
    Akin (Layout.layLine true indent line) line := by
  refine ⟨?_, isBlankLine_layLine indent line⟩
  unfold Layout.layLine
  split
  · rfl
  · exact (blank_append (allBlank_spaces indent) _).all_eq.trans (trimMarkedEnd line).all_eq

/-! ## Cells -/

/-- Two characters belong to one run: both are blank or both are shown. -/
def sameRun (left right : Char) : Bool :=
  isBlank left == isBlank right

/-- A run of one sort, collapsed where it holds a newline. -/
def collapseRun (run : List Char) : List Char :=
  if run.contains '\n' then [' '] else run

theorem collapseRun_of_shown {run : List Char}
    (shown : ∀ character ∈ run, isBlank character = false) :
    collapseRun run = run := by
  refine if_neg fun newline => ?_
  exact absurd (shown '\n' (by simpa using newline)) (by decide)

theorem allBlank_collapseRun {run : List Char} (blank : allBlank run = true) :
    allBlank (collapseRun run) = true := by
  unfold collapseRun
  split
  · rfl
  · exact blank

section Induction

variable {motive : List Char → List Char → Prop} (nil : motive [] [])
  (blank : ∀ blanks blanks' text text', allBlank blanks = true → allBlank blanks' = true →
    motive text text' → motive (blanks ++ text) (blanks' ++ text'))
  (shown : ∀ run text text', (∀ character ∈ run, isBlank character = false) →
    (∀ first ∈ text.head?, isBlank first = true) → (∀ first ∈ text'.head?, isBlank first = true) →
    motive text text' → motive (run ++ text) (run ++ text'))

include nil blank shown

/-- Collapsing the runs of blanks keeps the runs between them apart. -/
theorem flatMap_collapseRun {runs : List (List Char)} (some : ∀ run ∈ runs, run ≠ [])
    (sorted : ∀ run ∈ runs, run.IsChain fun left right => sameRun left right)
    (apart : runs.IsChain fun left right => ∃ someLeft someRight,
      sameRun (left.getLast someLeft) (right.head someRight) = false) :
    motive (runs.flatMap collapseRun) runs.flatten := by
  induction runs with
  | nil => exact nil
  | cons run others inductionHypothesis =>
      have below := inductionHypothesis (fun other present => some other (by simp [present]))
        (fun other present => sorted other (by simp [present])) apart.of_cons
      obtain ⟨first, rest, rfl⟩ := List.exists_cons_of_ne_nil (some run (by simp))
      have same := isBlank_eq_of_chain (sorted (first :: rest) (by simp))
      rw [List.flatMap_cons, List.flatten_cons]
      cases sort : isBlank first with
      | true =>
          -- A run of blanks is replaced by blanks.
          have blanks : allBlank (first :: rest) = true :=
            List.all_eq_true.mpr fun character present => (same character present).trans sort
          exact blank _ _ _ _ (allBlank_collapseRun blanks) blanks below
      | false =>
          -- Any other run is kept, and blanks or the end follow it.
          have inked : ∀ character ∈ first :: rest, isBlank character = false :=
            fun character present => (same character present).trans sort
          rw [collapseRun_of_shown inked]
          cases others with
          | nil => exact shown _ _ _ inked nofun nofun below
          | cons next more =>
              obtain ⟨_, someNext, differ⟩ := (List.isChain_cons_cons.mp apart).1
              rw [sameRun, inked _ (List.getLast_mem _)] at differ
              obtain ⟨character, tail, rfl⟩ := List.exists_cons_of_ne_nil someNext
              have blankNext : isBlank character = true := by simpa using differ
              have spaced : ∀ space ∈ ((character :: tail) :: more).flatten.head?,
                  isBlank space = true := by
                simpa using blankNext
              refine shown _ _ _ inked ?_ spaced below
              rw [List.flatMap_cons, collapseRun]
              split
              · simpa using (by decide : isBlank ' ' = true)
              · simpa using blankNext

/-- Collapsing puts blanks in the place of blanks, and keeps what stands between them. -/
theorem collapseBreaks_induction (text : List Char) : motive (Layout.collapseBreaks text) text := by
  have collapsed : motive ((text.splitBy sameRun).flatMap collapseRun)
      (text.splitBy sameRun).flatten :=
    flatMap_collapseRun nil blank shown
      (fun run present => List.ne_nil_of_mem_splitBy present)
      (fun run present => List.isChain_of_mem_splitBy present)
      (List.isChain_getLast_head_splitBy sameRun text)
  rwa [List.flatten_splitBy] at collapsed

end Induction

theorem collapseBreaks (text : List Char) : Akin (Layout.collapseBreaks text) text := by
  refine collapseBreaks_induction (refl []) ?_ ?_ text
  · intro blanks blanks' text text' blank blank' akin
    have before := blank_append blank' text'
    exact (blank_append blank text).trans (akin.trans ⟨before.all_eq.symm, before.blank_eq.symm⟩)
  · intro run text text' _ begins begins' akin
    exact akin.append_left run (opens_of_begins begins) (opens_of_begins begins')

theorem cellContent (text : List Char) : Akin (Layout.cellContent text) text :=
  (collapseBreaks (Text.trim text)).trans (trim text)

end Akin

end Layout
end Galley
