import Galley.Proofs.Wrap.Cuts
import Mathlib.Order.Bounds.Defs

/-!
# Lines and their budget

A wrapped line keeps to its budget, unless it is a single character that no budget of
one column can hold.  Where all tokens fit, no division of them into lines that fit has
fewer lines than the filler makes: a group of tokens that fits on one line makes the
filler begin at most one.
-/

namespace Galley
namespace Wrap

open Piece Text

/-! ## Every line fits -/

theorem budget_eq_max (width : Int) : (budget width : Int) = max 1 width := by
  unfold budget
  omega

/-- What fits is within the budget, or a character of two columns on a budget of one. -/
theorem Fits.within_or_single {budget : Nat} {text : List Char} (fits : Fits budget text)
    (positive : 1 ≤ budget) : Columns.ofText text ≤ budget ∨
      budget = 1 ∧ ∃ character, text = [character] ∧ Columns.ofChar character = 2 := by
  rcases Nat.lt_or_ge budget (Columns.ofText text) with wide | within
  · have short : text.length ≤ 1 := fits.resolve_left (Nat.not_le_of_lt wide)
    match text with
    | [] => simp at wide
    | [character] =>
        rw [Columns.ofText_cons, Columns.ofText_nil] at wide
        have two := (Columns.ofChar_eq_one_or_two character).resolve_left (by omega)
        exact Or.inr ⟨by omega, character, rfl, two⟩
    | _ :: _ :: _ => simp at short
  · exact Or.inl within

/-- No line of a wrapped text is wider than the budget, markers not counted, but for a
single character of two columns where the budget is one. -/
theorem wrap_fits (markers : Bool) (width : Int) (text : List Char) :
    ∀ line ∈ lines (wrap markers width text),
      (Columns.ofText (measured markers line) : Int) ≤ max 1 width ∨
        max 1 width = 1 ∧ ∃ character, measured markers line = [character] ∧
          Columns.ofChar character = 2 := by
  intro line present
  rw [lines_wrap] at present
  obtain ⟨hard, -, laid⟩ := List.mem_flatMap.mp present
  obtain ⟨filled, listed, rfl⟩ := List.mem_map.mp laid
  have fits : Fits (budget width) (spell (bare filled)) := fit_fill _ _ filled listed
  rw [measured_spell_of_mem_fill listed, ← budget_eq_max]
  exact_mod_cast fits.within_or_single (Nat.le_max_left ..)

/-- A text with a marker and a character of two columns. -/
def narrowText : List Char := ("a <SPAN:link>é b").toList

theorem wrap_fits_narrowText :
    ("<SPAN:link>é").toList ∈ lines (wrap true 0 narrowText) ∧
      ((Columns.ofText (measured true ("<SPAN:link>é").toList) : Int) ≤ max 1 0 ∨
        max 1 0 = (1 : Int) ∧ ∃ character, measured true ("<SPAN:link>é").toList = [character] ∧
          Columns.ofChar character = 2) := by
  have listed : ("<SPAN:link>é").toList ∈ lines (wrap true 0 narrowText) := by decide +kernel
  exact ⟨listed, wrap_fits true 0 narrowText _ listed⟩

/-! ## Lines that a draft has begun -/

namespace Draft

/-- The lines that have been begun: those finished, and the pending one where it shows
something. -/
def count (draft : Draft) : Nat :=
  draft.finished.length + if draft.isIdle then 0 else 1

theorem count_breakLine {draft : Draft} (inked : draft.isIdle = false) :
    draft.breakLine.count = draft.count := by
  rw [count, count, isIdle_breakLine, inked]
  simp [breakLine]

theorem count_push_of_inked {draft : Draft} (inked : draft.isIdle = false) (text : List Char) :
    (draft.push text).count = draft.count := by
  rw [count, count, isIdle_push, inked]
  rfl

theorem count_push_le (draft : Draft) (text : List Char) :
    (draft.push text).count ≤ draft.count + 1 := by
  have same : (draft.push text).finished = draft.finished := rfl
  rw [count, count, same]
  split <;> split <;> omega

theorem Begun.length_lines {draft : Draft} (begun : Begun draft) :
    draft.lines.length = draft.count := by
  unfold lines count
  cases idle : draft.isIdle with
  | true =>
      have finished : draft.finished.isEmpty = false := by simpa using begun.finished idle
      simp [finished]
  | false => simp

/-! ## A group of tokens -/

/-- What a token ends is not trimmed, whatever follows. -/
theorem ofText_le_trimEnd (front : List Char) {token : List Char} (some : token ≠ [])
    (shown : ∀ character ∈ token, isBlank character = false) (rest : List Char) :
    Columns.ofText (front ++ token) ≤ Columns.ofText (Text.trimEnd (front ++ token ++ rest)) := by
  cases blank : allBlank rest with
  | true =>
      rw [trimEnd_append_of_blank _ blank, trimEnd_append_of_shown _
        (allBlank_of_unblank some shown),
        trimEnd_of_unblank shown]
  | false =>
      rw [trimEnd_append_of_shown _ blank, Columns.ofText_append (front ++ token)]
      omega

/-- Behind a part of a group of tokens at most one line more has been begun than before
the group, and if so then the pending line holds no more than the part, unless the part
is too wide for a line. -/
structure Ahead (budget lines : Nat) (read : List Char) (draft : Draft) : Prop where
  /-- At most one line has been begun. -/
  count : draft.count ≤ lines + 1
  /-- If one has, it holds what was read and no more. -/
  held : lines < draft.count → budget < Columns.ofText read ∨
    draft.isIdle = false ∧ Columns.ofText draft.pending ≤ Columns.ofText read

namespace Ahead

variable {budget lines : Nat} {read : List Char} {draft : Draft}

/-- Blanks begin no line; where they make a break in a line begun with the group, the
group is too wide. -/
theorem addSpace (ahead : Ahead budget lines read draft) (begun : Begun draft) (text : List Char) :
    Ahead budget lines (read ++ text) (draft.addSpace budget text) := by
  obtain ⟨count, held⟩ := ahead
  have longer := Columns.ofText_append read text
  rcases begun.addSpace_cases budget text with ⟨idle, same⟩ | ⟨inked, ⟨full, same⟩ | ⟨-, same⟩⟩
  · rw [same]
    refine ⟨count, fun more => ?_⟩
    rcases held more with wide | ⟨inked, -⟩
    · exact Or.inl (by omega)
    · rw [idle] at inked
      cases inked
  · rw [same]
    rw [Columns.ofText_append] at full
    refine ⟨by rwa [count_breakLine inked], fun more => Or.inl ?_⟩
    rw [count_breakLine inked] at more
    rcases held more with wide | ⟨-, within⟩ <;> omega
  · rw [same]
    refine ⟨by rwa [count_push_of_inked inked], fun more => ?_⟩
    rw [count_push_of_inked inked] at more
    rcases held more with wide | ⟨-, within⟩
    · exact Or.inl (by omega)
    · refine Or.inr ⟨by simp [inked], ?_⟩
      rw [push, Columns.ofText_append]
      omega

/-- As long as the group fits on a line, its tokens begin one line at most. -/
theorem addInk (ahead : Ahead budget lines read draft)
    (clear : draft.isIdle = true → draft.pending = []) {text : List Char}
    (shown : allBlank text = false) (within : Columns.ofText (read ++ text) ≤ budget) :
    Ahead budget lines (read ++ text) (draft.addInk budget text) := by
  obtain ⟨count, held⟩ := ahead
  have longer := Columns.ofText_append read text
  have begun : lines < draft.count → draft.isIdle = false ∧
      Columns.ofText draft.pending ≤ Columns.ofText read :=
    fun more => (held more).resolve_left (by omega)
  have narrow : Columns.ofText text ≤ budget := by omega
  rcases addInk_cases clear narrow with ⟨-, same⟩ | ⟨inked, full, same⟩
  · rw [same]
    have inkedThen : (draft.push text).isIdle = false := by simp [shown]
    refine ⟨?_, fun more => Or.inr ⟨inkedThen, ?_⟩⟩
    · rcases Nat.lt_or_ge lines draft.count with already | fresh
      · rwa [count_push_of_inked (begun already).1]
      · exact (count_push_le draft text).trans (by omega)
    · rw [push, Columns.ofText_append, longer]
      cases idle : draft.isIdle with
      | true => simp [clear idle]
      | false =>
          rw [count_push_of_inked idle] at more
          have := (begun more).2
          omega
  · -- A line begun with the group would have had room.
    have fresh : draft.count ≤ lines := by
      by_contra more
      rw [Columns.ofText_append] at full
      have := (begun (by omega)).2
      omega
    rw [same]
    refine ⟨?_, fun _ => Or.inr ⟨by simp [shown], ?_⟩⟩
    · have := count_push_le draft.breakLine text
      rw [count_breakLine inked] at this
      omega
    · simp [push, breakLine, longer]

/-- A token of a group that fits on a line. -/
theorem addToken {front rest : List Piece} {piece : Piece}
    (ahead : Ahead budget lines (spell front) draft)
    (clear : draft.isIdle = true → draft.pending = []) (sorted : OfSort piece)
    (ink : piece.isInk = true)
    (within : Columns.ofText (Text.trimEnd (spell (front ++ piece :: rest))) ≤ budget) :
    Ahead budget lines (spell (front ++ [piece])) (draft.add budget piece) ∧
      Begun (draft.add budget piece) := by
  have shown := sorted.not_blank ink
  have narrow := ofText_le_trimEnd (spell front) sorted.text_ne_nil shown (spell rest)
  have added : draft.add budget piece = draft.addInk budget piece.text := by
    cases piece with
    | marker text => cases ink
    | space text => cases ink
    | _ => rfl
  rw [spell_append, spell_cons, ← List.append_assoc] at within
  rw [added, spell_append, spell_cons, spell_nil, List.append_nil]
  exact ⟨ahead.addInk clear (allBlank_of_unblank sorted.text_ne_nil shown) (narrow.trans within),
    Begun.of_inked (isIdle_addInk sorted.text_ne_nil shown draft)⟩

/-- The pieces of a group follow its first token. -/
theorem addAll {front back : List Piece} (ahead : Ahead budget lines (spell front) draft)
    (begun : Begun draft) (sorted : ∀ piece ∈ back, OfSort piece)
    (within : Columns.ofText (Text.trimEnd (spell (front ++ back))) ≤ budget) :
    Ahead budget lines (spell (front ++ back)) (back.foldl (Draft.add budget) draft) ∧
      Begun (back.foldl (Draft.add budget) draft) := by
  induction back generalizing front draft with
  | nil => simpa using ⟨ahead, begun⟩
  | cons piece rest inductionHypothesis =>
      obtain ⟨first, others⟩ := List.forall_mem_cons.mp sorted
      have step : Ahead budget lines (spell (front ++ [piece])) (draft.add budget piece) ∧
          Begun (draft.add budget piece) := by
        cases piece with
        | marker text => cases first
        | space text =>
            rw [spell_append, spell_cons, spell_nil, List.append_nil]
            exact ⟨ahead.addSpace begun text, begun.addSpace budget text⟩
        | word text => exact ahead.addToken begun.clear first rfl within
        | wide character => exact ahead.addToken begun.clear first rfl within
      have parts : front ++ piece :: rest = (front ++ [piece]) ++ rest := by simp
      rw [parts] at within ⊢
      exact inductionHypothesis step.1 step.2 others within

end Ahead

/-- A group that fits on a line makes a draft begin at most one. -/
theorem count_addGroup {budget : Nat} {draft : Draft}
    (clear : draft.isIdle = true → draft.pending = [])
    {group : List Char} (begins : ∃ first ∈ group.head?, isBlank first = false)
    (within : Columns.ofText (Text.trimEnd group) ≤ budget) :
    Begun ((pieces false group).foldl (Draft.add budget) draft) ∧
      ((pieces false group).foldl (Draft.add budget) draft).count ≤ draft.count + 1 := by
  obtain ⟨piece, rest, parts, ink⟩ := exists_pieces_of_begins begins
  have spelled := spell_pieces false group
  have sorted := ofSort_pieces group
  rw [parts] at spelled sorted ⊢
  obtain ⟨first, others⟩ := List.forall_mem_cons.mp sorted
  have start : Ahead budget draft.count (spell []) draft :=
    ⟨Nat.le_succ _, fun more => absurd more (Nat.lt_irrefl _)⟩
  rw [← spelled] at within
  obtain ⟨ahead, begun⟩ := start.addToken clear first ink within
  obtain ⟨all, begunThen⟩ := ahead.addAll begun others within
  exact ⟨begunThen, all.count⟩

end Draft

/-! ## Least lines -/

/-- The tokens of a line are divided into groups that stand together, each with the
blanks behind its last token; without these, every group fits the width. -/
structure Grouping (width : Nat) (line : List Char) (groups : List (List Char)) : Prop where
  /-- The groups make up the line. -/
  whole : groups.flatten = line
  /-- Every group begins with a token. -/
  begins : ∀ group ∈ groups, ∃ first ∈ group.head?, isBlank first = false
  /-- No token belongs to two groups. -/
  uncut : groups.IsChain fun group next =>
    ∀ last ∈ group.getLast?, ∀ first ∈ next.head?, (isGraphic last && isGraphic first) = false
  /-- Every group fits. -/
  within : ∀ group ∈ groups, Columns.ofText (Text.trimEnd group) ≤ width

section Grouping

variable {width : Nat} {line : List Char}

/-- Each group makes a draft begin one line at most. -/
theorem Grouping.count_le {groups : List (List Char)} (grouping : Grouping width line groups)
    (newline : '\n' ∉ line) {draft : Draft} (clear : draft.isIdle = true → draft.pending = []) :
    (groups ≠ [] → Draft.Begun ((pieces false line).foldl (Draft.add width) draft)) ∧
      ((pieces false line).foldl (Draft.add width) draft).count ≤ draft.count + groups.length := by
  induction groups generalizing line draft with
  | nil =>
      obtain rfl := grouping.whole
      exact ⟨fun some => absurd rfl some, Nat.le_refl _⟩
  | cons group others inductionHypothesis =>
      obtain ⟨whole, begins, uncut, within⟩ := grouping
      obtain ⟨here, below⟩ := List.forall_mem_cons.mp begins
      obtain ⟨narrow, narrowBelow⟩ := List.forall_mem_cons.mp within
      obtain ⟨apart, chain⟩ := List.isChain_cons.mp uncut
      obtain ⟨begun, count⟩ := Draft.count_addGroup clear here narrow
      rw [List.flatten_cons] at whole
      have newlineParts : '\n' ∉ group ∧ '\n' ∉ others.flatten := by
        simpa [← whole] using newline
      obtain ⟨begunBelow, countBelow⟩ :=
        inductionHypothesis ⟨rfl, below, chain, narrowBelow⟩ newlineParts.2 begun.clear
      cases others with
      | nil =>
          rw [List.flatten_nil, List.append_nil] at whole
          rw [← whole]
          exact ⟨fun _ => begun, count⟩
      | cons next more =>
          obtain ⟨first, found, shown⟩ := below next (by simp)
          obtain ⟨rest, rfl⟩ := List.head?_eq_some_iff.mp found
          have parts : pieces false line =
              pieces false group ++ pieces false ((first :: rest) :: more).flatten := by
            rw [← whole]
            have ordinary : first ≠ '\n' := fun same => newlineParts.2 (by simp [same])
            refine pieces_append newlineParts.1 ordinary fun last ends => ?_
            have plain := apart (first :: rest) rfl last ends first rfl
            exact alike_eq_false_of_shown (Or.inr shown) (Bool.and_eq_false_iff.mp plain)
          rw [parts, List.foldl_append]
          refine ⟨fun _ => begunBelow (by simp), ?_⟩
          simp only [List.length_cons] at countBelow ⊢
          omega

/-- A character of two columns is not graphic. -/
theorem isGraphic_eq_false_of_two {character : Char} (two : Columns.ofChar character = 2) :
    isGraphic character = false := by
  by_contra graphic
  obtain ⟨-, high⟩ : '!' ≤ character ∧ character ≤ '~' := by simpa [isGraphic] using graphic
  have small : character.toNat ≤ 0x7e := UInt32.le_iff_toNat_le.mp high
  rw [Columns.ofChar, if_pos (by omega)] at two
  cases two

section Lines

variable {front : List Char} {rows : List (List Char × List Char)}

/-- Lines of a hard line that shows something begin with ink. -/
theorem Cutting.begins_of_mem (cutting : Cutting width line [] rows)
    (begins : ∃ first ∈ line.head?, isBlank first = false) {row : List Char × List Char}
    (listed : row ∈ rows) : ∃ first ∈ row.1.head?, isBlank first = false := by
  obtain ⟨first, found, shown⟩ := begins
  have some : row.1 ≠ [] := fun none => by
    have blank := List.all_eq_true.mp (cutting.shown row listed none) first
        (List.mem_of_head? found)
    rw [shown] at blank
    cases blank
  obtain ⟨other, rest, same⟩ := List.exists_cons_of_ne_nil some
  refine ⟨other, by simp [same], ?_⟩
  cases rows with
  | nil => cases listed
  | cons head tail =>
      rcases List.mem_cons.mp listed with rfl | later
      · obtain rfl : other = first := by simpa [← cutting.whole, same] using found
        exact shown
      · exact cutting.begins row later other (by simp [same])

/-- Where all tokens fit, none is cut between two lines. -/
theorem Cutting.uncut (cutting : Cutting width line front rows)
    (fit : ∀ token, IsToken line token → Columns.ofText token ≤ width)
    {before after : List (List Char × List Char)} {row next : List Char × List Char}
    (parts : rows = before ++ row :: next :: after) (some : next.1 ≠ []) :
    ∀ last ∈ (row.1 ++ row.2).getLast?, ∀ first ∈ (next.1 ++ next.2).head?,
      (isGraphic last && isGraphic first) = false := by
  obtain ⟨laid, gap⟩ := row
  intro last ends first starts
  rw [List.head?_append_of_ne_nil _ some] at starts
  by_cases empty : gap = []
  · subst empty
    rw [List.append_nil] at ends
    have laidSome : laid ≠ [] := fun none => by simp [none] at ends
    rcases cutting.severed before laid (next :: after) parts (by simp) with
      ⟨other, found, plain⟩ | ⟨other, found, plain⟩ | ⟨begin, left, right, rest, same,
        behind, -, -, run, wide⟩
    · rw [List.getLast?_append_of_ne_nil _ laidSome] at found
      rw [Option.mem_unique ends found, plain, Bool.false_and]
    · rw [restore_cons, List.append_assoc, List.head?_append_of_ne_nil _ some] at found
      rw [Option.mem_unique starts found, plain, Bool.and_false]
    · -- The run would be a token that is too wide.
      refine absurd (fit (left ++ right) ⟨begin, rest, ?_, Or.inl run⟩) (Nat.not_le_of_lt wide)
      rw [← cutting.whole, parts, restore_append, restore_cons, List.append_nil, behind]
      simp only [List.append_assoc] at same ⊢
      rw [← List.append_assoc (restore before), ← List.append_assoc front, same]
      simp
  · rw [List.getLast?_append_of_ne_nil _ empty] at ends
    have blank := cutting.gaps_blank (laid, gap) (by simp [parts])
    rw [isGraphic_eq_false_of_isBlank (List.all_eq_true.mp blank last (List.mem_of_getLast? ends)),
      Bool.false_and]

/-- Where all tokens fit, so does every line, without any exception. -/
theorem ofText_le_of_mem_wrapLine (positive : 1 ≤ width)
    (fit : ∀ token, IsToken line token → Columns.ofText token ≤ width) {laid : List Char}
    (present : laid ∈ wrapLine false width line) : Columns.ofText laid ≤ width := by
  rcases (fits_wrapLine width line laid present).within_or_single positive with
    within | ⟨-, character, rfl, two⟩
  · exact within
  · have shown : isBlank character = false := by
      by_contra blank
      have trimmed := trimEnd_of_mem_wrapLine present
      rw [trimEnd_of_blank (by simpa [allBlank] using blank)] at trimmed
      cases trimmed
    have listed : character ∈ line := (flatten_wrapLine_sublist false width line).subset
      (List.mem_flatten.mpr ⟨[character], present, by simp⟩)
    obtain ⟨before, after, parts⟩ := List.append_of_mem listed
    exact fit [character] ⟨before, after, by simp [parts],
      Or.inr ⟨character, rfl, shown, isGraphic_eq_false_of_two two⟩⟩

end Lines

/-- Where all tokens fit, the lines that a line is wrapped into are a grouping. -/
theorem exists_grouping (positive : 1 ≤ width)
    (begins : ∃ first ∈ line.head?, isBlank first = false)
    (fit : ∀ token, IsToken line token → Columns.ofText token ≤ width) :
    ∃ groups, Grouping width line groups ∧ groups.length = (wrapLine false width line).length := by
  obtain ⟨front, rows, laid, cutting⟩ := exists_cutting width line
  obtain rfl : front = [] := by
    obtain ⟨first, found, shown⟩ := begins
    cases front with
    | nil => rfl
    | cons other rest =>
        obtain rfl : other = first := by simpa [← cutting.whole] using found
        have blank := cutting.front_blank
        rw [allBlank, List.all_cons, shown] at blank
        cases blank
  refine ⟨rows.map fun row => row.1 ++ row.2, ⟨?_, ?_, ?_, ?_⟩, ?_⟩
  · rw [← List.flatMap_def]
    exact cutting.whole
  · refine List.forall_mem_map.mpr fun row listed => ?_
    obtain ⟨first, found, shown⟩ := cutting.begins_of_mem begins listed
    obtain ⟨rest, same⟩ := List.head?_eq_some_iff.mp found
    exact ⟨first, by simp [same], shown⟩
  · rw [List.isChain_map, List.isChain_iff_forall_rel_of_append_cons_cons]
    intro row next before after parts
    have listed : next ∈ rows := by simp [parts]
    obtain ⟨first, found, -⟩ := cutting.begins_of_mem begins listed
    exact cutting.uncut fit parts fun none => by simp [none] at found
  · refine List.forall_mem_map.mpr fun row listed => ?_
    rw [trimEnd_append_of_blank _ (cutting.gaps_blank row listed), cutting.trimmed row listed]
    exact ofText_le_of_mem_wrapLine positive fit (laid ▸ List.mem_map_of_mem listed)
  · rw [← laid, List.length_map, List.length_map]

end Grouping

/-- A line that begins with a token and whose tokens all fit is wrapped into as few
lines as there are groups in the best division of its tokens into groups that fit. -/
theorem isLeast_length_wrap {width : Nat} (positive : 1 ≤ width) {line : List Char}
    (newline : '\n' ∉ line) (begins : ∃ first ∈ line.head?, isBlank first = false)
    (fit : ∀ token, IsToken line token → Columns.ofText token ≤ width) :
    IsLeast {count | ∃ groups, Grouping width line groups ∧ groups.length = count}
      (lines (wrap false width line)).length := by
  have asked : budget width = width := by
    unfold budget
    omega
  rw [lines_wrap_of_whole false width newline, asked]
  refine ⟨exists_grouping positive begins fit, ?_⟩
  rintro count ⟨groups, grouping, rfl⟩
  have clear : Draft.isIdle {} = true → Draft.pending {} = [] := fun _ => rfl
  obtain ⟨begun, most⟩ := grouping.count_le newline clear
  have some : groups ≠ [] := by
    rintro rfl
    obtain rfl := grouping.whole
    obtain ⟨first, found, -⟩ := begins
    cases found
  rw [wrapLine_eq_lines, (begun some).length_lines]
  simpa [Draft.count, Draft.isIdle, allBlank] using most

/-- Words and characters of two columns, with and without blanks between them. -/
def mixedLine : List Char := ("to be中文　or   not").toList

theorem isLeast_length_wrap_mixedLine :
    1 ≤ 4 ∧ '\n' ∉ mixedLine ∧ (∃ first ∈ mixedLine.head?, isBlank first = false) ∧
      (∀ token, IsToken mixedLine token → Columns.ofText token ≤ 4) ∧
      wrap false 4 mixedLine = ("to\nbe中\n文\nor\nnot").toList ∧
      IsLeast {count | ∃ groups, Grouping 4 mixedLine groups ∧ groups.length = count} 5 := by
  have newline : '\n' ∉ mixedLine := by decide +kernel
  have begins : ∃ first ∈ mixedLine.head?, isBlank first = false :=
    ⟨'t', by decide +kernel, by decide⟩
  have fit (token : List Char) (isToken : IsToken mixedLine token) : Columns.ofText token ≤ 4 := by
    have each : ∀ piece ∈ pieces false mixedLine, piece.isInk = true →
        Columns.ofText piece.text ≤ 4 := by
      decide +kernel
    obtain ⟨piece, present, ink, rfl⟩ := (isToken_iff newline).mp isToken
    exact each piece present ink
  have count : (lines (wrap false (4 : Nat) mixedLine)).length = 5 := by decide +kernel
  refine ⟨by decide, newline, begins, fit, by decide +kernel, ?_⟩
  rw [← count]
  exact isLeast_length_wrap (by decide) newline begins fit

end Wrap
end Galley
