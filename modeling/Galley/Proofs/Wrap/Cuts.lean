import Galley.Proofs.Wrap.Drafts
import Galley.Proofs.Wrap.Runs

/-!
# Cuts

Without markers, wrapping only cuts hard lines and drops blanks at the cuts.  The filler
is followed piece by piece: what has been read is the blanks in front, the finished
lines, each with the blanks dropped behind it, and the pending text.
-/

namespace Galley
namespace Wrap

open Piece Text

/-- Two texts may be parted without a blank beside a character that is not graphic, and
inside a run of graphic characters that is wider than the budget. -/
def Severs (budget : Nat) (before after : List Char) : Prop :=
  (∃ last ∈ before.getLast?, isGraphic last = false) ∨
    (∃ first ∈ after.head?, isGraphic first = false) ∨
    ∃ front left right back, before = front ++ left ∧ after = right ++ back ∧ left ≠ [] ∧
    right ≠ [] ∧
      IsRun front (left ++ right) back ∧ budget < Columns.ofText (left ++ right)

/-- The text of lines, each with the blanks dropped behind it. -/
def restore (rows : List (List Char × List Char)) : List Char :=
  rows.flatMap fun row => row.1 ++ row.2

@[simp] theorem restore_nil : restore [] = [] := rfl

@[simp] theorem restore_cons (row : List Char × List Char) (rows : List (List Char × List Char)) :
    restore (row :: rows) = row.1 ++ row.2 ++ restore rows := rfl

@[simp] theorem restore_append (first second : List (List Char × List Char)) :
    restore (first ++ second) = restore first ++ restore second := by
  simp [restore]

/-- Lines with blanks around them. -/
structure Spaced (front : List Char) (rows : List (List Char × List Char)) : Prop where
  /-- Only blanks stand in front. -/
  front_blank : allBlank front = true
  /-- Only blanks stand behind lines. -/
  gaps_blank : ∀ row ∈ rows, allBlank row.2 = true
  /-- No line ends with a blank. -/
  trimmed : ∀ row ∈ rows, Text.trimEnd row.1 = row.1
  /-- Only the first line may begin with one. -/
  begins : ∀ row ∈ rows.tail, ∀ first ∈ row.1.head?, isBlank first = false

/-- A hard line is cut into lines, each with the blanks that are dropped behind it, and
into the blanks dropped in front. -/
structure Cutting (budget : Nat) (hard front : List Char)
    (rows : List (List Char × List Char)) : Prop
    extends Spaced front rows where
  /-- Nothing else is dropped. -/
  whole : front ++ restore rows = hard
  /-- No line is empty unless the hard line shows nothing. -/
  shown : ∀ row ∈ rows, row.1 = [] → allBlank hard = true
  /-- Where nothing is dropped between two lines, they may be parted. -/
  severed : ∀ before line after, rows = before ++ (line, []) :: after → after ≠ [] →
    Severs budget (front ++ restore before ++ line) (restore after)

/-- A hard line begins with lines that may be parted from what follows them. -/
structure Begins (budget : Nat) (hard front : List Char)
    (rows : List (List Char × List Char)) : Prop
    extends Spaced front rows where
  /-- No line is empty. -/
  nonempty : ∀ row ∈ rows, row.1 ≠ []
  /-- Where nothing is dropped behind a line, it may be parted from the rest. -/
  severed : ∀ before line after, rows = before ++ (line, []) :: after →
    ∀ rest, front ++ restore before ++ line ++ rest = hard →
      Severs budget (front ++ restore before ++ line) rest

section Rows

variable {budget : Nat} {hard front line gap : List Char} {rows : List (List Char × List Char)}

/-- The last of some lines, or an earlier one. -/
theorem snoc_eq_append_cons {before after : List (List Char × List Char)}
    {row other : List Char × List Char} (parts : rows ++ [row] = before ++ other :: after) :
    (after = [] ∧ rows = before ∧ row = other) ∨ ∃ others, after = others ++ [row] ∧
      rows = before ++ other :: others := by
  rcases List.eq_nil_or_concat after with rfl | ⟨others, last, rfl⟩
  · obtain ⟨same, single⟩ := List.append_inj' parts rfl
    exact Or.inl ⟨rfl, same, List.singleton_inj.mp single⟩
  · rw [List.concat_eq_append, ← List.cons_append, ← List.append_assoc] at parts
    obtain ⟨same, single⟩ := List.append_inj' parts rfl
    obtain rfl := List.singleton_inj.mp single
    exact Or.inr ⟨others, List.concat_eq_append .., same⟩

namespace Spaced

theorem nil (blank : allBlank front = true) : Spaced front [] :=
  ⟨blank, by simp, by simp, by simp⟩

/-- A further line. -/
theorem snoc (spaced : Spaced front rows) (blank : allBlank gap = true)
    (trimmed : Text.trimEnd line = line)
    (begins : rows ≠ [] → ∀ first ∈ line.head?, isBlank first = false) :
    Spaced front (rows ++ [(line, gap)]) := by
  refine ⟨spaced.front_blank,
    List.forall_mem_append.mpr ⟨spaced.gaps_blank, List.forall_mem_singleton.mpr blank⟩,
    List.forall_mem_append.mpr ⟨spaced.trimmed, List.forall_mem_singleton.mpr trimmed⟩, ?_⟩
  cases rows with
  | nil => simp
  | cons first others =>
      exact List.forall_mem_append.mpr
        ⟨spaced.begins, List.forall_mem_singleton.mpr (begins (by simp))⟩

/-- The lines but for the last. -/
theorem init {row : List Char × List Char} (spaced : Spaced front (rows ++ [row])) :
    Spaced front rows := by
  refine ⟨spaced.front_blank, (List.forall_mem_append.mp spaced.gaps_blank).1,
    (List.forall_mem_append.mp spaced.trimmed).1, ?_⟩
  cases rows with
  | nil => simp
  | cons first others => exact (List.forall_mem_append.mp spaced.begins).1

/-- More blanks are dropped behind the last line. -/
theorem widen (spaced : Spaced front (rows ++ [(line, gap)])) {more : List Char}
    (blank : allBlank more = true) : Spaced front (rows ++ [(line, gap ++ more)]) := by
  have gapBlank : allBlank gap = true := spaced.gaps_blank (line, gap) (by simp)
  refine spaced.init.snoc ?_ (spaced.trimmed (line, gap) (by simp)) fun some => ?_
  · rw [allBlank_append, gapBlank, blank, Bool.true_and]
  · obtain ⟨first, others, rfl⟩ := List.exists_cons_of_ne_nil some
    exact spaced.begins (line, gap) (by simp)

end Spaced

namespace Begins

theorem nil (blank : allBlank front = true) : Begins budget hard front [] :=
  ⟨Spaced.nil blank, by simp, by simp⟩

/-- A further line. -/
theorem snoc (begun : Begins budget hard front rows) (spaced : Spaced front (rows ++ [(line, gap)]))
    (some : line ≠ [])
    (severed : gap = [] → ∀ rest, front ++ restore rows ++ line ++ rest = hard →
      Severs budget (front ++ restore rows ++ line) rest) :
    Begins budget hard front (rows ++ [(line, gap)]) := by
  refine ⟨spaced, List.forall_mem_append.mpr
    ⟨begun.nonempty, List.forall_mem_singleton.mpr some⟩, ?_⟩
  intro before other after parts
  rcases snoc_eq_append_cons parts with ⟨-, rfl, same⟩ | ⟨others, -, same⟩
  · obtain ⟨rfl, rfl⟩ := Prod.mk.inj same
    exact severed rfl
  · exact begun.severed before other others same

/-- More blanks are dropped behind the last line. -/
theorem widen (begun : Begins budget hard front (rows ++ [(line, gap)])) {more : List Char}
    (blank : allBlank more = true) : Begins budget hard front (rows ++ [(line, gap ++ more)]) := by
  have init : Begins budget hard front rows := by
    refine ⟨begun.toSpaced.init, (List.forall_mem_append.mp begun.nonempty).1, ?_⟩
    rintro before other after rfl
    exact begun.severed before other (after ++ [(line, gap)]) (by simp)
  refine init.snoc (begun.toSpaced.widen blank)
    (begun.nonempty (line, gap) (by simp)) fun none => ?_
  obtain ⟨rfl, -⟩ := List.append_eq_nil_iff.mp none
  exact begun.severed rows line [] rfl

/-- The hard line ends with the lines that it begins with. -/
theorem cutting (begun : Begins budget hard front rows) (whole : front ++ restore rows = hard) :
    Cutting budget hard front rows := by
  refine ⟨begun.toSpaced, whole, fun row listed none => absurd none (begun.nonempty row listed), ?_⟩
  intro before line after parts _
  refine begun.severed before line after parts _ ?_
  simp [← whole, parts]

/-- The hard line ends with one line more. -/
theorem cutting_snoc (begun : Begins budget hard front rows)
    (spaced : Spaced front (rows ++ [(line, gap)]))
    (whole : front ++ restore (rows ++ [(line, gap)]) = hard)
    (shown : line = [] → allBlank hard = true) :
    Cutting budget hard front (rows ++ [(line, gap)]) := by
  have earlier : ∀ row ∈ rows, row.1 = [] → allBlank hard = true :=
    fun row listed none => absurd none (begun.nonempty row listed)
  refine ⟨spaced, whole, List.forall_mem_append.mpr
    ⟨earlier, List.forall_mem_singleton.mpr shown⟩, ?_⟩
  intro before other after parts some
  rcases snoc_eq_append_cons parts with ⟨none, -⟩ | ⟨others, rfl, same⟩
  · exact absurd none some
  · refine begun.severed before other others same _ ?_
    simp [← whole, same]

end Begins

end Rows

/-! ## Cuts of a draft -/

namespace Draft

/-- What has been read of a hard line is found in a draft: cut into finished lines, and
pending. -/
structure Cuts (budget : Nat) (hard read : List Char) (draft : Draft) (front : List Char)
    (rows : List (List Char × List Char)) : Prop where
  /-- The lines are those finished. -/
  lines : rows.map Prod.fst = draft.finished
  /-- Nothing but the blanks at the cuts is lost. -/
  whole : front ++ restore rows ++ draft.pending = read
  /-- The hard line may begin so. -/
  begun : Begins budget hard front rows
  /-- Behind a finished line the pending text begins with ink. -/
  begins : rows ≠ [] → ∀ first ∈ draft.pending.head?, isBlank first = false

/-- There are cuts that leave the finished lines. -/
def IsCut (budget : Nat) (hard read : List Char) (draft : Draft) : Prop :=
  ∃ front rows, Cuts budget hard read draft front rows

variable {budget : Nat} {hard read done : List Char} {draft : Draft}

theorem Cuts.finished_eq_nil_iff {front : List Char} {rows : List (List Char × List Char)}
    (cuts : Cuts budget hard read draft front rows) : draft.finished = [] ↔ rows = [] := by
  rw [← cuts.lines, List.map_eq_nil_iff]

/-- Behind a finished line an idle draft has nothing pending. -/
theorem Cuts.pending_eq_nil {front : List Char} {rows : List (List Char × List Char)}
    (cuts : Cuts budget hard read draft front rows) (idle : draft.isIdle = true)
    (some : rows ≠ []) :
    draft.pending = [] := by
  cases found : draft.pending with
  | nil => rfl
  | cons first rest =>
      have shown := cuts.begins some first (by simp [found])
      rw [isIdle, found, allBlank, List.all_cons, shown] at idle
      cases idle

namespace IsCut

theorem start : IsCut budget hard [] {} :=
  ⟨[], [], rfl, rfl, Begins.nil rfl, fun some => absurd rfl some⟩

theorem push (cut : IsCut budget hard read draft) {text : List Char}
    (ink : draft.pending = [] → draft.finished ≠ [] → ∀ first ∈ text.head?, isBlank first = false) :
    IsCut budget hard (read ++ text) (draft.push text) := by
  obtain ⟨front, rows, cuts⟩ := cut
  refine ⟨front, rows, cuts.lines, ?_, cuts.begun, fun some first found => ?_⟩
  · rw [← cuts.whole, Draft.push, List.append_assoc _ draft.pending]
  · rw [Draft.push] at found
    cases pending : draft.pending with
    | nil =>
        rw [pending] at found
        exact ink pending (fun none => some (cuts.finished_eq_nil_iff.mp none)) first found
    | cons other rest =>
        rw [pending] at found
        exact cuts.begins some first (by rwa [pending])

/-- Where nothing is pending but blanks, these and more are dropped. -/
theorem drop (cut : IsCut budget hard read draft) (idle : draft.isIdle = true) {more : List Char}
    (blank : allBlank more = true) :
    IsCut budget hard (read ++ more) { draft with pending := [] } := by
  obtain ⟨front, rows, cuts⟩ := cut
  rcases List.eq_nil_or_concat rows with rfl | ⟨others, last, rfl⟩
  · refine ⟨front ++ draft.pending ++ more, [], cuts.lines, ?_, Begins.nil ?_, by simp⟩
    · simp [← cuts.whole]
    · have front_blank := cuts.begun.front_blank
      rw [isIdle] at idle
      simp only [allBlank_append, front_blank, idle, blank, Bool.and_self]
  · have none := cuts.pending_eq_nil idle (by simp)
    obtain ⟨lines, whole, begun, -⟩ := cuts
    rw [List.concat_eq_append] at lines whole begun
    refine ⟨front, others ++ [(last.1, last.2 ++ more)], ?_, ?_, begun.widen blank, by simp⟩
    · simpa using lines
    · simp [← whole, none]

/-- A line is finished, and the blanks behind it are dropped together with more. -/
theorem breakLine (cut : IsCut budget hard read draft) (inked : draft.isIdle = false)
    {more : List Char} (blank : allBlank more = true)
    (severed : more = [] → ∀ rest, read ++ rest = hard → Severs budget read rest) :
    IsCut budget hard (read ++ more) draft.breakLine := by
  obtain ⟨front, rows, cuts⟩ := cut
  obtain ⟨tail, line, tailBlank⟩ := exists_trimEnd draft.pending
  have some : Text.trimEnd draft.pending ≠ [] := by
    intro none
    rw [none, List.nil_append] at line
    rw [isIdle, ← line, tailBlank] at inked
    cases inked
  refine ⟨front, rows ++ [(Text.trimEnd draft.pending, tail ++ more)], ?_, ?_, ?_,
    by simp [Draft.breakLine]⟩
  · simp [Draft.breakLine, cuts.lines]
  · rw [← cuts.whole]
    conv_rhs => rw [← line]
    simp [Draft.breakLine]
  · have spaced : Spaced front (rows ++ [(Text.trimEnd draft.pending, tail ++ more)]) :=
      cuts.begun.toSpaced.snoc (by rw [allBlank_append, tailBlank, blank, Bool.true_and])
        (trimEnd_trimEnd _) fun listed first found =>
          cuts.begins listed first (mem_head?_of_trimEnd found)
    refine cuts.begun.snoc spaced some fun none => ?_
    · obtain ⟨rfl, rfl⟩ := List.append_eq_nil_iff.mp none
      rw [List.append_nil] at line
      rw [line, cuts.whole]
      exact severed rfl

/-- A new line is begun, and more blanks are dropped before it. -/
theorem renew (cut : IsCut budget hard read draft)
    (severed : draft.isIdle = false → ∀ rest, read ++ rest = hard → Severs budget read rest) :
    IsCut budget hard read draft.renew := by
  unfold Draft.renew
  cases idle : draft.isIdle with
  | true => simpa using cut.drop idle allBlank_nil
  | false => simpa using cut.breakLine idle allBlank_nil fun _ => severed idle

theorem addSpace (cut : IsCut budget hard read draft) {text : List Char} (some : text ≠ [])
    (blank : allBlank text = true) :
    IsCut budget hard (read ++ text) (draft.addSpace budget text) := by
  have more : text = [] → ∀ rest, read ++ rest = hard → Severs budget read rest :=
    fun none => absurd none some
  unfold Draft.addSpace
  split
  · rename_i skipped
    rw [Bool.and_eq_true] at skipped
    have dropped := cut.drop skipped.1 blank
    obtain ⟨front, rows, cuts⟩ := cut
    have none := cuts.pending_eq_nil skipped.1 fun empty => by
      rw [cuts.finished_eq_nil_iff.mpr empty] at skipped
      cases skipped.2
    rwa [← none] at dropped
  · rename_i kept
    split
    · unfold Draft.renew
      cases idle : draft.isIdle with
      | true => exact cut.drop idle blank
      | false => exact cut.breakLine idle blank more
    · refine cut.push fun none finished => ?_
      rw [isIdle, none] at kept
      simp [allBlank, finished] at kept

/-- The characters of a long word are added one after the other. -/
theorem addParts (cut : IsCut budget hard (read ++ done) draft) {word : List Char}
    (shown : ∀ character ∈ word, isBlank character = false)
    (begun : done = [] → draft.isIdle = true)
    (inside : ∀ left right, done ++ word = left ++ right → left ≠ [] → right ≠ [] →
      ∀ rest, read ++ left ++ rest = hard → Severs budget (read ++ left) rest) :
    IsCut budget hard (read ++ done ++ word) (word.foldl (addPart budget) draft) := by
  induction word generalizing done draft with
  | nil => simpa using cut
  | cons character rest inductionHypothesis =>
      obtain ⟨first, others⟩ := List.forall_mem_cons.mp shown
      have ink : ∀ other ∈ [character].head?, isBlank other = false := by simpa using first
      have added : IsCut budget hard (read ++ (done ++ [character]))
          (draft.addPart budget character) := by
        rw [← List.append_assoc]
        unfold addPart
        dsimp only
        split
        · rename_i full
          rw [Bool.and_eq_true, Bool.not_eq_true'] at full
          have some : done ≠ [] := fun none => by
            rw [begun none] at full
            cases full.1
          have broken := cut.breakLine full.1 allBlank_nil fun _ remaining whole =>
            inside done (character :: rest) rfl some (by simp) remaining whole
          rw [List.append_nil] at broken
          exact broken.push fun _ _ => ink
        · exact cut.push fun _ _ => ink
      have all := inductionHypothesis added others (by simp) fun left right parts =>
        inside left right (by simpa using parts)
      simpa using all

theorem addInk (cut : IsCut budget hard read draft) {text : List Char}
    (shown : ∀ character ∈ text, isBlank character = false)
    (before : read ≠ [] → ∀ rest, read ++ rest = hard → Severs budget read rest)
    (inside : budget < Columns.ofText text → ∀ left right, text = left ++ right →
        left ≠ [] → right ≠ [] →
      ∀ rest, read ++ left ++ rest = hard → Severs budget (read ++ left) rest) :
    IsCut budget hard (read ++ text) (draft.addInk budget text) := by
  have ink : ∀ first ∈ text.head?, isBlank first = false :=
    fun first found => shown first (List.mem_of_head? found)
  have renewed : IsCut budget hard read draft.renew := by
    refine cut.renew fun inked => before fun none => ?_
    obtain ⟨front, rows, cuts⟩ := cut
    have empty := cuts.whole.trans none
    rw [List.append_eq_nil_iff] at empty
    rw [isIdle, empty.2] at inked
    cases inked
  unfold Draft.addInk
  split
  · exact cut.push fun _ _ => ink
  · split
    · exact renewed.push fun _ _ => ink
    · rename_i wide
      have start : IsCut budget hard (read ++ []) draft.renew := by simpa using renewed
      have idle : draft.renew.isIdle = true := by
        unfold Draft.renew
        split <;> rfl
      simpa using start.addParts shown (fun _ => idle) (inside (by omega))

end IsCut

end Draft

/-! ## Cuts of a line -/

section Line

variable {budget : Nat} {hard : List Char} {front back : List Piece} {piece : Piece}

/-- The text of the pieces behind some others is what is left of the line. -/
theorem spell_eq_of_pieces (parts : pieces false hard = front ++ back) {rest : List Char}
    (whole : spell front ++ rest = hard) : rest = spell back := by
  have spelled := spell_pieces false hard
  rw [parts, spell_append, ← whole] at spelled
  exact (List.append_cancel_left spelled).symm

/-- A line may be parted before a token. -/
theorem severs_before (parts : pieces false hard = front ++ piece :: back)
    (ink : piece.isInk = true)
    (some : spell front ≠ []) {rest : List Char} (whole : spell front ++ rest = hard) :
    Severs budget (spell front) rest := by
  obtain rfl := spell_eq_of_pieces parts whole
  cases piece with
  | marker text => cases ink
  | space text => cases ink
  | word text =>
      have run := isRun_of_pieces parts
      have found := List.getLast?_eq_some_getLast some
      exact Or.inl ⟨_, found, run.before _ found⟩
  | wide character =>
      obtain ⟨-, other⟩ := ofSort_pieces hard (.wide character) (by simp [parts])
      exact Or.inr (Or.inl ⟨character, rfl, other⟩)

/-- A line may be parted inside a token that is wider than the budget. -/
theorem severs_inside (parts : pieces false hard = front ++ piece :: back)
    (ink : piece.isInk = true)
    (wide : budget < Columns.ofText piece.text) {left right : List Char}
    (cut : piece.text = left ++ right) (leftSome : left ≠ []) (rightSome : right ≠ [])
    {rest : List Char} (whole : spell front ++ left ++ rest = hard) :
    Severs budget (spell front ++ left) rest := by
  rw [List.append_assoc] at whole
  have behind := spell_eq_of_pieces parts whole
  rw [spell_cons, cut, List.append_assoc] at behind
  obtain rfl := List.append_cancel_left behind
  cases piece with
  | marker text => cases ink
  | space text => cases ink
  | word text =>
      obtain rfl : text = left ++ right := cut
      exact Or.inr (Or.inr ⟨spell front, left, right, spell back, rfl, rfl, leftSome, rightSome,
        isRun_of_pieces parts, wide⟩)
  | wide character =>
      have length := congrArg List.length cut
      have leftLong := List.length_pos_iff.mpr leftSome
      have rightLong := List.length_pos_iff.mpr rightSome
      simp only [Piece.text, List.length_singleton, List.length_append] at length
      omega

theorem Draft.IsCut.add {draft : Draft} (cut : IsCut budget hard (spell front) draft)
    (parts : pieces false hard = front ++ piece :: back) :
    IsCut budget hard (spell front ++ piece.text) (draft.add budget piece) := by
  have sorted : OfSort piece := ofSort_pieces hard piece (by simp [parts])
  have proper : Proper piece := proper_pieces false hard piece (by simp [parts])
  have addInk (ink : piece.isInk = true) :
      IsCut budget hard (spell front ++ piece.text) (draft.addInk budget piece.text) :=
    cut.addInk (unblank_of_isInk proper ink).2
      (fun some rest whole => severs_before parts ink some whole)
      fun wide left right apart leftSome rightSome rest whole =>
        severs_inside parts ink wide apart leftSome rightSome whole
  cases piece with
  | marker text => cases sorted
  | space text => exact cut.addSpace sorted.1 sorted.2
  | word text => exact addInk rfl
  | wide character => exact addInk rfl

theorem Draft.IsCut.addAll {draft : Draft} (cut : IsCut budget hard (spell front) draft)
    (parts : pieces false hard = front ++ back) :
    IsCut budget hard hard (back.foldl (Draft.add budget) draft) := by
  induction back generalizing front draft with
  | nil =>
      have spelled := spell_pieces false hard
      rw [parts, List.append_nil] at spelled
      rwa [spelled] at cut
  | cons piece rest inductionHypothesis =>
      have added : IsCut budget hard (spell (front ++ [piece])) (draft.add budget piece) := by
        simpa using cut.add parts
      exact inductionHypothesis added (by simp [parts])

/-- The lines of a draft are cut from what was read. -/
theorem Draft.IsCut.lines {draft : Draft} (cut : IsCut budget hard hard draft) :
    ∃ front rows, rows.map Prod.fst = draft.lines ∧ Cutting budget hard front rows := by
  obtain ⟨front, rows, cuts⟩ := cut
  unfold Draft.lines
  split
  · rename_i closed
    rw [Bool.and_eq_true, Bool.not_eq_true'] at closed
    have none := cuts.pending_eq_nil closed.1 fun empty => by
      rw [cuts.finished_eq_nil_iff.mpr empty] at closed
      cases closed.2
    exact ⟨front, rows, cuts.lines, cuts.begun.cutting (by simpa [none] using cuts.whole)⟩
  · rename_i begun
    obtain ⟨tail, line, tailBlank⟩ := exists_trimEnd draft.pending
    have spaced : Spaced front (rows ++ [(Text.trimEnd draft.pending, tail)]) :=
      cuts.begun.toSpaced.snoc tailBlank (trimEnd_trimEnd _) fun some first found =>
        cuts.begins some first (mem_head?_of_trimEnd found)
    refine ⟨front, rows ++ [(Text.trimEnd draft.pending, tail)], by simp [cuts.lines],
      cuts.begun.cutting_snoc spaced ?_ fun none => ?_⟩
    · rw [← cuts.whole]
      conv_rhs => rw [← line]
      simp
    · -- Nothing is pending but blanks, so no line was finished before.
      rw [none, List.nil_append] at line
      have idle : draft.isIdle = true := by rw [isIdle, ← line, tailBlank]
      rw [idle, Bool.true_and] at begun
      have noRows : rows = [] := cuts.finished_eq_nil_iff.mp (by simpa using begun)
      have front_blank := cuts.begun.front_blank
      rw [← cuts.whole, noRows, ← line, restore_nil, List.append_nil, allBlank_append, front_blank,
        tailBlank, Bool.true_and]

/-- A line is cut into the lines that it is wrapped into. -/
theorem exists_cutting (budget : Nat) (line : List Char) :
    ∃ front rows, rows.map Prod.fst = wrapLine false budget line ∧
    Cutting budget line front rows := by
  have start : Draft.IsCut budget line (spell []) {} := Draft.IsCut.start
  have cut : Draft.IsCut budget line line ((pieces false line).foldl (Draft.add budget) {}) :=
    start.addAll rfl
  rw [wrapLine_eq_lines]
  exact cut.lines

end Line

/-! ## Cuts of a text -/

/-- The lines of a wrapped hard line. -/
theorem lines_wrap_of_whole (markers : Bool) (width : Int) {hard : List Char}
    (whole : '\n' ∉ hard) :
    lines (wrap markers width hard) = wrapLine markers (budget width) hard := by
  rw [lines_wrap, lines_of_not_mem whole, List.flatMap_singleton]

/-- Hard lines are wrapped one by one. -/
theorem wrap_eq_unlines (markers : Bool) (width : Int) (text : List Char) :
    wrap markers width text = unlines ((lines text).map (wrap markers width)) := by
  have each : (lines text).map (wrap markers width) =
      (lines text).map fun hard => unlines (wrapLine markers (budget width) hard) :=
    List.map_congr_left fun hard listed => by
      rw [← lines_wrap_of_whole markers width (not_mem_of_mem_lines listed), unlines_lines]
  rw [each, ← unlines_flatMap fun hard _ => wrapLine_ne_nil markers (budget width) hard]
  rfl

/-- Wrapping cuts each hard line by itself, and drops nothing but blanks at the cuts.
No line ends with a blank, only the first may begin with one, and a line is empty only
where the hard line shows nothing.  Where no blank is dropped between two lines, a
character that is not graphic stands beside the cut, or it parts a maximal run of
graphic characters that is wider than the budget. -/
theorem wrap_cuts (width : Int) (text : List Char) :
    wrap false width text = unlines ((lines text).map (wrap false width)) ∧
      ∀ hard ∈ lines text, ∃ front rows, rows ≠ [] ∧ rows.map Prod.fst =
        lines (wrap false width hard) ∧
        Cutting (budget width) hard front rows := by
  refine ⟨wrap_eq_unlines false width text, fun hard listed => ?_⟩
  obtain ⟨front, rows, laid, cutting⟩ := exists_cutting (budget width) hard
  refine ⟨front, rows, fun none => ?_, ?_, cutting⟩
  · rw [none] at laid
    exact wrapLine_ne_nil false (budget width) hard laid.symm
  · rw [laid, lines_wrap_of_whole false width (not_mem_of_mem_lines listed)]

end Wrap
end Galley
