import Galley.Proofs.Text.Trimming
import Galley.Proofs.Wrap.Parted
import Mathlib.Data.List.Forall2

/-!
# Wrapping marked lines

The filler takes the same breaks with and without markers: one filler tracks another
when it holds the same pieces and some markers.  So the lines of a parted marked line,
once erased, are the lines of the erased line, up to blanks at their ends.
-/

namespace Galley
namespace Wrap

open Marker Piece Text

/-- Members that fail the first test satisfy the second, so the two ways of dropping
commute. -/
theorem dropEndWhile_filter {keep test : α → Bool}
    (covered : ∀ item, keep item = false → test item = true) (items : List α) :
    dropEndWhile test (items.filter keep) = (dropEndWhile test items).filter keep := by
  have front (entries : List α) :
      (entries.filter keep).dropWhile test = (entries.dropWhile test).filter keep := by
    induction entries with
    | nil => rfl
    | cons item rest inductionHypothesis =>
        cases kept : keep item with
        | false =>
            rw [List.filter_cons_of_neg (by simp [kept]),
              List.dropWhile_cons_of_pos (covered item kept), inductionHypothesis]
        | true =>
            rw [List.filter_cons_of_pos kept]
            by_cases dropped : test item = true
            · rw [List.dropWhile_cons_of_pos dropped, List.dropWhile_cons_of_pos dropped,
                inductionHypothesis]
            · rw [List.dropWhile_cons_of_neg dropped, List.dropWhile_cons_of_neg dropped,
                List.filter_cons_of_pos kept]
  rw [dropEndWhile, dropEndWhile, ← List.filter_reverse, front, List.filter_reverse]

namespace Filler

/-! ## Cutting lines -/

/-- A line is cut in three: its body, markers that stay, and what is dropped but for its
markers. -/
theorem exists_cut (line : List Piece) :
    ∃ body attached dropped,
      line = body ++ attached ++ dropped ∧
        body = dropEndWhile (fun piece => piece.isSpace || piece.isMarker) line ∧
        (∀ piece ∈ attached, piece.isMarker = true) ∧
        (∀ piece ∈ attached ++ dropped, (piece.isSpace || piece.isMarker) = true) ∧
        cut line = (body ++ attached, dropped.filter Piece.isMarker) := by
  obtain ⟨tail, whole, loose⟩ :=
    exists_dropEndWhile (fun piece : Piece => piece.isSpace || piece.isMarker) line
  have parts : tail = tail.takeWhile Piece.isMarker ++ tail.dropWhile Piece.isMarker :=
    List.takeWhile_append_dropWhile.symm
  refine ⟨_, tail.takeWhile Piece.isMarker, tail.dropWhile Piece.isMarker, ?_, rfl,
    fun piece present => List.mem_takeWhile_imp present, ?_, ?_⟩
  · rw [List.append_assoc, ← parts]
    exact whole
  · rw [← parts]
    exact loose
  · unfold cut
    dsimp only
    rw [drop_length_of_append whole, drop_length_of_append parts]

theorem bare_filter_isMarker (pieces : List Piece) :
    bare (pieces.filter Piece.isMarker) = [] :=
  bare_of_isMarker fun _ present => (List.mem_filter.mp present).2

/-- Without markers a line is cut at the same piece, and nothing moves to the next
line. -/
theorem cut_bare (line : List Piece) : cut (bare line) = (bare (cut line).1, []) := by
  obtain ⟨body, attached, dropped, -, found, marked, -, cutLine⟩ := exists_cut line
  obtain ⟨body', attached', dropped', whole', found', marked', -, cutBare⟩ := exists_cut (bare line)
  have none (piece : Piece) (listed : piece ∈ bare line)
      (marker : piece.isMarker = true) : False := by
    rw [isMarker_of_mem_bare listed] at marker
    cases marker
  have noneAttached : attached' = [] := by
    refine List.eq_nil_iff_forall_not_mem.mpr fun piece present => ?_
    exact none piece (by rw [whole']; simp [present]) (marked' piece present)
  have noneCarried : dropped'.filter Piece.isMarker = [] := by
    refine List.filter_eq_nil_iff.mpr fun piece present marker => ?_
    exact none piece (by rw [whole']; simp [present]) marker
  have sameBody : body' = bare body := by
    rw [found', found]
    exact dropEndWhile_filter (by simp +contextual) line
  rw [cutBare, cutLine, noneAttached, noneCarried, sameBody, bare_append, bare_of_isMarker marked]

/-! ## Tracking -/

/-- A line with ink shows it. -/
theorem allBlank_spell_of_isInk {pieces : List Piece} {piece : Piece}
    (present : piece ∈ pieces) (proper : Proper piece) (ink : piece.isInk = true) :
    allBlank (Piece.spell pieces) = false := by
  have shown : ∃ character ∈ piece.text, isBlank character = false := by
    cases piece with
    | marker text => cases ink
    | space text => cases ink
    | word text =>
        obtain ⟨first, others, rfl⟩ := List.exists_cons_of_ne_nil proper.1
        exact ⟨first, by simp [Piece.text], proper.2 first (by simp)⟩
    | wide character => exact ⟨character, by simp [Piece.text], proper⟩
  obtain ⟨character, inside, shown⟩ := shown
  refine List.all_eq_false.mpr ⟨character, List.mem_flatMap.mpr ⟨piece, present, inside⟩, ?_⟩
  simp [shown]

/-- A filler of marked pieces tracks one of pieces without markers: both hold the same
pieces, and what the first holds is legible wherever what was read is. -/
structure Tracks (read : List Symbol) (marked plain : Filler) : Prop where
  /-- Finished lines differ by markers. -/
  finished : marked.finished.map bare = plain.finished
  /-- Pending lines differ by markers. -/
  pending : bare marked.pending = plain.pending
  /-- Pending pieces hold what their sorts say. -/
  proper : ∀ piece ∈ marked.pending, Proper piece
  /-- Finished lines are legible. -/
  finished_legible : ∀ line ∈ marked.finished, Legible (expand line)
  /-- Finished lines show something. -/
  finished_shown : ∀ line ∈ marked.finished, allBlank (Piece.spell (bare line)) = false
  /-- The pending line is legible before whatever may be read next. -/
  pending_legible : ∀ next, Legible (read ++ next) → Legible (expand marked.pending ++ next)

/-- Pieces that are no ink are blanks and markers. -/
theorem loose_of_no_ink {pieces : List Piece} (proper : ∀ piece ∈ pieces, Proper piece)
    (markers : ∀ text, Piece.marker text ∈ pieces → IsMarker text)
    (none : pieces.any Piece.isInk = false) :
    ∀ symbol ∈ expand pieces, symbol.isBlank = true ∨
      ∃ marker, symbol = .marker marker ∧ IsMarker marker := by
  intro symbol present
  obtain ⟨piece, listed, inside⟩ := List.mem_flatMap.mp present
  have loose : piece.isInk = false := by
    have all := List.any_eq_false.mp none piece listed
    simpa using all
  cases piece with
  | marker text =>
      refine Or.inr ⟨text, ?_, markers text listed⟩
      simpa [Piece.symbols] using inside
  | space text =>
      obtain ⟨character, member, rfl⟩ := List.mem_map.mp inside
      exact Or.inl (List.all_eq_true.mp (proper _ listed) character member)
  | word text => cases loose
  | wide character => cases loose

namespace Tracks

variable {read : List Symbol} {marked plain : Filler}

theorem start : Tracks [] {} {} :=
  ⟨rfl, rfl, by simp, by simp, by simp, fun _ legible => by simpa using legible⟩

theorem hasInk_eq (tracks : Tracks read marked plain) : marked.hasInk = plain.hasInk := by
  rw [hasInk, hasInk, ← tracks.pending, any_isInk_bare]

theorem used_eq (tracks : Tracks read marked plain) : marked.used = plain.used := by
  rw [used, used, ← tracks.pending, width_bare]

theorem isEmpty_eq (tracks : Tracks read marked plain) :
    marked.finished.isEmpty = plain.finished.isEmpty := by
  rw [← tracks.finished, List.isEmpty_map]

/-- Markers of the pending line are markers. -/
theorem isMarker (tracks : Tracks read marked plain) (legible : Legible read) :
    ∀ text, Piece.marker text ∈ marked.pending → IsMarker text := by
  intro text present
  have whole := tracks.pending_legible [] (by simpa using legible)
  refine whole.markers text (List.mem_append_left _ (List.mem_flatMap.mpr ⟨_, present, ?_⟩))
  simp [Piece.symbols]

/-- Where the pending line is replaced by some of its markers, anything may have been
read since. -/
theorem carry (tracks : Tracks read marked plain) (legible : Legible read) (more next : List Symbol)
    (later : Legible (read ++ more ++ next)) {markers : List Piece}
    (inside : ∀ piece ∈ markers, piece ∈ marked.pending ∧ piece.isMarker = true) :
    Legible (expand markers ++ next) := by
  refine (later.part (List.suffix_append _ next).isInfix).append_left ?_
  refine loose_of_no_ink (fun piece present => tracks.proper piece (inside piece present).1)
    (fun text present => tracks.isMarker legible text (inside _ present).1) ?_
  exact List.any_eq_false.mpr fun piece present => by
    simp [isInk_of_isMarker (inside piece present).2]

/-- A marker is added to one filler only. -/
theorem marker (tracks : Tracks read marked plain) (text : List Char) :
    Tracks (read ++ [.marker text]) (marked.push (.marker text)) plain := by
  refine ⟨tracks.finished, ?_, ?_, tracks.finished_legible, tracks.finished_shown,
    fun next legible => ?_⟩
  · simp [push, tracks.pending]
  · intro piece present
    rcases List.mem_append.mp present with before | last
    · exact tracks.proper piece before
    · rw [List.mem_singleton.mp last]
      trivial
  · rw [List.append_assoc] at legible
    simpa [push, Piece.symbols] using tracks.pending_legible _ legible

/-- Any other piece is added to both fillers. -/
theorem push (tracks : Tracks read marked plain) {piece : Piece} (proper : Proper piece)
    (shown : piece.isMarker = false) :
    Tracks (read ++ piece.symbols) (marked.push piece) (plain.push piece) := by
  refine ⟨tracks.finished, ?_, ?_, tracks.finished_legible, tracks.finished_shown,
    fun next legible => ?_⟩
  · simp [Filler.push, tracks.pending, bare_cons shown]
  · intro other present
    rcases List.mem_append.mp present with before | last
    · exact tracks.proper other before
    · rw [List.mem_singleton.mp last]
      exact proper
  · rw [List.append_assoc] at legible
    simpa [Filler.push] using tracks.pending_legible _ legible

/-- Both fillers finish their lines. -/
theorem breakLine (tracks : Tracks read marked plain) (legible : Legible read)
    (ink : marked.hasInk = true) : Tracks read marked.breakLine plain.breakLine := by
  obtain ⟨body, attached, dropped, whole, -, -, loose, cutLine⟩ := exists_cut marked.pending
  have carried : ∀ piece ∈ dropped.filter Piece.isMarker,
      piece ∈ marked.pending ∧ piece.isMarker = true := by
    intro piece present
    obtain ⟨listed, marker⟩ := List.mem_filter.mp present
    exact ⟨by rw [whole]; simp [listed], marker⟩
  have plainCut := cut_bare marked.pending
  rw [tracks.pending, cutLine] at plainCut
  unfold Filler.breakLine
  rw [cutLine, plainCut]
  dsimp only
  refine ⟨?_, ?_, fun piece present => tracks.proper piece (carried piece present).1, ?_, ?_,
    fun next later => ?_⟩
  · rw [List.map_append, tracks.finished]
    rfl
  · exact bare_filter_isMarker dropped
  · intro line present
    rcases List.mem_append.mp present with before | last
    · exact tracks.finished_legible line before
    · rw [List.mem_singleton.mp last]
      have pending := tracks.pending_legible [] (by simpa using legible)
      rw [List.append_nil, whole, expand_append] at pending
      exact pending.part (List.prefix_append _ _).isInfix
  · intro line present
    rcases List.mem_append.mp present with before | last
    · exact tracks.finished_shown line before
    · obtain ⟨piece, listed, shown⟩ := List.any_eq_true.mp ink
      have solid : (piece.isSpace || piece.isMarker) = false := by
        cases piece with
        | marker text => cases shown
        | space text => cases shown
        | word text => rfl
        | wide character => rfl
      have kept : piece ∈ body := by
        rw [whole, List.append_assoc] at listed
        rcases List.mem_append.mp listed with inside | outside
        · exact inside
        · rw [loose piece outside] at solid
          cases solid
      rw [List.mem_singleton.mp last]
      have unmarked : piece ∈ bare (body ++ attached) :=
        List.mem_filter.mpr ⟨by simp [kept], by simp [isMarker_of_isInk shown]⟩
      exact allBlank_spell_of_isInk unmarked (tracks.proper piece listed) shown
  · exact tracks.carry legible [] next (by simpa using later) carried

/-- Both fillers drop the blanks of a line without ink. -/
theorem dropSpace (tracks : Tracks read marked plain) (legible : Legible read) :
    Tracks read marked.dropSpace plain.dropSpace := by
  have carried : ∀ piece ∈ marked.pending.filter Piece.isMarker,
      piece ∈ marked.pending ∧ piece.isMarker = true :=
    fun piece present => List.mem_filter.mp present
  refine ⟨tracks.finished, ?_, fun piece present => tracks.proper piece (carried piece present).1,
    tracks.finished_legible, tracks.finished_shown, fun next later => ?_⟩
  · rw [Filler.dropSpace, Filler.dropSpace]
    dsimp only
    rw [bare_filter_isMarker, ← tracks.pending]
    symm
    refine List.filter_eq_nil_iff.mpr fun piece present => ?_
    simp [isMarker_of_mem_bare present]
  · exact tracks.carry legible [] next (by simpa using later) carried

/-- What follows what was read may be longer where nothing was held of it. -/
theorem extend (tracks : Tracks read marked plain) (legible : Legible read)
    (none : marked.hasInk = false) (more : List Symbol) : Tracks (read ++ more) marked plain := by
  refine ⟨tracks.finished, tracks.pending, tracks.proper, tracks.finished_legible,
    tracks.finished_shown, ?_⟩
  intro next later
  refine (later.part (List.suffix_append _ next).isInfix).append_left ?_
  exact loose_of_no_ink tracks.proper (tracks.isMarker legible) none

/-- A run of blanks is treated alike by both fillers. -/
theorem addSpace (tracks : Tracks read marked plain) (budget : Nat) {text : List Char}
    (blank : allBlank text = true) (legible : Legible (read ++ text.map .char)) :
    Tracks (read ++ text.map .char) (marked.addSpace budget text) (plain.addSpace budget text) := by
  have before : Legible read := legible.part (List.prefix_append _ _).isInfix
  unfold Filler.addSpace
  rw [tracks.hasInk_eq, tracks.used_eq, tracks.isEmpty_eq]
  split
  · rename_i skipped
    refine tracks.extend before ?_ _
    rw [tracks.hasInk_eq]
    simpa using (Bool.and_eq_true_iff.mp skipped).2
  · split
    · split
      · rename_i ink
        refine (tracks.breakLine before (tracks.hasInk_eq.trans ink)).extend before ?_ _
        refine List.any_eq_false.mpr fun piece present => ?_
        simp [isInk_of_isMarker (List.mem_filter.mp present).2]
      · refine (tracks.dropSpace before).extend before ?_ _
        refine List.any_eq_false.mpr fun piece present => ?_
        simp [isInk_of_isMarker (List.mem_filter.mp present).2]
    · have proper : Proper (.space text) := blank
      exact tracks.push proper rfl

/-- The characters of a long word are added to both fillers. -/
theorem addParts (tracks : Tracks read marked plain) (budget : Nat) {word : List Char}
    (shown : ∀ character ∈ word, isBlank character = false)
    (legible : Legible (read ++ word.map .char)) :
    Tracks (read ++ word.map .char) (word.foldl (addPart budget) marked)
      (word.foldl (addPart budget) plain) := by
  induction word generalizing read marked plain with
  | nil => simpa using tracks
  | cons character rest inductionHypothesis =>
      have before : Legible read := legible.part (List.prefix_append _ _).isInfix
      have proper : Proper (.word [character]) :=
        ⟨by simp, by simpa using shown character (by simp)⟩
      have added : Tracks (read ++ [.char character]) (marked.addPart budget character)
          (plain.addPart budget character) := by
        unfold addPart
        rw [tracks.hasInk_eq, tracks.used_eq]
        dsimp only
        split
        · rename_i full
          have ink := tracks.hasInk_eq.trans (Bool.and_eq_true_iff.mp full).1
          exact (tracks.breakLine before ink).push proper rfl
        · exact tracks.push proper rfl
      rw [List.map_cons, ← List.singleton_append, ← List.append_assoc] at legible ⊢
      exact inductionHypothesis added (fun other present => shown other (by simp [present])) legible

/-- A word or a wide character is added to both fillers. -/
theorem addInk (tracks : Tracks read marked plain) (budget : Nat) {piece : Piece}
    (proper : Proper piece) (ink : piece.isInk = true)
    (legible : Legible (read ++ piece.symbols)) :
    Tracks (read ++ piece.symbols) (marked.addInk budget piece) (plain.addInk budget piece) := by
  have before : Legible read := legible.part (List.prefix_append _ _).isInfix
  have shown := isMarker_of_isInk ink
  unfold Filler.addInk
  rw [tracks.hasInk_eq, tracks.used_eq]
  split
  · exact tracks.push proper shown
  · have fresh : Tracks read (if plain.hasInk then marked.breakLine else marked.dropSpace)
        (if plain.hasInk then plain.breakLine else plain.dropSpace) := by
      split
      · exact tracks.breakLine before (tracks.hasInk_eq.trans ‹_›)
      · exact tracks.dropSpace before
    dsimp only
    split
    · exact fresh.push proper shown
    · have spelled : piece.symbols = piece.text.map .char := by
        cases piece with
        | marker text => cases shown
        | space text => rfl
        | word text => rfl
        | wide character => rfl
      rw [spelled] at legible ⊢
      refine fresh.addParts budget (fun character present => ?_) legible
      cases piece with
      | marker text => cases ink
      | space text => cases ink
      | word text => exact proper.2 character present
      | wide other =>
          obtain rfl := List.mem_singleton.mp present
          exact proper

/-- A filler of pieces tracks the filler of the same pieces without markers. -/
theorem addAll (tracks : Tracks read marked plain) (budget : Nat) {pieces : List Piece}
    (proper : ∀ piece ∈ pieces, Proper piece) (legible : Legible (read ++ expand pieces)) :
    Tracks (read ++ expand pieces) (pieces.foldl (add budget) marked)
      ((bare pieces).foldl (add budget) plain) := by
  induction pieces generalizing read marked plain with
  | nil => simpa using tracks
  | cons piece rest inductionHypothesis =>
      obtain ⟨first, others⟩ := List.forall_mem_cons.mp proper
      rw [expand_cons, ← List.append_assoc] at legible ⊢
      have here : Legible (read ++ piece.symbols) :=
        legible.part (List.prefix_append _ _).isInfix
      cases piece with
      | marker text => exact inductionHypothesis (tracks.marker text) others legible
      | space text => exact inductionHypothesis (tracks.addSpace budget first here) others legible
      | word text => exact inductionHypothesis (tracks.addInk budget first rfl here) others legible
      | wide character =>
          exact inductionHypothesis (tracks.addInk budget first rfl here) others legible

end Tracks

/-! ## Lines -/

/-- A marked line stands for a plain one: erased it is the same but for blanks at the
end, and it is exactly the same where it shows nothing. -/
structure Matches (marked plain : List Char) : Prop where
  /-- Both show the same. -/
  trimmed : Text.trimEnd (erase marked) = Text.trimEnd plain
  /-- Lines that show nothing are the same. -/
  blank : allBlank (erase marked) = true → erase marked = plain

theorem Matches.of_erase {marked plain : List Char} (same : erase marked = plain) :
    Matches marked plain :=
  ⟨by rw [same], fun _ => same⟩

theorem matches_finished {lines : List (List Piece)}
    (legible : ∀ line ∈ lines, Legible (expand line)) :
    List.Forall₂ Matches (lines.map Piece.spell) ((lines.map bare).map Piece.spell) := by
  induction lines with
  | nil => exact List.Forall₂.nil
  | cons line rest inductionHypothesis =>
      obtain ⟨first, others⟩ := List.forall_mem_cons.mp legible
      exact List.Forall₂.cons (Matches.of_erase (erase_spell_pieces first))
        (inductionHypothesis others)

theorem allBlank_spell_of_isSpace {pieces : List Piece} (proper : ∀ piece ∈ pieces, Proper piece)
    (spaces : ∀ piece ∈ pieces, piece.isSpace = true) : allBlank (Piece.spell pieces) = true := by
  refine List.all_eq_true.mpr fun character present => ?_
  obtain ⟨piece, listed, inside⟩ := List.mem_flatMap.mp present
  have space := spaces piece listed
  cases piece with
  | space text => exact List.all_eq_true.mp (proper _ listed) character inside
  | marker text => cases space
  | word text => cases space
  | wide other => cases space

/-- Trimming the last line leaves its ink. -/
theorem shown_trimEnd {pending : List Piece} (proper : ∀ piece ∈ pending, Proper piece)
    (ink : pending.any Piece.isInk = true) :
    allBlank (Piece.spell (bare (trimEnd pending))) = false := by
  obtain ⟨tail, whole, spaces⟩ := exists_dropEndWhile Piece.isSpace pending
  obtain ⟨piece, listed, shown⟩ := List.any_eq_true.mp ink
  have kept : piece ∈ trimEnd pending := by
    have parts : piece ∈ trimEnd pending ++ tail := whole ▸ listed
    rcases List.mem_append.mp parts with inside | dropped
    · exact inside
    · rw [isInk_of_isSpace (spaces piece dropped)] at shown
      cases shown
  have unmarked : piece ∈ bare (trimEnd pending) :=
    List.mem_filter.mpr ⟨kept, by simp [isMarker_of_isInk shown]⟩
  exact allBlank_spell_of_isInk unmarked (proper piece listed) shown

theorem erase_trimEnd {pending : List Piece} (legible : Legible (expand pending)) :
    erase (Piece.spell (trimEnd pending)) = Piece.spell (bare (trimEnd pending)) := by
  obtain ⟨tail, whole, -⟩ := exists_dropEndWhile Piece.isSpace pending
  have parts : trimEnd pending ++ tail = pending := whole.symm
  refine erase_spell_pieces (legible.part ⟨[], expand tail, ?_⟩)
  rw [List.nil_append, ← expand_append, parts]

/-- The last line is trimmed with or without its markers. -/
theorem matches_trimEnd {pending : List Piece} (proper : ∀ piece ∈ pending, Proper piece)
    (legible : Legible (expand pending)) (ink : pending.any Piece.isInk = true) :
    Matches (Piece.spell (trimEnd pending)) (Piece.spell (trimEnd (bare pending))) := by
  obtain ⟨tail, whole, spaces⟩ := exists_dropEndWhile Piece.isSpace pending
  obtain ⟨tail', whole', spaces'⟩ := exists_dropEndWhile Piece.isSpace (bare pending)
  have properOf (piece : Piece) (listed : piece ∈ bare pending) : Proper piece :=
    proper piece (List.mem_of_mem_filter listed)
  have erased := erase_trimEnd legible
  have bareTail : bare tail = tail := by
    refine List.filter_eq_self.mpr fun piece present => ?_
    have space := spaces piece present
    cases piece with
    | space text => rfl
    | marker text => cases space
    | word text => cases space
    | wide character => cases space
  have tailBlank : allBlank (Piece.spell tail) = true :=
    allBlank_spell_of_isSpace (fun piece present => proper piece (whole ▸ by simp [present])) spaces
  have tailBlank' : allBlank (Piece.spell tail') = true :=
    allBlank_spell_of_isSpace (fun piece present => properOf piece (whole' ▸ by simp [present]))
      spaces'
  refine ⟨?_, fun blank => ?_⟩
  · calc Text.trimEnd (erase (Piece.spell (trimEnd pending)))
        = Text.trimEnd (Piece.spell (bare (trimEnd pending)) ++ Piece.spell tail) := by
          rw [erased, trimEnd_append_of_blank _ tailBlank]
      _ = Text.trimEnd (Piece.spell (bare pending)) := by
          rw [← bareTail, ← Piece.spell_append, ← bare_append]
          exact congrArg (fun pieces => Text.trimEnd (Piece.spell (bare pieces))) whole.symm
      _ = Text.trimEnd (Piece.spell (trimEnd (bare pending)) ++ Piece.spell tail') := by
          rw [← Piece.spell_append]
          exact congrArg (fun pieces => Text.trimEnd (Piece.spell pieces)) whole'
      _ = Text.trimEnd (Piece.spell (trimEnd (bare pending))) :=
          trimEnd_append_of_blank _ tailBlank'
  · rw [erased, shown_trimEnd proper ink] at blank
    cases blank

theorem map_bare_attach (lines : List (List Piece)) (extra : List Piece) :
    (attach lines extra).map bare = attach (lines.map bare) (bare extra) := by
  induction lines with
  | nil => rfl
  | cons line others inductionHypothesis =>
      cases others with
      | nil => simp [attach]
      | cons next rest =>
          have below := inductionHypothesis
          simp only [List.map_cons] at below
          simp only [attach, List.map_cons, below]

theorem legible_attach {lines : List (List Piece)} {extra : List Piece}
    (legible : ∀ line ∈ lines, Legible (expand line)) (extraLegible : Legible (expand extra))
    (opens : Opens (Symbol.spell (expand extra))) :
    ∀ line ∈ attach lines extra, Legible (expand line) := by
  induction lines with
  | nil => simp [attach]
  | cons line others inductionHypothesis =>
      obtain ⟨first, rest⟩ := List.forall_mem_cons.mp legible
      cases others with
      | nil =>
          refine List.forall_mem_cons.mpr ⟨?_, by simp⟩
          rw [expand_append]
          exact first.append extraLegible opens
      | cons next more =>
          exact List.forall_mem_cons.mpr ⟨first, inductionHypothesis rest⟩

/-- The lines of a filler that tracks another stand for the lines of the other. -/
theorem Tracks.lines {read : List Symbol} {marked plain : Filler}
    (tracks : Tracks read marked plain) (legible : Legible read)
    (begun : marked.hasInk = true ∨ marked.finished ≠ []) :
    List.Forall₂ Matches (marked.lines.map Piece.spell) (plain.lines.map Piece.spell) := by
  have pending := tracks.pending_legible [] (by simpa using legible)
  rw [List.append_nil] at pending
  unfold Filler.lines
  rw [← tracks.hasInk_eq, ← tracks.isEmpty_eq, ← tracks.finished, ← tracks.pending]
  cases ink : marked.hasInk with
  | true =>
      rw [Bool.true_or, if_pos rfl, if_pos rfl, List.map_append, List.map_append]
      refine List.rel_append (matches_finished tracks.finished_legible) ?_
      exact List.Forall₂.cons (matches_trimEnd tracks.proper pending ink) List.Forall₂.nil
  | false =>
      have some : marked.finished ≠ [] := begun.resolve_left (by simp [ink])
      have full : marked.finished.isEmpty = false := by simpa using some
      rw [full, Bool.or_self, if_neg (by simp), if_neg (by simp), ← map_bare_attach]
      refine matches_finished (legible_attach tracks.finished_legible pending ?_)
      exact opens_of_loose (loose_of_no_ink tracks.proper (tracks.isMarker legible) ink)

/-- All lines of a filler that has begun show something. -/
theorem Tracks.lines_shown {read : List Symbol} {marked plain : Filler}
    (tracks : Tracks read marked plain) (legible : Legible read)
    (begun : marked.hasInk = true ∨ marked.finished ≠ []) :
    ∀ line ∈ marked.lines, allBlank (erase (Piece.spell line)) = false := by
  have pending := tracks.pending_legible [] (by simpa using legible)
  rw [List.append_nil] at pending
  have finished : ∀ line ∈ marked.finished, allBlank (erase (Piece.spell line)) = false := by
    intro line present
    rw [erase_spell_pieces (tracks.finished_legible line present)]
    exact tracks.finished_shown line present
  unfold Filler.lines
  cases ink : marked.hasInk with
  | true =>
      rw [Bool.true_or, if_pos rfl]
      intro line present
      rcases List.mem_append.mp present with before | last
      · exact finished line before
      · rw [List.mem_singleton.mp last, erase_trimEnd pending]
        exact shown_trimEnd tracks.proper ink
  | false =>
      have nonempty : marked.finished ≠ [] := begun.resolve_left (by simp [ink])
      have full : marked.finished.isEmpty = false := by simpa using nonempty
      rw [full, Bool.or_self, if_neg (by simp)]
      have opens := opens_of_loose (loose_of_no_ink tracks.proper (tracks.isMarker legible) ink)
      rw [spell_expand] at opens
      generalize marked.finished = lines at finished
      induction lines with
      | nil => simp [attach]
      | cons line others inductionHypothesis =>
          obtain ⟨first, rest⟩ := List.forall_mem_cons.mp finished
          cases others with
          | nil =>
              refine List.forall_mem_cons.mpr ⟨?_, by simp⟩
              rw [Piece.spell_append, erase_append _ opens, allBlank, List.all_append]
              have shown : (erase (Piece.spell line)).all isBlank = false := first
              rw [shown, Bool.false_and]
          | cons next more =>
              exact List.forall_mem_cons.mpr ⟨first, inductionHypothesis rest⟩

end Filler
end Wrap
end Galley
