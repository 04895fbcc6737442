import Galley.Proofs.Layout.Placeholders

/-!
# Laying out span text

Span text whose placeholders all refer to held code is laid out without a fault.  The
result holds no NUL, and without markers it has the ink of what the span text shows.
-/

namespace Galley
namespace Layout

open Text

/-- Filling a region cuts the filled lines off at the end. -/
theorem exists_fill (options : Options) (indent : Nat) (wraps : Bool) (text : List Char) :
    ∃ lines kept, ink lines = ink text ∧ KeepsFront options.debug lines kept ∧
      fill options indent wraps text = kept ++ ['\n'] := by
  refine ⟨_, _, ?_, keepsFront_trimTail options.debug _, rfl⟩
  rw [ink_indentLines]
  split
  · rw [Wrap.ink_wrap, ink_trimTextStart]
  · rw [ink_trimTextStart]

theorem nulFree_fill (options : Options) (indent : Nat) (wraps : Bool) {text : List Char}
    (plain : NulFree text) : NulFree (fill options indent wraps text) := by
  obtain ⟨lines, kept, same, ⟨tail, rfl, -⟩, filled⟩ := exists_fill options indent wraps text
  have both := nulFree_append.mp ((nulFree_congr same).mpr plain)
  rw [filled]
  exact nulFree_append.mpr ⟨both.1, by simp⟩

/-- Without markers, filling a region keeps the ink. -/
theorem ink_fill {options : Options} (undebugged : options.debug = false) (indent : Nat)
    (wraps : Bool) (text : List Char) : ink (fill options indent wraps text) = ink text := by
  obtain ⟨lines, kept, same, ⟨tail, rfl, lost⟩, filled⟩ := exists_fill options indent wraps text
  rw [filled, ← same, ink_append, ink_append, lost.blank undebugged]
  rfl

/-! ## Assemblies -/

namespace Assembly

/-- The markers of a text hold no NUL. -/
theorem nulFree_markers (text : List Char) : NulFree (Marker.all text).flatten := by
  intro present
  obtain ⟨marker, listed, inside⟩ := List.mem_flatten.mp present
  obtain ⟨symbol, read, found⟩ := List.mem_filterMap.mp listed
  cases symbol with
  | marker other =>
      obtain rfl : other = marker := by simpa using found
      exact ((Marker.isMarker_of_mem_symbols read).not_blank _ inside).2 rfl
  | char character => cases found

theorem nulFree_attachMarkers {chunks : List (List Char)} {markers : List Char}
    (chunksPlain : ∀ chunk ∈ chunks, NulFree chunk) (markersPlain : NulFree markers) :
    ∀ chunk ∈ attachMarkers chunks markers, NulFree chunk := by
  induction chunks with
  | nil => intro chunk present; cases present
  | cons first others inductionHypothesis =>
      have firstPlain := chunksPlain first (by simp)
      cases others with
      | nil =>
          intro chunk present
          obtain rfl := List.mem_singleton.mp present
          have shorter : NulFree first.dropLast := fun inside =>
            firstPlain (List.dropLast_subset first inside)
          simp [shorter, markersPlain]
      | cons next rest =>
          have below := inductionHypothesis fun chunk present =>
            chunksPlain chunk (by simp [present])
          intro chunk present
          rcases List.mem_cons.mp present with rfl | later
          · exact firstPlain
          · exact below chunk later

/-- An assembly holds no NUL, and without markers it shows some ink. -/
structure Shows (debug : Bool) (assembly : Assembly) (shown : List Char) : Prop where
  /-- The chunks hold no NUL. -/
  chunks : ∀ chunk ∈ assembly.chunks, NulFree chunk
  /-- Neither do the waiting markers. -/
  markers : NulFree assembly.markers
  /-- No markers wait where there are none. -/
  waiting : debug = false → assembly.markers = []
  /-- Without markers the chunks show what was put in. -/
  ink : debug = false → ink assembly.chunks.flatten = ink shown

variable {debug : Bool} {assembly : Assembly} {shown : List Char}

theorem Shows.addChunk (shows : Shows debug assembly shown) {chunk piece : List Char}
    (plain : NulFree chunk) (same : debug = false → Text.ink chunk = Text.ink piece) :
    Shows debug (assembly.addChunk chunk) (shown ++ piece) := by
  unfold Assembly.addChunk
  split
  · refine ⟨fun other present => ?_, shows.markers, shows.waiting, fun undebugged => ?_⟩
    · rcases List.mem_append.mp present with before | last
      · exact shows.chunks other before
      · obtain rfl := List.mem_singleton.mp last
        exact plain
    · simp [shows.ink undebugged, same undebugged]
  · rename_i waits
    have marked : debug ≠ false := fun undebugged => waits (by simp [shows.waiting undebugged])
    have absurdly {conclusion : Prop} (undebugged : debug = false) : conclusion :=
      absurd undebugged marked
    split
    · refine ⟨fun other present => ?_, by simp, absurdly, absurdly⟩
      obtain rfl := List.mem_singleton.mp present
      have parts := plain
      rw [← @List.takeWhile_append_dropWhile _ (· == ' ') chunk, nulFree_append] at parts
      simp [parts, shows.markers]
    · rename_i chunks _
      refine ⟨fun other present => ?_, by simp, absurdly, absurdly⟩
      rcases List.mem_append.mp present with before | last
      · exact nulFree_attachMarkers shows.chunks shows.markers other before
      · obtain rfl := List.mem_singleton.mp last
        exact plain

theorem Shows.addPiece {options : Options} (shows : Shows options.debug assembly shown)
    (indent : Nat) (wraps : Bool) {piece : List Char} (plain : NulFree piece) :
    Shows options.debug (assembly.addPiece options indent wraps piece) (shown ++ piece) := by
  unfold Assembly.addPiece
  split
  · rename_i blank
    split
    · rename_i debugged
      exact ⟨shows.chunks, nulFree_append.mpr ⟨shows.markers, nulFree_markers piece⟩,
        fun undebugged => by simp [debugged] at undebugged,
        fun undebugged => by simp [debugged] at undebugged⟩
    · refine ⟨shows.chunks, shows.markers, shows.waiting, fun undebugged => ?_⟩
      rw [undebugged] at blank
      rw [shows.ink undebugged, ink_append, ink_of_isBlankLine_plain blank, List.append_nil]
  · exact shows.addChunk (nulFree_fill options indent wraps plain)
      fun undebugged => ink_fill undebugged indent wraps piece

/-- The text of an assembly holds no NUL, and without markers it has the ink of what was
put in. -/
theorem Shows.text (shows : Shows debug assembly shown) :
    NulFree assembly.text ∧ (debug = false → Text.ink assembly.text = Text.ink shown) := by
  have flat (chunks : List (List Char)) (plain : ∀ chunk ∈ chunks, NulFree chunk) :
      NulFree chunks.flatten := by
    intro present
    obtain ⟨chunk, listed, inside⟩ := List.mem_flatten.mp present
    exact plain chunk listed inside
  unfold Assembly.text
  split
  · exact ⟨flat _ shows.chunks, shows.ink⟩
  · rename_i waits
    exact ⟨flat _ (nulFree_attachMarkers shows.chunks shows.markers),
      fun undebugged => absurd (by simp [shows.waiting undebugged]) waits⟩

end Assembly

/-- What refers to held code is assembled, unless a numeral is too long. -/
theorem assemble_refers
    {options : Options} {held : List (List Char)} {others : List (List Char × List Char)}
    {assembly : Assembly} {shown more : List Char}
    (codes : ∀ code ∈ held, NulFree code)
    (refers : Refers held others more)
    (shows : Assembly.Shows options.debug assembly shown)
    (indent : Nat) (wraps : Bool) :
    match assemble options held indent wraps assembly others with
    | .ok final => Assembly.Shows options.debug final (shown ++ more)
    | .error fault => Overfull held.length fault := by
  induction refers generalizing assembly shown with
  | nil => simpa [assemble] using shows
  | @cons digits code piece _ others found plain _ inductionHypothesis =>
      obtain ⟨member, leads⟩ := found
      rw [assemble]
      cases read : heldAt held digits with
      | error fault =>
          rw [read] at leads
          exact leads
      | ok other =>
          rw [read] at leads
          subst leads
          have below := inductionHypothesis
            ((shows.addChunk (codes other member) fun _ => rfl).addPiece indent wraps plain)
          simp only [List.append_assoc] at below ⊢
          exact below

/-- Span text that shows something is laid out, unless so much code is held that a
numeral is too long. -/
theorem layoutSpan_reveals
    (options : Options) {held : List (List Char)} {text shown : List Char}
    (codes : ∀ code ∈ held, NulFree code)
    (reveals : Reveals held text shown)
    (indent : Nat) (wraps : Bool) :
    match layoutSpan options held indent wraps text with
    | .ok laid => NulFree laid ∧ (options.debug = false → ink laid = ink shown)
    | .error fault => Overfull held.length fault := by
  obtain ⟨plain, more, refers, rfl⟩ := reveals.split
  have empty : Assembly.Shows options.debug {} [] :=
    ⟨fun _ absent => (by cases absent), by simp, fun _ => rfl, fun _ => rfl⟩
  have assembled := assemble_refers codes refers (empty.addPiece indent wraps plain) indent wraps
  rw [layoutSpan]
  dsimp only
  cases found : assemble options held indent wraps
      (Assembly.addPiece options indent wraps {} (splitHeld text).1) (splitHeld text).2 with
  | error fault =>
      rw [found] at assembled
      exact assembled
  | ok final =>
      rw [found] at assembled
      exact Assembly.Shows.text assembled

end Layout
end Galley
