import Galley.Layout.Region
import Galley.Proofs.Markers

/-!
# What regions keep

The operations on lines add, drop and move blanks only.  Where debug markers are
present, a line may be dropped with the markers on it; everything else is kept.
-/

namespace Galley
namespace Layout

open Text

@[simp] theorem ink_spaces (count : Nat) : ink (spaces count) = [] := by
  refine ink_of_forall fun character present => ?_
  rw [List.eq_of_mem_replicate present]
  decide

/-! ## Blank lines -/

/-- A symbol that shows nothing spells no NUL, and a blank one spells no ink. -/
theorem nulFree_of_isBlankLine {debug : Bool} {line : List Char}
    (blank : isBlankLine debug line = true) : NulFree line := by
  cases debug with
  | false => exact nulFree_of_ink_eq_nil (ink_eq_nil_iff.mpr blank)
  | true =>
      -- NUL would be a symbol of its own, which erasing keeps.
      intro present
      rw [← Marker.spell_symbols line] at present
      obtain ⟨symbol, listed, inside⟩ := List.mem_flatMap.mp present
      cases symbol with
      | marker marker =>
          exact ((Marker.isMarker_of_mem_symbols listed).not_blank _ inside).2 rfl
      | char character =>
          obtain rfl : '\x00' = character := by simpa [Symbol.text] using inside
          have erased : '\x00' ∈ Marker.erase line :=
            List.mem_filterMap.mpr ⟨_, listed, rfl⟩
          have shown := List.all_eq_true.mp blank _ erased
          exact absurd shown (by decide)

theorem ink_of_isBlankLine_plain {line : List Char} (blank : isBlankLine false line = true) :
    ink line = [] :=
  ink_eq_nil_iff.mpr blank

/-! ## Trimming marked text -/

/-- Deleting the blanks among symbols deletes no ink. -/
theorem ink_spell_filter_isMarker {symbols : List Symbol}
    (loose : ∀ symbol ∈ symbols, symbol.isMarker = true ∨ symbol.isBlank = true) :
    ink (Symbol.spell (symbols.filter Symbol.isMarker)) = ink (Symbol.spell symbols) := by
  induction symbols with
  | nil => rfl
  | cons symbol rest inductionHypothesis =>
      have below := inductionHypothesis fun other present => loose other (by simp [present])
      cases symbol with
      | marker marker =>
          have kept : Symbol.isMarker (.marker marker) = true := rfl
          rw [List.filter_cons_of_pos kept, Symbol.spell_cons, Symbol.spell_cons, ink_append,
            ink_append, below]
      | char character =>
          have blank : isBlank character = true := by
            simpa [Symbol.isMarker, Symbol.isBlank] using loose (.char character) (by simp)
          simp [Symbol.isMarker, Symbol.text, ink_cons, blank, below]

theorem ink_trimMarkedEnd (line : List Char) : ink (trimMarkedEnd line) = ink line := by
  obtain ⟨tail, whole, loose⟩ := exists_dropEndWhile isLooseEnd (Marker.symbols line)
  have dropped : (Marker.symbols line).drop
      (dropEndWhile isLooseEnd (Marker.symbols line)).length = tail :=
    drop_length_of_append whole
  have ends : ∀ symbol ∈ tail, symbol.isMarker = true ∨ symbol.isBlank = true := by
    intro symbol present
    cases symbol with
    | marker marker => exact Or.inl rfl
    | char character =>
        have blank := loose _ present
        simp only [isLooseEnd, Bool.or_eq_true, beq_iff_eq] at blank
        rcases blank with rfl | rfl <;> exact Or.inr (by decide)
  unfold trimMarkedEnd
  dsimp only
  rw [dropped, Symbol.spell_append, ink_append, ink_spell_filter_isMarker ends, ← ink_append,
    ← Symbol.spell_append, ← whole, Marker.spell_symbols]

@[simp] theorem ink_trimLineEnd (debug : Bool) (line : List Char) :
    ink (trimLineEnd debug line) = ink line := by
  cases debug with
  | false => exact ink_trimEnd line
  | true => exact ink_trimMarkedEnd line

theorem ink_trimMarkedStart (text : List Char) : ink (trimMarkedStart text) = ink text := by
  unfold trimMarkedStart
  dsimp only
  generalize found : (fun symbol : Symbol => symbol.isMarker || symbol.isBlank) = loose
  have parts : Marker.symbols text = (Marker.symbols text).takeWhile loose ++
      (Marker.symbols text).dropWhile loose := List.takeWhile_append_dropWhile.symm
  have starts : ∀ symbol ∈ (Marker.symbols text).takeWhile loose,
      symbol.isMarker = true ∨ symbol.isBlank = true := by
    intro symbol present
    have holds := List.mem_takeWhile_imp present
    simpa [← found] using holds
  rw [drop_length_of_append parts, Symbol.spell_append, ink_append,
    ink_spell_filter_isMarker starts, ← ink_append, ← Symbol.spell_append, ← parts,
    Marker.spell_symbols]

@[simp] theorem ink_trimTextStart (debug : Bool) (text : List Char) :
    ink (trimTextStart debug text) = ink text := by
  cases debug with
  | false => exact ink_trimStart text
  | true => exact ink_trimMarkedStart text

/-- Indenting adds and drops blanks only. -/
@[simp] theorem ink_indentLines (debug : Bool) (indent : Nat) (text : List Char) :
    ink (indentLines debug indent text) = ink text := by
  have lineInk (line : List Char) :
      ink (if isBlankLine debug line then line else spaces indent ++ trimLineEnd debug line) =
        ink line := by
    split <;> simp
  rw [indentLines, ink_unlines, List.flatMap_map, ← flatMap_ink_lines text]
  exact congrArg (fun show' => (lines text).flatMap show') (funext lineInk)

/-! ## Trimming and hanging -/

/-- Some text may be lost: it holds no NUL, and without markers it holds no ink. -/
structure Negligible (debug : Bool) (text : List Char) : Prop where
  /-- No NUL is lost. -/
  nulFree : NulFree text
  /-- Without markers only blanks are lost. -/
  blank : debug = false → ink text = []

namespace Negligible

theorem of_ink {debug : Bool} {text : List Char} (blank : ink text = []) :
    Negligible debug text :=
  ⟨nulFree_of_ink_eq_nil blank, fun _ => blank⟩

theorem of_isBlankLine {debug : Bool} {line : List Char} (blank : isBlankLine debug line = true) :
    Negligible debug line :=
  ⟨nulFree_of_isBlankLine blank, fun plain => ink_eq_nil_iff.mpr (by subst plain; exact blank)⟩

theorem append {debug : Bool} {first second : List Char}
    (left : Negligible debug first) (right : Negligible debug second) :
    Negligible debug (first ++ second) :=
  ⟨nulFree_append.mpr ⟨left.nulFree, right.nulFree⟩,
    fun plain => by rw [ink_append, left.blank plain, right.blank plain]; rfl⟩

theorem flatMap {debug : Bool} {lines : List (List Char)} {spread : List Char → List Char}
    (each : ∀ line ∈ lines, Negligible debug (spread line)) :
    Negligible debug (lines.flatMap spread) := by
  induction lines with
  | nil => exact of_ink rfl
  | cons line rest inductionHypothesis =>
      rw [List.flatMap_cons]
      exact append (each line (by simp))
        (inductionHypothesis fun other present => each other (by simp [present]))

theorem unlines {debug : Bool} {lines : List (List Char)}
    (each : ∀ line ∈ lines, Negligible debug line) :
    Negligible debug (Text.unlines lines) := by
  cases lines with
  | nil => exact of_ink rfl
  | cons first rest =>
      have newline : Negligible debug ['\n'] := of_ink rfl
      rw [← List.singleton_append, unlines_append_left (by simp)]
      exact (each first (by simp)).append
        (flatMap fun line present => newline.append (each line (by simp [present])))

end Negligible

/-- The beginning of a text is kept, and what is cut off is negligible. -/
def KeepsFront (debug : Bool) (text kept : List Char) : Prop :=
  ∃ tail, text = kept ++ tail ∧ Negligible debug tail

theorem KeepsFront.trans
    {debug : Bool} {first second third : List Char}
    (left : KeepsFront debug first second)
    (right : KeepsFront debug second third) :
    KeepsFront debug first third := by
  obtain ⟨tail, rfl, lost⟩ := left
  obtain ⟨more, rfl, lostBefore⟩ := right
  exact ⟨more ++ tail, by simp, lostBefore.append lost⟩

theorem keepsFront_trimEnd (debug : Bool) (text : List Char) :
    KeepsFront debug text (Text.trimEnd text) := by
  obtain ⟨tail, whole, blank⟩ := exists_dropEndWhile isBlank text
  exact ⟨tail, whole, Negligible.of_ink (ink_of_forall blank)⟩

/-- Dropping blank lines at the end cuts a text off. -/
theorem keepsFront_dropBlankTail (debug : Bool) (text : List Char) :
    KeepsFront debug text (unlines (dropBlankTail debug (lines text))) := by
  cases found : lines text with
  | nil => exact absurd found (lines_ne_nil text)
  | cons first rest =>
      obtain ⟨dropped, whole, blank⟩ := exists_dropEndWhile (isBlankLine debug) rest
      refine ⟨dropped.flatMap ('\n' :: ·), ?_, Negligible.flatMap fun line present => ?_⟩
      · rw [dropBlankTail, ← unlines_append_left (by simp), List.cons_append, ← whole, ← found,
          unlines_lines]
      · have newline : Negligible debug ['\n'] := Negligible.of_ink rfl
        exact newline.append (Negligible.of_isBlankLine (blank line present))

/-- Trimming the tail of a text cuts it off. -/
theorem keepsFront_trimTail (debug : Bool) (text : List Char) :
    KeepsFront debug text (trimTail debug text) :=
  ((keepsFront_trimEnd debug text).trans (keepsFront_dropBlankTail debug _)).trans
    (keepsFront_trimEnd debug _)

/-- Hanging a text under a bullet drops blank lines and some spaces before the text and
puts the bullet in front. -/
theorem exists_hang (debug : Bool) (bullet : List Char) (indent inner : Nat) (body : List Char) :
    ∃ lead gap rest, body = lead ++ rest ∧ Negligible debug lead ∧ ink gap = [] ∧
      hang debug bullet indent inner body = spaces indent ++ bullet ++ gap ++ rest := by
  have whole : body = unlines ((lines body).takeWhile (isBlankLine debug) ++
      (lines body).dropWhile (isBlankLine debug)) := by
    rw [List.takeWhile_append_dropWhile, unlines_lines]
  have skipped : ∀ line ∈ (lines body).takeWhile (isBlankLine debug),
      Negligible debug (line ++ ['\n']) := fun line present =>
    (Negligible.of_isBlankLine (List.mem_takeWhile_imp present)).append (Negligible.of_ink rfl)
  unfold hang
  cases found : (lines body).dropWhile (isBlankLine debug) with
  | nil =>
      have all : ∀ line ∈ lines body, isBlankLine debug line = true := by
        simpa using found
      have negligible := Negligible.unlines fun line present =>
        Negligible.of_isBlankLine (all line present)
      rw [unlines_lines] at negligible
      exact ⟨body, [], [], by simp, negligible, rfl, by simp⟩
  | cons first rest =>
      dsimp only
      generalize count : min (first.takeWhile (· == ' ')).length inner = leading
      have margin : first = spaces leading ++ first.drop leading := by
        have run : first.take leading = (first.takeWhile (· == ' ')).take leading := by
          have inside : leading ≤ (first.takeWhile (· == ' ')).length := by omega
          have parts := @List.takeWhile_append_dropWhile _ (· == ' ') first
          rw [← List.take_append_of_le_length inside, parts]
        have blank : first.take leading = spaces leading := by
          refine List.eq_replicate_iff.mpr ⟨?_, fun character present => ?_⟩
          · rw [run, List.length_take]
            omega
          · rw [run] at present
            simpa using List.mem_takeWhile_imp (List.mem_of_mem_take present)
        rw [← blank, List.take_append_drop]
      refine ⟨_, [' '], Text.unlines (first.drop leading :: rest), ?_,
        (Negligible.flatMap skipped).append (Negligible.of_ink (ink_spaces leading)), rfl, ?_⟩
      · rw [List.append_assoc, ← unlines_cons_append, ← margin, ← found,
          ← unlines_append_right (by simp [found]), ← whole]
      · have bulleted := unlines_cons_append (spaces indent ++ bullet ++ [' '])
          (first.drop leading) rest
        simpa using bulleted

/-! ## Verbatim content -/

@[simp] theorem ink_dashes (width : Nat) :
    ink (List.replicate width '-') = List.replicate width '-' := by
  refine List.filter_eq_self.mpr fun character present => ?_
  rw [List.eq_of_mem_replicate present]
  decide

@[simp] theorem ink_rule (width indent : Nat) :
    ink (rule width indent) = List.replicate width '-' := by
  simp [rule]

/-- Indented verbatim content keeps its ink. -/
@[simp] theorem ink_indentVerbatim (indent : Nat) (content : List Char) :
    ink (indentVerbatim indent content) = ink content := by
  have lineInk (line : List Char) :
      ink (if allBlank line then line else spaces indent ++ line) = ink line := by
    split <;> simp
  unfold indentVerbatim
  split
  · rfl
  · rw [ink_flatMap]
    simp only [lineInk]
    rw [← ink_flatten, flatten_boundedLines]

/-- The ink of verbatim content stands between its rules. -/
theorem ink_verbatim (width indent : Nat) (content : List Char) :
    ink (verbatim width indent content) =
      List.replicate width '-' ++ ink content ++ List.replicate width '-' := by
  have newline : ink ['\n'] = [] := rfl
  have closed : ink (closeLine content) = ink content := by
    unfold closeLine
    split
    · rfl
    · rw [ink_append, newline, List.append_nil]
  simp [verbatim, closed, newline]

end Layout
end Galley
