import Galley.Proofs.Layout.Spans
import Galley.Proofs.Layout.Leaves
import Galley.Proofs.Layout.Woven

/-!
# Strands

A strand is span text with its code in place: runs of text with a code between each two
of them.  It knows neither placeholders nor held code.  Span text in which placeholders
stand for the codes of a strand is laid out as the strand is: each run that shows
something fills a region, and each code stands between its rules.
-/

namespace Galley
namespace Layout

open Text

/-- Runs of span text with a code between each two of them. -/
inductive Strand where
  /-- The last run. -/
  | run (text : List Char)
  /-- A run, the code behind it and what follows. -/
  | code (text content : List Char) (behind : Strand)
  deriving DecidableEq, Repr

namespace Strand

/-- A code on its own. -/
def ofCode (content : List Char) : Strand :=
  .code [] content (.run [])

/-- Put text before a strand. -/
def prepend (front : List Char) : Strand → Strand
  | .run text => .run (front ++ text)
  | .code text content behind => .code (front ++ text) content behind

/-- One strand behind another: the last run of the first goes on in the first run of the
second. -/
def append : Strand → Strand → Strand
  | .run text, other => other.prepend text
  | .code text content behind, other => .code text content (behind.append other)

/-- A strand without its newlines and the spaces that follow each in the same run. -/
def join : Strand → Strand
  | .run text => .run (joinLines text)
  | .code text content behind => .code (joinLines text) content behind.join

/-- The codes of a strand, in order. -/
def codes : Strand → List (List Char)
  | .run _ => []
  | .code _ content behind => content :: behind.codes

/-- A run that shows something fills a region. -/
def fillRun (options : Options) (indent : Nat) (wraps : Bool) (text : List Char) : List Char :=
  if allBlank text then [] else fill options indent wraps text

/-- The layout of a strand: its runs fill regions, and its codes stand between their
rules. -/
def laid (options : Options) (indent : Nat) (wraps : Bool) : Strand → List Char
  | .run text => fillRun options indent wraps text
  | .code text content behind =>
      fillRun options indent wraps text ++ verbatim options.ruleWidth indent content
        ++ behind.laid options indent wraps

/-- No run and no code of a strand holds NUL. -/
def Plain : Strand → Prop
  | .run text => NulFree text
  | .code text content behind => NulFree text ∧ NulFree content ∧ behind.Plain

@[simp] theorem codes_prepend (front : List Char) (strand : Strand) :
    (strand.prepend front).codes = strand.codes := by
  cases strand <;> rfl

@[simp] theorem codes_append (first second : Strand) :
    (first.append second).codes = first.codes ++ second.codes := by
  induction first with
  | run text => simp [append, codes]
  | code text content behind inductionHypothesis => simp [append, codes, inductionHypothesis]

@[simp] theorem codes_join (strand : Strand) : strand.join.codes = strand.codes := by
  induction strand with
  | run text => rfl
  | code text content behind inductionHypothesis => simp [join, codes, inductionHypothesis]

@[simp] theorem prepend_nil (strand : Strand) : strand.prepend [] = strand := by
  cases strand <;> rfl

@[simp] theorem append_nil (strand : Strand) : strand.append (.run []) = strand := by
  induction strand with
  | run text => simp [append, prepend]
  | code text content behind inductionHypothesis => simp [append, inductionHypothesis]

theorem prepend_append (front : List Char) (first second : Strand) :
    (first.append second).prepend front = (first.prepend front).append second := by
  cases first with
  | run text => cases second <;> simp [append, prepend]
  | code text content behind => rfl

theorem append_assoc (first second third : Strand) :
    (first.append second).append third = first.append (second.append third) := by
  induction first with
  | run text => rw [append, append, prepend_append]
  | code text content behind inductionHypothesis => simp [append, inductionHypothesis]

/-- The layout of a strand that holds no NUL holds none. -/
theorem Plain.laid {strand : Strand} (plain : strand.Plain) (options : Options) (indent : Nat)
    (wraps : Bool) : NulFree (strand.laid options indent wraps) := by
  have filled {text : List Char} (textPlain : NulFree text) :
      NulFree (fillRun options indent wraps text) := by
    unfold fillRun
    split
    · exact nulFree_nil
    · exact nulFree_fill options indent wraps textPlain
  induction strand with
  | run text => exact filled plain
  | code text content behind inductionHypothesis =>
      obtain ⟨textPlain, contentPlain, behindPlain⟩ := plain
      exact nulFree_append.mpr ⟨nulFree_append.mpr
        ⟨filled textPlain, nulFree_verbatim contentPlain _ _⟩, inductionHypothesis behindPlain⟩

end Strand

/-! ## Threads -/

/-- Span text is the thread of a strand: placeholders stand for its codes, which are
held between rules of a width at an indentation, and NUL stands nowhere else. -/
inductive Threads (held : List (List Char)) (width indent : Nat) : List Char → Strand → Prop
  /-- The last run. -/
  | run {text : List Char} : NulFree text → Threads held width indent text (.run text)
  /-- A run, the placeholder behind it and what follows. -/
  | code {text content thread : List Char} {index : Nat} {behind : Strand} :
      NulFree text → NulFree content → held[index]? = some (verbatim width indent content) →
      Threads held width indent thread behind →
        Threads held width indent (text ++ (placeholder index ++ thread))
          (.code text content behind)

namespace Threads

variable {held : List (List Char)} {width indent : Nat} {text thread : List Char} {strand : Strand}

/-- Text may be put before a thread. -/
theorem prepend (plain : NulFree text) (threads : Threads held width indent thread strand) :
    Threads held width indent (text ++ thread) (strand.prepend text) := by
  cases threads with
  | run runPlain => exact run (nulFree_append.mpr ⟨plain, runPlain⟩)
  | code runPlain contentPlain found threads =>
      rw [← List.append_assoc]
      exact code (nulFree_append.mpr ⟨plain, runPlain⟩) contentPlain found threads

theorem append {thread' : List Char} {strand' : Strand}
    (first : Threads held width indent thread strand)
    (second : Threads held width indent thread' strand') :
    Threads held width indent (thread ++ thread') (strand.append strand') := by
  induction first with
  | run plain => exact second.prepend plain
  | code plain contentPlain found _ inductionHypothesis =>
      rw [List.append_assoc, List.append_assoc]
      exact code plain contentPlain found inductionHypothesis

/-- More held code changes nothing. -/
theorem extend (threads : Threads held width indent thread strand) (more : List (List Char)) :
    Threads (held ++ more) width indent thread strand := by
  induction threads with
  | run plain => exact run plain
  | code plain contentPlain found _ inductionHypothesis =>
      exact code plain contentPlain (getElem?_held found more) inductionHypothesis

/-- The placeholder of the code that is held next. -/
theorem held_next {content : List Char} (plain : NulFree content) :
    Threads (held ++ [verbatim width indent content]) width indent (placeholder held.length)
      (.ofCode content) := by
  have alone : Threads (held ++ [verbatim width indent content]) width indent
      ([] ++ (placeholder held.length ++ [])) (.ofCode content) :=
    code nulFree_nil plain List.getElem?_concat_length (run nulFree_nil)
  simpa using alone

/-- Joining the lines of a thread joins those of the runs. -/
theorem join (threads : Threads held width indent thread strand) :
    Threads held width indent (joinLines thread) strand.join := by
  induction threads with
  | run plain => exact run (nulFree_of_sublist plain (joinLines_sublist _))
  | code plain contentPlain found _ inductionHypothesis =>
      rw [joinLines_placeholder]
      exact code (nulFree_of_sublist plain (joinLines_sublist _)) contentPlain found
        inductionHypothesis

theorem plain (threads : Threads held width indent thread strand) : strand.Plain := by
  induction threads with
  | run plain => exact plain
  | code plain contentPlain _ _ inductionHypothesis =>
      exact ⟨plain, contentPlain, inductionHypothesis⟩

end Threads

/-! ## Laying out a thread -/

section Layout

variable {options : Options} (undebugged : options.debug = false) {held : List (List Char)}
  {indent : Nat} {thread : List Char} {strand : Strand}

namespace Assembly

/-- Chunks are put one behind the other while no markers wait. -/
theorem addChunk_of_bare {assembly : Assembly} (bare : assembly.markers = []) (chunk : List Char) :
    assembly.addChunk chunk = { chunks := assembly.chunks ++ [chunk], markers := [] } := by
  obtain ⟨chunks, markers⟩ := assembly
  obtain rfl : markers = [] := bare
  simp [addChunk]

include undebugged in
/-- Without debugging, a piece adds the region that it fills, and no markers wait. -/
theorem addPiece_of_bare {assembly : Assembly} (bare : assembly.markers = []) (wraps : Bool)
    (piece : List Char) :
    (assembly.addPiece options indent wraps piece).markers = [] ∧
      (assembly.addPiece options indent wraps piece).chunks.flatten =
        assembly.chunks.flatten ++ Strand.fillRun options indent wraps piece := by
  unfold addPiece Strand.fillRun isBlankLine
  rw [undebugged]
  by_cases blank : allBlank piece = true
  · simp [blank, bare]
  · simp [blank, addChunk_of_bare bare]

end Assembly

include undebugged in
/-- The pieces of a thread are assembled to the layout of its strand, unless so much
code is held that a numeral is too long. -/
theorem assemble_threads (threads : Threads held options.ruleWidth indent thread strand)
    (assembly : Assembly) (bare : assembly.markers = []) (wraps : Bool) :
    match assemble options held indent wraps
        (assembly.addPiece options indent wraps (splitHeld thread).1) (splitHeld thread).2 with
    | .ok final => final.markers = [] ∧
        final.chunks.flatten = assembly.chunks.flatten ++ strand.laid options indent wraps
    | .error fault => Overfull held.length fault := by
  induction threads generalizing assembly with
  | run plain =>
      rw [splitHeld_of_nulFree plain]
      exact Assembly.addPiece_of_bare undebugged bare wraps _
  | @code text content thread index behind plain _ found _ inductionHypothesis =>
      obtain ⟨-, leads⟩ := leadsTo_toDigits found
      obtain ⟨bareFirst, first⟩ := Assembly.addPiece_of_bare undebugged bare wraps text
      rw [splitHeld_append plain, splitHeld_placeholder]
      simp only [List.append_nil]
      rw [assemble]
      cases read : heldAt held (Nat.toDigits 10 index) with
      | error fault =>
          rw [read] at leads
          exact leads
      | ok other =>
          rw [read] at leads
          subst leads
          have below := inductionHypothesis
            { chunks := (assembly.addPiece options indent wraps text).chunks ++
                [verbatim options.ruleWidth indent content], markers := [] } rfl
          simp only [List.flatten_append, List.flatten_singleton] at below
          rw [first] at below
          simp only [Assembly.addChunk_of_bare bareFirst, Strand.laid, ← List.append_assoc]
          exact below

include undebugged in
/-- A thread is laid out as its strand, unless so much code is held that a numeral is
too long. -/
theorem layoutSpan_threads (threads : Threads held options.ruleWidth indent thread strand)
    (wraps : Bool) :
    match layoutSpan options held indent wraps thread with
    | .ok text => text = strand.laid options indent wraps
    | .error fault => Overfull held.length fault := by
  have assembled := assemble_threads undebugged threads {} rfl wraps
  rw [layoutSpan]
  dsimp only
  cases found : assemble options held indent wraps
      (Assembly.addPiece options indent wraps {} (splitHeld thread).1) (splitHeld thread).2 with
  | error fault =>
      rw [found] at assembled
      exact assembled
  | ok final =>
      rw [found] at assembled
      obtain ⟨bare, whole⟩ := assembled
      change final.text = _
      simpa [Assembly.text, bare] using whole

end Layout

end Layout
end Galley
