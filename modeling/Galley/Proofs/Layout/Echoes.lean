import Galley.Proofs.Layout.Spans
import Galley.Proofs.Layout.Woven

/-!
# Echoes

Two span texts echo each other where they differ in the indices of their placeholders
alone, and where the two indices lead to the same code, each in its own store.  What
else is in the stores does not matter, so both texts are laid out to the same text.
-/

namespace Galley
namespace Layout

open Text

/-- Two span texts with the same runs and the same code between each two of them, held
in two stores. -/
inductive Echoes (held held' : List (List Char)) : List Char → List Char → Prop
  /-- The last run. -/
  | run {text : List Char} : NulFree text → Echoes held held' text text
  /-- A run, two placeholders of the same code behind it and what follows. -/
  | code {text code thread thread' : List Char} {index index' : Nat} :
      NulFree text → NulFree code → held[index]? = some code → held'[index']? = some code →
      Echoes held held' thread thread' →
        Echoes held held' (text ++ (placeholder index ++ thread))
          (text ++ (placeholder index' ++ thread'))

namespace Echoes

variable {held held' : List (List Char)} {text text' : List Char}

/-- A run may be put before both. -/
theorem prepend {front : List Char} (plain : NulFree front)
    (echoes : Echoes held held' text text') :
    Echoes held held' (front ++ text) (front ++ text') := by
  cases echoes with
  | run runPlain => exact run (nulFree_append.mpr ⟨plain, runPlain⟩)
  | code runPlain codePlain found found' echoes =>
      rw [← List.append_assoc front, ← List.append_assoc front]
      exact code (nulFree_append.mpr ⟨plain, runPlain⟩) codePlain found found' echoes

theorem append {more more' : List Char} (first : Echoes held held' text text')
    (second : Echoes held held' more more') :
    Echoes held held' (text ++ more) (text' ++ more') := by
  induction first with
  | run plain => exact second.prepend plain
  | code plain codePlain found found' _ inductionHypothesis =>
      simp only [List.append_assoc]
      exact code plain codePlain found found' inductionHypothesis

/-- More held code changes nothing. -/
theorem extend (echoes : Echoes held held' text text') (added added' : List (List Char)) :
    Echoes (held ++ added) (held' ++ added') text text' := by
  induction echoes with
  | run plain => exact run plain
  | code plain codePlain found found' _ inductionHypothesis =>
      exact code plain codePlain (getElem?_held found added) (getElem?_held found' added')
        inductionHypothesis

/-- The placeholders of code that is held next. -/
theorem held_next {code : List Char} (plain : NulFree code) :
    Echoes (held ++ [code]) (held' ++ [code]) (placeholder held.length)
      (placeholder held'.length) := by
  have alone : Echoes (held ++ [code]) (held' ++ [code])
      ([] ++ (placeholder held.length ++ [])) ([] ++ (placeholder held'.length ++ [])) :=
    Echoes.code nulFree_nil plain List.getElem?_concat_length List.getElem?_concat_length
      (run nulFree_nil)
  simpa using alone

/-- A span stands between its tags. -/
theorem enclose {tagClass kind : List Char} (opened : NulFree (Marker.opening tagClass kind))
    (closed : NulFree (Marker.closing tagClass kind)) (echoes : Echoes held held' text text') :
    Echoes held held' (enclose tagClass kind text) (enclose tagClass kind text') :=
  (echoes.prepend opened).append (run closed)

/-- Joining the lines of both joins those of the runs. -/
theorem join (echoes : Echoes held held' text text') :
    Echoes held held' (joinLines text) (joinLines text') := by
  induction echoes with
  | run plain => exact run (nulFree_of_sublist plain (joinLines_sublist _))
  | code plain codePlain found found' _ inductionHypothesis =>
      rw [joinLines_placeholder, joinLines_placeholder]
      exact code (nulFree_of_sublist plain (joinLines_sublist _)) codePlain found found'
        inductionHypothesis

end Echoes

/-! ## Laying out both -/

section Layout

variable {held held' : List (List Char)} {text text' : List Char}

/-- As long as its numeral is not too long, a placeholder leads to its code. -/
theorem heldAt_of_few (few : held.length ≤ 10 ^ numeralLimit) {index : Nat} {code : List Char}
    (found : held[index]? = some code) : heldAt held (Nat.toDigits 10 index) = .ok code := by
  have inside : index < held.length := (List.getElem?_eq_some_iff.mp found).1
  have short : (Nat.toDigits 10 index).length ≤ numeralLimit :=
    length_toDigits_le (by decide) (Nat.lt_of_lt_of_le inside few)
  rw [heldAt_toDigits found, if_neg (Nat.not_lt.mpr short)]

variable (few : held.length ≤ 10 ^ numeralLimit) (few' : held'.length ≤ 10 ^ numeralLimit)

include few few'

/-- By induction on the runs, both texts are assembled to the same chunks, which hold no
NUL. -/
theorem assemble_echoes (options : Options) (indent : Nat) (wraps : Bool)
    (echoes : Echoes held held' text text') {assembly : Assembly} {shown : List Char}
    (shows : assembly.Shows options.debug shown) :
    ∃ final all, final.Shows options.debug all ∧
      assemble options held indent wraps
        (assembly.addPiece options indent wraps (splitHeld text).1) (splitHeld text).2 = .ok final ∧
      assemble options held' indent wraps
        (assembly.addPiece options indent wraps (splitHeld text').1) (splitHeld text').2 =
          .ok final := by
  induction echoes generalizing assembly shown with
  | run plain =>
      rw [splitHeld_of_nulFree plain]
      exact ⟨_, _, shows.addPiece indent wraps plain, rfl, rfl⟩
  | @code text code thread thread' index index' plain codePlain found found' _
      inductionHypothesis =>
      have chunk := (shows.addPiece indent wraps plain).addChunk codePlain fun _ => rfl
      obtain ⟨final, all, finalShows, assembled, assembled'⟩ := inductionHypothesis chunk
      refine ⟨final, all, finalShows, ?_, ?_⟩
      · rw [splitHeld_append plain, splitHeld_placeholder, List.append_nil, assemble,
          heldAt_of_few few found]
        exact assembled
      · rw [splitHeld_append plain, splitHeld_placeholder, List.append_nil, assemble,
          heldAt_of_few few' found']
        exact assembled'

/-- Both texts are laid out to the same text, which holds no NUL. -/
theorem layoutSpan_echoes (options : Options) (indent : Nat) (wraps : Bool)
    (echoes : Echoes held held' text text') :
    ∃ laid, NulFree laid ∧ layoutSpan options held indent wraps text = .ok laid ∧
      layoutSpan options held' indent wraps text' = .ok laid := by
  have empty : Assembly.Shows options.debug {} [] :=
    ⟨List.forall_mem_nil _, nulFree_nil, fun _ => rfl, fun _ => rfl⟩
  obtain ⟨final, all, shows, assembled, assembled'⟩ :=
    assemble_echoes few few' options indent wraps echoes empty
  refine ⟨final.text, shows.text.1, ?_, ?_⟩
  · rw [layoutSpan]
    dsimp only
    rw [assembled]
    rfl
  · rw [layoutSpan]
    dsimp only
    rw [assembled']
    rfl

end Layout

end Layout
end Galley
