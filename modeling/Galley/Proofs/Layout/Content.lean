import Galley.Proofs.Layout.Joining
import Galley.Proofs.Layout.Leaves
import Galley.Proofs.Layout.Spans

/-!
# What a conversion conveys

A conversion of a tree whose strings hold no NUL stops at no fault.  Its text may hold
placeholders, all of which refer to code held by then, and where layout is exact the ink
of what the text shows is the ink of the flat text.
-/

namespace Galley
namespace Layout

open Text

/-! ## Texts -/

/-- A text with placeholders for held code shows something, and its ink is as wanted
where that is asked for. -/
def Conveys (exact : Prop) (held : List (List Char)) (text want : List Char) : Prop :=
  ∃ shown, Reveals held text shown ∧ (exact → ink shown = ink want)

namespace Conveys

variable {exact : Prop} {held : List (List Char)} {text want : List Char}

theorem nil : Conveys exact held [] [] :=
  ⟨[], Reveals.nil, fun _ => rfl⟩

theorem of_nulFree (plain : NulFree text) (same : exact → ink text = ink want) :
    Conveys exact held text want :=
  ⟨text, Reveals.of_nulFree plain, same⟩

/-- A text without placeholders shows its own ink. -/
theorem ink_eq (conveys : Conveys exact held text want) (plain : NulFree text) (asked : exact) :
    ink text = ink want := by
  obtain ⟨shown, reveals, same⟩ := conveys
  rw [← reveals.eq_of_nulFree plain]
  exact same asked

theorem append {text' want' : List Char} (left : Conveys exact held text want)
    (right : Conveys exact held text' want') :
    Conveys exact held (text ++ text') (want ++ want') := by
  obtain ⟨shown, reveals, same⟩ := left
  obtain ⟨shown', reveals', same'⟩ := right
  exact ⟨shown ++ shown', reveals.append reveals',
    fun asked => by rw [ink_append, ink_append, same asked, same' asked]⟩

theorem extend (conveys : Conveys exact held text want) (more : List (List Char)) :
    Conveys exact (held ++ more) text want := by
  obtain ⟨shown, reveals, same⟩ := conveys
  exact ⟨shown, reveals.extend more, same⟩

theorem respace {other : List Char} (conveys : Conveys exact held text want)
    (respaced : Respaced text other) : Conveys exact held other want := by
  obtain ⟨shown, reveals, same⟩ := conveys
  obtain ⟨shown', reveals', kept⟩ := reveals.respace respaced
  exact ⟨shown', reveals', fun asked => kept.trans (same asked)⟩

theorem keepsFront {debug : Bool} {kept : List Char} (conveys : Conveys exact held text want)
    (undebugged : exact → debug = false) (front : KeepsFront debug text kept) :
    Conveys exact held kept want := by
  obtain ⟨shown, reveals, same⟩ := conveys
  obtain ⟨shown', reveals', kept⟩ := reveals.keepsFront front
  exact ⟨shown', reveals', fun asked => (kept (undebugged asked)).trans (same asked)⟩

/-- Hanging puts the bullet in front of the text. -/
theorem hang {debug : Bool} (conveys : Conveys exact held text want)
    (undebugged : exact → debug = false) {bullet : List Char} (plain : NulFree bullet)
    (indent inner : Nat) :
    Conveys exact held (hang debug bullet indent inner text) (bullet ++ want) := by
  obtain ⟨shown, reveals, same⟩ := conveys
  obtain ⟨lead, gap, rest, rfl, lost, empty, hung⟩ := exists_hang debug bullet indent inner text
  obtain ⟨back, revealed, rfl⟩ := reveals.of_append_right lost.nulFree
  have front : NulFree (spaces indent ++ bullet ++ gap) :=
    nulFree_append.mpr ⟨nulFree_append.mpr
      ⟨nulFree_of_ink_eq_nil (ink_spaces indent), plain⟩, nulFree_of_ink_eq_nil empty⟩
  rw [hung]
  refine ⟨_, (Reveals.of_nulFree front).append revealed, fun asked => ?_⟩
  have inner := same asked
  rw [ink_append, lost.blank (undebugged asked), List.nil_append] at inner
  simp [empty, inner]

end Conveys

theorem KeepsFront.nulFree {debug : Bool} {text kept : List Char}
    (front : KeepsFront debug text kept) (plain : NulFree text) : NulFree kept := by
  obtain ⟨tail, rfl, -⟩ := front
  exact (nulFree_append.mp plain).1

theorem nulFree_hang {bullet body : List Char} (bulletPlain : NulFree bullet)
    (plain : NulFree body) (debug : Bool) (indent inner : Nat) :
    NulFree (hang debug bullet indent inner body) := by
  obtain ⟨lead, gap, rest, rfl, -, empty, hung⟩ := exists_hang debug bullet indent inner body
  rw [hung]
  simp only [nulFree_append]
  exact ⟨⟨⟨nulFree_of_ink_eq_nil (ink_spaces indent), bulletPlain⟩, nulFree_of_ink_eq_nil empty⟩,
    (nulFree_append.mp plain).2⟩

/-! ## Texts of blocks

The text of a block is laid out again only where the block is flattened into formatting.
So its placeholders, and characters that look like one, matter only where the rows in it
are calm. -/

/-- What a block shows conveys what is wanted and, where layout is exact, hides nothing,
if it is calm; and its own ink is as wanted in any case. -/
structure Presents (exact calm : Prop) (held : List (List Char)) (text want : List Char) :
    Prop where
  /-- A calm text conveys what is wanted. -/
  conveys : calm → Conveys exact held text want
  /-- A calm text hides nothing. -/
  nulFree : exact → calm → NulFree text
  /-- The text has the ink that is wanted. -/
  ink : exact → ink text = ink want

namespace Presents

variable {exact calm : Prop} {held : List (List Char)} {text want : List Char}

theorem of_nulFree (plain : calm → NulFree text) (same : exact → Text.ink text = Text.ink want) :
    Presents exact calm held text want :=
  ⟨fun still => Conveys.of_nulFree (plain still) same, fun _ => plain, same⟩

theorem nil : Presents exact calm held [] [] :=
  of_nulFree (fun _ => nulFree_nil) fun _ => rfl

/-- Less is known of a text that is calm less often. -/
theorem of_calmer {calmer : Prop} (presents : Presents exact calm held text want)
    (implied : calmer → calm) : Presents exact calmer held text want :=
  ⟨fun still => presents.conveys (implied still),
    fun asked still => presents.nulFree asked (implied still), presents.ink⟩

theorem append {text' want' : List Char} (left : Presents exact calm held text want)
    (right : Presents exact calm held text' want') :
    Presents exact calm held (text ++ text') (want ++ want') where
  conveys still := (left.conveys still).append (right.conveys still)
  nulFree asked still := nulFree_append.mpr ⟨left.nulFree asked still, right.nulFree asked still⟩
  ink asked := by rw [ink_append, ink_append, left.ink asked, right.ink asked]

theorem extend (presents : Presents exact calm held text want) (more : List (List Char)) :
    Presents exact calm (held ++ more) text want :=
  ⟨fun still => (presents.conveys still).extend more, presents.nulFree, presents.ink⟩

theorem respace {other : List Char} (presents : Presents exact calm held text want)
    (respaced : Respaced text other) : Presents exact calm held other want where
  conveys still := (presents.conveys still).respace respaced
  nulFree asked still := (nulFree_congr respaced.ink_eq).mp (presents.nulFree asked still)
  ink asked := respaced.ink_eq.symm.trans (presents.ink asked)

theorem keepsFront {debug : Bool} {kept : List Char} (presents : Presents exact calm held text want)
    (undebugged : exact → debug = false) (front : KeepsFront debug text kept) :
    Presents exact calm held kept want where
  conveys still := (presents.conveys still).keepsFront undebugged front
  nulFree asked still := front.nulFree (presents.nulFree asked still)
  ink asked := by
    have same := presents.ink asked
    obtain ⟨tail, rfl, lost⟩ := front
    rwa [ink_append, lost.blank (undebugged asked), List.append_nil] at same

/-- A text may gain a newline. -/
theorem newline (presents : Presents exact calm held text want) :
    Presents exact calm held (text ++ ['\n']) want := by
  have line : Presents exact calm held ['\n'] [] := of_nulFree (fun _ => by decide) fun _ => rfl
  simpa using presents.append line

/-- Hanging puts the bullet in front of the text. -/
theorem hang {debug : Bool} (presents : Presents exact calm held text want)
    (undebugged : exact → debug = false) {bullet : List Char} (plain : NulFree bullet)
    (indent inner : Nat) :
    Presents exact calm held (hang debug bullet indent inner text) (bullet ++ want) where
  conveys still := (presents.conveys still).hang undebugged plain indent inner
  nulFree asked still := nulFree_hang plain (presents.nulFree asked still) debug indent inner
  ink asked := by
    have same := presents.ink asked
    obtain ⟨lead, gap, rest, rfl, lost, empty, hung⟩ := exists_hang debug bullet indent inner text
    rw [ink_append, lost.blank (undebugged asked), List.nil_append] at same
    simp [hung, empty, same]

end Presents

/-- Cells present the flat texts of the nodes of a row, one by one. -/
def CellsPresent (exact calm : Prop) (held : List (List Char)) (cells wants : List (List Char)) :
    Prop :=
  List.Forall₂ (fun cell want => Presents exact calm held cell want) cells wants

/-- Cells with separators between them present their flat texts with separators between
them. -/
theorem CellsPresent.intercalate {exact calm : Prop} {held : List (List Char)}
    {cells wants : List (List Char)} {separator : List Char} (plain : calm → NulFree separator)
    (presents : CellsPresent exact calm held cells wants) :
    Presents exact calm held (separator.intercalate cells) (separator.intercalate wants) := by
  induction presents with
  | nil => exact Presents.nil
  | cons first rest inductionHypothesis =>
      cases rest with
      | nil => simpa using first
      | cons next others =>
          have between : Presents exact calm held separator separator :=
            Presents.of_nulFree plain fun _ => rfl
          simp only [List.intercalate_cons_cons]
          exact (first.append between).append inductionHypothesis

/-! ## Workspaces -/

/-- A workspace holds code without NUL and has room for some more below a bound. -/
structure Ready (bound : Nat) (workspace : Workspace) (room : Nat) : Prop where
  /-- Held code holds no NUL. -/
  codes : ∀ code ∈ workspace.held, NulFree code
  /-- No more code is held than the bound says. -/
  few : workspace.held.length + room ≤ bound

/-- A workspace gains no more than a number of codes, none of which holds NUL. -/
def Grows (before after : Workspace) (room : Nat) : Prop :=
  ∃ added, after.held = before.held ++ added ∧ added.length ≤ room ∧ ∀ code ∈ added, NulFree code

namespace Grows

variable {before middle after : Workspace} {bound room more : Nat}

theorem of_held (same : after.held = before.held) : Grows before after room :=
  ⟨[], by simp [same], by simp, by simp⟩

theorem trans (first : Grows before middle room) (second : Grows middle after more) :
    Grows before after (room + more) := by
  obtain ⟨added, held, short, codes⟩ := first
  obtain ⟨added', held', short', codes'⟩ := second
  refine ⟨added ++ added', by rw [held', held, List.append_assoc], by simp; omega, ?_⟩
  intro code present
  rcases List.mem_append.mp present with early | late
  · exact codes code early
  · exact codes' code late

theorem mono (grows : Grows before after room) (enough : room ≤ more) :
    Grows before after more := by
  obtain ⟨added, held, short, codes⟩ := grows
  exact ⟨added, held, Nat.le_trans short enough, codes⟩

theorem ready (grows : Grows before after room) (ready : Ready bound before (room + more)) :
    Ready bound after more := by
  obtain ⟨added, held, short, codes⟩ := grows
  refine ⟨fun code present => ?_, ?_⟩
  · rw [held] at present
    rcases List.mem_append.mp present with early | late
    · exact ready.codes code early
    · exact codes code late
  · have := ready.few
    rw [held, List.length_append]
    omega

theorem conveys {exact : Prop} {text want : List Char} (grows : Grows before after room)
    (conveys : Conveys exact before.held text want) : Conveys exact after.held text want := by
  obtain ⟨added, held, -, -⟩ := grows
  rw [held]
  exact conveys.extend added

theorem presents {exact calm : Prop} {text want : List Char} (grows : Grows before after room)
    (presents : Presents exact calm before.held text want) :
    Presents exact calm after.held text want := by
  obtain ⟨added, held, -, -⟩ := grows
  rw [held]
  exact presents.extend added

end Grows

theorem Ready.mono {bound : Nat} {workspace : Workspace} {room more : Nat}
    (ready : Ready bound workspace more) (enough : room ≤ more) : Ready bound workspace room :=
  ⟨ready.codes, by have := ready.few; omega⟩

/-- A tree is refused for a block in a span. -/
def IsRefusal (fault : Fault) : Prop :=
  ∃ report, fault = .failure report ∧ report.detail.class = .malformedTree

/-- What may stop a conversion without NUL: too much held code or, under the strict
policy, a block in a span. -/
def Admitted (options : Options) (bound : Nat) (fault : Fault) : Prop :=
  Overfull bound fault ∨ options.nesting = .reject ∧ IsRefusal fault

theorem Admitted.overfull {options : Options} {bound : Nat} {fault : Fault}
    (admitted : Admitted options bound fault) (flattens : options.nesting = .flatten) :
    Overfull bound fault := by
  rcases admitted with overfull | ⟨rejects, -⟩
  · exact overfull
  · rw [flattens] at rejects
    cases rejects

/-- Span text is laid out with all held code that it refers to. -/
theorem flush_meets {exact : Prop} {bound : Nat} {setting : Setting} {workspace : Workspace}
    {text want : List Char}
    (undebugged : exact → setting.options.debug = false)
    (ready : Ready bound workspace 0)
    (conveys : Conveys exact workspace.held text want)
    (indent : Nat) (wraps : Bool) :
    Meets (flush setting indent wraps text) workspace (Admitted setting.options bound)
      fun laid after => after = workspace ∧ NulFree laid ∧ (exact → ink laid = ink want) := by
  obtain ⟨shown, reveals, same⟩ := conveys
  have laidOut := layoutSpan_reveals setting.options ready.codes reveals indent wraps
  unfold flush
  refine Meets.read (Meets.lift (fun laid returned => ?_) fun fault stopped => ?_)
  · rw [returned] at laidOut
    obtain ⟨plain, kept⟩ := laidOut
    exact ⟨rfl, plain, fun asked => (kept (undebugged asked)).trans (same asked)⟩
  · rw [stopped] at laidOut
    exact Or.inl ⟨Nat.lt_of_lt_of_le laidOut.1 ready.few, laidOut.2⟩

/-- Held code is found under its placeholder. -/
theorem hold_meets {exact : Prop} {workspace : Workspace} {code want : List Char}
    (plain : NulFree code) (same : exact → ink code = ink want) (admitted : Fault → Prop) :
    Meets (hold code) workspace admitted fun stand after =>
      Grows workspace after 1 ∧ Conveys exact after.held stand want := by
  unfold hold
  refine Meets.read (Meets.write (Meets.give ⟨⟨[code], rfl, by simp, by simpa using plain⟩, ?_⟩))
  exact ⟨code, Reveals.held_next code, same⟩

/-! ## Tags -/

theorem nulFree_name {kind : Kind} (known : kind.isKnown = true) : NulFree kind.name.toList := by
  cases kind with
  | foreign name => cases known
  | _ => decide

/-- Tags are put around the text of a node, inside its indentation and its last
newline. -/
theorem exists_tag {node : Node} (known : node.kind.isKnown = true) (text : List Char) :
    ∃ lead body tail front back, text = lead ++ body ++ tail ∧ NulFree lead ∧ NulFree tail ∧
      NulFree front ∧ NulFree back ∧ tag node text = lead ++ (front ++ body ++ back) ++ tail := by
  have name := nulFree_name known
  have opens (tagClass : List Char) (plain : NulFree tagClass) :
      NulFree (Marker.opening tagClass node.kind.name.toList) := by
    simp [Marker.opening, plain, name]
  have closes (tagClass : List Char) (plain : NulFree tagClass) :
      NulFree (Marker.closing tagClass node.kind.name.toList) := by
    simp [Marker.closing, plain, name]
  unfold tag
  dsimp only
  split
  · exact ⟨[], text, [], _, _, by simp, nulFree_nil, nulFree_nil,
      opens Marker.spanClass (by decide), closes Marker.spanClass (by decide), by simp [enclose]⟩
  · have margin : NulFree (text.takeWhile (· == ' ')) := fun present =>
      absurd (List.mem_takeWhile_imp present) (by decide)
    have whole : text = text.takeWhile (· == ' ') ++ text.dropWhile (· == ' ') :=
      List.takeWhile_append_dropWhile.symm
    split
    · rename_i closed
      have ended := List.dropLast_append_getLast? _ closed
      refine ⟨_, (text.dropWhile (· == ' ')).dropLast, ['\n'], _, _, ?_, margin, by decide,
        opens Marker.blockClass (by decide), closes Marker.blockClass (by decide),
        by simp [enclose]⟩
      rw [List.append_assoc, ended, ← whole]
    · exact ⟨_, text.dropWhile (· == ' '), [], _, _, by simp, margin, nulFree_nil,
        opens Marker.blockClass (by decide), closes Marker.blockClass (by decide),
        by simp [enclose]⟩

section Finish

variable {exact : Prop} {setting : Setting} {node : Node}

theorem nulFree_finish (known : node.kind.isKnown = true) {text : List Char}
    (plain : NulFree text) : NulFree (finish setting node text) := by
  unfold finish
  split
  · obtain ⟨lead, body, tail, front, back, rfl, leadPlain, tailPlain, opened, closed, tagged⟩ :=
      exists_tag known text
    have bodyPlain : NulFree body := (nulFree_append.mp (nulFree_append.mp plain).1).2
    rw [tagged]
    simp [leadPlain, tailPlain, opened, closed, bodyPlain]
  · exact plain

/-- Tags hide nothing that a text conveys. -/
theorem Conveys.finish {held : List (List Char)} {text want : List Char}
    (conveys : Conveys exact held text want) (known : node.kind.isKnown = true)
    (undebugged : exact → setting.options.debug = false) :
    Conveys exact held (finish setting node text) want := by
  unfold Layout.finish
  split
  · rename_i debugged
    obtain ⟨shown, reveals, -⟩ := conveys
    obtain ⟨lead, body, tail, front, back, rfl, leadPlain, tailPlain, opened, closed, tagged⟩ :=
      exists_tag known text
    obtain ⟨start, revealed, -⟩ := reveals.of_append_left tailPlain
    obtain ⟨inner, inside, -⟩ := revealed.of_append_right leadPlain
    rw [tagged]
    refine ⟨_, ((Reveals.of_nulFree leadPlain).append (((Reveals.of_nulFree opened).append
      inside).append (Reveals.of_nulFree closed))).append (Reveals.of_nulFree tailPlain),
      fun asked => ?_⟩
    rw [undebugged asked] at debugged
    cases debugged
  · exact conveys

theorem Presents.finish {calm : Prop} {held : List (List Char)} {text want : List Char}
    (presents : Presents exact calm held text want) (known : node.kind.isKnown = true)
    (undebugged : exact → setting.options.debug = false) :
    Presents exact calm held (finish setting node text) want where
  conveys still := (presents.conveys still).finish known undebugged
  nulFree asked still := nulFree_finish known (presents.nulFree asked still)
  ink asked := by
    rw [Layout.finish, if_neg (by simp [undebugged asked]), presents.ink asked]

end Finish

end Layout
end Galley
