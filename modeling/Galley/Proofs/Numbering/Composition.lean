import Galley.Numbering.Pass
import Galley.Proofs.Document.Paths
import Galley.Proofs.Outcome

/-!
# Passes from their steps

A pass visits nodes and opens and closes marks.  A property of computations that each of
these steps has, and that sequences take over from their parts, is therefore a property
of every pass.  One is that values of a wrong shape may stop it, but no failure of the
library does.
-/

namespace Galley
namespace Numbering

/-- A property of computations that goes from the steps of a pass to the pass. -/
structure Compositional (holds : ∀ {α : Type}, Pass α → Prop) : Prop where
  /-- Giving a value. -/
  give {α : Type} (value : α) : holds (pure value)
  /-- Doing one thing after another. -/
  bind {α β : Type} {action : Pass α} {next : α → Pass β} :
    holds action → (∀ value, holds (next value)) → holds (action >>= next)
  /-- Numbering a node by itself. -/
  visit (node : Node) (place : Place) : holds (visit node place)
  /-- Opening a mark for the items below. -/
  openMark (mark : Option String) : holds (openMark mark)
  /-- Taking the mark back. -/
  closeMark (mark : Option String) : holds (closeMark mark)

/-- By induction on the tree, what holds of every step of a pass holds of the pass. -/
theorem Compositional.annotate {holds : ∀ {α : Type}, Pass α → Prop}
    (steps : Compositional holds) (node : Node) (place : Place) :
    holds (annotate node place) := by
  induction node using Node.induction_on_children generalizing place with
  | step node below =>
      have siblings (members : List Node) (index : Nat)
          (known : ∀ child ∈ members, child ∈ node.children) :
          holds (annotateSiblings members node place index) := by
        induction members generalizing index with
        | nil => exact steps.give []
        | cons child rest inductionHypothesis =>
            obtain ⟨member, members⟩ := List.forall_mem_cons.mp known
            rw [annotateSiblings]
            apply steps.bind (below child member _)
            intro first
            apply steps.bind (inductionHypothesis (index + 1) members)
            intro others
            exact steps.give _
      obtain ⟨kind, payload, attributes, options, children⟩ := node
      rw [Numbering.annotate]
      apply steps.bind (steps.visit _ place)
      intro numbered
      apply steps.bind (steps.openMark _)
      intro _
      apply steps.bind (siblings children 0 fun _ member => member)
      intro others
      apply steps.bind (steps.closeMark _)
      intro _
      exact steps.give _

/-! ## What stops a pass -/

/-- A fault that is no failure of the library. -/
def NoFailure (fault : Fault) : Prop :=
  ∀ report, fault ≠ .failure report

/-- From no state is a computation stopped by a failure of the library. -/
def Unfailing (action : Pass α) : Prop :=
  ∀ state, Meets action state NoFailure fun _ _ => True

namespace Unfailing

variable {α β : Type} {action : Pass α}

theorem give (value : α) : Unfailing (pure value) :=
  fun _ => Meets.give trivial

theorem read : Unfailing (get : Pass State) :=
  fun _ => trivial

theorem change (update : State → State) : Unfailing (modify update) :=
  fun _ => Meets.change trivial

theorem bind {next : α → Pass β} (first : Unfailing action)
    (second : ∀ value, Unfailing (next value)) : Unfailing (action >>= next) :=
  fun state => Meets.bind (first state) fun value after _ => second value after

theorem lift {result : Except Fault α} (allowed : ∀ fault, result = .error fault →
    NoFailure fault) :
    Unfailing (liftM result : Pass α) :=
  fun _ => Meets.lift (fun _ _ => trivial) allowed

end Unfailing

theorem noFailure_of_toInteger {value : Datum} {fault : Fault}
    (stopped : value.toInteger = .error fault) : NoFailure fault := by
  intro report
  unfold Datum.toInteger at stopped
  split at stopped
  · cases stopped
  · cases stopped
  · split at stopped <;> cases stopped <;> exact nofun
  · cases stopped
    exact nofun

/-- What is made of a whole number stops only where the number is not read. -/
theorem noFailure_of_map {value : Datum} {make : Int → α} {fault : Fault}
    (stopped : (value.toInteger >>= fun number => pure (make number)) = .error fault) :
    NoFailure fault := by
  cases read : value.toInteger with
  | ok number =>
      rw [read] at stopped
      cases stopped
  | error other =>
      rw [read] at stopped
      cases stopped
      exact noFailure_of_toInteger read

theorem noFailure_of_headingMarks {payload : Payload} {options : Fields} {fault : Fault}
    (stopped : headingMarks payload options = .error fault) : NoFailure fault := by
  unfold headingMarks at stopped
  split at stopped
  · cases stopped
  · split at stopped
    · cases stopped
    · exact noFailure_of_map stopped
  · exact noFailure_of_map stopped

theorem noFailure_of_itemPayload {payload : Payload} {place : Place} {position : Nat}
    {fault : Fault}
    (stopped : itemPayload payload place position = .error fault) : NoFailure fault := by
  unfold itemPayload at stopped
  split at stopped
  · cases stopped
  · split at stopped
    · split at stopped
      · exact noFailure_of_map stopped
      · cases stopped
    · cases stopped
  · cases stopped

theorem unfailing_declareLabel (label : String) (path : Path) :
    Unfailing (declareLabel label path) := by
  unfold declareLabel
  apply Unfailing.read.bind
  intro state
  split
  · split
    · exact (Unfailing.change _).bind fun _ => Unfailing.change _
    · exact Unfailing.change _
  · exact Unfailing.change _

theorem unfailing_declareOwnLabel (node : Node) (path : Path) :
    Unfailing (declareOwnLabel node path) := by
  unfold declareOwnLabel
  split
  · exact unfailing_declareLabel _ path
  · exact Unfailing.give ()

theorem unfailing_visit (node : Node) (place : Place) : Unfailing (visit node place) := by
  unfold visit
  split
  · unfold visitHeading
    apply Unfailing.read.bind
    intro state
    apply (Unfailing.change _).bind
    intro _
    apply (Unfailing.lift fun fault => noFailure_of_headingMarks).bind
    intro marks
    apply (Unfailing.change _).bind
    intro _
    apply Unfailing.read.bind
    intro counted
    exact (unfailing_declareOwnLabel _ _).bind fun _ => Unfailing.give _
  · unfold visitItem
    apply Unfailing.read.bind
    intro state
    apply (Unfailing.change _).bind
    intro _
    apply (Unfailing.lift fun fault => noFailure_of_itemPayload).bind
    intro payload
    apply Unfailing.read.bind
    intro chained
    exact (unfailing_declareOwnLabel _ _).bind fun _ => Unfailing.give _
  · unfold visitLabel
    split
    · split
      · exact (unfailing_declareLabel _ _).bind fun _ => Unfailing.give _
      · exact (Unfailing.change _).bind fun _ => Unfailing.give _
    · exact Unfailing.give _
  · exact fun _ => Meets.stop nofun
  · exact Unfailing.give _

theorem unfailing_steps : Compositional fun {_} action => Unfailing action where
  give := Unfailing.give
  bind first second := first.bind second
  visit := unfailing_visit
  openMark _ := Unfailing.change _
  closeMark _ := Unfailing.change _

/-- What stops the numbering of a tree is no failure of the library. -/
theorem noFailure_of_resolve {tree : Node} {fault : Fault}
    (stopped : (resolve tree).1 = .error fault) : NoFailure fault := by
  have unfailing : Unfailing (traverse tree) := by
    unfold traverse
    apply (Unfailing.change _).bind
    intro _
    apply (unfailing_steps.annotate tree Place.root).bind
    intro annotated
    apply Unfailing.read.bind
    intro state
    exact (Unfailing.change _).bind fun _ => Unfailing.give _
  have ended : outcome (traverse tree) {} = (.error fault, (outcome (traverse tree) {}).2) :=
    Prod.ext stopped rfl
  exact (unfailing {}).of_error ended

end Numbering
end Galley
