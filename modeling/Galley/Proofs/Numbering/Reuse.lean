import Galley.Proofs.Numbering.Composition
import Galley.Proofs.Retraces

/-!
# Numbering one tree after another

A pass writes a log and never reads it, and what else an earlier pass has left behind is
forgotten at the start.  So a tree is numbered as by a new pass, whatever was numbered
before and wherever that stopped.
-/

namespace Galley
namespace Numbering

/-- The same is gathered, whatever was reported. -/
def SameGathered (state state' : State) : Prop :=
  ∃ log, state' = { state with log := log }

/-- With the same gathered, a computation ends in the same way, whatever was reported
before. -/
def Deaf (action : Pass α) : Prop :=
  ∀ state log, Retraces Unexcused action action state { state with log := log }
    fun value value' after after' => value = value' ∧ SameGathered after after'

namespace Deaf

variable {α β : Type} {action : Pass α}

theorem give (value : α) : Deaf (pure value) :=
  fun _ log => Retraces.give ⟨rfl, log, rfl⟩

theorem stop (fault : Fault) : Deaf (throw fault : Pass α) :=
  fun _ _ => Retraces.stop

theorem bind {next : α → Pass β} (first : Deaf action) (second : ∀ value, Deaf (next value)) :
    Deaf (action >>= next) := by
  intro state log
  refine Retraces.bind (first state log) ?_
  rintro value _ after _ ⟨rfl, later, rfl⟩
  exact second value after later

/-- What is read and used may be anything but the log. -/
theorem read {next : State → Pass α}
    (used : ∀ state log, next { state with log := log } = next state)
    (rest : ∀ state, Deaf (next state)) : Deaf (get >>= next) := by
  intro state log
  refine Retraces.read ?_
  rw [used state log]
  exact rest state state log

/-- So may be what is changed. -/
theorem change {update : State → State}
    (used : ∀ state log, SameGathered (update state) (update { state with log := log })) :
    Deaf (modify update) :=
  fun state log => Retraces.change ⟨rfl, used state log⟩

theorem lift (result : Except Fault α) : Deaf (liftM result : Pass α) := by
  intro state log
  cases result with
  | error fault => exact Retraces.stop
  | ok value => exact Retraces.give ⟨rfl, log, rfl⟩

theorem report (event : LogEvent) : Deaf (report event) :=
  change fun _ log => ⟨log ++ [event], rfl⟩

end Deaf

/-! ## Steps of a pass -/

theorem deaf_declareLabel (label : String) (path : Path) : Deaf (declareLabel label path) := by
  have declare : Deaf (modify fun state : State =>
      { state with labels := state.labels.declare label path }) :=
    Deaf.change fun _ log => ⟨log, rfl⟩
  unfold declareLabel
  refine Deaf.read (fun _ _ => rfl) fun state => ?_
  split
  · split
    · exact (Deaf.report _).bind fun _ => declare
    · exact declare
  · exact declare

theorem deaf_declareOwnLabel (node : Node) (path : Path) : Deaf (declareOwnLabel node path) := by
  unfold declareOwnLabel
  split
  · exact deaf_declareLabel _ path
  · exact Deaf.give ()

theorem deaf_visit (node : Node) (place : Place) : Deaf (visit node place) := by
  unfold visit
  split
  · unfold visitHeading
    refine Deaf.read (fun _ _ => rfl) fun state => ?_
    refine (Deaf.change fun _ log => ⟨log, rfl⟩).bind fun _ => ?_
    refine (Deaf.lift _).bind fun marks => ?_
    refine (Deaf.change fun _ log => ⟨log, rfl⟩).bind fun _ => ?_
    refine Deaf.read (fun _ _ => rfl) fun counted => ?_
    exact (deaf_declareOwnLabel _ _).bind fun _ => Deaf.give _
  · unfold visitItem
    refine Deaf.read (fun _ _ => rfl) fun state => ?_
    refine (Deaf.change fun _ log => ⟨log, rfl⟩).bind fun _ => ?_
    refine (Deaf.lift _).bind fun payload => ?_
    refine Deaf.read (fun _ _ => rfl) fun chained => ?_
    exact (deaf_declareOwnLabel _ _).bind fun _ => Deaf.give _
  · unfold visitLabel
    split
    · split
      · exact (deaf_declareLabel _ _).bind fun _ => Deaf.give _
      · exact (Deaf.report _).bind fun _ => Deaf.give _
    · exact Deaf.give _
  · exact Deaf.stop _
  · exact Deaf.give _

/-- No step of a pass reads the log. -/
theorem deaf_steps : Compositional fun {_} action => Deaf action where
  give := Deaf.give
  bind first second := first.bind second
  visit := deaf_visit
  openMark _ := Deaf.change fun _ log => ⟨log, rfl⟩
  closeMark _ := Deaf.change fun _ log => ⟨log, rfl⟩

/-! ## Passes -/

/-- From any two states a tree is numbered in the same way: to the same tree with the
same tables, which are also left behind, or to the same fault. -/
theorem traverse_retraces (tree : Node) (state state' : State) :
    Retraces Unexcused (traverse tree) (traverse tree) state state'
      fun numbered numbered' after after' => numbered = numbered' ∧ SameGathered after after' := by
  unfold traverse
  refine Retraces.change_bind (Retraces.bind
    (deaf_steps.annotate tree Place.root { log := state.log } state'.log) ?_)
  rintro annotated _ after _ ⟨rfl, log, rfl⟩
  refine Retraces.read (Retraces.change_bind (Retraces.give ⟨rfl, ?_⟩))
  exact ⟨_, rfl⟩

/-- What is left behind when trees are numbered one after another, wherever each pass
stopped. -/
def State.after (trees : List Node) (state : State) : State :=
  trees.foldl (fun state tree => (outcome (traverse tree) state).2) state

/-- A pass that follows others gives what a new pass gives. -/
theorem outcome_traverse (tree : Node) (state : State) :
    (outcome (traverse tree) state).1 = (resolve tree).1 :=
  Retraces.eq_of_resultsAlike
    ((traverse_retraces tree state {}).imp fun _ _ _ _ same => same.1).results

end Numbering
end Galley
