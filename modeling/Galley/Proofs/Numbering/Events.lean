import Galley.Numbering.Pass
import Galley.Proofs.Events
import Galley.Proofs.Numbering.Composition

/-!
# Events of the numbering pass

Whether it returns or is stopped, the numbering pass reports nothing but events of its
own.
-/

namespace Galley
namespace Numbering

/-- A computation reports only events of the numbering pass. -/
abbrev Reports (action : Pass α) : Prop :=
  Adds State.log (fun event => event.source = .numbering) action

theorem reports_report {event : LogEvent} (own : event.source = .numbering) :
    Reports (report event) :=
  Adds.report own fun _ => rfl

theorem reports_declareLabel (label : String) (path : Path) :
    Reports (declareLabel label path) := by
  unfold declareLabel
  refine Adds.read_bind fun state => ?_
  have declares :
      Reports (modify fun state => { state with labels := state.labels.declare label path }) :=
    Adds.change fun _ => rfl
  split
  · split
    · exact (reports_report rfl).bind fun _ => declares
    · exact declares
  · exact declares

theorem reports_declareOwnLabel (node : Node) (path : Path) :
    Reports (declareOwnLabel node path) := by
  unfold declareOwnLabel
  split
  · exact reports_declareLabel _ path
  · exact Adds.give ()

theorem reports_visit (node : Node) (place : Place) : Reports (visit node place) := by
  unfold visit
  split
  · refine Adds.read_bind fun state => Adds.change_bind (fun _ => rfl) ?_
    refine (Adds.lift _).bind fun marks => Adds.change_bind (fun _ => rfl) ?_
    refine Adds.read_bind fun counted => ?_
    exact (reports_declareOwnLabel _ _).bind fun _ => Adds.give _
  · refine Adds.read_bind fun state => Adds.change_bind (fun _ => rfl) ?_
    refine (Adds.lift _).bind fun payload => Adds.read_bind fun chained => ?_
    exact (reports_declareOwnLabel _ _).bind fun _ => Adds.give _
  · unfold visitLabel
    split
    · split
      · exact (reports_declareLabel _ _).bind fun _ => Adds.give _
      · exact (reports_report rfl).bind fun _ => Adds.give _
    · exact Adds.give _
  · exact Adds.stop _
  · exact Adds.give _

/-- What a pass adds to the log is what its steps add. -/
theorem reporting : Compositional fun {_} action => Reports action where
  give value := Adds.give value
  bind first second := first.bind second
  visit := reports_visit
  openMark _ := Adds.change fun _ => rfl
  closeMark _ := Adds.change fun _ => rfl

/-- All events of the numbering pass are its own. -/
theorem source_of_mem_resolve {tree : Node} {event : LogEvent}
    (reported : event ∈ (resolve tree).2) :
    event.source = .numbering := by
  have reports : Reports (traverse tree) := by
    unfold traverse
    refine Adds.change_bind (fun _ => rfl) ((reporting.annotate tree Place.root).bind fun new => ?_)
    exact Adds.read_bind fun state => (reports_report rfl).bind fun _ => Adds.give _
  obtain ⟨events, logged, each⟩ := reports {}
  have same : (resolve tree).2 = events := logged
  exact each event (same ▸ reported)

end Numbering
end Galley
