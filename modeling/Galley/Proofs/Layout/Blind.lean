import Galley.Proofs.Layout.Composition
import Galley.Proofs.Retraces

/-!
# Reports are not read

A renderer writes a log and never reads it.  So a conversion that is started with the
same held code ends in the same way, with the same text or at the same fault, whatever
was reported before.
-/

namespace Galley
namespace Layout

/-- The same value, with the same code held. -/
def SameHeld (value value' : α) (workspace workspace' : Workspace) : Prop :=
  value = value' ∧ workspace.held = workspace'.held

/-- With the same code held, a computation ends in the same way, whatever was reported
before. -/
def Blind (action : Render α) : Prop :=
  ∀ workspace workspace', workspace.held = workspace'.held →
    Retraces Unexcused action action workspace workspace' SameHeld

namespace Blind

variable {α β : Type} {action : Render α}

theorem give (value : α) : Blind (pure value) :=
  fun _ _ same => Retraces.give ⟨rfl, same⟩

theorem stop (fault : Fault) : Blind (throw fault : Render α) :=
  fun _ _ _ => Retraces.stop

theorem report (event : LogEvent) : Blind (report event) :=
  fun _ _ same => Retraces.change ⟨rfl, same⟩

theorem bind {next : α → Render β} (first : Blind action) (second : ∀ value, Blind (next value)) :
    Blind (action >>= next) := by
  intro workspace workspace' same
  refine Retraces.bind (first workspace workspace' same) ?_
  rintro value _ after after' ⟨rfl, sameAfter⟩
  exact second value after after' sameAfter

theorem hold (code : List Char) : Blind (hold code) := by
  intro workspace workspace' same
  refine Retraces.read (Retraces.write (Retraces.give ?_))
  rw [same]
  exact ⟨rfl, rfl⟩

theorem flush (setting : Setting) (indent : Nat) (wraps : Bool) (text : List Char) :
    Blind (flush setting indent wraps text) := by
  intro workspace workspace' same
  unfold Layout.flush
  refine Retraces.read ?_
  rw [same]
  cases layoutSpan setting.options workspace'.held indent wraps text with
  | error fault => exact Retraces.stop
  | ok shown => exact Retraces.give ⟨rfl, same⟩

theorem of_terse (terse : Terse action) : Blind action := by
  cases terse with
  | give value => exact give value
  | stop fault => exact stop fault
  | report unlike value => exact (report _).bind fun _ => give value

end Blind

/-- No step of a conversion reads the log. -/
theorem blind_steps (setting : Setting) :
    Compositional setting (fun _ => True) fun {_} action => Blind action where
  give := Blind.give
  bind first second := first.bind second
  hold := Blind.hold
  flush := Blind.flush setting
  leaf _ place indent := Blind.of_terse (Terse.leafText setting _ place indent)
  unknown _ _ := Blind.stop _
  separator _ := Blind.stop _
  reject _ _ _ _ _ := Blind.stop _
  flatten _ _ _ _ _ := Blind.report _

/-- Neither does the whole conversion. -/
theorem blind_convert (setting : Setting) (node : Node) (place : Place) (indent : Nat) :
    Blind (convert setting node place indent) :=
  (blind_steps setting).convert node (fun _ _ => trivial) place indent

end Layout
end Galley
