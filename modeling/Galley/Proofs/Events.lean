import Galley.Log
import Galley.Proofs.Outcome

/-!
# Events of computations

What a stateful computation adds to a log that is part of its state, whether it returns
or is stopped.
-/

namespace Galley

/-- A computation adds only admitted events to the log, and takes none away. -/
def Adds
    (log : σ → Log)
    (admitted : LogEvent → Prop)
    (action : ExceptT Fault (StateM σ) α) : Prop :=
  ∀ state, ∃ events, log (outcome action state).2 = log state ++ events ∧
    ∀ event ∈ events, admitted event

namespace Adds

variable {σ α β : Type} {log : σ → Log} {admitted : LogEvent → Prop}
  {action : ExceptT Fault (StateM σ) α}

/-- A computation that leaves the log alone adds nothing. -/
theorem of_log (kept : ∀ state, log (outcome action state).2 = log state) :
    Adds log admitted action :=
  fun state => ⟨[], by rw [kept, List.append_nil], List.forall_mem_nil _⟩

theorem give (value : α) : Adds log admitted (pure value) :=
  of_log fun _ => rfl

theorem stop (fault : Fault) : Adds log admitted (throw fault : ExceptT Fault (StateM σ) α) :=
  of_log fun _ => rfl

theorem read : Adds log admitted (get : ExceptT Fault (StateM σ) σ) :=
  of_log fun _ => rfl

theorem lift (result : Except Fault α) :
    Adds log admitted (liftM result : ExceptT Fault (StateM σ) α) := by
  refine of_log fun state => ?_
  cases result <;> rfl

/-- A change of the state that leaves the log alone. -/
theorem change {update : σ → σ} (kept : ∀ state, log (update state) = log state) :
    Adds log admitted (modify update : ExceptT Fault (StateM σ) PUnit) :=
  of_log kept

/-- A change of the state that puts an event behind the log. -/
theorem report {event : LogEvent} {update : σ → σ} (holds : admitted event)
    (added : ∀ state, log (update state) = log state ++ [event]) :
    Adds log admitted (modify update : ExceptT Fault (StateM σ) PUnit) :=
  fun state => ⟨[event], added state, List.forall_mem_singleton.mpr holds⟩

/-- A sequence adds the events of its parts. -/
theorem bind {next : α → ExceptT Fault (StateM σ) β} (first : Adds log admitted action)
    (second : ∀ value, Adds log admitted (next value)) : Adds log admitted (action >>= next) := by
  intro state
  obtain ⟨events, logged, each⟩ := first state
  rw [outcome_bind]
  rcases found : outcome action state with ⟨fault | value, after⟩
  · exact ⟨events, by simpa only [found] using logged, each⟩
  · rw [found] at logged
    obtain ⟨more, loggedMore, eachMore⟩ := second value after
    exact ⟨events ++ more, by rw [loggedMore, logged, List.append_assoc],
      List.forall_mem_append.mpr ⟨each, eachMore⟩⟩

/-- What follows a reading of the state. -/
theorem read_bind {next : σ → ExceptT Fault (StateM σ) β}
    (rest : ∀ state, Adds log admitted (next state)) : Adds log admitted (get >>= next) :=
  bind read rest

/-- What follows a change of the state that leaves the log alone. -/
theorem change_bind {update : σ → σ} {next : PUnit → ExceptT Fault (StateM σ) β}
    (kept : ∀ state, log (update state) = log state) (rest : Adds log admitted (next ())) :
    Adds log admitted (modify update >>= next) :=
  bind (change kept) fun _ => rest

end Adds
end Galley
