import Galley.Proofs.Outcome

/-!
# Two runs that end alike

Two computations are started in two states.  Either both return, and their values and
the states they leave are related, or both stop at the same fault; only an excused fault
may stop one of them alone.  There is one rule for each way of building the two
computations side by side, and one for what only the second of them does.
-/

namespace Galley

/-- What the ends of two runs have to do with each other. -/
def EndAlike (excused : Fault → σ → Prop) (related : α → β → σ → σ → Prop) :
    Except Fault α × σ → Except Fault β × σ → Prop
  | (.ok value, after), (.ok value', after') => related value value' after after'
  | (.error fault, after), (.error fault', after') =>
      fault = fault' ∨ excused fault after ∨ excused fault' after'
  | (.error fault, after), (.ok _, _) => excused fault after
  | (.ok _, _), (.error fault', after') => excused fault' after'

/-- Two computations end alike: they return related values, or they stop at the same
fault, unless a fault that stops one of them is excused. -/
def Retraces (excused : Fault → σ → Prop) (action : ExceptT Fault (StateM σ) α)
    (lead : ExceptT Fault (StateM σ) β) (state state' : σ)
    (related : α → β → σ → σ → Prop) : Prop :=
  EndAlike excused related (outcome action state) (outcome lead state')

/-- No fault is excused. -/
abbrev Unexcused {σ : Type} (_ : Fault) (_ : σ) : Prop := False

namespace Retraces

variable {σ α β γ δ : Type} {excused : Fault → σ → Prop} {action : ExceptT Fault (StateM σ) α}
  {lead : ExceptT Fault (StateM σ) β} {state state' : σ} {related : α → β → σ → σ → Prop}

/-- Less may be asked of the values and states. -/
theorem imp {weaker : α → β → σ → σ → Prop}
    (retraces : Retraces excused action lead state state' related)
    (results : ∀ value value' after after', related value value' after after' →
      weaker value value' after after') :
    Retraces excused action lead state state' weaker := by
  unfold Retraces at retraces ⊢
  rcases found : outcome action state with ⟨fault | value, after⟩ <;>
    rcases found' : outcome lead state' with ⟨fault' | value', after'⟩ <;>
    rw [found, found'] at retraces
  · exact retraces
  · exact retraces
  · exact retraces
  · exact results _ _ _ _ retraces

/-- Sequences end alike part by part. -/
theorem bind {next : α → ExceptT Fault (StateM σ) γ} {next' : β → ExceptT Fault (StateM σ) δ}
    {final : γ → δ → σ → σ → Prop}
    (first : Retraces excused action lead state state' related)
    (second : ∀ value value' after after', related value value' after after' →
      Retraces excused (next value) (next' value') after after' final) :
    Retraces excused (action >>= next) (lead >>= next') state state' final := by
  unfold Retraces at first ⊢
  rw [outcome_bind, outcome_bind]
  rcases found : outcome action state with ⟨fault | value, after⟩ <;>
    rcases found' : outcome lead state' with ⟨fault' | value', after'⟩ <;>
    rw [found, found'] at first
  · exact first
  · -- One run is stopped by an excused fault, so the other may go on.
    dsimp only
    rcases outcome (next' value') after' with ⟨other | result, end'⟩
    · exact Or.inr (Or.inl first)
    · exact first
  · dsimp only
    rcases outcome (next value) after with ⟨other | result, ended⟩
    · exact Or.inr (Or.inr first)
    · exact first
  · exact second value value' after after' first

/-- Two computations that return end alike where what holds of their results relates
them. -/
theorem of_meets {condition : α → σ → Prop} {condition' : β → σ → Prop}
    (meets : Meets action state (fun _ => False) condition)
    (meets' : Meets lead state' (fun _ => False) condition')
    (results : ∀ value value' after after', condition value after → condition' value' after' →
      related value value' after after') :
    Retraces excused action lead state state' related := by
  obtain ⟨value, after, returned, holds⟩ := meets.exists_ok
  obtain ⟨value', after', returned', holds'⟩ := meets'.exists_ok
  unfold Retraces
  rw [returned, returned']
  exact results _ _ _ _ holds holds'

theorem give {value : α} {value' : β} (holds : related value value' state state') :
    Retraces excused (pure value) (pure value') state state' related :=
  holds

theorem stop {fault : Fault} :
    Retraces excused (throw fault : ExceptT Fault (StateM σ) α)
      (throw fault : ExceptT Fault (StateM σ) β) state state' related :=
  Or.inl rfl

/-- What follows the same stateless computation starts from the same value. -/
theorem lift_bind {result : Except Fault ε} {next : ε → ExceptT Fault (StateM σ) γ}
    {next' : ε → ExceptT Fault (StateM σ) δ} {final : γ → δ → σ → σ → Prop}
    (rest : ∀ value, Retraces excused (next value) (next' value) state state' final) :
    Retraces excused (liftM result >>= next) (liftM result >>= next') state state' final := by
  cases result with
  | error fault => exact Or.inl rfl
  | ok value => exact rest value

/-- Reading the states passes them on. -/
theorem read {next : σ → ExceptT Fault (StateM σ) γ} {next' : σ → ExceptT Fault (StateM σ) δ}
    {final : γ → δ → σ → σ → Prop}
    (rest : Retraces excused (next state) (next' state') state state' final) :
    Retraces excused (get >>= next) (get >>= next') state state' final := by
  unfold Retraces at rest ⊢
  rwa [outcome_get_bind, outcome_get_bind]

/-- Changing the states. -/
theorem change {update update' : σ → σ} {related : PUnit → PUnit → σ → σ → Prop}
    (holds : related () () (update state) (update' state')) :
    Retraces excused (modify update) (modify update') state state' related :=
  holds

/-- What follows changes of the states starts from the changed states. -/
theorem change_bind {update update' : σ → σ} {next : PUnit → ExceptT Fault (StateM σ) γ}
    {next' : PUnit → ExceptT Fault (StateM σ) δ} {final : γ → δ → σ → σ → Prop}
    (rest : Retraces excused (next ()) (next' ()) (update state) (update' state') final) :
    Retraces excused (modify update >>= next) (modify update' >>= next') state state' final := by
  unfold Retraces at rest ⊢
  rwa [outcome_modify_bind, outcome_modify_bind]

/-- What follows replacements of the states starts from the new states. -/
theorem write {replacement replacement' : σ} {next : PUnit → ExceptT Fault (StateM σ) γ}
    {next' : PUnit → ExceptT Fault (StateM σ) δ} {final : γ → δ → σ → σ → Prop}
    (rest : Retraces excused (next ()) (next' ()) replacement replacement' final) :
    Retraces excused (set replacement >>= next) (set replacement' >>= next') state state' final :=
  rest

/-- The second computation may do something first. -/
theorem after_lead {first : ExceptT Fault (StateM σ) γ} {next : γ → ExceptT Fault (StateM σ) β}
    {value : γ} {middle : σ}
    (returned : outcome first state' = (.ok value, middle))
    (rest : Retraces excused action (next value) state middle related) :
    Retraces excused action (first >>= next) state state' related := by
  unfold Retraces at rest ⊢
  rwa [outcome_bind_of_ok returned]

/-- The second computation may go on to give something made of its value. -/
theorem lead_gives {make : β → γ} {final : α → γ → σ → σ → Prop}
    (retraces : Retraces excused action lead state state' related)
    (results : ∀ value value' after after', related value value' after after' →
      final value (make value') after after') :
    Retraces excused action (lead >>= fun value => pure (make value)) state state' final := by
  rw [← bind_pure action]
  exact bind retraces fun value value' after after' holds => give (results _ _ _ _ holds)

/-- Two results are alike: related values or the same fault. -/
def ResultsAlike (related : α → β → Prop) : Except Fault α → Except Fault β → Prop
  | .ok value, .ok value' => related value value'
  | .error fault, .error fault' => fault = fault'
  | _, _ => False

/-- Where no fault is excused, the results of two runs are alike. -/
theorem results {related : α → β → Prop}
    (retraces : Retraces Unexcused action lead state state' fun value value' _ _ =>
      related value value') :
    ResultsAlike related (outcome action state).1 (outcome lead state').1 := by
  unfold Retraces at retraces
  rcases found : outcome action state with ⟨fault | value, after⟩ <;>
    rcases found' : outcome lead state' with ⟨fault' | value', after'⟩ <;>
    rw [found, found'] at retraces
  · rcases retraces with same | absurdly | absurdly
    · exact same
    · exact absurdly.elim
    · exact absurdly.elim
  · exact retraces
  · exact retraces
  · exact retraces

theorem eq_of_resultsAlike {result result' : Except Fault α}
    (alike : ResultsAlike (fun value value' => value = value') result result') :
    result = result' := by
  cases result with
  | error fault =>
      cases result' with
      | error fault' => exact congrArg Except.error alike
      | ok value' => exact alike.elim
  | ok value =>
      cases result' with
      | error fault' => exact alike.elim
      | ok value' => exact congrArg Except.ok alike

/-- Results that are alike are passed on, with the states as they are. -/
theorem lift {related : α → β → σ → σ → Prop} {result : Except Fault α} {result' : Except Fault β}
    (alike : ResultsAlike (fun value value' => related value value' state state') result result') :
    Retraces excused (liftM result) (liftM result') state state' related := by
  cases result with
  | error fault =>
      cases result' with
      | error fault' => exact Or.inl alike
      | ok value' => exact alike.elim
  | ok value =>
      cases result' with
      | error fault' => exact alike.elim
      | ok value' => exact alike

end Retraces
end Galley
