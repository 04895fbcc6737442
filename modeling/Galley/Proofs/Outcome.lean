import Galley.Failure

/-!
# Outcomes of stateful computations

The numbering pass and the renderer are computations that keep a state and may stop at a
fault.  This module states what such a computation does from a state, with one rule for
each way of building a computation.  `Meets` bounds both endings: the faults that may
stop the computation and what holds of its value and state where it returns.  `Follows`
compares two computations: where the second returns, so does the first, and their
results are related.
-/

namespace Galley

/-- The outcome of a computation from a state, with the state it leaves. -/
def outcome
    (action : ExceptT Fault (StateM σ) α)
    (state : σ) : Except Fault α × σ :=
  Id.run (action.run.run state)

/-- The second part of a sequence starts from what the first part gives and leaves. -/
theorem outcome_bind
    (action : ExceptT Fault (StateM σ) α)
    (next : α → ExceptT Fault (StateM σ) β)
    (state : σ) :
    outcome (action >>= next) state =
      match outcome action state with
      | (.ok value, after) => outcome (next value) after
      | (.error fault, after) => (.error fault, after) := by
  simp only [outcome, ExceptT.run_bind, StateT.run_bind]
  change (match (action.run.run state) with
    | (result, after) => _) = _
  rcases action.run.run state with ⟨result | result, after⟩ <;> rfl

/-- Where the first part of a sequence returns, the second goes on. -/
theorem outcome_bind_of_ok
    {action : ExceptT Fault (StateM σ) α}
    {state after : σ} {value : α}
    (returned : outcome action state = (.ok value, after))
    (next : α → ExceptT Fault (StateM σ) β) :
    outcome (action >>= next) state = outcome (next value) after := by
  rw [outcome_bind, returned]

/-- Where the first part of a sequence is stopped, so is the sequence. -/
theorem outcome_bind_of_error
    {action : ExceptT Fault (StateM σ) α}
    {state : σ} {fault : Fault}
    (stopped : (outcome action state).1 = .error fault)
    (next : α → ExceptT Fault (StateM σ) β) :
    (outcome (action >>= next) state).1 = .error fault := by
  rw [outcome_bind]
  generalize outcome action state = ran at stopped ⊢
  obtain ⟨result, after⟩ := ran
  obtain rfl : result = .error fault := stopped
  rfl

/-- What follows a reading of the state starts from the state as it is. -/
theorem outcome_get_bind
    (state : σ)
    (next : σ → ExceptT Fault (StateM σ) α) :
    outcome (get >>= next) state = outcome (next state) state :=
  outcome_bind_of_ok rfl next

/-- What follows a change of the state starts from the changed state. -/
theorem outcome_modify_bind
    (update : σ → σ) (state : σ)
    (next : PUnit → ExceptT Fault (StateM σ) α) :
    outcome (modify update >>= next) state = outcome (next ()) (update state) :=
  outcome_bind_of_ok rfl next

/-- What follows a stateless computation that gave a value starts from the state as it
is. -/
theorem outcome_lift_bind
    (value : α) (state : σ)
    (next : α → ExceptT Fault (StateM σ) β) :
    outcome (liftM (.ok value : Except Fault α) >>= next) state = outcome (next value) state :=
  outcome_bind_of_ok rfl next

/-- A sequence that returns has returned from its first part. -/
theorem exists_of_bind_eq_ok {first : Except Fault α} {next : α → Except Fault β} {value : β}
    (returned : first >>= next = .ok value) :
    ∃ middle, first = .ok middle ∧ next middle = .ok value := by
  cases first with
  | error fault => cases returned
  | ok middle => exact ⟨middle, rfl, returned⟩

/-- Results can be compared without comparing faults. -/
theorem eq_ok_of_toOption {result : Except ε α} {value : α} (given : result.toOption = some value) :
    result = .ok value := by
  cases result with
  | error fault => cases given
  | ok other => exact congrArg Except.ok (Option.some.inj given)

/-- Started in a state, a computation stops only at admitted faults, and what it returns
satisfies a condition together with the state it leaves. -/
def Meets
    (action : ExceptT Fault (StateM σ) α)
    (state : σ)
    (admitted : Fault → Prop)
    (condition : α → σ → Prop) : Prop :=
  match outcome action state with
  | (.ok value, after) => condition value after
  | (.error fault, _) => admitted fault

namespace Meets

variable {σ α β : Type} {action : ExceptT Fault (StateM σ) α} {state : σ}
  {admitted : Fault → Prop} {condition : α → σ → Prop}

/-- What is met by a computation that returned. -/
theorem of_ok
    (meets : Meets action state admitted condition)
    {value : α} {after : σ}
    (returned : outcome action state = (.ok value, after)) :
    condition value after := by
  simpa only [Meets, returned] using meets

/-- What is met by a computation that was stopped. -/
theorem of_error
    (meets : Meets action state admitted condition)
    {fault : Fault} {after : σ}
    (stopped : outcome action state = (.error fault, after)) :
    admitted fault := by
  simpa only [Meets, stopped] using meets

/-- What holds of the result of a computation is met by it. -/
theorem of_outcome
    {value : α} {after : σ}
    (returned : outcome action state = (.ok value, after))
    (holds : condition value after) :
    Meets action state admitted condition := by
  simpa only [Meets, returned] using holds

/-- Every computation meets what asks for nothing. -/
theorem unconditional
    (action : ExceptT Fault (StateM σ) α)
    (state : σ) :
    Meets action state (fun _ => True) fun _ _ => True := by
  unfold Meets
  split <;> trivial

/-- A computation that no fault may stop returns. -/
theorem exists_ok
    (meets : Meets action state (fun _ => False) condition) :
    ∃ value after, outcome action state = (.ok value, after) ∧ condition value after := by
  unfold Meets at meets
  split at meets
  · rename_i value after returned
    exact ⟨value, after, returned, meets⟩
  · exact False.elim meets

/-- More faults may be admitted and less may be asked of the result. -/
theorem mono
    {wider : Fault → Prop} {weaker : α → σ → Prop}
    (meets : Meets action state admitted condition)
    (faults : ∀ fault, admitted fault → wider fault)
    (results : ∀ value after, condition value after → weaker value after) :
    Meets action state wider weaker := by
  unfold Meets at meets ⊢
  split
  · rename_i value after returned
    rw [returned] at meets
    exact results value after meets
  · rename_i fault after stopped
    rw [stopped] at meets
    exact faults fault meets

/-- Less may be asked of the result. -/
theorem imp
    {weaker : α → σ → Prop}
    (meets : Meets action state admitted condition)
    (results : ∀ value after, condition value after → weaker value after) :
    Meets action state admitted weaker :=
  meets.mono (fun _ present => present) results

/-- A sequence meets what its second part meets from every result of the first. -/
theorem bind
    {next : α → ExceptT Fault (StateM σ) β} {final : β → σ → Prop}
    (first : Meets action state admitted condition)
    (second : ∀ value after, condition value after → Meets (next value) after admitted final) :
    Meets (action >>= next) state admitted final := by
  unfold Meets at first ⊢
  rw [outcome_bind]
  rcases found : outcome action state with ⟨result | result, after⟩
  · simpa only [found] using first
  · exact second result after (by simpa only [found] using first)

/-- Giving a value keeps the state. -/
theorem give
    {value : α}
    (holds : condition value state) :
    Meets (pure value) state admitted condition :=
  holds

/-- Stopping needs an admitted fault. -/
theorem stop
    {fault : Fault}
    (allowed : admitted fault) :
    Meets (throw fault : ExceptT Fault (StateM σ) α) state admitted condition :=
  allowed

/-- A result of a stateless computation is passed on with the state as it is. -/
theorem lift
    {result : Except Fault α}
    (holds : ∀ value, result = .ok value → condition value state)
    (allowed : ∀ fault, result = .error fault → admitted fault) :
    Meets (liftM result : ExceptT Fault (StateM σ) α) state admitted condition := by
  cases result with
  | ok value => exact holds value rfl
  | error fault => exact allowed fault rfl

/-- What follows a stateless computation starts from its value and the state as it is. -/
theorem lift_bind
    {result : Except Fault α} {next : α → ExceptT Fault (StateM σ) β} {final : β → σ → Prop}
    (rest : ∀ value, result = .ok value → Meets (next value) state admitted final)
    (allowed : ∀ fault, result = .error fault → admitted fault) :
    Meets (liftM result >>= next) state admitted final := by
  have lifted : Meets (liftM result) state admitted fun value after =>
      result = .ok value ∧ after = state :=
    lift (fun value found => ⟨found, rfl⟩) allowed
  refine bind lifted ?_
  rintro value _ ⟨found, rfl⟩
  exact rest value found

/-- Reading the state passes it on. -/
theorem read
    {next : σ → ExceptT Fault (StateM σ) β} {final : β → σ → Prop}
    (rest : Meets (next state) state admitted final) :
    Meets (get >>= next) state admitted final := by
  have found : Meets (get : ExceptT Fault (StateM σ) σ) state admitted fun value after =>
      value = state ∧ after = state := ⟨rfl, rfl⟩
  refine bind found ?_
  rintro _ _ ⟨rfl, rfl⟩
  exact rest

/-- What follows a replacement of the state starts from the new state. -/
theorem write
    {replacement : σ} {next : PUnit → ExceptT Fault (StateM σ) β} {final : β → σ → Prop}
    (rest : Meets (next ()) replacement admitted final) :
    Meets (set replacement >>= next) state admitted final := by
  have written : Meets (set replacement : ExceptT Fault (StateM σ) PUnit) state admitted
      fun _ after => after = replacement := rfl
  refine bind written ?_
  rintro _ _ rfl
  exact rest

/-- Changing the state. -/
theorem change
    {update : σ → σ} {condition : PUnit → σ → Prop}
    (holds : condition () (update state)) :
    Meets (modify update : ExceptT Fault (StateM σ) PUnit) state admitted condition :=
  holds

/-- What follows a change of the state starts from the changed state. -/
theorem change_bind
    {update : σ → σ} {next : PUnit → ExceptT Fault (StateM σ) β} {final : β → σ → Prop}
    (rest : Meets (next ()) (update state) admitted final) :
    Meets (modify update >>= next) state admitted final := by
  have changed : Meets (modify update : ExceptT Fault (StateM σ) PUnit) state admitted
      fun _ after => after = update state := rfl
  refine bind changed ?_
  rintro _ _ rfl
  exact rest

end Meets

/-- Where a computation that leads returns, so does the other, and their values and the
states they leave are related. -/
def Follows
    (action : ExceptT Fault (StateM σ) α)
    (lead : ExceptT Fault (StateM σ) β)
    (state state' : σ)
    (related : α → β → σ → σ → Prop) : Prop :=
  ∀ value' after', outcome lead state' = (.ok value', after') →
    ∃ value after, outcome action state = (.ok value, after) ∧ related value value' after after'

namespace Follows

variable {σ α β γ δ : Type} {action : ExceptT Fault (StateM σ) α}
  {lead : ExceptT Fault (StateM σ) β} {state state' : σ} {related : α → β → σ → σ → Prop}

/-- Less may be asked of the results. -/
theorem imp
    {weaker : α → β → σ → σ → Prop}
    (follows : Follows action lead state state' related)
    (results : ∀ value value' after after', related value value' after after' →
      weaker value value' after after') :
    Follows action lead state state' weaker := by
  intro value' after' returned
  obtain ⟨value, after, same, holds⟩ := follows value' after' returned
  exact ⟨value, after, same, results _ _ _ _ holds⟩

/-- Sequences follow each other part by part. -/
theorem bind
    {next : α → ExceptT Fault (StateM σ) γ} {next' : β → ExceptT Fault (StateM σ) δ}
    {final : γ → δ → σ → σ → Prop}
    (first : Follows action lead state state' related)
    (second : ∀ value value' after after', related value value' after after' →
      Follows (next value) (next' value') after after' final) :
    Follows (action >>= next) (lead >>= next') state state' final := by
  intro result' end' returned
  rw [outcome_bind] at returned ⊢
  rcases found : outcome lead state' with ⟨fault | value', after'⟩
  · rw [found] at returned
    cases returned
  · rw [found] at returned
    obtain ⟨value, after, same, holds⟩ := first value' after' found
    rw [same]
    exact second value value' after after' holds result' end' returned

/-- Giving values keeps the states. -/
theorem give
    {value : α} {value' : β}
    (holds : related value value' state state') :
    Follows (pure value) (pure value') state state' related := by
  intro result' after' returned
  obtain ⟨rfl, rfl⟩ : value' = result' ∧ state' = after' := by
    cases returned
    exact ⟨rfl, rfl⟩
  exact ⟨value, state, rfl, holds⟩

/-- What is stopped leads nowhere. -/
theorem stop
    {fault : Fault} :
    Follows action (throw fault : ExceptT Fault (StateM σ) β) state state' related := by
  intro value' after' returned
  cases returned

/-- Results of stateless computations are passed on. -/
theorem lift
    {result : Except Fault α} {result' : Except Fault β}
    (holds : ∀ value', result' = .ok value' →
      ∃ value, result = .ok value ∧ related value value' state state') :
    Follows (liftM result) (liftM result') state state' related := by
  intro value' after' returned
  cases found : result' with
  | error fault =>
      rw [found] at returned
      cases returned
  | ok other =>
      rw [found] at returned
      obtain ⟨rfl, rfl⟩ : other = value' ∧ state' = after' := by
        cases returned
        exact ⟨rfl, rfl⟩
      obtain ⟨value, rfl, related⟩ := holds other found
      exact ⟨value, state, rfl, related⟩

/-- Reading the states passes them on. -/
theorem read
    {next : σ → ExceptT Fault (StateM σ) γ} {next' : σ → ExceptT Fault (StateM σ) δ}
    {final : γ → δ → σ → σ → Prop}
    (rest : Follows (next state) (next' state') state state' final) :
    Follows (get >>= next) (get >>= next') state state' final := by
  intro result' end' returned
  rw [outcome_bind] at returned ⊢
  exact rest result' end' returned

/-- What follows replacements of the states starts from the new states. -/
theorem write
    {replacement replacement' : σ} {next : PUnit → ExceptT Fault (StateM σ) γ}
    {next' : PUnit → ExceptT Fault (StateM σ) δ} {final : γ → δ → σ → σ → Prop}
    (rest : Follows (next ()) (next' ()) replacement replacement' final) :
    Follows (set replacement >>= next) (set replacement' >>= next') state state' final := by
  intro result' end' returned
  rw [outcome_bind] at returned ⊢
  exact rest result' end' returned

/-- What follows changes of the states starts from the changed states. -/
theorem change_bind
    {update update' : σ → σ} {next : PUnit → ExceptT Fault (StateM σ) γ}
    {next' : PUnit → ExceptT Fault (StateM σ) δ} {final : γ → δ → σ → σ → Prop}
    (rest : Follows (next ()) (next' ()) (update state) (update' state') final) :
    Follows (modify update >>= next) (modify update' >>= next') state state' final := by
  intro result' end' returned
  rw [outcome_bind] at returned ⊢
  exact rest result' end' returned

/-- The computation that follows may do something first. -/
theorem ahead
    {first : ExceptT Fault (StateM σ) γ} {next : γ → ExceptT Fault (StateM σ) α}
    {value : γ} {after : σ}
    (returned : outcome first state = (.ok value, after))
    (rest : Follows (next value) lead after state' related) :
    Follows (first >>= next) lead state state' related := by
  intro value' end' led
  rw [outcome_bind, returned]
  exact rest value' end' led

end Follows
end Galley
