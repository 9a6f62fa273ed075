import Mathlib.Data.Option.Basic

/-!
# Programs of atomic actions

A program over a shared state performs one action after the other, each chosen by
the values of those before. An action without an outcome is a fault. Executed
alone, a program is a partial function; its actions can also be taken one by one.
-/

set_option autoImplicit false

namespace Aesd

universe u

inductive Program (State : Type u) (Result : Type) : Type (max 1 u) where
  | done (result : Result)
  | act {Value : Type} (action : State → Option (Value × State))
      (next : Value → Program State Result)

namespace Program

variable {State : Type u} {Value Result : Type}

def bind : Program State Value → (Value → Program State Result) → Program State Result
  | .done value, continuation => continuation value
  | .act action next, continuation => .act action fun value => (next value).bind continuation

instance : Monad (Program State) where
  pure := .done
  bind := bind

/-- The action alone. -/
def perform (action : State → Option (Value × State)) : Program State Value := .act action .done

def load (value : State → Value) : Program State Value :=
  perform fun state => some (value state, state)

def store (change : State → State) : Program State Unit :=
  perform fun state => some ((), change state)

def exec : Program State Result → State → Option (Result × State)
  | .done result, state => some (result, state)
  | .act action next, state => (action state).bind fun taken => (next taken.1).exec taken.2

@[simp] theorem exec_pure (result : Result) (state : State) :
    (pure result : Program State Result).exec state = some (result, state) := rfl

theorem exec_act (action : State → Option (Value × State))
    (next : Value → Program State Result) (state : State) :
    (Program.act action next).exec state =
      (action state).bind fun taken => (next taken.1).exec taken.2 := rfl

@[simp] theorem exec_bind (program : Program State Value)
    (continuation : Value → Program State Result) (state : State) :
    (program >>= continuation).exec state =
      (program.exec state).bind fun taken => (continuation taken.1).exec taken.2 := by
  induction program generalizing state with
  | done => rfl
  | act action next ih =>
      cases taken : action state with
      | none => simp [Bind.bind, bind, exec_act, taken]
      | some outcome =>
          have later := ih outcome.1 outcome.2
          simpa [Bind.bind, bind, exec_act, taken] using later

@[simp] theorem exec_perform (action : State → Option (Value × State)) (state : State) :
    (perform action).exec state = action state := by
  rw [perform, exec_act]
  cases action state <;> rfl

@[simp] theorem exec_load (value : State → Value) (state : State) :
    (load value).exec state = some (value state, state) := rfl

@[simp] theorem exec_store (change : State → State) (state : State) :
    (store change).exec state = some ((), change state) := rfl

/-- Every action keeps a property of the state, whatever has happened in between. -/
def Keeps (holds : State → Prop) : Program State Result → Prop
  | .done _ => True
  | .act action next => ∀ state, holds state → ∀ taken ∈ action state,
      holds taken.2 ∧ (next taken.1).Keeps holds

variable {holds : State → Prop}

@[simp] theorem keeps_pure (result : Result) : (pure result : Program State Result).Keeps holds :=
  trivial

theorem Keeps.bind {program : Program State Value} (first : program.Keeps holds)
    {continuation : Value → Program State Result}
    (rest : ∀ value, (continuation value).Keeps holds) : (program >>= continuation).Keeps holds := by
  induction program with
  | done value => exact rest value
  | act action next ih =>
      intro state start taken outcome
      obtain ⟨kept, later⟩ := first state start taken outcome
      exact ⟨kept, ih taken.1 later⟩

theorem keeps_perform {action : State → Option (Value × State)}
    (kept : ∀ state, holds state → ∀ taken ∈ action state, holds taken.2) :
    (perform action).Keeps holds :=
  fun state start taken outcome => ⟨kept state start taken outcome, trivial⟩

theorem keeps_load (value : State → Value) : (load value).Keeps holds :=
  keeps_perform fun _ start _ outcome => Option.some.inj outcome ▸ start

theorem keeps_store {change : State → State} (kept : ∀ state, holds state → holds (change state)) :
    (store change).Keeps holds :=
  keeps_perform fun state start _ outcome => Option.some.inj outcome ▸ kept state start

theorem Keeps.exec {program : Program State Result} (keeps : program.Keeps holds) {state : State}
    (start : holds state) {taken : Result × State} (ran : program.exec state = some taken) :
    holds taken.2 := by
  induction program generalizing state with
  | done result =>
      cases ran
      exact start
  | act action next ih =>
      rw [exec_act] at ran
      obtain ⟨outcome, first, rest⟩ := Option.bind_eq_some_iff.mp ran
      obtain ⟨kept, later⟩ := keeps state start outcome first
      exact ih outcome.1 later kept rest

end Program

end Aesd
