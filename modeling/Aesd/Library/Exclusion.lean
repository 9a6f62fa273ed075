import Mathlib.Logic.Function.Basic

/-!
# One mutex and the sections it guards

Threads have phases, some of which are inside the section of a mutex. If each
step takes the mutex to enter a section and gives it back to leave one, then the
owner is at all times exactly the thread inside.
-/

set_option autoImplicit false

namespace Aesd.Exclusion

universe u v
variable {Thread : Type u} {Phase : Type v}

/-- The owner of the mutex is the one thread whose phase is inside. -/
def Exclusive (inside : Phase → Prop) (phase : Thread → Phase) (owner : Option Thread) : Prop :=
  ∀ thread, inside (phase thread) ↔ owner = some thread

/-- What a step of a thread does to the mutex: nothing, take it, or give it back. -/
inductive Passage (inside : Phase → Prop) (thread : Thread) (before after : Phase) :
    Option Thread → Option Thread → Prop where
  | stay {owner} : (inside after ↔ inside before) → Passage inside thread before after owner owner
  | enter : inside after → Passage inside thread before after none (some thread)
  | leave {owner} : inside before → ¬inside after → Passage inside thread before after owner none

variable {inside : Phase → Prop} {phase : Thread → Phase} {owner next : Option Thread}
  {thread other : Thread} {after : Phase}

theorem Exclusive.step [DecidableEq Thread] (exclusive : Exclusive inside phase owner)
    (passage : Passage inside thread (phase thread) after owner next) :
    Exclusive inside (Function.update phase thread after) next := by
  intro other
  by_cases same : other = thread
  · subst same
    rw [Function.update_self]
    cases passage with
    | stay kept => rw [kept, exclusive]
    | enter entered => simp [entered]
    | leave _ left => simp [left]
  · rw [Function.update_of_ne same]
    cases passage with
    | stay _ => exact exclusive other
    | enter _ =>
        have outside : ¬inside (phase other) := fun held => by
          cases (exclusive other).mp held
        simp [outside, Ne.symm same]
    | leave held _ =>
        have outside : ¬inside (phase other) := fun otherHeld => by
          have owners := ((exclusive thread).mp held).symm.trans ((exclusive other).mp otherHeld)
          exact same (Option.some.inj owners).symm
        simp [outside]

theorem Exclusive.eq_of_inside (exclusive : Exclusive inside phase owner)
    (one : inside (phase thread)) (two : inside (phase other)) : thread = other :=
  Option.some.inj (((exclusive thread).mp one).symm.trans ((exclusive other).mp two))

end Aesd.Exclusion
