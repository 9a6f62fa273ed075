import Mathlib.Logic.Function.Basic

/-!
# Handle numbers that are used again

A table maps numbers to what they denote. Closing frees a number whatever it
denotes, and a free number may be given out again. Whoever may still close a
number has a claim on it; trouble starts when a claimed number is given out.
-/

set_option autoImplicit false

namespace Aesd.HandleTable

universe u
variable {Holder : Type u}

abbrev Table (Holder : Type u) := Nat → Option Holder

def opened (table : Table Holder) (handle : Nat) (holder : Holder) : Table Holder :=
  Function.update table handle (some holder)

def closed (table : Table Holder) (handle : Nat) : Table Holder :=
  Function.update table handle none

/-- What a claimed number denotes, if anything, is its claimant. -/
def Unshared (table : Table Holder) (claims : Holder → Nat → Prop) : Prop :=
  ∀ claimant handle, claims claimant handle → ∀ holder, table handle = some holder →
    holder = claimant

variable {table : Table Holder} {claims fewer : Holder → Nat → Prop} {handle other : Nat}
  {holder claimant : Holder}

theorem Unshared.mono (unshared : Unshared table claims)
    (still : ∀ claimant handle, fewer claimant handle → claims claimant handle) :
    Unshared table fewer :=
  fun claimant handle claimed => unshared claimant handle (still claimant handle claimed)

theorem Unshared.opened (unshared : Unshared table claims)
    (unclaimed : ∀ claimant, claims claimant handle → claimant = holder) :
    Unshared (opened table handle holder) claims := by
  intro claimant number claimed found denotes
  by_cases same : number = handle
  · subst same
    rw [HandleTable.opened, Function.update_self] at denotes
    rw [unclaimed claimant claimed]
    exact (Option.some.inj denotes).symm
  · rw [HandleTable.opened, Function.update_of_ne same] at denotes
    exact unshared claimant number claimed found denotes

theorem Unshared.closed (unshared : Unshared table claims) (handle : Nat) :
    Unshared (closed table handle) claims := by
  intro claimant number claimed found denotes
  by_cases same : number = handle
  · subst same
    simp [HandleTable.closed] at denotes
  · rw [HandleTable.closed, Function.update_of_ne same] at denotes
    exact unshared claimant number claimed found denotes

theorem open_of_opened (free : table handle = none) (denotes : table other = some claimant) :
    HandleTable.opened table handle holder other = some claimant := by
  have apart : other ≠ handle := by
    rintro rfl
    rw [free] at denotes
    cases denotes
  rw [HandleTable.opened, Function.update_of_ne apart, denotes]

theorem of_closed (denotes : HandleTable.closed table handle other = some holder) :
    table other = some holder ∧ other ≠ handle := by
  by_cases same : other = handle
  · simp [HandleTable.closed, same] at denotes
  · rw [HandleTable.closed, Function.update_of_ne same] at denotes
    exact ⟨denotes, same⟩

theorem of_opened (denotes : HandleTable.opened table handle holder other = some claimant) :
    other = handle ∧ claimant = holder ∨ table other = some claimant := by
  by_cases same : other = handle
  · simp only [HandleTable.opened, same, Function.update_self, Option.some.injEq] at denotes
    exact .inl ⟨same, denotes.symm⟩
  · rw [HandleTable.opened, Function.update_of_ne same] at denotes
    exact .inr denotes

/-- Closing a number one has a claim on leaves the numbers of others open. -/
theorem Unshared.open_of_closed (unshared : Unshared table claims) (claimed : claims claimant handle)
    (denotes : table other = some holder) (apart : holder ≠ claimant) :
    HandleTable.closed table handle other = some holder := by
  have different : other ≠ handle := by
    rintro rfl
    exact apart (unshared claimant other claimed holder denotes)
  rw [HandleTable.closed, Function.update_of_ne different, denotes]

end Aesd.HandleTable
