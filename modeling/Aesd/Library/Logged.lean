import Mathlib.Data.List.Basic

/-!
# Computations that keep a log

A computation comes with the entries it logged, in order. Whether all of them are
good is decided for the parts of a computation one by one.
-/

set_option autoImplicit false

namespace Aesd

universe u v

structure Logged (Entry : Type v) (α : Type u) where
  value : α
  log : List Entry

namespace Logged

variable {Entry : Type v} {α β : Type u}

instance : Monad (Logged Entry) where
  pure value := ⟨value, []⟩
  bind first next := ⟨(next first.value).value, first.log ++ (next first.value).log⟩

@[simp] theorem value_pure (value : α) : (pure value : Logged Entry α).value = value := rfl

@[simp] theorem value_bind (first : Logged Entry α) (next : α → Logged Entry β) :
    (first >>= next).value = (next first.value).value := rfl

theorem log_bind (first : Logged Entry α) (next : α → Logged Entry β) :
    (first >>= next).log = first.log ++ (next first.value).log := rfl

def All (good : Entry → Prop) (logged : Logged Entry α) : Prop := ∀ entry ∈ logged.log, good entry

instance (good : Entry → Prop) [DecidablePred good] (logged : Logged Entry α) :
    Decidable (logged.All good) :=
  inferInstanceAs (Decidable (∀ entry ∈ logged.log, good entry))

variable (good : Entry → Prop)

@[simp] theorem all_pure (value : α) : (pure value : Logged Entry α).All good :=
  fun _ member => absurd member List.not_mem_nil

@[simp] theorem all_bind (first : Logged Entry α) (next : α → Logged Entry β) :
    (first >>= next).All good ↔ first.All good ∧ (next first.value).All good :=
  List.forall_mem_append

@[simp] theorem all_single (value : α) (entry : Entry) :
    (⟨value, [entry]⟩ : Logged Entry α).All good ↔ good entry :=
  List.forall_mem_singleton

end Logged

end Aesd
