import Aesd.Library.Logged

/-!
# Buffers whose accesses are recorded

Each load and each store logs its index and the length of the buffer addressed.
A computation is safe when every index is below that length. An access outside
a buffer is recorded too: a load there gives nothing, a store there changes
nothing.
-/

set_option autoImplicit false

namespace Aesd

universe u

structure Access where
  index : Nat
  length : Nat
  deriving DecidableEq, Repr

def Access.InRange (access : Access) : Prop := access.index < access.length

instance (access : Access) : Decidable access.InRange :=
  inferInstanceAs (Decidable (access.index < access.length))

abbrev Traced (α : Type u) := Logged Access α

namespace Traced

variable {α β : Type u}

def load (buffer : List α) (index : Nat) : Traced (Option α) :=
  ⟨buffer[index]?, [⟨index, buffer.length⟩]⟩

def store (buffer : List α) (index : Nat) (element : α) : Traced (List α) :=
  ⟨buffer.set index element, [⟨index, buffer.length⟩]⟩

@[simp] theorem value_load (buffer : List α) (index : Nat) :
    (load buffer index).value = buffer[index]? := rfl

@[simp] theorem value_store (buffer : List α) (index : Nat) (element : α) :
    (store buffer index element).value = buffer.set index element := rfl

theorem log_store (buffer : List α) (index : Nat) (element : α) :
    (store buffer index element).log = [⟨index, buffer.length⟩] := rfl

def Safe (traced : Traced α) : Prop := traced.All Access.InRange

instance (traced : Traced α) : Decidable traced.Safe :=
  inferInstanceAs (Decidable (traced.All Access.InRange))

@[simp] theorem safe_pure (value : α) : (pure value : Traced α).Safe :=
  Logged.all_pure _ value

@[simp] theorem safe_bind (first : Traced α) (next : α → Traced β) :
    (first >>= next : Traced β).Safe ↔ first.Safe ∧ (next first.value).Safe :=
  Logged.all_bind _ first next

@[simp] theorem safe_load (buffer : List α) (index : Nat) :
    (load buffer index).Safe ↔ index < buffer.length :=
  Logged.all_single _ _ _

@[simp] theorem safe_store (buffer : List α) (index : Nat) (element : α) :
    (store buffer index element).Safe ↔ index < buffer.length :=
  Logged.all_single _ _ _

end Traced

end Aesd
