import Mathlib.Data.List.Basic
import Mathlib.Data.Set.Insert
import Mathlib.Logic.Function.Basic

/-!
# Memory as separately allocated blocks

A block is addressed as a whole and accessed through checked offsets: an access
outside an allocated block has no result. Each release is recorded with whether
its pointer denoted an allocated block at that moment.
-/

set_option autoImplicit false

namespace Aesd

universe u

abbrev Address := Nat

structure Memory (α : Type u) where
  block : Address → Option (List α)
  releases : List (Option Address × Bool)

namespace Memory

variable {α : Type u}

def empty : Memory α := ⟨fun _ => none, []⟩

def assign (memory : Memory α) (address : Address) (contents : Option (List α)) : Memory α :=
  { memory with block := Function.update memory.block address contents }

/-- Read one element; the index may be any integer. -/
def load (memory : Memory α) (address : Address) (index : Int) : Option α :=
  if index < 0 then none
  else (memory.block address).bind fun contents => contents[index.toNat]?

theorem load_of_neg (memory : Memory α) (address : Address) {index : Int} (before : index < 0) :
    memory.load address index = none := if_pos before

def readRange (memory : Memory α) (address : Address) (offset count : Nat) : Option (List α) :=
  (memory.block address).bind fun contents =>
    if offset + count ≤ contents.length then some ((contents.drop offset).take count) else none

def writeRange (memory : Memory α) (address : Address) (offset : Nat) (values : List α) :
    Option (Memory α) :=
  (memory.block address).bind fun contents =>
    if offset + values.length ≤ contents.length then
      some (memory.assign address (some
        (contents.take offset ++ values ++ contents.drop (offset + values.length))))
    else none

def copyRange (memory : Memory α) (target : Address) (targetOffset : Nat) (source : Address)
    (sourceOffset count : Nat) : Option (Memory α) :=
  (memory.readRange source sourceOffset count).bind (memory.writeRange target targetOffset)

/-- Release the block a pointer denotes; a null pointer releases nothing. -/
def release (memory : Memory α) : Option Address → Memory α
  | none => { memory with releases := memory.releases ++ [(none, false)] }
  | some address =>
      { memory.assign address none with
        releases := memory.releases ++ [(some address, (memory.block address).isSome)] }

@[simp] theorem assign_block_self (memory : Memory α) (address : Address)
    (contents : Option (List α)) : (memory.assign address contents).block address = contents :=
  Function.update_self _ _ _

theorem assign_block_of_ne (memory : Memory α) {address other : Address}
    (different : other ≠ address) (contents : Option (List α)) :
    (memory.assign address contents).block other = memory.block other :=
  Function.update_of_ne different _ _

theorem release_block_of_ne (memory : Memory α) {pointer : Option Address} {other : Address}
    (different : pointer ≠ some other) : (memory.release pointer).block other = memory.block other := by
  cases pointer with
  | none => rfl
  | some address => exact assign_block_of_ne memory (fun same => different (congrArg some same.symm)) _

def allocated (memory : Memory α) : Set Address := {address | memory.block address ≠ none}

theorem mem_allocated (memory : Memory α) (address : Address) :
    address ∈ memory.allocated ↔ memory.block address ≠ none := Iff.rfl

theorem allocated_assign (memory : Memory α) (address : Address) (contents : List α) :
    (memory.assign address (some contents)).allocated = insert address memory.allocated := by
  ext other
  rw [Set.mem_insert_iff, mem_allocated, mem_allocated]
  by_cases same : other = address
  · simp [same]
  · simp [same, memory.assign_block_of_ne same]

theorem allocated_release (memory : Memory α) (address : Address) :
    (memory.release (some address)).allocated = memory.allocated \ {address} := by
  ext other
  rw [Set.mem_sdiff, Set.mem_singleton_iff, mem_allocated, mem_allocated]
  by_cases same : other = address
  · subst same
    simp [release]
  · have different : some address ≠ some other := fun equal => same (Option.some.inj equal).symm
    simp [same, memory.release_block_of_ne different]

/-- The blocks freed on the way from one memory to another, in order, each
allocated at the moment of its release. -/
def Frees (before after : Memory α) (freed : List Address) : Prop :=
  after.releases = before.releases ++ freed.map fun address => (some address, true)

theorem Frees.refl (memory : Memory α) : memory.Frees memory [] := (List.append_nil _).symm

theorem Frees.assign {before after : Memory α} {freed : List Address}
    (frees : before.Frees after freed) (address : Address) (contents : Option (List α)) :
    before.Frees (after.assign address contents) freed := frees

theorem Frees.release {before after : Memory α} {freed : List Address}
    (frees : before.Frees after freed) {address : Address}
    (present : address ∈ after.allocated) :
    before.Frees (after.release (some address)) (freed ++ [address]) := by
  have held : (after.block address).isSome = true := Option.isSome_iff_ne_none.mpr present
  unfold Frees Memory.release
  simp only [held, List.map_append, List.map_singleton, ← List.append_assoc]
  exact congrArg (· ++ _) frees

def Stores (memory : Memory α) (address : Address) (values : List α) : Prop :=
  ∃ contents, memory.block address = some contents ∧ values <+: contents

theorem Stores.congr {before after : Memory α} {address : Address} {values : List α}
    (stored : before.Stores address values) (same : after.block address = before.block address) :
    after.Stores address values := by
  obtain ⟨contents, present, leading⟩ := stored
  exact ⟨contents, same.trans present, leading⟩

theorem Stores.allocated {memory : Memory α} {address : Address} {values : List α}
    (stored : memory.Stores address values) : memory.block address ≠ none := by
  obtain ⟨contents, present, _⟩ := stored
  rw [present]
  exact Option.some_ne_none contents

theorem Stores.readRange {memory : Memory α} {address : Address} {values : List α}
    (stored : memory.Stores address values) (offset count : Nat)
    (bound : offset + count ≤ values.length) :
    memory.readRange address offset count = some ((values.drop offset).take count) := by
  obtain ⟨_, present, ⟨rest, rfl⟩⟩ := stored
  simp only [Memory.readRange, present, Option.bind_some, List.length_append]
  rw [if_pos (by omega), List.drop_append_of_le_length (by omega),
    List.take_append_of_le_length (by rw [List.length_drop]; omega)]

theorem writeRange_of_fits {memory : Memory α} {address : Address} {contents : List α}
    (offset : Nat) (values : List α) (present : memory.block address = some contents)
    (fits : offset + values.length ≤ contents.length) :
    memory.writeRange address offset values = some (memory.assign address (some
      (contents.take offset ++ values ++ contents.drop (offset + values.length)))) := by
  simp [writeRange, present, fits]

@[simp] theorem assign_assign (memory : Memory α) (address : Address)
    (first second : Option (List α)) :
    (memory.assign address first).assign address second = memory.assign address second := by
  simp [assign]

theorem copyRange_of_stores {memory : Memory α} {source target : Address}
    {values contents : List α} (offset : Nat) (stored : memory.Stores source values)
    (present : memory.block target = some contents)
    (fits : offset + values.length ≤ contents.length) :
    memory.copyRange target offset source 0 values.length = some (memory.assign target (some
      (contents.take offset ++ values ++ contents.drop (offset + values.length)))) := by
  have read : memory.readRange source 0 values.length = some values := by
    simpa using stored.readRange 0 values.length (by omega)
  rw [copyRange, read, Option.bind_some, writeRange_of_fits offset values present fits]

end Memory

end Aesd
