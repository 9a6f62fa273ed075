import Mathlib.Data.List.Rotate
import Mathlib.Logic.Function.Basic
import Mathlib.Data.Nat.ModEq

/-!
# Reading an array round its end

`readout` lists the values of an array from a start index, wrapping at the
capacity. Writing behind the last value read extends the listing; writing over
the first value of a full array and moving the start evicts that value.
-/

set_option autoImplicit false

namespace Aesd.Cyclic

universe u
variable {α : Type u}

def readout (slot : Nat → α) (capacity start count : Nat) : List α :=
  (List.range count).map fun offset => slot ((start + offset) % capacity)

@[simp] theorem readout_length (slot : Nat → α) (capacity start count : Nat) :
    (readout slot capacity start count).length = count := by
  simp [readout]

@[simp] theorem readout_zero (slot : Nat → α) (capacity start : Nat) :
    readout slot capacity start 0 = [] := rfl

theorem readout_add (slot : Nat → α) (capacity start first second : Nat) :
    readout slot capacity start (first + second) =
      readout slot capacity start first ++ readout slot capacity (start + first) second := by
  simp [readout, List.range_add, Nat.add_assoc, Function.comp_def]

theorem readout_succ (slot : Nat → α) (capacity start count : Nat) :
    readout slot capacity start (count + 1) =
      readout slot capacity start count ++ [slot ((start + count) % capacity)] := by
  rw [readout_add]
  simp [readout]

theorem readout_cons (slot : Nat → α) (capacity start count : Nat) :
    readout slot capacity start (count + 1) =
      slot (start % capacity) :: readout slot capacity (start + 1) count := by
  rw [Nat.add_comm, readout_add]
  simp [readout]

theorem readout_mod (slot : Nat → α) (capacity start count : Nat) :
    readout slot capacity (start % capacity) count = readout slot capacity start count := by
  simp [readout, Nat.mod_add_mod]

theorem readout_congr {left right : Nat → α} {capacity start count : Nat}
    (agree : ∀ offset < count,
      left ((start + offset) % capacity) = right ((start + offset) % capacity)) :
    readout left capacity start count = readout right capacity start count :=
  List.map_congr_left fun offset member => agree offset (List.mem_range.mp member)

/-- Read all the way round, an array gives its values in a rotated order. -/
theorem readout_rotate (slot : Nat → α) (capacity start : Nat) :
    readout slot capacity start capacity = (readout slot capacity 0 capacity).rotate start := by
  apply List.ext_getElem
  · simp
  · intro offset _ _
    rw [List.getElem_rotate]
    simp [readout, Nat.add_comm]

theorem readout_perm (slot : Nat → α) (capacity start : Nat) :
    (readout slot capacity start capacity).Perm (readout slot capacity 0 capacity) := by
  rw [readout_rotate]
  exact List.rotate_perm _ _

theorem offset_injective {capacity start left right : Nat} (leftBound : left < capacity)
    (rightBound : right < capacity)
    (same : (start + left) % capacity = (start + right) % capacity) : left = right := by
  have congruent : left ≡ right [MOD capacity] := Nat.ModEq.add_left_cancel' start same
  simpa only [Nat.ModEq, Nat.mod_eq_of_lt leftBound, Nat.mod_eq_of_lt rightBound] using congruent

theorem readout_write_outside {slot : Nat → α} {capacity start count offset : Nat} (value : α)
    (outside : count ≤ offset) (bound : offset < capacity) :
    readout (Function.update slot ((start + offset) % capacity) value) capacity start count =
      readout slot capacity start count := by
  refine readout_congr fun index below => Function.update_of_ne ?_ _ _
  intro same
  have equal := offset_injective (by omega) bound same
  omega

theorem readout_push {slot : Nat → α} {capacity start count : Nat} (value : α)
    (room : count < capacity) :
    readout (Function.update slot ((start + count) % capacity) value) capacity start (count + 1) =
      readout slot capacity start count ++ [value] := by
  rw [readout_succ, readout_write_outside value (Nat.le_refl count) room, Function.update_self]

/-- Overwriting the oldest value of a full array and advancing the start drops
exactly that value and appends the new one. -/
theorem readout_replace_oldest {slot : Nat → α} {capacity start : Nat} (value : α)
    (positive : 0 < capacity) :
    readout (Function.update slot (start % capacity) value) capacity (start + 1) capacity =
      (readout slot capacity start capacity).tail ++ [value] := by
  obtain ⟨count, rfl⟩ : ∃ count, capacity = count + 1 := ⟨capacity - 1, by omega⟩
  have wraps : (start + 1 + count) % (count + 1) = start % (count + 1) := by
    rw [Nat.add_assoc, Nat.add_comm 1 count, Nat.add_mod_right]
  rw [readout_succ, readout_cons slot, List.tail_cons, wraps, Function.update_self]
  congr 1
  refine readout_congr fun index below => Function.update_of_ne ?_ _ _
  intro same
  have shifted : (start + (1 + index)) % (count + 1) = (start + 0) % (count + 1) := by
    rw [← Nat.add_assoc]
    exact same
  have equal := offset_injective (by omega) (by omega) shifted
  omega

end Aesd.Cyclic
