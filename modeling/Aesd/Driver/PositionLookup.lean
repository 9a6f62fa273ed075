import Aesd.Driver.CircularBufferRuns

/-!
# The two position functions

In a buffer that only ever took in non-empty entries, the lookup is indexing
into the concatenation of the live entries, and the file position of an entry
and offset is its inverse. The live total must fit an `int`.
-/

set_option autoImplicit false

namespace Aesd.Driver

open AesdCircularBuffer Concatenation MachineInt

/-- A position of the concatenation is one byte of the `index`-th oldest live entry. -/
structure AesdCircularBuffer.ByteAt (buffer : AesdCircularBuffer) (position index offset : Nat)
    (entry : AesdBufferEntry) : Prop where
  live : buffer.liveEntries[index]? = some entry
  inside : offset < entry.size
  counted : position = ((buffer.liveEntries.take index).map AesdBufferEntry.size).sum + offset

section Lookup

variable {buffer : AesdCircularBuffer}

theorem AesdCircularBuffer.ByteAt.located {position index offset : Nat} {entry : AesdBufferEntry}
    (byte : buffer.ByteAt position index offset entry) :
    locate (buffer.liveEntries.map AesdBufferEntry.size) position = some (index, offset) := by
  apply (locate_eq_some_iff _ _ _ _).mpr
  refine ⟨entry.size, by simp [byte.live], byte.inside, ?_⟩
  rw [← List.map_take]
  exact byte.counted

theorem AesdCircularBuffer.byteAt_of_located {position index offset : Nat}
    (located : locate (buffer.liveEntries.map AesdBufferEntry.size) position =
      some (index, offset)) : ∃ entry, buffer.ByteAt position index offset entry := by
  obtain ⟨size, present, inside, counted⟩ := (locate_eq_some_iff _ _ _ _).mp located
  rw [List.getElem?_map] at present
  obtain ⟨entry, live, rfl⟩ := Option.map_eq_some_iff.mp present
  rw [← List.map_take] at counted
  exact ⟨entry, live, inside, counted⟩

theorem AesdCircularBuffer.ByteAt.unique {position index offset : Nat} {entry : AesdBufferEntry}
    (byte : buffer.ByteAt position index offset entry) {otherIndex otherOffset : Nat}
    {other : AesdBufferEntry} (byteOther : buffer.ByteAt position otherIndex otherOffset other) :
    otherIndex = index ∧ otherOffset = offset ∧ other = entry := by
  cases byteOther.located.symm.trans byte.located
  have same := byteOther.live.symm.trans byte.live
  cases same
  exact ⟨rfl, rfl, rfl⟩

theorem AesdCircularBuffer.ByteAt.below {position index offset : Nat} {entry : AesdBufferEntry}
    (byte : buffer.ByteAt position index offset entry) :
    position < (buffer.liveEntries.map AesdBufferEntry.size).sum := by
  by_contra past
  have nothing := (locate_eq_none_iff _ _).mpr (Nat.le_of_not_lt past)
  cases byte.located.symm.trans nothing

theorem AesdCircularBuffer.live_of_liveEntries {index : Nat} {entry : AesdBufferEntry}
    (present : buffer.liveEntries[index]? = some entry) :
    index < buffer.liveCount ∧ buffer.Live ((buffer.outOffs + index) % 10) := by
  have inside := (List.getElem?_eq_some_iff.mp present).1
  rw [liveEntries_length] at inside
  exact ⟨inside, index, inside, rfl⟩

/-- The file position of a byte is its position in the concatenation. -/
theorem AesdCircularBuffer.ByteAt.getFpos_eq (valid : buffer.Valid)
    (fits : (buffer.liveEntries.map AesdBufferEntry.size).sum < 2 ^ 31)
    {position index offset : Nat} {entry : AesdBufferEntry}
    (byte : buffer.ByteAt position index offset entry) :
    aesdCircularBufferGetFpos buffer index offset = position := by
  have below := byte.below
  have live := (live_of_liveEntries byte.live).1
  rw [valid.getFpos_eq (Nat.le_of_lt live), ← List.map_take, ← byte.counted,
    Nat.mod_eq_of_lt (by omega)]

end Lookup

theorem addEntries_solid {entries : List AesdBufferEntry}
    (nonempty : ∀ entry ∈ entries, 0 < entry.size) :
    ∀ entry ∈ (addEntries aesdCircularBufferInit entries).2.liveEntries, 0 < entry.size := by
  have retains := init_retains.addEntries entries
  rw [List.nil_append] at retains
  intro entry live
  rw [retains.live] at live
  exact nonempty entry (List.mem_of_mem_drop live)

/-- The lookup is indexing into the concatenation of the live entries: below the
live total it finds the only live entry and offset that make up the position,
from there on it finds nothing and writes no offset. -/
theorem find_entry_indexes_concatenation (entries : List AesdBufferEntry)
    (nonempty : ∀ entry ∈ entries, 0 < entry.size)
    (fits : ((addEntries aesdCircularBufferInit entries).2.liveEntries.map
      AesdBufferEntry.size).sum < 2 ^ 31) (charOffset : Nat) :
    let buffer := (addEntries aesdCircularBufferInit entries).2
    let total := (buffer.liveEntries.map AesdBufferEntry.size).sum
    (charOffset < total → ∃ index offset entry,
      buffer.ByteAt charOffset index offset entry ∧
      (∀ otherIndex otherOffset other,
        buffer.ByteAt charOffset otherIndex otherOffset other →
          otherIndex = index ∧ otherOffset = offset ∧ other = entry) ∧
      aesdCircularBufferFindEntryOffsetForFpos buffer charOffset =
        some ((buffer.outOffs + index) % 10, offset) ∧
      buffer.slot ((buffer.outOffs + index) % 10) = entry) ∧
    (total ≤ charOffset → aesdCircularBufferFindEntryOffsetForFpos buffer charOffset = none) ∧
    ∀ slot offset, aesdCircularBufferFindEntryOffsetForFpos buffer charOffset =
      some (slot, offset) → buffer.Live slot := by
  intro buffer total
  have valid : buffer.Valid := (init_retains.addEntries entries).valid
  have found := valid.find_eq (addEntries_solid nonempty) fits charOffset
  cases located : locate (buffer.liveEntries.map AesdBufferEntry.size) charOffset with
  | none =>
      rw [located, Option.map_none] at found
      have past := (locate_eq_none_iff _ _).mp located
      refine ⟨fun inside => absurd inside (Nat.not_lt_of_le past), fun _ => found, ?_⟩
      intro slot offset returned
      cases found.symm.trans returned
  | some hit =>
      obtain ⟨index, offset⟩ := hit
      rw [located, Option.map_some] at found
      obtain ⟨entry, byte⟩ := byteAt_of_located located
      have live := (live_of_liveEntries byte.live).2
      refine ⟨fun _ => ⟨index, offset, entry, byte, fun _ _ _ => byte.unique, found,
        slot_of_liveEntries byte.live⟩, ?_, ?_⟩
      · intro past
        have nothing := (locate_eq_none_iff _ _).mpr past
        cases located.symm.trans nothing
      · intro slot offset returned
        cases found.symm.trans returned
        exact live

theorem find_entry_indexes_concatenation_wrapped :
    let entries := (List.range 12).map fun index => (⟨some index, index + 1⟩ : AesdBufferEntry)
    let buffer := (addEntries aesdCircularBufferInit entries).2
    let total := (buffer.liveEntries.map AesdBufferEntry.size).sum
    (70 < total → ∃ index offset entry,
      buffer.ByteAt 70 index offset entry ∧
      (∀ otherIndex otherOffset other, buffer.ByteAt 70 otherIndex otherOffset other →
        otherIndex = index ∧ otherOffset = offset ∧ other = entry) ∧
      aesdCircularBufferFindEntryOffsetForFpos buffer 70 =
        some ((buffer.outOffs + index) % 10, offset) ∧
      buffer.slot ((buffer.outOffs + index) % 10) = entry) ∧
    (total ≤ 70 → aesdCircularBufferFindEntryOffsetForFpos buffer 70 = none) ∧
    ∀ slot offset, aesdCircularBufferFindEntryOffsetForFpos buffer 70 = some (slot, offset) →
      buffer.Live slot :=
  find_entry_indexes_concatenation _ (by decide) (by decide) 70

/-- The file position of an entry and offset is looked up as that entry and
offset, and the position that was looked up is the file position of the result. -/
theorem position_functions_inverse (entries : List AesdBufferEntry)
    (nonempty : ∀ entry ∈ entries, 0 < entry.size)
    (fits : ((addEntries aesdCircularBufferInit entries).2.liveEntries.map
      AesdBufferEntry.size).sum < 2 ^ 31) :
    let buffer := (addEntries aesdCircularBufferInit entries).2
    (∀ index entry offset, buffer.liveEntries[index]? = some entry → offset < entry.size →
      aesdCircularBufferFindEntryOffsetForFpos buffer
          (toSizeT (aesdCircularBufferGetFpos buffer index offset)) =
        some ((buffer.outOffs + index) % 10, offset)) ∧
    ∀ position < (buffer.liveEntries.map AesdBufferEntry.size).sum, ∀ index < buffer.liveCount,
      ∀ offset, aesdCircularBufferFindEntryOffsetForFpos buffer position =
          some ((buffer.outOffs + index) % 10, offset) →
        aesdCircularBufferGetFpos buffer index offset = position := by
  intro buffer
  have valid : buffer.Valid := (init_retains.addEntries entries).valid
  have found := valid.find_eq (addEntries_solid nonempty) fits
  constructor
  · intro index entry offset live inside
    have byte : buffer.ByteAt _ index offset entry := ⟨live, inside, rfl⟩
    have small := Nat.lt_trans byte.below fits
    rw [byte.getFpos_eq valid fits, toSizeT_natCast (by omega), found, byte.located,
      Option.map_some]
  · intro position below index live offset returned
    obtain ⟨⟨slot, _⟩, located, same⟩ :=
      Option.map_eq_some_iff.mp ((found position).symm.trans returned)
    obtain ⟨entry, byte⟩ := byteAt_of_located located
    have inside := (live_of_liveEntries byte.live).1
    have few := buffer.liveCount_le
    simp only [Prod.mk.injEq] at same
    obtain ⟨sameSlot, rfl⟩ := same
    have equal := Cyclic.offset_injective (by omega) (by omega) sameSlot
    subst equal
    exact byte.getFpos_eq valid fits

theorem position_functions_inverse_wrapped :
    let entries := (List.range 12).map fun index => (⟨some index, index + 1⟩ : AesdBufferEntry)
    let buffer := (addEntries aesdCircularBufferInit entries).2
    (∀ index entry offset, buffer.liveEntries[index]? = some entry → offset < entry.size →
      aesdCircularBufferFindEntryOffsetForFpos buffer
          (toSizeT (aesdCircularBufferGetFpos buffer index offset)) =
        some ((buffer.outOffs + index) % 10, offset)) ∧
    ∀ position < (buffer.liveEntries.map AesdBufferEntry.size).sum, ∀ index < buffer.liveCount,
      ∀ offset, aesdCircularBufferFindEntryOffsetForFpos buffer position =
          some ((buffer.outOffs + index) % 10, offset) →
        aesdCircularBufferGetFpos buffer index offset = position :=
  position_functions_inverse _ (by decide) (by decide)

end Aesd.Driver
