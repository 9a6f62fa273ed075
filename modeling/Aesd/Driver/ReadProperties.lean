import Aesd.Driver.Representation

/-!
# What a read returns

On a device that represents a log, a read at a position returns what the
command holding that position still has from there on, cut to the count. It
needs that no live command is empty and that the live total fits an `int`.
-/

set_option autoImplicit false

namespace Aesd.Driver

open AesdCircularBuffer Concatenation MachineInt

/-- The log side of a read: no empty command is live, and positions fit an `int`. -/
structure Readable (log : RecordLog UInt8) : Prop where
  solid : ∀ command ∈ log.retained 10, command ≠ []
  fits : (log.retained 10).flatten.length < 2 ^ 31

def liveContents (log : RecordLog UInt8) : List UInt8 := (log.retained 10).flatten

def readAt (log : RecordLog UInt8) (position count : Nat) : List UInt8 :=
  (segmentAt (log.retained 10) position).take count

theorem readAt_eq_take_drop (log : RecordLog UInt8) (position count : Nat) :
    readAt log position count =
      ((liveContents log).drop position).take (readAt log position count).length :=
  take_segmentAt _ _ _

theorem readAt_eq_nil_iff (log : RecordLog UInt8) (position count : Nat) :
    readAt log position count = [] ↔ count = 0 ∨ (liveContents log).length ≤ position :=
  take_segmentAt_eq_nil_iff _ _ _

theorem readAt_length_le (log : RecordLog UInt8) (position count : Nat) :
    (readAt log position count).length ≤ count := by
  rw [readAt, List.length_take]
  exact Nat.min_le_left _ _

theorem readAt_end_le (log : RecordLog UInt8) (position count : Nat)
    (inside : position ≤ (liveContents log).length) :
    position + (readAt log position count).length ≤ (liveContents log).length := by
  have bounded := congrArg List.length (readAt_eq_take_drop log position count)
  rw [List.length_take, List.length_drop] at bounded
  omega

theorem Represents.flatten_ringBytes {kernel : Kernel} {log : RecordLog UInt8}
    (represents : Represents kernel log) : kernel.ringBytes.flatten = liveContents log :=
  congrArg List.flatten represents.ringBytes_eq

section Lookup

variable {buffer : AesdCircularBuffer} {pending : AesdBufferEntry} {memory : Memory UInt8}
  {log : RecordLog UInt8}

theorem Holds.liveSizes_sum (holds : Holds buffer pending memory log) :
    (buffer.liveEntries.map AesdBufferEntry.size).sum = (liveContents log).length := by
  rw [holds.ring_sizes, liveContents, List.length_flatten]

theorem Holds.solid (holds : Holds buffer pending memory log) (readable : Readable log)
    {entry : AesdBufferEntry} (live : entry ∈ buffer.liveEntries) : 0 < entry.size := by
  rw [← (holds.ringBacked entry live).entryBytes_length]
  apply List.length_pos_of_ne_nil
  apply readable.solid
  rw [← holds.ring]
  exact List.mem_map_of_mem live

/-- The lookup finds the live entry, counted from the oldest, and the offset. -/
theorem Holds.find_eq (holds : Holds buffer pending memory log) (readable : Readable log)
    (position : Nat) :
    aesdCircularBufferFindEntryOffsetForFpos buffer position =
      (locate ((log.retained 10).map List.length) position).map fun found =>
        ((buffer.outOffs + found.1) % 10, found.2) := by
  rw [← holds.ring_sizes]
  apply holds.valid.find_eq fun entry live => holds.solid readable live
  rw [holds.liveSizes_sum]
  exact readable.fits

end Lookup

section Read

variable {kernel : Kernel} {log : RecordLog UInt8}

private theorem aesdReadLocked_eq (kernel : Kernel) (represents : Represents kernel log)
    (readable : Readable log) {fPos : Int} (nonnegative : 0 ≤ fPos) (call : ReadCall) :
    aesdReadLocked fPos call kernel =
      if 0 < min call.notCopied (readAt log fPos.toNat call.count).length then
        .returned (-efault) fPos (mutexUnlock kernel) ((readAt log fPos.toNat call.count).take
          ((readAt log fPos.toNat call.count).length -
            min call.notCopied (readAt log fPos.toNat call.count).length))
      else .returned (readAt log fPos.toNat call.count).length
        (fPos + (readAt log fPos.toNat call.count).length) (mutexUnlock kernel)
        (readAt log fPos.toNat call.count) := by
  have position : sizeOfLoff fPos = fPos.toNat := if_neg (by omega)
  unfold aesdReadLocked
  rw [position, represents.find_eq readable]
  cases found : locate ((log.retained 10).map List.length) fPos.toNat with
  | none =>
      have past : (liveContents log).length ≤ fPos.toNat := by
        have total := (locate_eq_none_iff _ _).mp found
        rwa [liveContents, List.length_flatten]
      have nothing := (readAt_eq_nil_iff log fPos.toNat call.count).mpr (.inr past)
      simp [nothing]
  | some hit =>
      obtain ⟨index, offset⟩ := hit
      obtain ⟨command, live, below, segment⟩ := segmentAt_of_locate found
      rw [← represents.ring, List.getElem?_map] at live
      obtain ⟨entry, present, bytes⟩ := Option.map_eq_some_iff.mp live
      have member := List.mem_of_getElem? present
      have backed := represents.ringBacked entry member
      obtain ⟨address, _, pointer, _, _⟩ := represents.ringBacked entry member
      have stored := backed.stores pointer
      have size := backed.entryBytes_length
      rw [bytes] at stored size
      have small : command.length < 2 ^ 31 := by
        have inRing : command ∈ log.retained 10 := by
          rw [← represents.ring, ← bytes]
          exact List.mem_map_of_mem member
        exact Nat.lt_of_le_of_lt (List.sublist_flatten_of_mem inRing).length_le readable.fits
      have available : toSizeT ((command.length : Int) - offset) = command.length - offset := by
        have exactly := toSizeT_of_bounds ((command.length : Int) - offset) (by omega)
          (by omega)
        omega
      have length : (readAt log fPos.toNat call.count).length =
          min (command.length - offset) call.count := by
        rw [readAt, segment, List.length_take, List.length_drop, Nat.min_comm]
      have read : kernel.memory.readRange address offset (min (command.length - offset) call.count) =
          some (readAt log fPos.toNat call.count) := by
        rw [stored.readRange _ _ (by omega), readAt, segment, Option.some.injEq,
          List.take_eq_take_iff, List.length_drop]
        omega
      simp only [Option.map_some, slot_of_liveEntries present, pointer, Option.bind_some, ← size,
        available, read, length]

theorem aesdRead_eq (represents : Represents kernel log) (free : kernel.device.lock = false)
    (readable : Readable log) {fPos : Int} (nonnegative : 0 ≤ fPos) {call : ReadCall}
    (uninterrupted : call.interrupted = false) :
    let bytes := readAt log fPos.toNat call.count
    aesdRead kernel fPos call =
      if 0 < min call.notCopied bytes.length then
        .returned (-efault) fPos kernel (bytes.take (bytes.length - min call.notCopied bytes.length))
      else .returned bytes.length (fPos + bytes.length) kernel bytes := by
  have body := aesdReadLocked_eq { kernel with device := { kernel.device with lock := true } }
    represents readable nonnegative call
  simp only [aesdRead, uninterrupted, underLock_of_free free, body, mutexUnlock_of_free free]

/-- A read whose copy succeeds returns what is there and moves past it. -/
theorem aesdRead_whole (represents : Represents kernel log) (free : kernel.device.lock = false)
    (readable : Readable log) (position count : Nat) :
    aesdRead kernel position ⟨count, false, 0⟩ =
      .returned (readAt log position count).length
        ((position + (readAt log position count).length : Nat) : Int) kernel
        (readAt log position count) := by
  have uninterrupted : (⟨count, false, 0⟩ : ReadCall).interrupted = false := rfl
  have answer := aesdRead_eq represents free readable (Int.natCast_nonneg position) uninterrupted
  simpa only [Nat.zero_min, lt_self_iff_false, ↓reduceIte, Int.toNat_natCast, Int.natCast_add]
    using answer

end Read

end Aesd.Driver
