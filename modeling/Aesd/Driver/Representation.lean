import Aesd.Driver.CircularBufferProperties
import Aesd.Driver.Operations
import Aesd.Library.RecordLog

/-!
# The device as a log of commands

The live entries hold the ten newest commands, the pending entry holds the
bytes since the last of them, and the blocks behind all of these are pairwise
distinct. The relation ignores the lock, so every locked section can use it.
-/

set_option autoImplicit false

namespace Aesd.Driver

open AesdCircularBuffer

def entryBytes (memory : Memory UInt8) (entry : AesdBufferEntry) : List UInt8 :=
  ((entry.buffptr.bind memory.block).getD []).take entry.size

def Kernel.ringBytes (kernel : Kernel) : List (List UInt8) :=
  kernel.device.circularBuffer.liveEntries.map (entryBytes kernel.memory)

def Kernel.pendingBytes (kernel : Kernel) : List UInt8 :=
  entryBytes kernel.memory kernel.device.bufferEntry

def Backed (memory : Memory UInt8) (entry : AesdBufferEntry) : Prop :=
  ∃ address contents, entry.buffptr = some address ∧ memory.block address = some contents ∧
    entry.size ≤ contents.length

def ownedAddresses (buffer : AesdCircularBuffer) (pending : AesdBufferEntry) : List Address :=
  buffer.liveEntries.filterMap AesdBufferEntry.buffptr ++ pending.buffptr.toList

structure Holds (buffer : AesdCircularBuffer) (pending : AesdBufferEntry) (memory : Memory UInt8)
    (log : RecordLog UInt8) : Prop where
  valid : buffer.Valid
  ring : buffer.liveEntries.map (entryBytes memory) = log.retained 10
  ringBacked : ∀ entry ∈ buffer.liveEntries, Backed memory entry
  current : entryBytes memory pending = log.pending
  currentBacked : pending = ⟨none, 0⟩ ∨ Backed memory pending
  distinct : (ownedAddresses buffer pending).Nodup

def Represents (kernel : Kernel) (log : RecordLog UInt8) : Prop :=
  Holds kernel.device.circularBuffer kernel.device.bufferEntry kernel.memory log

theorem Represents.ringBytes_eq {kernel : Kernel} {log : RecordLog UInt8}
    (represents : Represents kernel log) : kernel.ringBytes = log.retained 10 :=
  represents.ring

theorem Represents.pendingBytes_eq {kernel : Kernel} {log : RecordLog UInt8}
    (represents : Represents kernel log) : kernel.pendingBytes = log.pending :=
  represents.current

theorem mutexUnlock_of_free {kernel : Kernel} (free : kernel.device.lock = false) :
    mutexUnlock { kernel with device := { kernel.device with lock := true } } = kernel := by
  rcases kernel with ⟨⟨_, _, _⟩, _⟩
  cases free
  rfl

@[simp] theorem underLock_interrupted (kernel : Kernel) (fPos errno : Int)
    (body : Kernel → Outcome) :
    underLock kernel fPos true errno body = .returned (-errno) fPos kernel [] := rfl

theorem underLock_of_free {kernel : Kernel} (free : kernel.device.lock = false)
    (fPos errno : Int) (body : Kernel → Outcome) :
    underLock kernel fPos false errno body =
      body { kernel with device := { kernel.device with lock := true } } := by
  simp [underLock, mutexLockInterruptible, free]

theorem entryBytes_congr {before after : Memory UInt8} {entry : AesdBufferEntry}
    (same : ∀ address, entry.buffptr = some address → after.block address = before.block address) :
    entryBytes after entry = entryBytes before entry := by
  cases pointer : entry.buffptr with
  | none => simp [entryBytes, pointer]
  | some address => simp [entryBytes, pointer, same address pointer]

theorem Backed.congr {before after : Memory UInt8} {entry : AesdBufferEntry}
    (backed : Backed before entry)
    (same : ∀ address, entry.buffptr = some address → after.block address = before.block address) :
    Backed after entry := by
  obtain ⟨address, contents, pointer, present, fits⟩ := backed
  exact ⟨address, contents, pointer, (same address pointer).trans present, fits⟩

theorem Backed.entryBytes_length {memory : Memory UInt8} {entry : AesdBufferEntry}
    (backed : Backed memory entry) : (entryBytes memory entry).length = entry.size := by
  obtain ⟨address, contents, pointer, present, fits⟩ := backed
  simp [entryBytes, pointer, present, fits]

theorem Backed.stores {memory : Memory UInt8} {entry : AesdBufferEntry}
    (backed : Backed memory entry) {address : Address} (pointer : entry.buffptr = some address) :
    memory.Stores address (entryBytes memory entry) := by
  obtain ⟨_, contents, own, present, _⟩ := backed
  cases own.symm.trans pointer
  refine ⟨contents, present, ?_⟩
  simpa [entryBytes, pointer, present] using List.take_prefix entry.size contents

theorem backed_of_stores {memory : Memory UInt8} {address : Address} {bytes : List UInt8}
    (stored : memory.Stores address bytes) :
    Backed memory ⟨some address, bytes.length⟩ ∧
      entryBytes memory ⟨some address, bytes.length⟩ = bytes := by
  obtain ⟨contents, present, leading⟩ := stored
  refine ⟨⟨address, contents, rfl, present, leading.length_le⟩, ?_⟩
  simpa [entryBytes, present] using (List.prefix_iff_eq_take.mp leading).symm

namespace Holds

variable {buffer : AesdCircularBuffer} {pending : AesdBufferEntry} {memory after : Memory UInt8}
  {log : RecordLog UInt8}

theorem pending_size (holds : Holds buffer pending memory log) :
    pending.size = log.pending.length := by
  rw [← holds.current]
  rcases holds.currentBacked with rfl | backed
  · rfl
  · exact backed.entryBytes_length.symm

theorem pending_backed (holds : Holds buffer pending memory log) (some_ : pending.size ≠ 0) :
    Backed memory pending := by
  rcases holds.currentBacked with rfl | backed
  · exact absurd rfl some_
  · exact backed

theorem ring_sizes (holds : Holds buffer pending memory log) :
    buffer.liveEntries.map AesdBufferEntry.size = (log.retained 10).map List.length := by
  rw [← holds.ring, List.map_map]
  exact List.map_congr_left fun entry member =>
    (holds.ringBacked entry member).entryBytes_length.symm

theorem full_iff (holds : Holds buffer pending memory log) :
    buffer.full = true ↔ 10 ≤ log.completed.length := by
  have count := congrArg List.length holds.ring
  rw [List.length_map, liveEntries_length, RecordLog.retained_length] at count
  rw [full_iff_liveCount, count]
  omega

theorem allocated (holds : Holds buffer pending memory log) {address : Address}
    (owned : address ∈ ownedAddresses buffer pending) : memory.block address ≠ none := by
  have ofBacked : ∀ entry : AesdBufferEntry, entry.buffptr = some address → Backed memory entry →
      memory.block address ≠ none := by
    intro entry pointer backed
    exact (backed.stores pointer).allocated
  rcases List.mem_append.mp owned with inRing | inPending
  · obtain ⟨entry, member, pointer⟩ := List.mem_filterMap.mp inRing
    exact ofBacked entry pointer (holds.ringBacked entry member)
  · have pointer : pending.buffptr = some address := by simpa using inPending
    rcases holds.currentBacked with rfl | backed
    · cases pointer
    · exact ofBacked pending pointer backed

theorem frame (holds : Holds buffer pending memory log)
    (same : ∀ address ∈ ownedAddresses buffer pending, after.block address = memory.block address) :
    Holds buffer pending after log := by
  have ringSame : ∀ entry ∈ buffer.liveEntries, ∀ address, entry.buffptr = some address →
      after.block address = memory.block address := fun entry member address pointer =>
    same address (List.mem_append_left _ (List.mem_filterMap.mpr ⟨entry, member, pointer⟩))
  have pendingSame : ∀ address, pending.buffptr = some address →
      after.block address = memory.block address := fun address pointer =>
    same address (List.mem_append_right _ (by simp [pointer]))
  refine ⟨holds.valid, ?_, ?_, ?_, ?_, holds.distinct⟩
  · rw [← holds.ring]
    exact List.map_congr_left fun entry member => entryBytes_congr (ringSame entry member)
  · exact fun entry member => (holds.ringBacked entry member).congr (ringSame entry member)
  · rw [← holds.current]
    exact entryBytes_congr pendingSame
  · exact holds.currentBacked.imp_right fun backed => backed.congr pendingSame

/-- A new pending block that begins with the old bytes and the piece. The old
pending block may be gone; the live blocks are untouched. -/
theorem fill (holds : Holds buffer pending memory log) {address : Address} (piece : List UInt8)
    (stored : after.Stores address (log.pending ++ piece))
    (unshared : address ∉ buffer.liveEntries.filterMap AesdBufferEntry.buffptr)
    (same : ∀ other ∈ buffer.liveEntries.filterMap AesdBufferEntry.buffptr,
      after.block other = memory.block other) :
    Holds buffer ⟨some address, (log.pending ++ piece).length⟩ after (log.append piece false) := by
  obtain ⟨backed, bytes⟩ := backed_of_stores stored
  have ringSame : ∀ entry ∈ buffer.liveEntries, ∀ other, entry.buffptr = some other →
      after.block other = memory.block other := fun entry member other pointer =>
    same other (List.mem_filterMap.mpr ⟨entry, member, pointer⟩)
  refine ⟨holds.valid, ?_, ?_, bytes, .inr backed, ?_⟩
  · refine Eq.trans ?_ holds.ring
    exact List.map_congr_left fun entry member => entryBytes_congr (ringSame entry member)
  · exact fun entry member => (holds.ringBacked entry member).congr (ringSame entry member)
  · have ringDistinct := (List.nodup_append.mp holds.distinct).1
    refine List.nodup_append.mpr ⟨ringDistinct, by simp, ?_⟩
    rintro other member _ single rfl
    have equal : other = address := by simpa using single
    exact unshared (equal ▸ member)

/-- The pointer that an addition hands back and those still held are the former ones. -/
theorem ownedAddresses_addEntry (holds : Holds buffer pending memory log) :
    (aesdCircularBufferAddEntry buffer pending).1.toList ++
        ownedAddresses (aesdCircularBufferAddEntry buffer pending).2 ⟨none, 0⟩ =
      ownedAddresses buffer pending := by
  have pointers := addEntry_pointers holds.valid pending
  simpa [ownedAddresses] using pointers

theorem evicted_unshared (holds : Holds buffer pending memory log) {address : Address}
    (kept : address ∈ ownedAddresses (aesdCircularBufferAddEntry buffer pending).2 ⟨none, 0⟩) :
    (aesdCircularBufferAddEntry buffer pending).1 ≠ some address := by
  intro evicted
  have distinct := holds.distinct
  rw [← holds.ownedAddresses_addEntry, evicted] at distinct
  exact (List.nodup_cons.mp distinct).1 kept

theorem commit (holds : Holds buffer pending memory log) (backed : Backed memory pending) :
    Holds (aesdCircularBufferAddEntry buffer pending).2 ⟨none, 0⟩
      (kfreeIfSet memory (aesdCircularBufferAddEntry buffer pending).1) (log.append [] true) := by
  have live := addEntry_liveEntries holds.valid pending
  have keptBacked : ∀ entry ∈ (aesdCircularBufferAddEntry buffer pending).2.liveEntries,
      Backed memory entry := by
    intro entry member
    rw [live] at member
    rcases List.mem_append.mp member with old | new
    · apply holds.ringBacked entry
      split at old
      · exact List.mem_of_mem_tail old
      · exact old
    · have same : entry = pending := by simpa using new
      exact same ▸ backed
  have same : ∀ entry ∈ (aesdCircularBufferAddEntry buffer pending).2.liveEntries,
      ∀ address, entry.buffptr = some address →
        (kfreeIfSet memory (aesdCircularBufferAddEntry buffer pending).1).block address =
          memory.block address := by
    intro entry member address pointer
    have unshared := holds.evicted_unshared (List.mem_append_left _
      (List.mem_filterMap.mpr ⟨entry, member, pointer⟩))
    unfold kfreeIfSet
    split
    · exact memory.release_block_of_ne unshared
    · rfl
  refine ⟨addEntry_valid holds.valid pending, ?_, ?_, rfl, .inl rfl, ?_⟩
  · have kept : (aesdCircularBufferAddEntry buffer pending).2.liveEntries.map (entryBytes memory) =
        (log.append [] true).retained 10 := by
      rw [live, RecordLog.retained_append_closing (by decide), List.map_append, List.map_singleton,
        holds.current, List.append_nil, ← holds.ring]
      by_cases full : buffer.full = true
      · have many := holds.full_iff.mp full
        rw [if_pos full, if_neg (by omega), List.map_tail]
      · have few : ¬10 ≤ log.completed.length := fun many => full (holds.full_iff.mpr many)
        rw [if_neg full, if_pos (by omega)]
    rw [← kept]
    exact List.map_congr_left fun entry member => entryBytes_congr (same entry member)
  · exact fun entry member => (keptBacked entry member).congr (same entry member)
  · have distinct := holds.distinct
    rw [← holds.ownedAddresses_addEntry] at distinct
    exact (List.nodup_append.mp distinct).2.1

end Holds

theorem represents_init {kernel fresh : Kernel} {allocChrdevRegion cdevAdd result : Int}
    (loaded : aesdInitModule kernel allocChrdevRegion cdevAdd = (result, fresh))
    (registered : 0 ≤ allocChrdevRegion) :
    Represents fresh .empty ∧ fresh.device.lock = false := by
  rw [aesdInitModule, if_neg (by omega)] at loaded
  cases loaded
  refine ⟨⟨init_valid, ?_, ?_, rfl, .inl rfl, ?_⟩, rfl⟩
  · simp [RecordLog.retained, RecordLog.empty]
  · intro entry member
    rw [init_liveEntries] at member
    cases member
  · simp [ownedAddresses]

end Aesd.Driver
