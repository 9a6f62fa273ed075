import Aesd.Driver.WriteRuns

/-!
# Which blocks the device holds

The pointers of the live entries and of the pending entry denote distinct
allocated blocks. A write frees allocated blocks only, and none that the device
still holds when the write returns.
-/

set_option autoImplicit false

namespace Aesd.Driver

open AesdCircularBuffer Transition

def Kernel.owned (kernel : Kernel) : List Address :=
  ownedAddresses kernel.device.circularBuffer kernel.device.bufferEntry

theorem owned_allocated {kernel : Kernel} {log : RecordLog UInt8}
    (represents : Represents kernel log) {address : Address} (owned : address ∈ kernel.owned) :
    address ∈ kernel.memory.allocated := Holds.allocated represents owned

theorem owned_of_slot {kernel : Kernel} (valid : kernel.device.circularBuffer.Valid)
    {index : Nat} (bound : index < 10) {address : Address}
    (pointer : (kernel.device.circularBuffer.slot index).buffptr = some address) :
    address ∈ kernel.owned := by
  apply List.mem_append_left
  by_cases live : kernel.device.circularBuffer.Live index
  · exact List.mem_filterMap.mpr ⟨_, live.mem_liveEntries, pointer⟩
  · rw [valid.slot_of_not_live bound live] at pointer
    cases pointer

theorem owned_of_pending {kernel : Kernel} {address : Address}
    (pointer : kernel.device.bufferEntry.buffptr = some address) : address ∈ kernel.owned :=
  List.mem_append_right _ (by simp [pointer])

section Commit

variable {kernel : Kernel} {log : RecordLog UInt8}

/-- A commit keeps all blocks, or frees the one that is no longer held. -/
theorem commitBufferEntry_blocks (represents : Represents kernel log) :
    ((commitBufferEntry kernel).memory = kernel.memory ∧
      (commitBufferEntry kernel).owned = kernel.owned) ∨
    ∃ evicted, (commitBufferEntry kernel).memory = kernel.memory.release (some evicted) ∧
      kernel.owned = evicted :: (commitBufferEntry kernel).owned := by
  have owned : (aesdCircularBufferAddEntry kernel.device.circularBuffer
      kernel.device.bufferEntry).1.toList ++ (commitBufferEntry kernel).owned = kernel.owned :=
    Holds.ownedAddresses_addEntry represents
  have memory : (commitBufferEntry kernel).memory = kfreeIfSet kernel.memory
      (aesdCircularBufferAddEntry kernel.device.circularBuffer kernel.device.bufferEntry).1 := rfl
  cases evicted : (aesdCircularBufferAddEntry kernel.device.circularBuffer
      kernel.device.bufferEntry).1 with
  | none =>
      rw [evicted] at owned memory
      exact .inl ⟨memory, owned⟩
  | some oldest =>
      rw [evicted] at owned memory
      exact .inr ⟨oldest, memory, owned.symm⟩

theorem commitBufferEntry_frees (represents : Represents kernel log) {before : Memory UInt8}
    {freed : List Address} (frees : before.Frees kernel.memory freed)
    (apart : ∀ address ∈ freed, address ∉ kernel.owned) :
    ∃ all, before.Frees (commitBufferEntry kernel).memory all ∧
      ∀ address ∈ all, address ∉ (commitBufferEntry kernel).owned := by
  rcases commitBufferEntry_blocks represents with ⟨memory, owned⟩ | ⟨evicted, memory, owned⟩
  · rw [memory, owned]
    exact ⟨freed, frees, apart⟩
  · have distinct : kernel.owned.Nodup := represents.distinct
    have held : evicted ∈ kernel.owned := by
      rw [owned]
      exact List.mem_cons_self
    have present := owned_allocated represents held
    rw [owned] at distinct apart
    rw [memory]
    refine ⟨freed ++ [evicted], frees.release present, ?_⟩
    intro address member still
    rcases List.mem_append.mp member with earlier | last
    · exact apart address earlier (List.mem_cons_of_mem _ still)
    · cases List.mem_singleton.mp last
      exact (List.nodup_cons.mp distinct).1 still

end Commit

section Frees

variable {kernel : Kernel} {log : RecordLog UInt8}

theorem Filled.frees {filled : Kernel} {kBuf : Address} {piece : List UInt8} {call : Kmalloc}
    (represents : Represents kernel log) (present : kBuf ∈ kernel.memory.allocated)
    (unowned : kBuf ∉ kernel.owned) (fills : Filled kernel kBuf piece call filled) :
    ∃ freed, kernel.memory.Frees filled.memory freed ∧
      ∀ address ∈ freed, address ∉ filled.owned := by
  cases fills with
  | taken nothing =>
      exact ⟨[], .refl _, fun address member => absurd member List.not_mem_nil⟩
  | @merged previous tempBuf waiting pointer answered fresh =>
      have held : previous ∈ kernel.owned := owned_of_pending pointer
      have previousPresent := owned_allocated represents held
      have notFresh : ∀ {address}, address ∈ kernel.memory.allocated → address ≠ tempBuf := by
        intro address allocated same
        subst same
        exact allocated fresh
      have distinct := represents.distinct
      rw [ownedAddresses, pointer] at distinct
      have unshared := (List.nodup_append.mp distinct).2.2
      refine ⟨[] ++ [previous] ++ [kBuf], ((Memory.Frees.refl _).assign _ _ |>.release ?_).release ?_, ?_⟩
      · rw [Memory.allocated_assign]
        exact Set.mem_insert_of_mem _ previousPresent
      · rw [Memory.allocated_release, Memory.allocated_assign]
        refine ⟨Set.mem_insert_of_mem _ present, ?_⟩
        intro same
        exact unowned (Set.mem_singleton_iff.mp same ▸ held)
      · intro address member owned
        simp only [List.nil_append, List.cons_append, List.mem_cons, List.not_mem_nil,
          or_false] at member
        rcases List.mem_append.mp owned with live | pending
        · rcases member with rfl | rfl
          · exact unshared address live address (by simp) rfl
          · exact unowned (List.mem_append_left _ live)
        · have single : address = tempBuf := by simpa using pending
          rcases member with rfl | rfl
          · exact notFresh previousPresent single
          · exact notFresh present single

/-- What a granted `k_buf` and a filled entry amount to on a device that
represents a log. -/
theorem Filled.of_withKBuf {filled : Kernel} {kBuf : Address} {call : WriteCall}
    (represents : Represents kernel log) (fresh : kernel.memory.block kBuf = none)
    (fills : Filled (kernel.withKBuf kBuf call) kBuf call.accepted call.tempBuf filled) :
    kBuf ∉ kernel.owned ∧ kBuf ∈ (kernel.withKBuf kBuf call).memory.allocated ∧
      Represents filled (log.append call.accepted false) := by
  have unowned : kBuf ∉ kernel.owned := fun owned => owned_allocated represents owned fresh
  refine ⟨unowned, ?_, ?_⟩
  · rw [Kernel.withKBuf, Memory.allocated_assign]
    exact Set.mem_insert _ _
  · exact (fills.represents (represents.withKBuf fresh call)
      (kernel.withKBuf_stores kBuf call) unowned).1

theorem Wrote.frees {after : Kernel} {fPos retval position : Int} {call : WriteCall}
    {delivered : List UInt8} (represents : Represents kernel log)
    (wrote : Wrote kernel fPos call (.returned retval position after delivered)) :
    ∃ freed, kernel.memory.Frees after.memory freed ∧
      ∀ address ∈ freed, address ∉ after.owned := by
  have none_ : ∀ owned : List Address, ∀ address ∈ ([] : List Address), address ∉ owned :=
    fun _ _ member => absurd member List.not_mem_nil
  cases wrote with
  | interrupted _ => exact ⟨[], .refl _, none_ _⟩
  | noKBuf _ _ => exact ⟨[], .refl _, none_ _⟩
  | noTempBuf _ _ _ _ _ => exact ⟨[], (Memory.Frees.refl _).assign _ _, none_ _⟩
  | @stored kBuf filled _ _ fresh fills =>
      obtain ⟨unowned, present, grown⟩ := fills.of_withKBuf represents fresh
      obtain ⟨freed, frees, apart⟩ :=
        fills.frees (represents.withKBuf fresh call) present unowned
      cases call.closes with
      | false => exact ⟨freed, frees, apart⟩
      | true => exact commitBufferEntry_frees grown frees apart

end Frees

/-- Whenever a write returns, the pointers that the live entries and the pending
entry hold are distinct allocated blocks, none shorter than the size recorded
for it. What the write freed was allocated when it was freed, and no slot and no
pending entry holds it any more. -/
theorem no_stored_command_freed {fixedSizeLlseek : FixedSizeLlseek} {first system next : System}
    {events : List Event} {event : Event} (loaded : Loaded first)
    (run : Run (Step fixedSizeLlseek) first events system)
    (writes : ∀ earlier ∈ events, earlier.operation.WritesSome)
    (moved : Step fixedSizeLlseek system event next) (writing : event.operation.WritesSome) :
    (∀ entry ∈ next.kernel.device.circularBuffer.liveEntries, Backed next.kernel.memory entry) ∧
    (next.kernel.device.bufferEntry = ⟨none, 0⟩ ∨
      Backed next.kernel.memory next.kernel.device.bufferEntry) ∧
    (next.kernel.device.circularBuffer.liveEntries.filterMap AesdBufferEntry.buffptr ++
      next.kernel.device.bufferEntry.buffptr.toList).Nodup ∧
    ∃ freed, next.kernel.memory.releases = system.kernel.memory.releases ++ freed ∧
      ∀ release ∈ freed, release.2 = true ∧ ∃ address, release.1 = some address ∧
        (∀ index < 10,
          (next.kernel.device.circularBuffer.slot index).buffptr ≠ some address) ∧
        next.kernel.device.bufferEntry.buffptr ≠ some address := by
  obtain ⟨log, before⟩ := run_represents run ⟨_, loaded.represents.1⟩
  obtain ⟨_, represents⟩ := run_represents (.single moved) ⟨log, before⟩
  obtain ⟨file, call, position, _, wrote⟩ :=
    moved.wrote writing before (run_of_writes_free run loaded writes)
  obtain ⟨freed, frees, apart⟩ := wrote.frees before
  refine ⟨represents.ringBacked, represents.currentBacked, represents.distinct, _, frees, ?_⟩
  intro release member
  obtain ⟨address, isFreed, rfl⟩ := List.mem_map.mp member
  refine ⟨rfl, address, rfl, ?_, ?_⟩
  · exact fun index bound pointer =>
      apart address isFreed (owned_of_slot represents.valid bound pointer)
  · exact fun pointer => apart address isFreed (owned_of_pending pointer)

/-- The write that merges two pending bytes frees the blocks of both. -/
theorem no_stored_command_freed_merge :
    let next := pendingByte.after vfsFixedSizeLlseek (.write 0 (.whole [99] (some 3) (some 4)))
    (∀ entry ∈ next.kernel.device.circularBuffer.liveEntries, Backed next.kernel.memory entry) ∧
    (next.kernel.device.bufferEntry = ⟨none, 0⟩ ∨
      Backed next.kernel.memory next.kernel.device.bufferEntry) ∧
    (next.kernel.device.circularBuffer.liveEntries.filterMap AesdBufferEntry.buffptr ++
      next.kernel.device.bufferEntry.buffptr.toList).Nodup ∧
    ∃ freed, next.kernel.memory.releases = pendingByte.kernel.memory.releases ++ freed ∧
      ∀ release ∈ freed, release.2 = true ∧ ∃ address, release.1 = some address ∧
        (∀ index < 10,
          (next.kernel.device.circularBuffer.slot index).buffptr ≠ some address) ∧
        next.kernel.device.bufferEntry.buffptr ≠ some address := by
  intro next
  have moved : Step vfsFixedSizeLlseek pendingByte
    ⟨.write 0 (.whole [99] (some 3) (some 4)), 1, []⟩ next := System.after_step rfl
  exact no_stored_command_freed loadedSystem_loaded pendingByte_reached
    (by simp [Operation.WritesSome, WriteCall.whole]) moved (List.cons_ne_nil _ _)

end Aesd.Driver
