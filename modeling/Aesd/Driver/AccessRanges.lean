import Aesd.Driver.LimitedSizes

/-!
# Accesses of reads and writes

A write leaves its blocks only in the newline test of an empty buffer, which
reads before `k_buf`. A read copies a range of the entry that it looked up.
-/

set_option autoImplicit false

namespace Aesd.Driver

open AesdCircularBuffer Concatenation Cyclic MachineInt Transition

section Lookup

variable {buffer : AesdCircularBuffer} {position index offset : Nat}

/-- Whatever the sizes, an offset that the lookup returns is one into its entry. -/
theorem findEntry_inside (fits : buffer.rotationSizes.sum < 2 ^ 31)
    (found : aesdCircularBufferFindEntryOffsetForFpos buffer position = some (index, offset)) :
    offset < (buffer.slot index).size := by
  by_cases empty : (buffer.slot (buffer.outOffs % 10)).size = 0
  · -- The sum over an empty first slot is 0, which ends the loop.
    have zero : toInt32 ((0 : Int) + ((buffer.slot (buffer.outOffs % 10)).size : Int)) = 0 := by
      rw [empty]
      rfl
    rw [aesdCircularBufferFindEntryOffsetForFpos, aesdcharMaxWriteOperationsSupported,
      findEntryLoop, zero, if_pos rfl] at found
    cases found
  · rw [findEntry_eq_locate buffer position fits fun zero => absurd zero empty] at found
    obtain ⟨⟨turn, within⟩, located, same⟩ := Option.map_eq_some_iff.mp found
    obtain ⟨size, present, inside, _⟩ := (locate_eq_some_iff _ _ _ _).mp located
    cases same
    rw [rotationSizes, readout, List.map_map, List.getElem?_map] at present
    obtain ⟨shift, ranged, rfl⟩ := Option.map_eq_some_iff.mp present
    obtain ⟨bound, rfl⟩ := List.getElem?_eq_some_iff.mp ranged
    simpa using inside

end Lookup

/-- The write gets the lock and the block for `k_buf`. -/
structure WriteCall.GetsKBuf (kernel : Kernel) (call : WriteCall) : Prop where
  uninterrupted : call.interrupted = false
  free : kernel.device.lock = false
  granted : kmalloc kernel.memory call.kBuf call.data.length ≠ none

/-- A write stays inside its blocks: the newline test inside `k_buf`, and what it
merges inside the blocks it copies from. -/
structure WritesInside (kernel : Kernel) (fPos : Int) (call : WriteCall) : Prop where
  noAccessOutside : aesdWrite kernel fPos call ≠ .oops
  newlineTest : call.GetsKBuf kernel → 0 ≤ (call.data.length : Int) - 1
  pendingBytes : kernel.device.bufferEntry.size ≠ 0 → ∃ previous contents,
    kernel.device.bufferEntry.buffptr = some previous ∧
      kernel.memory.block previous = some contents ∧
      kernel.device.bufferEntry.size ≤ contents.length
  newBytes : call.usrCount ≤ call.data.length

/-- A read stays inside the entry that it looks up: what is left of the entry is
computed exactly, and no more of it is copied. -/
structure ReadsInside (kernel : Kernel) (fPos : Int) (call : ReadCall) : Prop where
  noAccessOutside : aesdRead kernel fPos call ≠ .oops
  left : ∀ index offset, aesdCircularBufferFindEntryOffsetForFpos kernel.device.circularBuffer
    (sizeOfLoff fPos) = some (index, offset) →
    offset ≤ (kernel.device.circularBuffer.slot index).size ∧
    (toSizeT ((kernel.device.circularBuffer.slot index).size - offset) : Int) =
      (kernel.device.circularBuffer.slot index).size - offset ∧
    offset + min (toSizeT ((kernel.device.circularBuffer.slot index).size - offset)) call.count ≤
      (kernel.device.circularBuffer.slot index).size

section Operations

variable {kernel : Kernel} {log : RecordLog UInt8}

theorem underLock_oops_iff {fPos : Int} {interrupted : Bool} {errno : Int}
    {body : Kernel → Outcome} :
    underLock kernel fPos interrupted errno body = .oops ↔
      interrupted = false ∧ kernel.device.lock = false ∧
        body { kernel with device := { kernel.device with lock := true } } = .oops := by
  cases interrupted with
  | true => simp
  | false =>
      cases held : kernel.device.lock with
      | true => simp [underLock, mutexLockInterruptible, held]
      | false => simp [underLock_of_free held]

theorem aesdWriteLocked_empty {call : WriteCall} (empty : call.data = []) (fPos : Int) :
    aesdWriteLocked fPos call kernel = .oops ↔
      kmalloc kernel.memory call.kBuf call.data.length ≠ none := by
  have before : ∀ (memory : Memory UInt8) address,
      memory.load address (((call.data.length : Nat) : Int) - 1) = none :=
    fun memory address => memory.load_of_neg address (by simp [empty])
  unfold aesdWriteLocked
  cases granted : kmalloc kernel.memory call.kBuf call.data.length with
  | none => simp
  | some block =>
      cases written : block.2.writeRange block.1 0 call.copied <;> simp [written, before]

/-- The one write that leaves its blocks is that of an empty buffer. -/
theorem aesdWrite_oops_iff (represents : Represents kernel log) (fPos : Int) (call : WriteCall) :
    aesdWrite kernel fPos call = .oops ↔ call.data = [] ∧ call.GetsKBuf kernel := by
  by_cases empty : call.data = []
  · rw [aesdWrite, underLock_oops_iff, aesdWriteLocked_empty empty]
    exact ⟨fun reached => ⟨empty, reached.1, reached.2.1, reached.2.2⟩,
      fun reached => ⟨reached.2.uninterrupted, reached.2.free, reached.2.granted⟩⟩
  · constructor
    · intro oops
      obtain ⟨_, free, _⟩ := underLock_oops_iff.mp oops
      have wrote := aesdWrite_wrote represents free fPos empty
      rw [oops] at wrote
      cases wrote
    · exact fun reached => absurd reached.1 empty

theorem aesdWrite_writesInside_iff (represents : Represents kernel log) (fPos : Int)
    (call : WriteCall) :
    WritesInside kernel fPos call ↔ (call.GetsKBuf kernel → call.data ≠ []) := by
  constructor
  · intro inside gets empty
    exact inside.noAccessOutside ((aesdWrite_oops_iff represents fPos call).mpr ⟨empty, gets⟩)
  · intro condition
    constructor
    · intro oops
      obtain ⟨empty, gets⟩ := (aesdWrite_oops_iff represents fPos call).mp oops
      exact condition gets empty
    · intro gets
      have positive := List.length_pos_of_ne_nil (condition gets)
      omega
    · exact fun waiting => represents.pending_backed waiting
    · exact Nat.sub_le _ _

theorem aesdRead_readsInside (represents : Represents kernel log)
    (fits : (kernel.device.circularBuffer.liveEntries.map AesdBufferEntry.size).sum < 2 ^ 31)
    (fPos : Int) (call : ReadCall) : ReadsInside kernel fPos call := by
  have inside : ∀ index offset, aesdCircularBufferFindEntryOffsetForFpos
      kernel.device.circularBuffer (sizeOfLoff fPos) = some (index, offset) →
      offset < (kernel.device.circularBuffer.slot index).size :=
    fun index offset => findEntry_inside (represents.valid.rotationSizes_sum.trans_lt fits)
  have left : ∀ index offset, offset < (kernel.device.circularBuffer.slot index).size →
      (toSizeT ((kernel.device.circularBuffer.slot index).size - offset) : Int) =
        (kernel.device.circularBuffer.slot index).size - offset := by
    intro index offset below
    have live := represents.valid.live_of_size_pos (Nat.zero_lt_of_lt below)
    have small := List.le_sum_of_mem (List.mem_map_of_mem live (f := AesdBufferEntry.size))
    exact toSizeT_of_bounds _ (by omega) (by omega)
  constructor
  · intro oops
    obtain ⟨_, _, outside⟩ := underLock_oops_iff.mp oops
    unfold aesdReadLocked at outside
    split at outside
    · cases outside
    · next index offset found =>
        have below := inside index offset found
        have exactly := left index offset below
        have live := represents.valid.live_of_size_pos (Nat.zero_lt_of_lt below)
        have backed := represents.ringBacked _ live
        obtain ⟨address, _, pointer, _, _⟩ := represents.ringBacked _ live
        have length := backed.entryBytes_length
        have read := (backed.stores pointer).readRange offset
          (min (toSizeT ((kernel.device.circularBuffer.slot index).size - offset)) call.count)
          (by omega)
        simp only [pointer, Option.bind_some, read] at outside
        split at outside <;> cases outside
  · intro index offset found
    have below := inside index offset found
    have exactly := left index offset below
    exact ⟨Nat.le_of_lt below, exactly, by omega⟩

end Operations

/-- In every reachable state, with the allocator's limit, a write stays inside its
blocks exactly when it does not get `k_buf` for an empty buffer, and a read stays
inside the entry it looks up. -/
theorem accesses_in_range_iff {fixedSizeLlseek : FixedSizeLlseek} {first last : System}
    {events : List Event} (loaded : Loaded first)
    (run : Run (Step fixedSizeLlseek) first events last)
    (limited : ∀ event ∈ events, event.operation.Limited kmallocMaxSize) :
    (∀ fPos call, WritesInside last.kernel fPos call ↔
      (call.GetsKBuf last.kernel → call.data ≠ [])) ∧
    ∀ fPos call, ReadsInside last.kernel fPos call := by
  obtain ⟨log, represents, sized⟩ := run_represents_sized run loaded limited
  exact ⟨aesdWrite_writesInside_iff represents,
    aesdRead_readsInside represents (liveSizes_lt_of_limited represents sized)⟩

theorem accesses_in_range_iff_one_command :
    (∀ fPos call, WritesInside oneCommand.kernel fPos call ↔
      (call.GetsKBuf oneCommand.kernel → call.data ≠ [])) ∧
    ∀ fPos call, ReadsInside oneCommand.kernel fPos call :=
  accesses_in_range_iff loadedSystem_loaded oneCommand_reached (by simp)

/-- A write of no bytes right after loading tests the byte before `k_buf`. -/
theorem empty_write_reads_before_block :
    Loaded loadedSystem ∧
    (WriteCall.whole [] (some 1) none).GetsKBuf loadedSystem.kernel ∧
    aesdWrite loadedSystem.kernel 0 (.whole [] (some 1) none) = .oops ∧
    ¬WritesInside loadedSystem.kernel 0 (.whole [] (some 1) none) := by
  have oops : aesdWrite loadedSystem.kernel 0 (.whole [] (some 1) none) = .oops := rfl
  have gets : (WriteCall.whole [] (some 1) none).GetsKBuf loadedSystem.kernel :=
    ⟨rfl, rfl, Option.some_ne_none _⟩
  exact ⟨loadedSystem_loaded, gets, oops, fun inside => inside.noAccessOutside oops⟩

end Aesd.Driver
