import Aesd.Driver.Ownership

/-!
# What unloading frees

The loop over the slots frees the block of the pending entry once for every
command in the ring, and no block of the ring. It frees what it should only
when the ring is empty.
-/

set_option autoImplicit false

namespace Aesd.Driver

open AesdCircularBuffer Transition

/-- Between two kernels, every block that the first one holds is freed once, and
no other pointer but null. -/
def FreesEachOnce (kernel after : Kernel) : Prop :=
  ∃ freed, after.memory.releases = kernel.memory.releases ++ freed ∧
    (freed.filterMap Prod.fst).Perm kernel.owned

theorem release_releases (memory : Memory UInt8) (pointer : Option Address) :
    ∃ held, (memory.release pointer).releases = memory.releases ++ [(pointer, held)] := by
  cases pointer with
  | none => exact ⟨false, rfl⟩
  | some address => exact ⟨(memory.block address).isSome, rfl⟩

/-- The loop frees nothing but the one pointer, and that as often as a slot is set. -/
theorem slot_loop_releases (entries : List AesdBufferEntry) (pointer : Option Address)
    (memory : Memory UInt8) :
    ∃ freed, (entries.foldl (fun memory entry =>
        if entry.buffptr.isSome then memory.release pointer else memory) memory).releases =
      memory.releases ++ freed ∧
      freed.map Prod.fst =
        List.replicate (entries.countP fun entry => entry.buffptr.isSome) pointer := by
  induction entries generalizing memory with
  | nil => exact ⟨[], (List.append_nil _).symm, rfl⟩
  | cons entry entries ih =>
      rw [List.foldl_cons, List.countP_cons]
      cases set_ : entry.buffptr.isSome with
      | false =>
          simp only [Bool.false_eq_true, ↓reduceIte, Nat.add_zero]
          exact ih memory
      | true =>
          obtain ⟨held, first⟩ := release_releases memory pointer
          obtain ⟨freed, later, pointers⟩ := ih (memory.release pointer)
          rw [first, List.append_assoc] at later
          refine ⟨_, later, ?_⟩
          rw [List.singleton_append, List.map_cons, pointers]
          exact List.replicate_succ.symm

theorem slot_of_mem_entry {buffer : AesdCircularBuffer} {entry : AesdBufferEntry}
    (member : entry ∈ buffer.entry.toList) : ∃ index < 10, buffer.slot index = entry := by
  obtain ⟨index, bound, found⟩ := List.getElem_of_mem member
  rw [Vector.length_toList] at bound
  refine ⟨index, bound, ?_⟩
  rw [Vector.getElem_toList] at found
  simp [slot, ← found, Vector.getElem?_eq_getElem bound]

theorem no_slot_set {buffer : AesdCircularBuffer} (valid : buffer.Valid)
    (empty : buffer.liveEntries = []) :
    (buffer.entry.toList.countP fun entry => entry.buffptr.isSome) = 0 := by
  have noneLive : buffer.liveCount = 0 := by
    rw [← liveEntries_length, empty, List.length_nil]
  apply List.countP_eq_zero.mpr
  intro entry member
  obtain ⟨index, bound, rfl⟩ := slot_of_mem_entry member
  have vacant := valid.slot_of_not_live bound (by
    intro live
    obtain ⟨offset, inside, _⟩ := live
    omega)
  simp [vacant, AesdBufferEntry.zero]

theorem kfreeIfSet_releases (memory : Memory UInt8) (pointer : Option Address) :
    ∃ freed, (kfreeIfSet memory pointer).releases = memory.releases ++ freed ∧
      freed.map Prod.fst = pointer.toList.map some := by
  cases pointer with
  | none => exact ⟨[], (List.append_nil _).symm, rfl⟩
  | some address => exact ⟨[(some address, (memory.block address).isSome)], rfl, rfl⟩

/-- With the lock free, unloading passes the pending pointer to `kfree` once for
each slot that is set and, unless it is null, once more. -/
theorem aesdCleanupModule_returned {kernel : Kernel} (free : kernel.device.lock = false) :
    ∃ after freed, aesdCleanupModule kernel false = .returned after ∧
      after.memory.releases = kernel.memory.releases ++ freed ∧
      freed.map Prod.fst = List.replicate (kernel.device.circularBuffer.entry.toList.countP
        fun entry => entry.buffptr.isSome) kernel.device.bufferEntry.buffptr ++
          kernel.device.bufferEntry.buffptr.toList.map some := by
  obtain ⟨looped, loop, pointers⟩ := slot_loop_releases kernel.device.circularBuffer.entry.toList
    kernel.device.bufferEntry.buffptr kernel.memory
  obtain ⟨last, final, pointer⟩ := kfreeIfSet_releases
    (kernel.device.circularBuffer.entry.toList.foldl (fun memory entry =>
      if entry.buffptr.isSome then memory.release kernel.device.bufferEntry.buffptr else memory)
      kernel.memory) kernel.device.bufferEntry.buffptr
  have ran : ∃ after, aesdCleanupModule kernel false = .returned after ∧
      after.memory = kfreeIfSet (kernel.device.circularBuffer.entry.toList.foldl
        (fun memory entry => if entry.buffptr.isSome
          then memory.release kernel.device.bufferEntry.buffptr else memory)
        kernel.memory) kernel.device.bufferEntry.buffptr := by
    simp only [aesdCleanupModule, mutexLockInterruptible, free, Bool.false_eq_true, ↓reduceIte]
    exact ⟨_, rfl, rfl⟩
  obtain ⟨after, returned, memory⟩ := ran
  refine ⟨after, looped ++ last, returned, ?_, ?_⟩
  · rw [memory, final, loop, List.append_assoc]
  · rw [List.map_append, pointers, pointer]

theorem freesEachOnce_iff {kernel after : Kernel} {log : RecordLog UInt8}
    (represents : Represents kernel log) {freed : List (Option Address × Bool)}
    (released : after.memory.releases = kernel.memory.releases ++ freed)
    (pointers : freed.map Prod.fst =
      List.replicate (kernel.device.circularBuffer.entry.toList.countP
        fun entry => entry.buffptr.isSome) kernel.device.bufferEntry.buffptr ++
          kernel.device.bufferEntry.buffptr.toList.map some) :
    FreesEachOnce kernel after ↔ kernel.device.circularBuffer.liveEntries = [] := by
  constructor
  · intro frees
    obtain ⟨same, releasedSame, held⟩ := frees
    cases List.append_cancel_left (releasedSame.symm.trans released)
    apply List.eq_nil_iff_forall_not_mem.mpr
    intro entry live
    -- The block of a live entry would have to be the pending one.
    obtain ⟨address, _, pointer, _, _⟩ := represents.ringBacked entry live
    have inRing : address ∈ kernel.device.circularBuffer.liveEntries.filterMap
        AesdBufferEntry.buffptr := List.mem_filterMap.mpr ⟨entry, live, pointer⟩
    obtain ⟨release, member, isFreed⟩ :=
      List.mem_filterMap.mp (held.mem_iff.mpr (List.mem_append_left _ inRing))
    have listed : some address ∈ freed.map Prod.fst := List.mem_map.mpr ⟨release, member, isFreed⟩
    have pending : kernel.device.bufferEntry.buffptr = some address := by
      rw [pointers] at listed
      rcases List.mem_append.mp listed with looped | last
      · exact (List.eq_of_mem_replicate looped).symm
      · simpa using last
    have distinct := represents.distinct
    rw [ownedAddresses, pending] at distinct
    exact (List.nodup_append.mp distinct).2.2 address inRing address (by simp) rfl
  · intro empty
    refine ⟨freed, released, ?_⟩
    rw [no_slot_set represents.valid empty, List.replicate_zero, List.nil_append] at pointers
    have single : freed.filterMap Prod.fst = kernel.device.bufferEntry.buffptr.toList := by
      have collected := congrArg (List.filterMap id) pointers
      simpa [List.filterMap_map, Function.comp_def] using collected
    rw [single, Kernel.owned, ownedAddresses, empty]
    exact List.Perm.refl _

/-- After any writes, unloading frees every block the device holds exactly once,
and nothing else, if and only if no command is in the ring. -/
theorem cleanup_frees_each_once_iff {fixedSizeLlseek : FixedSizeLlseek} {first last : System}
    {events : List Event} (loaded : Loaded first)
    (run : Run (Step fixedSizeLlseek) first events last)
    (writes : ∀ event ∈ events, event.operation.WritesSome) :
    ∃ after, aesdCleanupModule last.kernel false = .returned after ∧
      (FreesEachOnce last.kernel after ↔ last.kernel.device.circularBuffer.liveEntries = []) := by
  obtain ⟨log, represents⟩ := run_represents run ⟨_, loaded.represents.1⟩
  obtain ⟨after, freed, returned, released, pointers⟩ :=
    aesdCleanupModule_returned (run_of_writes_free run loaded writes)
  exact ⟨after, returned, freesEachOnce_iff represents released pointers⟩

theorem cleanup_frees_each_once_iff_pending_byte :
    ∃ after, aesdCleanupModule pendingByte.kernel false = .returned after ∧
      (FreesEachOnce pendingByte.kernel after ↔
        pendingByte.kernel.device.circularBuffer.liveEntries = []) :=
  cleanup_frees_each_once_iff loadedSystem_loaded pendingByte_reached
    (by simp [Operation.WritesSome, WriteCall.whole])

/-- With one command in the ring and a byte pending, the pending block is freed
twice and the command's block never. -/
theorem cleanup_frees_pending_twice :
    Loaded loadedSystem ∧ pendingByte.kernel.owned = [1, 2] ∧
    ∃ after, aesdCleanupModule pendingByte.kernel false = .returned after ∧
      after.memory.releases = pendingByte.kernel.memory.releases ++
        [(some 2, true), (some 2, false)] ∧
      ¬FreesEachOnce pendingByte.kernel after := by
  have ran : ∃ after, aesdCleanupModule pendingByte.kernel false = .returned after ∧
      after.memory.releases = pendingByte.kernel.memory.releases ++
        [(some 2, true), (some 2, false)] := ⟨_, rfl, rfl⟩
  obtain ⟨after, returned, twice⟩ := ran
  refine ⟨loadedSystem_loaded, by decide, after, returned, twice, ?_⟩
  intro frees
  obtain ⟨freed, released, held⟩ := frees
  have same := List.append_cancel_left (twice.symm.trans released)
  subst same
  have owned : 1 ∈ pendingByte.kernel.owned := by decide
  exact absurd (held.mem_iff.mpr owned) (by decide)

end Aesd.Driver
