import Aesd.Driver.Representation

/-!
# What a write can do

One inversion law covers the ways `aesd_write` ends on a device that represents
a log, with the blocks that each way allocates and frees. From it, a failure
keeps the log and a success appends the accepted bytes to it.
-/

set_option autoImplicit false

namespace Aesd.Driver

theorem kmalloc_eq_some {memory extended : Memory UInt8} {call : Kmalloc} {size : Nat}
    {address : Address} (granted : kmalloc memory call size = some (address, extended)) :
    call.answer size = some address ∧ memory.block address = none ∧
      extended = memory.assign address (some ((List.range size).map call.garbage)) := by
  unfold kmalloc at granted
  split at granted
  · cases granted
  · next answered =>
      split at granted
      · next fresh =>
          cases granted
          exact ⟨answered, fresh, rfl⟩
      · cases granted

namespace WriteCall

def accepted (call : WriteCall) : List UInt8 := call.data.take call.usrCount

def closes (call : WriteCall) : Bool := decide (call.copied.getLast? = some newline)

/-- An allocation of the call was granted for a request of at least this size. -/
def Granted (call : WriteCall) (size : Nat) : Prop :=
  ∃ request, size ≤ request ∧
    (call.kBuf.answer request ≠ none ∨ call.tempBuf.answer request ≠ none)

def ZeroFills (call : WriteCall) : Prop := ∀ index, call.uncopied index = 0

@[simp] theorem accepted_length (call : WriteCall) : call.accepted.length = call.usrCount := by
  simp [accepted, usrCount]

@[simp] theorem copied_length (call : WriteCall) : call.copied.length = call.data.length := by
  simp only [copied, usrCount, List.length_append, List.length_take, List.length_map,
    List.length_range]
  omega

/-- With zero padding, the newline test passes exactly for a full copy whose
last byte is a newline. -/
theorem closes_iff {call : WriteCall} (zeroFills : call.ZeroFills) :
    call.closes = true ↔ call.usrCount = call.data.length ∧ call.data.getLast? = some newline := by
  have bound : call.usrCount ≤ call.data.length := Nat.sub_le _ _
  rw [closes, decide_eq_true_eq]
  rcases Nat.lt_or_eq_of_le bound with short | whole
  · obtain ⟨missing, gap⟩ : ∃ missing, call.data.length - call.usrCount = missing + 1 :=
      ⟨call.data.length - call.usrCount - 1, by omega⟩
    have padded : call.copied.getLast? = some 0 := by
      rw [copied, gap, List.range_succ, List.map_append, ← List.append_assoc]
      simp [zeroFills missing]
    rw [padded]
    constructor
    · intro same
      exact absurd same (by decide)
    · intro full
      omega
  · have same : call.copied = call.data := by simp [copied, whole]
    rw [same]
    exact ⟨fun last => ⟨whole, last⟩, fun full => full.2⟩

end WriteCall

/-- The pending entry with a piece added to it: `k_buf` itself where nothing was
pending, otherwise a new block for the old bytes and the piece. -/
inductive Filled (kernel : Kernel) (kBuf : Address) (piece : List UInt8) (call : Kmalloc) :
    Kernel → Prop where
  | taken (nothing : kernel.device.bufferEntry.size = 0) :
      Filled kernel kBuf piece call { kernel with
        device := { kernel.device with bufferEntry := ⟨some kBuf, piece.length⟩ } }
  | merged {previous tempBuf : Address} (waiting : kernel.device.bufferEntry.size ≠ 0)
      (pointer : kernel.device.bufferEntry.buffptr = some previous)
      (answered : call.answer (kernel.device.bufferEntry.size + piece.length) = some tempBuf)
      (fresh : kernel.memory.block tempBuf = none) :
      Filled kernel kBuf piece call {
        device := { kernel.device with
          bufferEntry := ⟨some tempBuf, kernel.device.bufferEntry.size + piece.length⟩ }
        memory := ((kernel.memory.assign tempBuf (some (kernel.pendingBytes ++ piece))).release
          (some previous)).release (some kBuf) }

def Kernel.withKBuf (kernel : Kernel) (kBuf : Address) (call : WriteCall) : Kernel :=
  { kernel with memory := kernel.memory.assign kBuf (some call.copied) }

@[simp] theorem Kernel.withKBuf_device (kernel : Kernel) (kBuf : Address) (call : WriteCall) :
    (kernel.withKBuf kBuf call).device = kernel.device := rfl

/-- The ways a write of a non-empty buffer ends when the lock is free. -/
inductive Wrote (kernel : Kernel) (fPos : Int) (call : WriteCall) : Outcome → Prop where
  | interrupted (interrupted : call.interrupted = true) :
      Wrote kernel fPos call (.returned (-eintr) fPos kernel [])
  | noKBuf (uninterrupted : call.interrupted = false)
      (refused : kmalloc kernel.memory call.kBuf call.data.length = none) :
      Wrote kernel fPos call (.returned (-enomem) fPos kernel [])
  | noTempBuf {kBuf : Address} (uninterrupted : call.interrupted = false)
      (answered : call.kBuf.answer call.data.length = some kBuf)
      (fresh : kernel.memory.block kBuf = none)
      (waiting : kernel.device.bufferEntry.size ≠ 0)
      (refused : kmalloc (kernel.withKBuf kBuf call).memory call.tempBuf
        (kernel.device.bufferEntry.size + call.usrCount) = none) :
      Wrote kernel fPos call (.returned (-enomem) fPos (kernel.withKBuf kBuf call) [])
  | stored {kBuf : Address} {filled : Kernel} (uninterrupted : call.interrupted = false)
      (answered : call.kBuf.answer call.data.length = some kBuf)
      (fresh : kernel.memory.block kBuf = none)
      (fills : Filled (kernel.withKBuf kBuf call) kBuf call.accepted call.tempBuf filled) :
      Wrote kernel fPos call (.returned call.usrCount (fPos + call.usrCount)
        (if call.closes then commitBufferEntry filled else filled) [])

private theorem merge_blocks {memory : Memory UInt8} {tempBuf previous kBuf : Address}
    {old piece : List UInt8} (garbage : List UInt8) (oldStored : memory.Stores previous old)
    (stored : memory.Stores kBuf piece) (fresh : memory.block tempBuf = none)
    (room : garbage.length = old.length + piece.length) :
    ((memory.assign tempBuf (some garbage)).copyRange tempBuf 0 previous 0 old.length).bind
        (fun memory => memory.copyRange tempBuf old.length kBuf 0 piece.length) =
      some (memory.assign tempBuf (some (old ++ piece))) := by
  have previousApart : previous ≠ tempBuf := fun same => oldStored.allocated (same ▸ fresh)
  have kBufApart : kBuf ≠ tempBuf := fun same => stored.allocated (same ▸ fresh)
  have oldKept := oldStored.congr (memory.assign_block_of_ne previousApart (some garbage))
  have first := Memory.copyRange_of_stores 0 oldKept
    (memory.assign_block_self tempBuf (some garbage)) (by omega)
  rw [first, Option.bind_some, Memory.assign_assign]
  have pieceKept := stored.congr (memory.assign_block_of_ne kBufApart
    (some (garbage.take 0 ++ old ++ garbage.drop (0 + old.length))))
  have second := Memory.copyRange_of_stores old.length pieceKept
    (memory.assign_block_self tempBuf _) (by simp; omega)
  rw [second, Memory.assign_assign]
  have rest : garbage.length ≤ old.length + piece.length := Nat.le_of_eq room
  simp [List.drop_eq_nil_of_le rest]

/-- Filling the pending entry fails only for lack of memory with bytes pending. -/
theorem fillBufferEntry_cases {kernel : Kernel} {kBuf : Address} {piece : List UInt8}
    (backed : kernel.device.bufferEntry.size ≠ 0 →
      Backed kernel.memory kernel.device.bufferEntry)
    (stored : kernel.memory.Stores kBuf piece) (call : Kmalloc) :
    (kernel.device.bufferEntry.size ≠ 0 ∧
      kmalloc kernel.memory call (kernel.device.bufferEntry.size + piece.length) = none ∧
      fillBufferEntry kernel kBuf piece.length call = .noMemory) ∨
    ∃ filled, fillBufferEntry kernel kBuf piece.length call = .filled filled ∧
      Filled kernel kBuf piece call filled := by
  unfold fillBufferEntry
  by_cases nothing : kernel.device.bufferEntry.size = 0
  · rw [if_pos nothing]
    exact .inr ⟨_, rfl, .taken nothing⟩
  · rw [if_neg nothing]
    obtain ⟨previous, _, pointer, _, _⟩ := backed nothing
    have old := (backed nothing).stores pointer
    have size := (backed nothing).entryBytes_length
    cases granted : kmalloc kernel.memory call (kernel.device.bufferEntry.size + piece.length) with
    | none => exact .inl ⟨nothing, rfl, rfl⟩
    | some block =>
        obtain ⟨tempBuf, extended⟩ := block
        obtain ⟨answered, fresh, rfl⟩ := kmalloc_eq_some granted
        have merged := merge_blocks ((List.range
          (kernel.device.bufferEntry.size + piece.length)).map call.garbage) old stored fresh
          (by simp [size])
        rw [size] at merged
        refine .inr ⟨_, ?_, .merged nothing pointer answered fresh⟩
        simp only [pointer, Option.bind_some, merged, kfreeIfSet, Option.isSome_some, ↓reduceIte]
        rfl

theorem Filled.unlocked {kernel filled : Kernel} {kBuf : Address} {piece : List UInt8}
    {call : Kmalloc} (fills : Filled kernel kBuf piece call filled) :
    Filled (mutexUnlock kernel) kBuf piece call (mutexUnlock filled) := by
  cases fills with
  | taken nothing => exact .taken nothing
  | merged waiting pointer answered fresh => exact .merged waiting pointer answered fresh

/-- `k_buf` after the allocation and the copy: a fresh block that holds exactly
the copied bytes, whose last byte the newline test reads. -/
private theorem copy_into_kBuf {memory extended : Memory UInt8} {call : WriteCall}
    {kBuf : Address} (granted : kmalloc memory call.kBuf call.data.length = some (kBuf, extended))
    (nonempty : call.data ≠ []) :
    ∃ last, extended.writeRange kBuf 0 call.copied =
        some (memory.assign kBuf (some call.copied)) ∧
      (memory.assign kBuf (some call.copied)).load kBuf ((call.data.length : Int) - 1) =
        some last ∧
      call.copied.getLast? = some last := by
  obtain ⟨_, _, rfl⟩ := kmalloc_eq_some granted
  have written := Memory.writeRange_of_fits 0 call.copied
    (memory.assign_block_self kBuf (some ((List.range call.data.length).map call.kBuf.garbage)))
    (by simp)
  have whole : ((List.range call.data.length).map call.kBuf.garbage).take 0 ++ call.copied ++
      ((List.range call.data.length).map call.kBuf.garbage).drop (0 + call.copied.length) =
        call.copied := by simp
  rw [Memory.assign_assign, whole] at written
  have positive : 0 < call.data.length := List.length_pos_of_ne_nil nonempty
  have filled : call.copied ≠ [] := List.ne_nil_of_length_pos (by rwa [WriteCall.copied_length])
  refine ⟨call.copied.getLast filled, written, ?_, List.getLast?_eq_getLast_of_ne_nil filled⟩
  have index : ((call.data.length : Int) - 1).toNat = call.copied.length - 1 := by
    rw [WriteCall.copied_length]
    omega
  rw [Memory.load, if_neg (by omega), Memory.assign_block_self, Option.bind_some, index,
    ← List.getLast?_eq_getElem?, List.getLast?_eq_getLast_of_ne_nil filled]

theorem Kernel.withKBuf_stores (kernel : Kernel) (kBuf : Address) (call : WriteCall) :
    (kernel.withKBuf kBuf call).memory.Stores kBuf call.accepted :=
  ⟨call.copied, Memory.assign_block_self _ _ _, List.prefix_append _ _⟩

theorem Represents.withKBuf {kernel : Kernel} {log : RecordLog UInt8}
    (represents : Represents kernel log) {kBuf : Address}
    (fresh : kernel.memory.block kBuf = none) (call : WriteCall) :
    Represents (kernel.withKBuf kBuf call) log := by
  apply Holds.frame represents
  intro other owned
  apply Memory.assign_block_of_ne
  intro same
  subst same
  exact represents.allocated owned fresh

theorem aesdWrite_wrote {kernel : Kernel} {log : RecordLog UInt8}
    (represents : Represents kernel log) (free : kernel.device.lock = false) (fPos : Int)
    {call : WriteCall} (nonempty : call.data ≠ []) :
    Wrote kernel fPos call (aesdWrite kernel fPos call) := by
  have restored := mutexUnlock_of_free free
  unfold aesdWrite
  cases interrupted : call.interrupted with
  | true => exact .interrupted interrupted
  | false =>
      rw [underLock_of_free free, aesdWriteLocked]
      cases granted : kmalloc kernel.memory call.kBuf call.data.length with
      | none =>
          simp only [restored]
          exact .noKBuf interrupted granted
      | some block =>
          obtain ⟨kBuf, extended⟩ := block
          obtain ⟨answered, fresh, _⟩ := kmalloc_eq_some granted
          obtain ⟨last, written, loaded, lastByte⟩ := copy_into_kBuf granted nonempty
          have copied := represents.withKBuf fresh call
          have unlocked : (⟨{ kernel.device with lock := false },
              kernel.memory.assign kBuf (some call.copied)⟩ : Kernel) =
              kernel.withKBuf kBuf call := by
            rw [Kernel.withKBuf, ← free]
          have filling := @fillBufferEntry_cases ⟨{ kernel.device with lock := true },
              kernel.memory.assign kBuf (some call.copied)⟩ kBuf call.accepted
            copied.pending_backed (kernel.withKBuf_stores kBuf call) call.tempBuf
          rw [WriteCall.accepted_length] at filling
          simp only [written, loaded]
          rcases filling with ⟨waiting, refused, noMemory⟩ | ⟨filled, fills, shape⟩
          · simp only [noMemory, mutexUnlock, unlocked]
            exact .noTempBuf interrupted answered fresh waiting refused
          · simp only [fills]
            have closes : call.closes = decide (last = newline) := by
              simp [WriteCall.closes, lastByte]
            have final : mutexUnlock (if last = newline then commitBufferEntry filled else filled) =
                if call.closes then commitBufferEntry (mutexUnlock filled)
                else mutexUnlock filled := by
              rw [closes]
              by_cases isNewline : last = newline
              · simp only [isNewline, ↓reduceIte, decide_true]
                rfl
              · simp only [isNewline, ↓reduceIte, decide_false, Bool.false_eq_true]
            rw [final]
            have shaped := shape.unlocked
            simp only [mutexUnlock, unlocked] at shaped
            exact .stored interrupted answered fresh shaped

/-- The requests a write makes are granted: one for `k_buf`, and with bytes
pending one for the block to merge them into. -/
def WriteCall.AllocationsSucceed (call : WriteCall) (kernel : Kernel) : Prop :=
  ∃ kBuf extended, kmalloc kernel.memory call.kBuf call.data.length = some (kBuf, extended) ∧
    (kernel.device.bufferEntry.size ≠ 0 →
      kmalloc (kernel.withKBuf kBuf call).memory call.tempBuf
        (kernel.device.bufferEntry.size + call.usrCount) ≠ none)

/-- An uninterrupted write whose allocations are granted does not fail. -/
theorem aesdWrite_granted {kernel : Kernel} {log : RecordLog UInt8}
    (represents : Represents kernel log) (free : kernel.device.lock = false) (fPos : Int)
    {call : WriteCall} (nonempty : call.data ≠ []) (uninterrupted : call.interrupted = false)
    (allocated : call.AllocationsSucceed kernel) :
    ∃ position after, aesdWrite kernel fPos call = .returned call.usrCount position after [] := by
  obtain ⟨kBuf, extended, granted, merging⟩ := allocated
  have wrote := aesdWrite_wrote represents free fPos nonempty
  generalize aesdWrite kernel fPos call = outcome at wrote ⊢
  cases wrote with
  | interrupted interrupted => cases uninterrupted.symm.trans interrupted
  | noKBuf _ refused => cases granted.symm.trans refused
  | noTempBuf _ answered _ waiting refused =>
      obtain ⟨same, _, _⟩ := kmalloc_eq_some granted
      cases same.symm.trans answered
      exact absurd refused (merging waiting)
  | stored _ _ _ _ => exact ⟨_, _, rfl⟩

section Represents

variable {kernel filled : Kernel} {log : RecordLog UInt8} {kBuf : Address} {piece : List UInt8}
  {call : Kmalloc}

/-- Freeing the merged blocks leaves every other one. -/
private theorem freed_block_of_ne (memory : Memory UInt8) {previous kBuf address : Address}
    (notPrevious : address ≠ previous) (notKBuf : address ≠ kBuf) :
    ((memory.release (some previous)).release (some kBuf)).block address =
      memory.block address := by
  rw [Memory.release_block_of_ne _ (by simpa using Ne.symm notKBuf),
    Memory.release_block_of_ne _ (by simpa using Ne.symm notPrevious)]

/-- A filled entry holds the record under construction with the piece appended. -/
theorem Filled.represents (represents : Represents kernel log)
    (stored : kernel.memory.Stores kBuf piece)
    (unowned : kBuf ∉ ownedAddresses kernel.device.circularBuffer kernel.device.bufferEntry)
    (fills : Filled kernel kBuf piece call filled) :
    Represents filled (log.append piece false) ∧
      Backed filled.memory filled.device.bufferEntry ∧
      (log.pending ≠ [] → call.answer (log.pending ++ piece).length ≠ none) := by
  have size := represents.pending_size
  have apart : kBuf ∉ kernel.device.circularBuffer.liveEntries.filterMap
      AesdBufferEntry.buffptr := fun member => unowned (List.mem_append_left _ member)
  cases fills with
  | taken nothing =>
      have empty : log.pending = [] := List.eq_nil_of_length_eq_zero (size.symm.trans nothing)
      have filled := represents.fill piece (by rwa [empty]) apart (fun _ _ => rfl)
      rw [empty, List.nil_append] at filled
      exact ⟨filled, (backed_of_stores stored).1, fun some_ => absurd empty some_⟩
  | @merged previous tempBuf waiting pointer answered fresh =>
      have old := (represents.pending_backed waiting).stores pointer
      have notPrevious : tempBuf ≠ previous := fun same => old.allocated (same ▸ fresh)
      have notKBuf : tempBuf ≠ kBuf := fun same => stored.allocated (same ▸ fresh)
      have bytes : kernel.pendingBytes = log.pending := represents.current
      have tempStored : (((kernel.memory.assign tempBuf (some (kernel.pendingBytes ++ piece))).release
          (some previous)).release (some kBuf)).Stores tempBuf (log.pending ++ piece) := by
        refine ⟨log.pending ++ piece, ?_, List.prefix_refl _⟩
        rw [freed_block_of_ne _ notPrevious notKBuf, Memory.assign_block_self, bytes]
      have length : (log.pending ++ piece).length =
          kernel.device.bufferEntry.size + piece.length := by rw [List.length_append, size]
      have filled := represents.fill piece tempStored
        (fun member => represents.allocated (List.mem_append_left _ member) fresh) (by
          intro other member
          have owned : other ∈ ownedAddresses kernel.device.circularBuffer
              kernel.device.bufferEntry := List.mem_append_left _ member
          have apartPrevious : other ≠ previous := by
            rintro rfl
            exact (List.nodup_append.mp represents.distinct).2.2 other member other
              (by simp [pointer]) rfl
          have apartKBuf : other ≠ kBuf := fun same => unowned (same ▸ owned)
          rw [freed_block_of_ne _ apartPrevious apartKBuf]
          have apartTemp : other ≠ tempBuf := fun same =>
            represents.allocated owned (same ▸ fresh)
          exact Memory.assign_block_of_ne _ apartTemp _)
      have backed := (backed_of_stores tempStored).1
      rw [length] at filled backed ⊢
      refine ⟨filled, backed, fun _ => ?_⟩
      rw [answered]
      exact Option.some_ne_none tempBuf

theorem commitBufferEntry_represents (represents : Represents kernel log)
    (backed : Backed kernel.memory kernel.device.bufferEntry) :
    Represents (commitBufferEntry kernel) (log.append [] true) :=
  represents.commit backed

end Represents

section Write

variable {kernel : Kernel} {log : RecordLog UInt8}

/-- The ways a write on a free device ends. Every failure keeps the log and the
position; success appends the accepted bytes. -/
theorem aesdWrite_cases (represents : Represents kernel log) (free : kernel.device.lock = false)
    (fPos : Int) {call : WriteCall} (nonempty : call.data ≠ []) :
    (∃ errno, (errno = eintr ∨ errno = enomem) ∧
      ∃ after, aesdWrite kernel fPos call = .returned (-errno) fPos after [] ∧
        Represents after log ∧ after.device = kernel.device) ∨
    ∃ after, aesdWrite kernel fPos call =
        .returned call.usrCount (fPos + call.usrCount) after [] ∧
      Represents after (log.append call.accepted call.closes) ∧ after.device.lock = false ∧
      call.Granted (log.pending ++ call.accepted).length := by
  have wrote := aesdWrite_wrote represents free fPos nonempty
  generalize aesdWrite kernel fPos call = outcome at wrote ⊢
  cases wrote with
  | interrupted _ => exact .inl ⟨eintr, .inl rfl, kernel, rfl, represents, rfl⟩
  | noKBuf _ _ => exact .inl ⟨enomem, .inr rfl, kernel, rfl, represents, rfl⟩
  | noTempBuf _ _ fresh _ _ =>
      exact .inl ⟨enomem, .inr rfl, _, rfl, represents.withKBuf fresh call, rfl⟩
  | @stored kBuf filled _ answered fresh fills =>
      have unowned : kBuf ∉ ownedAddresses kernel.device.circularBuffer
          kernel.device.bufferEntry := fun owned => represents.allocated owned fresh
      obtain ⟨grown, backed, merged⟩ := fills.represents (represents.withKBuf fresh call)
        (kernel.withKBuf_stores kBuf call) unowned
      refine .inr ⟨_, rfl, ?_, ?_, ?_⟩
      · cases call.closes with
        | false => exact grown
        | true => simpa using commitBufferEntry_represents grown backed
      · have lock : filled.device.lock = false := by cases fills <;> exact free
        cases call.closes <;> exact lock
      · by_cases nothing : log.pending = []
        · refine ⟨call.data.length, ?_, .inl (by simp [answered])⟩
          rw [nothing, List.nil_append, WriteCall.accepted_length]
          exact Nat.sub_le _ _
        · exact ⟨_, Nat.le_refl _, .inr (merged nothing)⟩

end Write

end Aesd.Driver
