import Aesd.Driver.OperationProperties
import Aesd.Driver.System
import Aesd.Library.CText

/-!
# The driver with its debug prints

`aesdchar.h` and the circular buffer define `AESD_DEBUG`, so the driver prints, and
some prints pass a block of the driver to `%s`: `aesd_write` what it copied, adding an
entry the text of the entry, finding an entry the text of that entry, and `aesd_read`
the same from its offset on. No block is allocated with room for a NUL at its end.
A print that repeats the one before is left out, and so is the user's own buffer,
which is no block.
-/

set_option autoImplicit false

namespace Aesd.Driver

open AesdCircularBuffer CText MachineInt Transition

/-- `%s` at an offset into a block. -/
def printString (memory : Memory UInt8) (address : Address) (offset : Nat) :
    Option (List UInt8) :=
  (memory.block address).bind fun contents => readString (contents.drop offset)

def printEntry (memory : Memory UInt8) (entry : AesdBufferEntry) (offset : Nat) :
    Option (List UInt8) :=
  entry.buffptr.bind fun buffptr => printString memory buffptr offset

def aesdReadDebugLocked (fPos : Int) (call : ReadCall) (kernel : Kernel) : Outcome :=
  match aesdCircularBufferFindEntryOffsetForFpos kernel.device.circularBuffer (sizeOfLoff fPos) with
  | none => .returned 0 fPos (mutexUnlock kernel) []
  | some (index, entryOffset) =>
      let entry := kernel.device.circularBuffer.slot index
      match printEntry kernel.memory entry 0 with
      | none => .oops
      | some _ =>
          let bytesAvailable := toSizeT ((entry.size : Int) - entryOffset)
          let bytesToCopy := min bytesAvailable call.count
          match entry.buffptr.bind fun buffptr =>
              kernel.memory.readRange buffptr entryOffset bytesToCopy with
          | none => .oops
          | some bytes =>
              let bytesNotCopied := min call.notCopied bytesToCopy
              if 0 < bytesNotCopied then
                .returned (-efault) fPos (mutexUnlock kernel)
                  (bytes.take (bytesToCopy - bytesNotCopied))
              else
                match printEntry kernel.memory entry entryOffset with
                | none => .oops
                | some _ => .returned bytesToCopy (fPos + bytesToCopy) (mutexUnlock kernel) bytes

def aesdWriteDebugLocked (fPos : Int) (call : WriteCall) (kernel : Kernel) : Outcome :=
  match kmalloc kernel.memory call.kBuf call.data.length with
  | none => .returned (-enomem) fPos (mutexUnlock kernel) []
  | some (kBuf, memory) =>
      match memory.writeRange kBuf 0 call.copied with
      | none => .oops
      | some memory =>
          match printString memory kBuf 0 with
          | none => .oops
          | some _ =>
              match memory.load kBuf ((call.data.length : Int) - 1) with
              | none => .oops
              | some last =>
                  match fillBufferEntry { kernel with memory } kBuf call.usrCount call.tempBuf with
                  | .noMemory => .returned (-enomem) fPos (mutexUnlock { kernel with memory }) []
                  | .oops => .oops
                  | .filled filled =>
                      if last = newline then
                        match printEntry filled.memory filled.device.bufferEntry 0 with
                        | none => .oops
                        | some _ =>
                            .returned call.usrCount (fPos + call.usrCount)
                              (mutexUnlock (commitBufferEntry filled)) []
                      else .returned call.usrCount (fPos + call.usrCount) (mutexUnlock filled) []

def operateDebug (fixedSizeLlseek : FixedSizeLlseek) (system : System) : Operation → Outcome
  | .read file call =>
      underLock system.kernel (system.fPos file) call.interrupted eintr
        (aesdReadDebugLocked (system.fPos file) call)
  | .write file call =>
      underLock system.kernel (system.fPos file) call.interrupted eintr
        (aesdWriteDebugLocked (system.fPos file) call)
  | operation => operate fixedSizeLlseek system operation

def DebugStep (fixedSizeLlseek : FixedSizeLlseek) (system : System) (event : Event)
    (next : System) : Prop :=
  ∃ position kernel, operateDebug fixedSizeLlseek system event.operation =
      .returned event.retval position kernel event.delivered ∧
    next = ⟨kernel, Function.update system.fPos event.operation.file position⟩

section Operations

variable {kernel after : Kernel} {fPos retval position : Int} {delivered : List UInt8}

/-- The print of what was copied to a fresh block. -/
theorem printString_kBuf {call : WriteCall} {kBuf : Address} {memory written : Memory UInt8}
    (granted : kmalloc kernel.memory call.kBuf call.data.length = some (kBuf, memory))
    (wrote : memory.writeRange kBuf 0 call.copied = some written) :
    printString written kBuf 0 = readString call.copied := by
  obtain ⟨_, _, rfl⟩ := kmalloc_eq_some granted
  have fits := Memory.writeRange_of_fits 0 call.copied
    (kernel.memory.assign_block_self kBuf
      (some ((List.range call.data.length).map call.kBuf.garbage))) (by simp)
  have replaced : ((List.range call.data.length).map call.kBuf.garbage).drop
      call.data.length = [] := List.drop_eq_nil_of_le (by simp)
  cases wrote.symm.trans fits
  rw [printString, Memory.assign_block_self]
  simp [replaced]

theorem aesdReadDebugLocked_returned {call : ReadCall}
    (returned : aesdReadDebugLocked fPos call kernel =
      .returned retval position after delivered) :
    aesdReadLocked fPos call kernel = .returned retval position after delivered := by
  revert returned
  unfold aesdReadDebugLocked aesdReadLocked
  cases aesdCircularBufferFindEntryOffsetForFpos kernel.device.circularBuffer
      (sizeOfLoff fPos) with
  | none => exact id
  | some hit =>
      obtain ⟨index, entryOffset⟩ := hit
      dsimp only
      generalize kernel.device.circularBuffer.slot index = entry
      cases printEntry kernel.memory entry 0 with
      | none => exact nofun
      | some _ =>
          dsimp only
          generalize min (toSizeT ((entry.size : Int) - entryOffset)) call.count = bytesToCopy
          cases entry.buffptr.bind fun buffptr =>
              kernel.memory.readRange buffptr entryOffset bytesToCopy with
          | none => exact nofun
          | some bytes =>
              dsimp only
              split
              · exact id
              · cases printEntry kernel.memory entry entryOffset with
                | none => exact nofun
                | some _ => exact id

/-- A write that returns does so as without the prints, and has no success with text. -/
theorem aesdWriteDebugLocked_returned {call : WriteCall}
    (returned : aesdWriteDebugLocked fPos call kernel =
      .returned retval position after delivered) :
    aesdWriteLocked fPos call kernel = .returned retval position after delivered ∧
      (0 ∉ call.copied → retval < 0) := by
  revert returned
  unfold aesdWriteDebugLocked aesdWriteLocked
  cases granted : kmalloc kernel.memory call.kBuf call.data.length with
  | none =>
      rintro ⟨⟩
      exact ⟨rfl, fun _ => by decide⟩
  | some block =>
      obtain ⟨kBuf, memory⟩ := block
      dsimp only
      cases wrote : memory.writeRange kBuf 0 call.copied with
      | none => exact nofun
      | some written =>
          dsimp only
          rw [printString_kBuf granted wrote, readString_eq]
          by_cases inside : 0 ∈ call.copied
          · rw [if_pos inside]
            dsimp only
            cases written.load kBuf ((call.data.length : Int) - 1) with
            | none => exact nofun
            | some last =>
                dsimp only
                cases fillBufferEntry { kernel with memory := written } kBuf call.usrCount
                    call.tempBuf with
                | oops => exact nofun
                | noMemory => exact fun same => ⟨same, fun text => absurd inside text⟩
                | filled filled =>
                    dsimp only
                    split
                    · cases printEntry filled.memory filled.device.bufferEntry 0 with
                      | none => exact nofun
                      | some _ => exact fun same => ⟨same, fun text => absurd inside text⟩
                    · exact fun same => ⟨same, fun text => absurd inside text⟩
          · rw [if_neg inside]
            exact nofun

/-- What holds of the results of a body holds of those under the lock. -/
theorem underLock_weaken {interrupted : Bool} {errno : Int} {body other : Kernel → Outcome}
    (agree : ∀ locked, body locked = .returned retval position after delivered →
      other locked = .returned retval position after delivered)
    (returned : underLock kernel fPos interrupted errno body =
      .returned retval position after delivered) :
    underLock kernel fPos interrupted errno other = .returned retval position after delivered := by
  revert returned
  unfold underLock
  cases mutexLockInterruptible kernel interrupted with
  | interrupted => exact id
  | blocked => exact nofun
  | acquired locked => exact agree locked

end Operations

section Runs

variable {fixedSizeLlseek : FixedSizeLlseek} {first system next last : System} {event : Event}
  {events : List Event}

/-- An operation that prints and returns does what it does without its prints. -/
theorem DebugStep.step (moved : DebugStep fixedSizeLlseek system event next) :
    Step fixedSizeLlseek system event next := by
  obtain ⟨position, kernel, returned, same⟩ := moved
  refine ⟨position, kernel, ?_, same⟩
  obtain ⟨operation, retval, delivered⟩ := event
  cases operation with
  | read file call => exact underLock_weaken (fun _ => aesdReadDebugLocked_returned) returned
  | write file call =>
      exact underLock_weaken (fun _ ran => (aesdWriteDebugLocked_returned ran).1) returned
  | llseek file call | ioctl file call => exact returned

/-- A write of text that is copied whole. -/
def Operation.Text : Operation → Prop
  | .write _ call => 0 ∉ call.data ∧ call.notCopied = 0
  | .read _ _ | .llseek _ _ | .ioctl _ _ => True

theorem DebugStep.fails (moved : DebugStep fixedSizeLlseek system event next)
    (text : event.operation.Text) {file : Nat} {call : WriteCall}
    (written : event.operation = .write file call) : event.retval < 0 := by
  obtain ⟨position, kernel, returned, _⟩ := moved
  rw [written] at text returned
  have whole : call.copied = call.data := by
    simp [WriteCall.copied, WriteCall.usrCount, text.2]
  rcases underLock_returned returned with ⟨interrupted, _⟩ | ⟨_, ran⟩
  · rw [interrupted]
    decide
  · exact (aesdWriteDebugLocked_returned ran).2 (whole ▸ text.1)

/-- A driver that prints and keeps inside its blocks takes no text at all: every
write of text that gets a buffer prints past the end of it. -/
theorem debug_driver_takes_no_text (loaded : Loaded first)
    (run : Run (DebugStep fixedSizeLlseek) first events last)
    (texts : ∀ event ∈ events, event.operation.Text) :
    (∀ event ∈ events, ∀ file call, event.operation = .write file call → event.retval < 0) ∧
      last.kernel.ringBytes = [] ∧ last.kernel.pendingBytes = [] := by
  have empty : Represents last.kernel .empty := by
    refine run.invariant (fun event => event.operation.Text)
      (fun system => Represents system.kernel .empty) ?_ texts loaded.represents.1
    intro system event next text represents moved
    rcases moved.step.represents represents with
      ⟨kept, _⟩ | ⟨file, call, written, count, _⟩
    · exact kept
    · have failed := moved.fails text written
      omega
  refine ⟨fun event member file call written => ?_, empty.ringBytes_eq, empty.pendingBytes_eq⟩
  obtain ⟨before, after, moved⟩ := run.step_of_mem member
  exact moved.fails (texts event member) written

/-- A write that finds no memory fails, a read of the empty device returns nothing. -/
theorem debug_driver_takes_no_text_no_memory :
    let write : Event := ⟨.write 0 (.whole [104, 105, newline] none none), -enomem, []⟩
    let read : Event := ⟨.read 0 ⟨1, false, 0⟩, 0, []⟩
    (∀ event ∈ [write, read], ∀ file call, event.operation = .write file call →
      event.retval < 0) ∧ loadedSystem.kernel.ringBytes = [] ∧
        loadedSystem.kernel.pendingBytes = [] := by
  intro write read
  have unmoved : loadedSystem =
      ⟨loadedSystem.kernel, Function.update loadedSystem.fPos 0 (loadedSystem.fPos 0)⟩ := by
    rw [Function.update_eq_self]
  have run : Run (DebugStep vfsFixedSizeLlseek) loadedSystem [write, read] loadedSystem :=
    .cons ⟨0, loadedSystem.kernel, rfl, unmoved⟩ (.single ⟨0, loadedSystem.kernel, rfl, unmoved⟩)
  refine debug_driver_takes_no_text loadedSystem_loaded run ?_
  intro event member
  rcases List.mem_pair.mp member with rfl | rfl
  · exact ⟨by decide, rfl⟩
  · trivial

/-- The same line with memory is an access outside of its block. -/
example : operateDebug vfsFixedSizeLlseek loadedSystem
    (.write 0 (.whole [104, 105, newline] (some 1) none)) = .oops := rfl

end Runs

end Aesd.Driver
