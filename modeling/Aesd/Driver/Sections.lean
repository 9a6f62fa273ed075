import Aesd.Driver.System
import Aesd.Library.Linearizability

/-!
# The file operations action by action

What each operation does under the device lock, one call or store after the
other, while other processes call the driver too. Executed without interruption,
the actions are the operation.
-/

set_option autoImplicit false

namespace Aesd.Driver

open MachineInt

/-- What an operation returns, and the bytes it has copied to the user. -/
abbrev Answer := Int × List UInt8

def System.setLock (held : Bool) (system : System) : System :=
  { system with kernel := { system.kernel with
      device := { system.kernel.device with lock := held } } }

def System.setMemory (system : System) (memory : Memory UInt8) : System :=
  { system with kernel := { system.kernel with memory } }

def System.setEntry (bufferEntry : AesdBufferEntry) (system : System) : System :=
  { system with kernel := { system.kernel with
      device := { system.kernel.device with bufferEntry } } }

def System.setBuffer (circularBuffer : AesdCircularBuffer) (system : System) : System :=
  { system with kernel := { system.kernel with
      device := { system.kernel.device with circularBuffer } } }

def System.setPos (file : Nat) (position : Int) (system : System) : System :=
  { system with fPos := Function.update system.fPos file position }

/-- An access to the blocks; one outside of them has no outcome. -/
def onMemory {Value : Type} (access : Memory UInt8 → Option (Value × Memory UInt8)) :
    Program System Value :=
  .perform fun system => (access system.kernel.memory).map fun taken =>
    (taken.1, system.setMemory taken.2)

def kmallocAction (call : Kmalloc) (size : Nat) : Program System (Option Address) :=
  onMemory fun memory =>
    match kmalloc memory call size with
    | none => some (none, memory)
    | some (address, memory) => some (some address, memory)

def aesdReadSection (file : Nat) (call : ReadCall) : Program System (Answer × Bool) := do
  let found ← .load fun system =>
    aesdCircularBufferFindEntryOffsetForFpos system.kernel.device.circularBuffer
      (sizeOfLoff (system.fPos file))
  match found with
  | none => pure ((0, []), true)
  | some (index, entryOffset) => do
      let entry ← .load fun system => system.kernel.device.circularBuffer.slot index
      let bytesToCopy := min (toSizeT ((entry.size : Int) - entryOffset)) call.count
      let bytes ← onMemory fun memory =>
        (entry.buffptr.bind fun buffptr => memory.readRange buffptr entryOffset bytesToCopy).map
          (·, memory)
      let bytesNotCopied := min call.notCopied bytesToCopy
      if 0 < bytesNotCopied then
        pure ((-efault, bytes.take (bytesToCopy - bytesNotCopied)), true)
      else do
        .store fun system => system.setPos file (system.fPos file + bytesToCopy)
        pure ((bytesToCopy, bytes), true)

/-- The end of a write that has filled the entry: the position, and behind a newline
the circular buffer. -/
def finishWrite (file : Nat) (usrCount : Nat) (last : UInt8) :
    Program System (Answer × Bool) := do
  .store fun system => system.setPos file (system.fPos file + usrCount)
  if last = newline then do
    let entryVal ← .perform fun system =>
      let added := aesdCircularBufferAddEntry system.kernel.device.circularBuffer
        system.kernel.device.bufferEntry
      some (added.1, system.setBuffer added.2)
    .store fun system => system.setMemory (kfreeIfSet system.kernel.memory entryVal)
    .store (System.setEntry ⟨none, 0⟩)
    pure ((usrCount, []), true)
  else pure ((usrCount, []), true)

/-- The branch on `buffer_entry.size`, up to the end of the write. -/
def fillSection (file : Nat) (kBuf : Address) (usrCount : Nat) (last : UInt8) (call : Kmalloc) :
    Program System (Answer × Bool) := do
  let pending ← .load fun system => system.kernel.device.bufferEntry
  if pending.size = 0 then do
    .store (System.setEntry ⟨some kBuf, usrCount⟩)
    finishWrite file usrCount last
  else do
    let tempBuf ← kmallocAction call (pending.size + usrCount)
    match tempBuf with
    | none => pure ((-enomem, []), true)
    | some tempBuf => do
        onMemory fun memory => (pending.buffptr.bind fun previous =>
          memory.copyRange tempBuf 0 previous 0 pending.size).map ((), ·)
        onMemory fun memory =>
          (memory.copyRange tempBuf pending.size kBuf 0 usrCount).map ((), ·)
        .store fun system => system.setMemory (kfreeIfSet system.kernel.memory pending.buffptr)
        .store fun system => system.setMemory (system.kernel.memory.release (some kBuf))
        .store (System.setEntry ⟨some tempBuf, pending.size + usrCount⟩)
        finishWrite file usrCount last

def aesdWriteSection (file : Nat) (call : WriteCall) : Program System (Answer × Bool) := do
  let kBuf ← kmallocAction call.kBuf call.data.length
  match kBuf with
  | none => pure ((-enomem, []), true)
  | some kBuf => do
      onMemory fun memory => (memory.writeRange kBuf 0 call.copied).map ((), ·)
      let last ← onMemory fun memory =>
        (memory.load kBuf ((call.data.length : Int) - 1)).map (·, memory)
      fillSection file kBuf call.usrCount last call.tempBuf

def aesdLlseekSection (fixedSizeLlseek : FixedSizeLlseek) (file : Nat) (call : LlseekCall) :
    Program System (Answer × Bool) := do
  let size ← .load fun system => circBuffSize system.kernel.device.circularBuffer
  let retOffset ← .perform fun system =>
    let sought := fixedSizeLlseek (system.fPos file) call.off call.whence size
    some (sought.1, system.setPos file sought.2)
  pure ((retOffset, []), true)

def aesdAdjustFileOffsetSection (file : Nat) (writeCmd : BitVec 32) :
    Program System (Answer × Bool) :=
  if aesdcharMaxWriteOperationsSupported ≤ (decodeWriteCmd writeCmd).toNat then
    -- Returns with the lock held.
    pure ((-einval, []), false)
  else do
    let retval ← .load fun system =>
      aesdCircularBufferGetFpos system.kernel.device.circularBuffer (decodeWriteCmd writeCmd).toNat
        (decodeWriteCmdOffset writeCmd).toNat
    .store (System.setPos file retval)
    pure ((0, []), true)

/-- What an operation returns that never gets as far as the lock. -/
def Operation.refusal : Operation → Option Answer
  | .read _ call => if call.interrupted then some (-eintr, []) else none
  | .write _ call => if call.interrupted then some (-eintr, []) else none
  | .llseek _ call => if call.interrupted then some (-eintr, []) else none
  | .ioctl _ call =>
      if call.cmd = aesdcharIocseekto then
        if call.copyFails then some (-efault, [])
        else if call.interrupted then some (-erestartsys, [])
        else none
      else some (-einval, [])

def Operation.body (fixedSizeLlseek : FixedSizeLlseek) :
    Operation → Program System (Answer × Bool)
  | .read file call => aesdReadSection file call
  | .write file call => aesdWriteSection file call
  | .llseek file call => aesdLlseekSection fixedSizeLlseek file call
  | .ioctl file call => aesdAdjustFileOffsetSection file (call.stack.copyFromUser call.user).writeCmd

/-- A property that does not depend on what the sections change. -/
structure Framed (file : Nat) (holds : System → Prop) : Prop where
  memory : ∀ system memory, holds system → holds (system.setMemory memory)
  entry : ∀ system bufferEntry, holds system → holds (system.setEntry bufferEntry)
  buffer : ∀ system buffer, holds system → holds (system.setBuffer buffer)
  position : ∀ system position, holds system → holds (system.setPos file position)

section Frames

variable {file : Nat} {holds : System → Prop}

theorem Framed.onMemory (framed : Framed file holds) {Value : Type}
    (access : Memory UInt8 → Option (Value × Memory UInt8)) : (onMemory access).Keeps holds := by
  refine Program.keeps_perform fun system start taken outcome => ?_
  obtain ⟨accessed, _, rfl⟩ := Option.map_eq_some_iff.mp outcome
  exact framed.memory system _ start

theorem Framed.setMemory (framed : Framed file holds) (change : System → Memory UInt8) :
    (Program.store fun system => system.setMemory (change system)).Keeps holds :=
  Program.keeps_store fun system start => framed.memory system _ start

theorem Framed.setEntry (framed : Framed file holds) (bufferEntry : AesdBufferEntry) :
    (Program.store (System.setEntry bufferEntry)).Keeps holds :=
  Program.keeps_store fun system start => framed.entry system _ start

theorem Framed.setPos (framed : Framed file holds) (position : System → Int) :
    (Program.store fun system => system.setPos file (position system)).Keeps holds :=
  Program.keeps_store fun system start => framed.position system _ start

theorem Framed.aesdReadSection (framed : Framed file holds) (call : ReadCall) :
    (aesdReadSection file call).Keeps holds := by
  refine (Program.keeps_load _).bind fun found => ?_
  cases found with
  | none => exact Program.keeps_pure _
  | some found =>
      refine (Program.keeps_load _).bind fun entry => (framed.onMemory _).bind fun bytes => ?_
      dsimp only
      split
      · exact Program.keeps_pure _
      · exact (framed.setPos _).bind fun _ => Program.keeps_pure _

theorem Framed.finishWrite (framed : Framed file holds) (usrCount : Nat) (last : UInt8) :
    (finishWrite file usrCount last).Keeps holds := by
  refine (framed.setPos _).bind fun _ => ?_
  split
  · refine Program.Keeps.bind (Program.keeps_perform fun system start taken outcome => ?_)
      fun entryVal => (framed.setMemory _).bind fun _ => (framed.setEntry _).bind fun _ =>
        Program.keeps_pure _
    cases outcome
    exact framed.buffer system _ start
  · exact Program.keeps_pure _

theorem Framed.fillSection (framed : Framed file holds) (kBuf : Address) (usrCount : Nat)
    (last : UInt8) (call : Kmalloc) : (fillSection file kBuf usrCount last call).Keeps holds := by
  refine (Program.keeps_load _).bind fun pending => ?_
  split
  · exact (framed.setEntry _).bind fun _ => framed.finishWrite _ _
  · refine (framed.onMemory _).bind fun tempBuf => ?_
    cases tempBuf with
    | none => exact Program.keeps_pure _
    | some tempBuf =>
        exact (framed.onMemory _).bind fun _ => (framed.onMemory _).bind fun _ =>
          (framed.setMemory _).bind fun _ => (framed.setMemory _).bind fun _ =>
          (framed.setEntry _).bind fun _ => framed.finishWrite _ _

theorem Framed.aesdWriteSection (framed : Framed file holds) (call : WriteCall) :
    (aesdWriteSection file call).Keeps holds := by
  refine (framed.onMemory _).bind fun kBuf => ?_
  cases kBuf with
  | none => exact Program.keeps_pure _
  | some kBuf =>
      exact (framed.onMemory _).bind fun _ => (framed.onMemory _).bind fun last =>
        framed.fillSection _ _ _ _

theorem Framed.aesdAdjustFileOffsetSection (framed : Framed file holds) (writeCmd : BitVec 32) :
    (aesdAdjustFileOffsetSection file writeCmd).Keeps holds := by
  unfold Driver.aesdAdjustFileOffsetSection
  split
  · exact Program.keeps_pure _
  · exact (Program.keeps_load _).bind fun retval =>
      (framed.setPos fun _ => retval).bind fun _ => Program.keeps_pure _

theorem Framed.body (fixedSizeLlseek : FixedSizeLlseek) {operation : Operation}
    (framed : Framed operation.file holds) : (operation.body fixedSizeLlseek).Keeps holds := by
  cases operation with
  | read file call => exact framed.aesdReadSection call
  | write file call => exact framed.aesdWriteSection call
  | llseek file call =>
      refine (Program.keeps_load _).bind fun size => Program.Keeps.bind
        (Program.keeps_perform fun system start taken outcome => ?_) fun _ => Program.keeps_pure _
      cases outcome
      exact framed.position system _ start
  | ioctl file call => exact framed.aesdAdjustFileOffsetSection _

end Frames

/-- The driver as an object whose operations run under the device lock. -/
def device (fixedSizeLlseek : FixedSizeLlseek) : Guarded System Operation Answer where
  held := fun system => system.kernel.device.lock
  setHeld := System.setLock
  refusal := Operation.refusal
  body := Operation.body fixedSizeLlseek
  held_setHeld := fun _ _ => rfl
  body_keeps := fun _ => Framed.body fixedSizeLlseek
    ⟨fun _ _ held => held, fun _ _ held => held, fun _ _ held => held, fun _ _ held => held⟩

end Aesd.Driver
