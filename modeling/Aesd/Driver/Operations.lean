import Aesd.Driver.CircularBuffer

/-!
# The file operations of the driver

The functions of `main.c` over the device and the allocated blocks. What the
kernel answers to a call (an interrupted lock, a failed allocation, a short user
copy) is part of the call. Debug prints and device registration are left out.
-/

set_option autoImplicit false

namespace Aesd.Driver

open MachineInt

def eintr : Int := 4
def enomem : Int := 12
def efault : Int := 14
def einval : Int := 22
def erestartsys : Int := 512

def newline : UInt8 := 10

structure AesdDev where
  circularBuffer : AesdCircularBuffer
  bufferEntry : AesdBufferEntry
  lock : Bool

structure Kernel where
  device : AesdDev
  memory : Memory UInt8

/-- How a call into the driver ends. `blocked` waits for the device lock,
`oops` is an access outside an allocated block. -/
inductive Outcome where
  | returned (retval fPos : Int) (kernel : Kernel) (delivered : List UInt8)
  | blocked
  | oops

def mutexUnlock (kernel : Kernel) : Kernel :=
  { kernel with device := { kernel.device with lock := false } }

inductive LockAttempt where
  | interrupted
  | blocked
  | acquired (kernel : Kernel)

def mutexLockInterruptible (kernel : Kernel) (interrupted : Bool) : LockAttempt :=
  if interrupted then .interrupted
  else if kernel.device.lock then .blocked
  else .acquired { kernel with device := { kernel.device with lock := true } }

/-- `if (mutex_lock_interruptible(&aesd_device.lock)) return -errno;`, then the body. -/
def underLock (kernel : Kernel) (fPos : Int) (interrupted : Bool) (errno : Int)
    (body : Kernel → Outcome) : Outcome :=
  match mutexLockInterruptible kernel interrupted with
  | .interrupted => .returned (-errno) fPos kernel []
  | .blocked => .blocked
  | .acquired kernel => body kernel

/-- What the allocator answers to a request of a size: an address, or null, and
the bytes the block happens to hold. -/
structure Kmalloc where
  answer : Nat → Option Address
  garbage : Nat → UInt8

/-- An answer that is already allocated cannot occur and counts as a failure. -/
def kmalloc (memory : Memory UInt8) (call : Kmalloc) (size : Nat) :
    Option (Address × Memory UInt8) :=
  match call.answer size with
  | none => none
  | some address =>
      if memory.block address = none then
        some (address, memory.assign address (some ((List.range size).map call.garbage)))
      else none

/-- The conversion of a `loff_t` argument to `size_t`. A position is below
2^63, so a non-negative one keeps its value. -/
def sizeOfLoff (position : Int) : Nat :=
  if position < 0 then toSizeT position else position.toNat

structure ReadCall where
  count : Nat
  interrupted : Bool
  notCopied : Nat

def aesdReadLocked (fPos : Int) (call : ReadCall) (kernel : Kernel) : Outcome :=
  match aesdCircularBufferFindEntryOffsetForFpos kernel.device.circularBuffer (sizeOfLoff fPos) with
  | none => .returned 0 fPos (mutexUnlock kernel) []
  | some (index, entryOffset) =>
      let entry := kernel.device.circularBuffer.slot index
      let bytesAvailable := toSizeT ((entry.size : Int) - entryOffset)
      let bytesToCopy := min bytesAvailable call.count
      match entry.buffptr.bind fun buffptr =>
          kernel.memory.readRange buffptr entryOffset bytesToCopy with
      | none => .oops
      | some bytes =>
          let bytesNotCopied := min call.notCopied bytesToCopy
          if 0 < bytesNotCopied then
            .returned (-efault) fPos (mutexUnlock kernel)
              (bytes.take (bytesToCopy - bytesNotCopied))
          else .returned bytesToCopy (fPos + bytesToCopy) (mutexUnlock kernel) bytes

def aesdRead (kernel : Kernel) (fPos : Int) (call : ReadCall) : Outcome :=
  underLock kernel fPos call.interrupted eintr (aesdReadLocked fPos call)

structure WriteCall where
  data : List UInt8
  interrupted : Bool
  kBuf : Kmalloc
  /-- How many bytes `copy_from_user` leaves uncopied, and what `k_buf` holds there. -/
  notCopied : Nat
  uncopied : Nat → UInt8
  tempBuf : Kmalloc

def WriteCall.usrCount (call : WriteCall) : Nat := call.data.length - call.notCopied

def WriteCall.copied (call : WriteCall) : List UInt8 :=
  call.data.take call.usrCount ++
    (List.range (call.data.length - call.usrCount)).map call.uncopied

inductive Fill where
  | noMemory
  | oops
  | filled (kernel : Kernel)

/-- `if (ptr) kfree(ptr);` -/
def kfreeIfSet (memory : Memory UInt8) (pointer : Option Address) : Memory UInt8 :=
  if pointer.isSome then memory.release pointer else memory

/-- The inner branch on `buffer_entry.size`, which the source repeats under both
outcomes of the newline test: take over `k_buf`, or merge into a new block. -/
def fillBufferEntry (kernel : Kernel) (kBuf : Address) (usrCount : Nat) (call : Kmalloc) : Fill :=
  let pending := kernel.device.bufferEntry
  if pending.size = 0 then
    .filled { kernel with device := { kernel.device with bufferEntry := ⟨some kBuf, usrCount⟩ } }
  else
    match kmalloc kernel.memory call (pending.size + usrCount) with
    | none => .noMemory
    | some (tempBuf, memory) =>
        match (pending.buffptr.bind fun previous =>
            memory.copyRange tempBuf 0 previous 0 pending.size).bind fun memory =>
              memory.copyRange tempBuf pending.size kBuf 0 usrCount with
        | none => .oops
        | some memory =>
            .filled {
              device := { kernel.device with
                bufferEntry := ⟨some tempBuf, pending.size + usrCount⟩ }
              memory := (kfreeIfSet memory pending.buffptr).release (some kBuf) }

/-- What both newline branches do at their end: add the entry to the circular
buffer, free what it evicts and clear the entry. -/
def commitBufferEntry (kernel : Kernel) : Kernel :=
  let added := aesdCircularBufferAddEntry kernel.device.circularBuffer kernel.device.bufferEntry
  { device := { kernel.device with circularBuffer := added.2, bufferEntry := ⟨none, 0⟩ }
    memory := kfreeIfSet kernel.memory added.1 }

def aesdWriteLocked (fPos : Int) (call : WriteCall) (kernel : Kernel) : Outcome :=
  match kmalloc kernel.memory call.kBuf call.data.length with
  | none => .returned (-enomem) fPos (mutexUnlock kernel) []
  | some (kBuf, memory) =>
      match memory.writeRange kBuf 0 call.copied with
      | none => .oops
      | some memory =>
          -- The newline test reads `k_buf[count - 1]`, whatever was copied.
          match memory.load kBuf ((call.data.length : Int) - 1) with
          | none => .oops
          | some last =>
              match fillBufferEntry { kernel with memory } kBuf call.usrCount call.tempBuf with
              | .noMemory => .returned (-enomem) fPos (mutexUnlock { kernel with memory }) []
              | .oops => .oops
              | .filled filled =>
                  let final := if last = newline then commitBufferEntry filled else filled
                  .returned call.usrCount (fPos + call.usrCount) (mutexUnlock final) []

def aesdWrite (kernel : Kernel) (fPos : Int) (call : WriteCall) : Outcome :=
  underLock kernel fPos call.interrupted eintr (aesdWriteLocked fPos call)

/-- `fixed_size_llseek`: from the position, offset, whence and size, the value
returned and the position it leaves. -/
abbrev FixedSizeLlseek := Int → Int → Int → Int → Int × Int

structure LlseekCall where
  off : Int
  whence : Int
  interrupted : Bool

def circBuffSize (buffer : AesdCircularBuffer) : Nat :=
  (buffer.entry.toList.map fun entry => if entry.buffptr.isSome then entry.size else 0).sum

def aesdLlseek (fixedSizeLlseek : FixedSizeLlseek) (kernel : Kernel) (fPos : Int)
    (call : LlseekCall) : Outcome :=
  underLock kernel fPos call.interrupted eintr fun kernel =>
    let sought := fixedSizeLlseek fPos call.off call.whence
      (circBuffSize kernel.device.circularBuffer)
    .returned sought.1 sought.2 (mutexUnlock kernel) []

structure AesdSeekto where
  writeCmd : BitVec 32
  writeCmdOffset : BitVec 32
  deriving DecidableEq

/-- `_IOWR(AESD_IOC_MAGIC, 1, struct aesd_seekto)`: direction 3, size 8, magic 0x16. -/
def aesdcharIocseekto : BitVec 32 := (3 <<< 30) ||| (8 <<< 16) ||| (0x16 <<< 8) ||| 1

def decodeWriteCmdOffset (writeCmd : BitVec 32) : BitVec 32 := writeCmd &&& 0xF

def decodeWriteCmd (writeCmd : BitVec 32) : BitVec 32 := (writeCmd >>> 4) &&& 0xF

def aesdAdjustFileOffset (kernel : Kernel) (fPos : Int) (interrupted : Bool)
    (writeCmd _writeCmdOffset : BitVec 32) : Outcome :=
  underLock kernel fPos interrupted erestartsys fun kernel =>
    if aesdcharMaxWriteOperationsSupported ≤ (decodeWriteCmd writeCmd).toNat then
      -- This early return leaves the lock held.
      .returned (-einval) fPos kernel []
    else
      let retval := aesdCircularBufferGetFpos kernel.device.circularBuffer
        (decodeWriteCmd writeCmd).toNat (decodeWriteCmdOffset writeCmd).toNat
      .returned 0 retval (mutexUnlock kernel) []

structure IoctlCall where
  cmd : BitVec 32
  user : AesdSeekto
  stack : AesdSeekto
  copyFails : Bool
  interrupted : Bool

/-- The copy has the length `sizeof(seekto) != 0`, which is one byte: on a
little-endian machine the low byte of `write_cmd`. -/
def AesdSeekto.copyFromUser (stack user : AesdSeekto) : AesdSeekto :=
  { stack with writeCmd := stack.writeCmd.extractLsb' 8 24 ++ user.writeCmd.extractLsb' 0 8 }

def aesdUnlockedIoctl (kernel : Kernel) (fPos : Int) (call : IoctlCall) : Outcome :=
  if call.cmd = aesdcharIocseekto then
    if call.copyFails then .returned (-efault) fPos kernel []
    else
      let seekto := call.stack.copyFromUser call.user
      aesdAdjustFileOffset kernel fPos call.interrupted seekto.writeCmd seekto.writeCmdOffset
  else .returned (-einval) fPos kernel []

def aesdInitModule (kernel : Kernel) (allocChrdevRegion cdevAdd : Int) : Int × Kernel :=
  if allocChrdevRegion < 0 then (allocChrdevRegion, kernel)
  else (cdevAdd, { kernel with
    device := { circularBuffer := aesdCircularBufferInit, bufferEntry := ⟨none, 0⟩, lock := false } })

/-- How unloading ends: `blocked` waits for the device lock. -/
inductive Unloading where
  | returned (kernel : Kernel)
  | blocked

/-- The loop tests the pointer of each slot and frees that of the pending entry. -/
def aesdCleanupModule (kernel : Kernel) (interrupted : Bool) : Unloading :=
  match mutexLockInterruptible kernel interrupted with
  | .interrupted => .returned kernel
  | .blocked => .blocked
  | .acquired kernel =>
      let pending := kernel.device.bufferEntry.buffptr
      let memory := kernel.device.circularBuffer.entry.toList.foldl (fun memory entry =>
        if entry.buffptr.isSome then memory.release pending else memory) kernel.memory
      .returned (mutexUnlock { kernel with memory := kfreeIfSet memory pending })

end Aesd.Driver
