import Aesd.Driver.OperationProperties

/-!
# What the seek ioctl does

The ioctl decodes its two numbers from the low byte of the user's word, which is
the only byte it copies, so the rest of the kernel-stack variable is irrelevant.
-/

set_option autoImplicit false

namespace Aesd.Driver

open AesdCircularBuffer

private theorem nibble_bit :
    ∀ index < 32, ¬index < 4 → (0xF : BitVec 32).getLsbD index = false := by
  decide

theorem low_nibble_congr {left right : BitVec 32}
    (agree : ∀ index < 4, left.getLsbD index = right.getLsbD index) :
    left &&& 0xF = right &&& 0xF := by
  refine BitVec.eq_of_getLsbD_eq fun index below => ?_
  rw [BitVec.getLsbD_and, BitVec.getLsbD_and]
  by_cases low : index < 4
  · rw [agree index low]
  · rw [nibble_bit index below low, Bool.and_false, Bool.and_false]

theorem copyFromUser_low (stack user : AesdSeekto) {index : Nat} (low : index < 8) :
    (stack.copyFromUser user).writeCmd.getLsbD index = user.writeCmd.getLsbD index := by
  rw [AesdSeekto.copyFromUser, MachineInt.getLsbD_replaceLow, if_pos low]

@[simp] theorem decodeWriteCmd_copyFromUser (stack user : AesdSeekto) :
    decodeWriteCmd (stack.copyFromUser user).writeCmd = decodeWriteCmd user.writeCmd := by
  refine low_nibble_congr fun index low => ?_
  rw [BitVec.getLsbD_ushiftRight, BitVec.getLsbD_ushiftRight]
  exact copyFromUser_low stack user (by omega)

@[simp] theorem decodeWriteCmdOffset_copyFromUser (stack user : AesdSeekto) :
    decodeWriteCmdOffset (stack.copyFromUser user).writeCmd = decodeWriteCmdOffset user.writeCmd :=
  low_nibble_congr fun _ low => copyFromUser_low stack user (by omega)

theorem decodeWriteCmdOffset_lt (writeCmd : BitVec 32) :
    (decodeWriteCmdOffset writeCmd).toNat < 16 := by
  rw [decodeWriteCmdOffset, BitVec.toNat_and]
  exact Nat.and_lt_two_pow (n := 4) _ (by decide)

/-- A seek that reaches the driver and obtains the lock. -/
structure IoctlCall.Seeks (call : IoctlCall) : Prop where
  command : call.cmd = aesdcharIocseekto
  copied : call.copyFails = false
  uninterrupted : call.interrupted = false

section Seek

variable {kernel : Kernel} {call : IoctlCall}

theorem aesdUnlockedIoctl_seek (free : kernel.device.lock = false) (seeks : call.Seeks)
    (fPos : Int) :
    aesdUnlockedIoctl kernel fPos call =
      if 10 ≤ (decodeWriteCmd call.user.writeCmd).toNat then
        .returned (-einval) fPos { kernel with device := { kernel.device with lock := true } } []
      else .returned 0 (aesdCircularBufferGetFpos kernel.device.circularBuffer
        (decodeWriteCmd call.user.writeCmd).toNat
        (decodeWriteCmdOffset call.user.writeCmd).toNat) kernel [] := by
  have restored := mutexUnlock_of_free free
  simp only [aesdUnlockedIoctl, seeks.command, seeks.copied, ↓reduceIte, Bool.false_eq_true,
    aesdAdjustFileOffset, seeks.uninterrupted, underLock_of_free free,
    decodeWriteCmd_copyFromUser, decodeWriteCmdOffset_copyFromUser, restored,
    aesdcharMaxWriteOperationsSupported]

theorem aesdUnlockedIoctl_sought {after : Kernel} {fPos position : Int} {delivered : List UInt8}
    (seeks : call.Seeks)
    (returned : aesdUnlockedIoctl kernel fPos call = .returned 0 position after delivered) :
    after = kernel ∧ position = aesdCircularBufferGetFpos kernel.device.circularBuffer
      (decodeWriteCmd call.user.writeCmd).toNat
      (decodeWriteCmdOffset call.user.writeCmd).toNat := by
  cases held : kernel.device.lock with
  | true =>
      simp [aesdUnlockedIoctl, seeks.command, seeks.copied, aesdAdjustFileOffset,
        seeks.uninterrupted, underLock, mutexLockInterruptible, held] at returned
  | false =>
      rw [aesdUnlockedIoctl_seek held seeks] at returned
      split at returned
      · cases returned
      · cases returned
        exact ⟨rfl, rfl⟩

theorem aesdUnlockedIoctl_position {log : RecordLog UInt8} (represents : Represents kernel log)
    (free : kernel.device.lock = false) (readable : Readable log) (seeks : call.Seeks)
    (small : (decodeWriteCmd call.user.writeCmd).toNat < 10)
    (live : (decodeWriteCmd call.user.writeCmd).toNat ≤ (log.retained 10).length) (fPos : Int) :
    aesdUnlockedIoctl kernel fPos call =
      .returned 0 (((((log.retained 10).take (decodeWriteCmd call.user.writeCmd).toNat).map
        List.length).sum + (decodeWriteCmdOffset call.user.writeCmd).toNat : Nat) : Int) kernel [] := by
  have offsetBound := decodeWriteCmdOffset_lt call.user.writeCmd
  have counted : kernel.device.circularBuffer.liveCount = (log.retained 10).length := by
    rw [← liveEntries_length, ← represents.ring, List.length_map]
  have split := List.sum_take_add_sum_drop ((log.retained 10).map List.length)
    (decodeWriteCmd call.user.writeCmd).toNat
  have total := readable.fits
  rw [List.length_flatten] at total
  rw [aesdUnlockedIoctl_seek free seeks, if_neg (by omega),
    represents.valid.getFpos_eq (by omega), represents.ring_sizes, ← List.map_take,
    Nat.mod_eq_of_lt (by rw [List.map_take]; omega)]

end Seek

end Aesd.Driver
