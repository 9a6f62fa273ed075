import Aesd.Driver.ReadProperties
import Aesd.Driver.WriteProperties

/-!
# How each file operation can return

Inversion laws for calls that return, from any kernel state: what was returned,
where the position went, and what became of the lock, the entries and the blocks.
-/

set_option autoImplicit false

namespace Aesd.Driver

/-- Everything of a kernel but the lock. -/
structure SameData (before after : Kernel) : Prop where
  circularBuffer : after.device.circularBuffer = before.device.circularBuffer
  bufferEntry : after.device.bufferEntry = before.device.bufferEntry
  memory : after.memory = before.memory

theorem SameData.refl (kernel : Kernel) : SameData kernel kernel := ⟨rfl, rfl, rfl⟩

theorem SameData.trans {before middle after : Kernel} (first : SameData before middle)
    (second : SameData middle after) : SameData before after where
  circularBuffer := second.circularBuffer.trans first.circularBuffer
  bufferEntry := second.bufferEntry.trans first.bufferEntry
  memory := second.memory.trans first.memory

theorem SameData.represents_iff {before after : Kernel} (same : SameData before after)
    (log : RecordLog UInt8) : Represents after log ↔ Represents before log := by
  unfold Represents
  rw [same.circularBuffer, same.bufferEntry, same.memory]

theorem SameData.ringBytes_eq {before after : Kernel} (same : SameData before after) :
    after.ringBytes = before.ringBytes := by
  rw [Kernel.ringBytes, same.circularBuffer, same.memory, Kernel.ringBytes]

theorem SameData.pendingBytes_eq {before after : Kernel} (same : SameData before after) :
    after.pendingBytes = before.pendingBytes := by
  rw [Kernel.pendingBytes, same.bufferEntry, same.memory, Kernel.pendingBytes]

section Inversion

variable {kernel after : Kernel} {fPos position retval : Int} {delivered : List UInt8}

theorem underLock_returned {interrupted : Bool} {errno : Int} {body : Kernel → Outcome}
    (returned : underLock kernel fPos interrupted errno body =
      .returned retval position after delivered) :
    (retval = -errno ∧ position = fPos ∧ after = kernel ∧ delivered = []) ∨
    kernel.device.lock = false ∧
      body { kernel with device := { kernel.device with lock := true } } =
        .returned retval position after delivered := by
  cases interrupted with
  | true =>
      cases returned
      exact .inl ⟨rfl, rfl, rfl, rfl⟩
  | false =>
      cases held : kernel.device.lock with
      | true => simp [underLock, mutexLockInterruptible, held] at returned
      | false => exact .inr ⟨rfl, (underLock_of_free held _ _ _).symm.trans returned⟩

theorem aesdRead_returned {call : ReadCall}
    (returned : aesdRead kernel fPos call = .returned retval position after delivered) :
    after = kernel ∧
      ((retval < 0 ∧ position = fPos) ∨ (0 ≤ retval ∧ position = fPos + retval)) := by
  rcases underLock_returned returned with ⟨rfl, rfl, rfl, _⟩ | ⟨free, ran⟩
  · exact ⟨rfl, .inl ⟨by decide, rfl⟩⟩
  · have restored := mutexUnlock_of_free free
    unfold aesdReadLocked at ran
    split at ran
    · cases ran
      exact ⟨restored, .inr ⟨Int.le_refl 0, (Int.add_zero _).symm⟩⟩
    · dsimp only at ran
      split at ran
      · cases ran
      · split at ran
        · cases ran
          exact ⟨restored, .inl ⟨by decide, rfl⟩⟩
        · cases ran
          exact ⟨restored, .inr ⟨Int.natCast_nonneg _, rfl⟩⟩

theorem aesdRead_succeeds {log : RecordLog UInt8} (represents : Represents kernel log)
    (readable : Readable log) (nonnegative : 0 ≤ fPos) {call : ReadCall}
    (returned : aesdRead kernel fPos call = .returned retval position after delivered)
    (succeeded : 0 ≤ retval) :
    delivered = readAt log fPos.toNat call.count ∧ retval = delivered.length ∧
      position = fPos + retval ∧ after = kernel := by
  cases interrupted : call.interrupted with
  | true =>
      rw [aesdRead, interrupted] at returned
      cases returned
      exact absurd succeeded (by decide)
  | false =>
      rcases underLock_returned returned with ⟨rfl, _⟩ | ⟨free, _⟩
      · exact absurd succeeded (by decide)
      · have answer := aesdRead_eq represents free readable nonnegative interrupted
        rw [returned] at answer
        dsimp only at answer
        split at answer
        · cases answer
          exact absurd succeeded (by decide)
        · cases answer
          exact ⟨rfl, rfl, rfl, rfl⟩

theorem aesdLlseek_returned {fixedSizeLlseek : FixedSizeLlseek} {call : LlseekCall}
    (returned : aesdLlseek fixedSizeLlseek kernel fPos call =
      .returned retval position after delivered) :
    after = kernel ∧ ((retval < 0 ∧ position = fPos) ∨ (retval, position) =
      fixedSizeLlseek fPos call.off call.whence (circBuffSize kernel.device.circularBuffer)) := by
  rcases underLock_returned returned with ⟨rfl, rfl, rfl, _⟩ | ⟨free, ran⟩
  · exact ⟨rfl, .inl ⟨by decide, rfl⟩⟩
  · cases ran
    exact ⟨mutexUnlock_of_free free, .inr rfl⟩

theorem aesdUnlockedIoctl_returned {call : IoctlCall}
    (returned : aesdUnlockedIoctl kernel fPos call = .returned retval position after delivered) :
    SameData kernel after ∧ ((retval < 0 ∧ position = fPos) ∨ retval = 0) := by
  unfold aesdUnlockedIoctl at returned
  split at returned
  · split at returned
    · cases returned
      exact ⟨.refl _, .inl ⟨by decide, rfl⟩⟩
    · rcases underLock_returned returned with ⟨rfl, rfl, rfl, _⟩ | ⟨_, ran⟩
      · exact ⟨.refl _, .inl ⟨by decide, rfl⟩⟩
      · split at ran
        · cases ran
          exact ⟨⟨rfl, rfl, rfl⟩, .inl ⟨by decide, rfl⟩⟩
        · cases ran
          exact ⟨⟨rfl, rfl, rfl⟩, .inr rfl⟩
  · cases returned
    exact ⟨.refl _, .inl ⟨by decide, rfl⟩⟩

/-- An empty buffer is never written: the newline test would read before the block. -/
theorem aesdWrite_empty {call : WriteCall} (empty : call.data = [])
    (returned : aesdWrite kernel fPos call = .returned retval position after delivered) :
    after = kernel ∧ retval < 0 ∧ position = fPos := by
  rcases underLock_returned returned with ⟨rfl, rfl, rfl, _⟩ | ⟨free, ran⟩
  · exact ⟨rfl, by decide, rfl⟩
  · unfold aesdWriteLocked at ran
    split at ran
    · cases ran
      exact ⟨mutexUnlock_of_free free, by decide, rfl⟩
    · split at ran
      · cases ran
      · next memory _ =>
          have before : ∀ address, memory.load address (((call.data.length : Nat) : Int) - 1) = none :=
            fun address => memory.load_of_neg address (by simp [empty])
          simp only [before] at ran
          cases ran

theorem aesdWrite_returned {log : RecordLog UInt8} (represents : Represents kernel log)
    {call : WriteCall}
    (returned : aesdWrite kernel fPos call = .returned retval position after delivered) :
    (retval < 0 ∧ position = fPos ∧ Represents after log ∧ after.device = kernel.device) ∨
    (retval = call.usrCount ∧ position = fPos + call.usrCount ∧
      Represents after (log.append call.accepted call.closes) ∧
      kernel.device.lock = false ∧ after.device.lock = false ∧
      call.Granted (log.pending ++ call.accepted).length) := by
  by_cases empty : call.data = []
  · obtain ⟨rfl, negative, same⟩ := aesdWrite_empty empty returned
    exact .inl ⟨negative, same, represents, rfl⟩
  · rcases underLock_returned returned with ⟨rfl, rfl, rfl, _⟩ | ⟨free, _⟩
    · exact .inl ⟨by decide, rfl, represents, rfl⟩
    · rcases aesdWrite_cases represents free fPos empty with
        ⟨errno, which, unchanged, failed, kept, device⟩ | ⟨written, succeeded, grown, lock, granted⟩
      · rw [failed] at returned
        cases returned
        refine .inl ⟨?_, rfl, kept, device⟩
        rcases which with rfl | rfl <;> decide
      · rw [succeeded] at returned
        cases returned
        exact .inr ⟨rfl, rfl, grown, free, lock, granted⟩

end Inversion

end Aesd.Driver
