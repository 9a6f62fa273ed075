import Aesd.Driver.SeekProperties
import Aesd.Driver.System

/-!
# Giving the device lock back

Every return of every file operation leaves a free lock free, except one: the
early return of a seek whose command index is out of range.
-/

set_option autoImplicit false

namespace Aesd.Driver

open Transition

/-- A seek that is rejected for its command index while it holds the lock. -/
def Operation.RejectedSeek : Operation → Prop
  | .ioctl _ call => call.Seeks ∧ 10 ≤ (decodeWriteCmd call.user.writeCmd).toNat
  | _ => False

section Operations

variable {kernel after : Kernel} {fPos position retval : Int} {delivered : List UInt8}

theorem aesdRead_releases {call : ReadCall} (free : kernel.device.lock = false)
    (returned : aesdRead kernel fPos call = .returned retval position after delivered) :
    after.device.lock = false := by
  obtain ⟨rfl, _⟩ := aesdRead_returned returned
  exact free

theorem aesdLlseek_releases {fixedSizeLlseek : FixedSizeLlseek} {call : LlseekCall}
    (free : kernel.device.lock = false)
    (returned : aesdLlseek fixedSizeLlseek kernel fPos call =
      .returned retval position after delivered) : after.device.lock = false := by
  obtain ⟨rfl, _⟩ := aesdLlseek_returned returned
  exact free

theorem aesdWrite_releases {call : WriteCall} (free : kernel.device.lock = false)
    (returned : aesdWrite kernel fPos call = .returned retval position after delivered) :
    after.device.lock = false := by
  rcases underLock_returned returned with ⟨_, _, rfl, _⟩ | ⟨_, ran⟩
  · exact free
  · unfold aesdWriteLocked at ran
    split at ran
    · cases ran
      rfl
    · split at ran
      · cases ran
      · dsimp only at ran
        split at ran
        · cases ran
        · split at ran
          · cases ran
            rfl
          · cases ran
          · cases ran
            rfl

theorem aesdUnlockedIoctl_releases_iff {call : IoctlCall} (free : kernel.device.lock = false)
    (returned : aesdUnlockedIoctl kernel fPos call = .returned retval position after delivered) :
    after.device.lock = false ↔
      ¬(call.Seeks ∧ 10 ≤ (decodeWriteCmd call.user.writeCmd).toNat) := by
  by_cases seeks : call.Seeks
  · rw [aesdUnlockedIoctl_seek free seeks] at returned
    split at returned
    · next rejected =>
        cases returned
        simp [seeks, rejected]
    · next inRange =>
        cases returned
        simp [free, inRange]
  · have same : after = kernel := by
      unfold aesdUnlockedIoctl aesdAdjustFileOffset at returned
      split at returned
      · next command =>
          split at returned
          · cases returned
            rfl
          · next copied =>
              cases interrupted : call.interrupted with
              | true =>
                  rw [interrupted] at returned
                  cases returned
                  rfl
              | false => exact absurd ⟨command, by simpa using copied, interrupted⟩ seeks
      · cases returned
        rfl
    simp [same, free, seeks]

end Operations

theorem Step.releases_iff {fixedSizeLlseek : FixedSizeLlseek} {system next : System}
    {event : Event} (moved : Step fixedSizeLlseek system event next)
    (free : system.kernel.device.lock = false) :
    next.kernel.device.lock = false ↔ ¬event.operation.RejectedSeek := by
  obtain ⟨position, kernel, returned, rfl⟩ := moved
  rcases event with ⟨operation, retval, delivered⟩
  cases operation with
  | read file call => simpa [Operation.RejectedSeek] using aesdRead_releases free returned
  | write file call => simpa [Operation.RejectedSeek] using aesdWrite_releases free returned
  | llseek file call => simpa [Operation.RejectedSeek] using aesdLlseek_releases free returned
  | ioctl file call => exact aesdUnlockedIoctl_releases_iff free returned

theorem underLock_ne_blocked {kernel : Kernel} (free : kernel.device.lock = false) (fPos : Int)
    (interrupted : Bool) (errno : Int) {body : Kernel → Outcome}
    (unblocked : ∀ locked, body locked ≠ .blocked) :
    underLock kernel fPos interrupted errno body ≠ .blocked := by
  cases interrupted with
  | true => simp
  | false =>
      rw [underLock_of_free free]
      exact unblocked _

theorem operate_ne_blocked {fixedSizeLlseek : FixedSizeLlseek} {system : System}
    (free : system.kernel.device.lock = false) (operation : Operation) :
    operate fixedSizeLlseek system operation ≠ .blocked := by
  cases operation with
  | read file call =>
      refine underLock_ne_blocked free _ _ _ fun locked blocked => ?_
      unfold aesdReadLocked at blocked
      split at blocked
      · cases blocked
      · dsimp only at blocked
        split at blocked
        · cases blocked
        · split at blocked <;> cases blocked
  | write file call =>
      refine underLock_ne_blocked free _ _ _ fun locked blocked => ?_
      unfold aesdWriteLocked at blocked
      split at blocked
      · cases blocked
      · split at blocked
        · cases blocked
        · dsimp only at blocked
          split at blocked
          · cases blocked
          · split at blocked <;> cases blocked
  | llseek file call =>
      refine underLock_ne_blocked free _ _ _ fun locked blocked => ?_
      cases blocked
  | ioctl file call =>
      simp only [operate, aesdUnlockedIoctl]
      split
      · split
        · simp
        · refine underLock_ne_blocked free _ _ _ fun locked blocked => ?_
          split at blocked <;> cases blocked
      · simp

theorem run_releases {fixedSizeLlseek : FixedSizeLlseek} {first last : System}
    {events : List Event} (run : Run (Step fixedSizeLlseek) first events last)
    (accepted : ∀ event ∈ events, ¬event.operation.RejectedSeek)
    (free : first.kernel.device.lock = false) : last.kernel.device.lock = false :=
  run.invariant (fun event => ¬event.operation.RejectedSeek)
    (fun system => system.kernel.device.lock = false)
    (fun _ _ _ accepted free moved => (moved.releases_iff free).mpr accepted) accepted free

/-- An operation that returns from a free lock frees it again exactly when it is
no rejected seek; a run without rejected seeks reaches only states with a free
lock, in which no operation waits. -/
theorem operations_give_lock_back (fixedSizeLlseek : FixedSizeLlseek) {first : System}
    (loaded : Loaded first) :
    (∀ events system, Run (Step fixedSizeLlseek) first events system →
      system.kernel.device.lock = false →
      ∀ operation retval position after delivered,
        operate fixedSizeLlseek system operation = .returned retval position after delivered →
        (after.device.lock = false ↔ ¬operation.RejectedSeek)) ∧
    ∀ events reached, Run (Step fixedSizeLlseek) first events reached →
      (∀ event ∈ events, ¬event.operation.RejectedSeek) →
      reached.kernel.device.lock = false ∧
      ∀ operation, operate fixedSizeLlseek reached operation ≠ .blocked := by
  constructor
  · intro _ system _ free operation retval position after delivered returned
    have moved : Step fixedSizeLlseek system ⟨operation, retval, delivered⟩
        ⟨after, Function.update system.fPos operation.file position⟩ := ⟨_, _, returned, rfl⟩
    exact moved.releases_iff free
  · intro events reached run accepted
    have free := run_releases run accepted loaded.represents.2
    exact ⟨free, operate_ne_blocked free⟩

theorem operations_give_lock_back_loaded :
    (∀ events system, Run (Step vfsFixedSizeLlseek) loadedSystem events system →
      system.kernel.device.lock = false →
      ∀ operation retval position after delivered,
        operate vfsFixedSizeLlseek system operation = .returned retval position after delivered →
        (after.device.lock = false ↔ ¬operation.RejectedSeek)) ∧
    ∀ events reached, Run (Step vfsFixedSizeLlseek) loadedSystem events reached →
      (∀ event ∈ events, ¬event.operation.RejectedSeek) →
      reached.kernel.device.lock = false ∧
      ∀ operation, operate vfsFixedSizeLlseek reached operation ≠ .blocked :=
  operations_give_lock_back _ loadedSystem_loaded

def seekToTen : IoctlCall := ⟨aesdcharIocseekto, ⟨0xA0, 0⟩, ⟨0, 0⟩, false, false⟩

/-- Right after loading, this seek returns `-EINVAL` and keeps the lock it took,
so a read of another descriptor waits. -/
theorem seek_to_ten_keeps_lock :
    Loaded loadedSystem ∧ loadedSystem.kernel.device.lock = false ∧
    ∃ after, operate vfsFixedSizeLlseek loadedSystem (.ioctl 0 seekToTen) =
        .returned (-einval) 0 after [] ∧ after.device.lock = true ∧
      operate vfsFixedSizeLlseek ⟨after, loadedSystem.fPos⟩
        (.read 1 ⟨1, false, 0⟩) = .blocked :=
  ⟨loadedSystem_loaded, rfl, _, rfl, rfl, rfl⟩

end Aesd.Driver
