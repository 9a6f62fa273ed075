import Aesd.Driver.LockDiscipline

/-!
# Runs of writes

In a run of writes of non-empty buffers the lock is free between the calls, so
each step is one of the ways in which such a write ends.
-/

set_option autoImplicit false

namespace Aesd.Driver

open Transition

/-- A write of a non-empty buffer. -/
def Operation.WritesSome : Operation → Prop
  | .write _ call => call.data ≠ []
  | _ => False

theorem Operation.WritesSome.not_rejectedSeek {operation : Operation}
    (writes : operation.WritesSome) : ¬operation.RejectedSeek := by
  cases operation with
  | write file call => exact id
  | read file call | llseek file call | ioctl file call => exact writes.elim

section Runs

variable {fixedSizeLlseek : FixedSizeLlseek}

theorem run_of_writes_free {first last : System} {events : List Event}
    (run : Run (Step fixedSizeLlseek) first events last) (loaded : Loaded first)
    (writes : ∀ event ∈ events, event.operation.WritesSome) :
    last.kernel.device.lock = false :=
  run_releases run (fun event member => (writes event member).not_rejectedSeek)
    loaded.represents.2

theorem Step.wrote {system next : System} {event : Event} {log : RecordLog UInt8}
    (moved : Step fixedSizeLlseek system event next) (writes : event.operation.WritesSome)
    (represents : Represents system.kernel log) (free : system.kernel.device.lock = false) :
    ∃ file call position, event.operation = .write file call ∧
      Wrote system.kernel (system.fPos file) call
        (.returned event.retval position next.kernel event.delivered) := by
  obtain ⟨position, kernel, returned, rfl⟩ := moved
  cases operation : event.operation with
  | write file call =>
      rw [operation] at returned writes
      have wrote := aesdWrite_wrote represents free (system.fPos file) writes
      have ran : aesdWrite system.kernel (system.fPos file) call =
        .returned event.retval position kernel event.delivered := returned
      rw [ran] at wrote
      exact ⟨file, call, position, rfl, wrote⟩
  | read file call | llseek file call | ioctl file call =>
      rw [operation] at writes
      exact writes.elim

end Runs

end Aesd.Driver
