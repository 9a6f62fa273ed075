import Aesd.Driver.LockDiscipline

/-!
# Writes that accept their whole buffer

Such a write closes a command exactly when its buffer ends in a newline, so a
run of them cuts what it writes into commands at the ends of buffers.
-/

set_option autoImplicit false

namespace Aesd.Driver

open Transition

def Event.data (event : Event) : List UInt8 :=
  match event.operation with
  | .write _ call => call.data
  | _ => []

structure Event.WritesWhole (event : Event) : Prop where
  write : ∃ file call, event.operation = .write file call
  nonempty : event.data ≠ []
  counted : event.retval = event.data.length

section Steps

variable {fixedSizeLlseek : FixedSizeLlseek} {system next : System} {event : Event}
  {log : RecordLog UInt8}

theorem Step.represents_data (moved : Step fixedSizeLlseek system event next)
    (whole : event.WritesWhole) (represents : Represents system.kernel log) :
    Represents next.kernel
      (log.append event.data (decide (event.data.getLast? = some newline))) := by
  obtain ⟨⟨file, call, written⟩, nonempty, counted⟩ := whole
  have data : event.data = call.data := by simp [Event.data, written]
  rw [data] at nonempty counted ⊢
  rcases moved.represents represents with ⟨_, failed⟩ | ⟨_, _, same, count, grown, _⟩
  · have negative := failed file call written
    omega
  · cases written.symm.trans same
    have full : call.usrCount = call.data.length := by omega
    have accepted : call.accepted = call.data := by
      rw [WriteCall.accepted, full, List.take_length]
    have closes : call.closes = decide (call.data.getLast? = some newline) := by
      simp [WriteCall.closes, WriteCall.copied, full]
    rwa [accepted, closes] at grown

end Steps

theorem run_represents_pieces {fixedSizeLlseek : FixedSizeLlseek} {first last : System}
    {events : List Event} {log : RecordLog UInt8}
    (run : Run (Step fixedSizeLlseek) first events last)
    (whole : ∀ event ∈ events, event.WritesWhole) (represents : Represents first.kernel log) :
    Represents last.kernel (log.appendPieces newline (events.map Event.data)) := by
  induction run generalizing log with
  | refl => exact represents
  | cons moved _ ih =>
      exact ih (fun event member => whole event (List.mem_cons_of_mem _ member))
        (moved.represents_data (whole _ List.mem_cons_self) represents)

/-- Right after loading, any one line that the allocator grants can be written. -/
theorem line_written (body : List UInt8) (granted : body.length + 1 ≤ kmallocMaxSize) :
    let event : Event :=
      ⟨.write 0 (.whole (body ++ [newline]) (some 1) none), (body ++ [newline]).length, []⟩
    ∃ next, Step vfsFixedSizeLlseek loadedSystem event next ∧ next.kernel.device.lock = false ∧
      next.kernel.ringBytes = [body ++ [newline]] := by
  intro event
  have nonempty : body ++ [newline] ≠ [] := by simp
  obtain ⟨represents, free⟩ := loadedSystem_loaded.represents
  have fresh : kmalloc loadedSystem.kernel.memory (.offering (some 1))
      (body ++ [newline]).length ≠ none := by
    simp [kmalloc, Kmalloc.offering, granted, loadedSystem, Memory.empty]
  obtain ⟨kernel, position, returned⟩ : ∃ kernel position, aesdWrite loadedSystem.kernel 0
      (.whole (body ++ [newline]) (some 1) none) =
        .returned (body ++ [newline]).length position kernel [] := by
    have wrote : Wrote loadedSystem.kernel 0 (.whole (body ++ [newline]) (some 1) none)
      (aesdWrite loadedSystem.kernel 0 (.whole (body ++ [newline]) (some 1) none)) :=
        aesdWrite_wrote represents free 0 nonempty
    generalize aesdWrite loadedSystem.kernel 0 _ = outcome at wrote ⊢
    cases wrote with
    | interrupted interrupted => cases interrupted
    | noKBuf _ refused => exact absurd refused fresh
    | noTempBuf _ _ _ waiting _ => exact absurd rfl waiting
    | stored _ _ _ _ => exact ⟨_, _, rfl⟩
  have moved : Step vfsFixedSizeLlseek loadedSystem event
      ⟨kernel, Function.update loadedSystem.fPos 0 position⟩ := ⟨_, _, returned, rfl⟩
  have grown := moved.represents_data ⟨⟨0, _, rfl⟩, nonempty, rfl⟩ represents
  have ends : (body ++ [newline]).getLast? = some newline := List.getLast?_concat
  refine ⟨_, moved, (moved.releases_iff free).mpr id, ?_⟩
  rw [grown.ringBytes_eq]
  simp [event, Event.data, WriteCall.whole, ends, RecordLog.empty, RecordLog.retained, List.rtake]

end Aesd.Driver
