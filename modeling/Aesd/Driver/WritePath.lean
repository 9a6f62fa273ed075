import Aesd.Driver.WriteRuns

/-!
# The write path as a log of commands

Every sequence of writes from a loaded device returns, and leaves the ten newest
commands in the circular buffer and the bytes since the last one pending. A write
fails only where it is interrupted or memory is refused.
-/

set_option autoImplicit false

namespace Aesd.Driver

open Transition

theorem write_returns {fixedSizeLlseek : FixedSizeLlseek} {system : System}
    {log : RecordLog UInt8} (represents : Represents system.kernel log)
    (free : system.kernel.device.lock = false) (file : Nat) {call : WriteCall}
    (nonempty : call.data ≠ []) :
    ∃ event next, event.operation = .write file call ∧ Step fixedSizeLlseek system event next ∧
      next.kernel.device.lock = false := by
  rcases aesdWrite_cases represents free (system.fPos file) nonempty with
    ⟨errno, _, after, failed, _, device⟩ | ⟨after, succeeded, _, lock, _⟩
  · exact ⟨⟨.write file call, -errno, []⟩, _, rfl, ⟨_, _, failed, rfl⟩, by simp [device, free]⟩
  · exact ⟨⟨.write file call, call.usrCount, []⟩, _, rfl, ⟨_, _, succeeded, rfl⟩, lock⟩

theorem writes_run {fixedSizeLlseek : FixedSizeLlseek} {first : System}
    (represents : ∃ log, Represents first.kernel log) (free : first.kernel.device.lock = false)
    (calls : List (Nat × WriteCall)) (nonempty : ∀ call ∈ calls, call.2.data ≠ []) :
    ∃ events last, events.map Event.operation = calls.map (fun call => .write call.1 call.2) ∧
      Run (Step fixedSizeLlseek) first events last := by
  induction calls generalizing first with
  | nil => exact ⟨[], first, rfl, .refl⟩
  | cons call calls ih =>
      obtain ⟨log, holds⟩ := represents
      obtain ⟨event, next, written, moved, lock⟩ :=
        write_returns holds free call.1 (nonempty call List.mem_cons_self)
      obtain ⟨events, last, operations, run⟩ :=
        ih (run_represents (.single moved) ⟨log, holds⟩) lock
          fun later member => nonempty later (List.mem_cons_of_mem _ member)
      exact ⟨event :: events, last, by simp [written, operations], .cons moved run⟩

/-- The write path refines the log of commands: after any writes from a loaded
device, in any of their outcomes, the live entries are the last `min 10 n` of
the `n` completed commands and the pending entry holds what came after them. The
next write, uninterrupted and granted its memory, succeeds with `usr_count`. -/
theorem write_path_refines_command_log (fixedSizeLlseek : FixedSizeLlseek) {first : System}
    (loaded : Loaded first) (calls : List (Nat × WriteCall))
    (nonempty : ∀ call ∈ calls, call.2.data ≠ []) (zeroFills : ∀ call ∈ calls, call.2.ZeroFills) :
    (∃ events last, events.map Event.operation = calls.map (fun call => .write call.1 call.2) ∧
      Run (Step fixedSizeLlseek) first events last) ∧
    ∀ events last, events.map Event.operation = calls.map (fun call => .write call.1 call.2) →
      Run (Step fixedSizeLlseek) first events last →
      last.kernel.ringBytes = (commandLog events).completed.drop
        ((commandLog events).completed.length - min 10 (commandLog events).completed.length) ∧
      last.kernel.pendingBytes = (commandLog events).pending ∧
      last.kernel.device.circularBuffer.liveEntries.map AesdBufferEntry.size =
        last.kernel.ringBytes.map List.length ∧
      (∀ command ∈ last.kernel.ringBytes, command ≠ [] ∧ command.getLast? = some newline) ∧
      ∀ file call, call.data ≠ [] → call.interrupted = false →
        call.AllocationsSucceed last.kernel →
        ∃ position after, aesdWrite last.kernel (last.fPos file) call =
          .returned call.usrCount position after [] := by
  obtain ⟨represents, free⟩ := loaded.represents
  refine ⟨writes_run ⟨_, represents⟩ free calls nonempty, ?_⟩
  intro events last operations run
  have written : ∀ event ∈ events, ∃ call ∈ calls, event.operation = .write call.1 call.2 := by
    intro event member
    have isWrite : event.operation ∈ calls.map (fun call => Operation.write call.1 call.2) := by
      rw [← operations]
      exact List.mem_map_of_mem member
    obtain ⟨call, isCall, same⟩ := List.mem_map.mp isWrite
    exact ⟨call, isCall, same.symm⟩
  have fills : ∀ event ∈ events, event.operation.ZeroFills := by
    intro event member
    obtain ⟨call, isCall, same⟩ := written event member
    rw [same]
    exact zeroFills call isCall
  have writes : ∀ event ∈ events, event.operation.WritesSome := by
    intro event member
    obtain ⟨call, isCall, same⟩ := written event member
    rw [same]
    exact nonempty call isCall
  have final := run_represents_commandLog run loaded fills
  refine ⟨?_, final.pendingBytes_eq, ?_, ?_, ?_⟩
  · rw [final.ringBytes_eq, RecordLog.retained, List.rtake]
    congr 1
    omega
  · rw [final.ringBytes_eq]
    exact final.ring_sizes
  · intro command member
    rw [final.ringBytes_eq] at member
    have ends := commandLog_ends events command (List.mem_of_mem_drop member)
    refine ⟨?_, ends⟩
    rintro rfl
    cases ends
  · intro file call some_ uninterrupted allocated
    exact aesdWrite_granted final (run_of_writes_free run loaded writes) _ some_ uninterrupted
      allocated

/-- Two granted writes that make one command, and one that is refused its memory. -/
theorem write_path_refines_command_log_three_writes :
    let calls := [(0, WriteCall.whole [97] (some 1) none), (1, .whole [98, newline] (some 2) (some 3)),
      (0, .whole [99, newline] none none)]
    ∃ events last, events.map Event.operation = calls.map (fun call => .write call.1 call.2) ∧
      Run (Step vfsFixedSizeLlseek) loadedSystem events last ∧
      last.kernel.ringBytes = (commandLog events).completed.drop
        ((commandLog events).completed.length - min 10 (commandLog events).completed.length) ∧
      last.kernel.pendingBytes = (commandLog events).pending ∧
      last.kernel.device.circularBuffer.liveEntries.map AesdBufferEntry.size =
        last.kernel.ringBytes.map List.length ∧
      (∀ command ∈ last.kernel.ringBytes, command ≠ [] ∧ command.getLast? = some newline) ∧
      ∀ file call, call.data ≠ [] → call.interrupted = false →
        call.AllocationsSucceed last.kernel →
        ∃ position after, aesdWrite last.kernel (last.fPos file) call =
          .returned call.usrCount position after [] := by
  intro calls
  obtain ⟨⟨events, last, operations, run⟩, refines⟩ :=
    write_path_refines_command_log vfsFixedSizeLlseek loadedSystem_loaded calls
      (by simp [calls, WriteCall.whole]) (by simp [calls])
  exact ⟨events, last, operations, run, refines events last operations run⟩

end Aesd.Driver
