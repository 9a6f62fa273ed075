import Aesd.Driver.AccessRanges
import Aesd.Driver.LockDiscipline
import Aesd.Driver.Sections

/-!
# The driver called by many processes

Processes take their actions in any order. What they see is what the operations
return when each is executed as a whole, and the device holds the log of these.
-/

set_option autoImplicit false

namespace Aesd.Driver

open MachineInt Transition

/-- How an operation ends whose section was executed without interruption. -/
def outcomeOf (file : Nat) : Option ((Answer × Bool) × System) → Outcome
  | none => .oops
  | some (((retval, delivered), gives), after) =>
      .returned retval (after.fPos file) (if gives then mutexUnlock after.kernel else after.kernel)
        delivered

section Outcomes

variable (file : Nat) (system : System)

@[simp] theorem exec_onMemory {Value : Type}
    (access : Memory UInt8 → Option (Value × Memory UInt8)) :
    (onMemory access).exec system = (access system.kernel.memory).map fun taken =>
      (taken.1, system.setMemory taken.2) :=
  Program.exec_perform _ _

theorem outcomeOf_read (call : ReadCall) :
    outcomeOf file ((aesdReadSection file call).exec system) =
      aesdReadLocked (system.fPos file) call system.kernel := by
  unfold aesdReadSection aesdReadLocked
  simp only [Program.exec_bind, Program.exec_load, Option.bind_some]
  cases aesdCircularBufferFindEntryOffsetForFpos system.kernel.device.circularBuffer
      (sizeOfLoff (system.fPos file)) with
  | none => rfl
  | some found =>
      simp only [Program.exec_bind, Program.exec_load, Option.bind_some, exec_onMemory]
      cases (system.kernel.device.circularBuffer.slot found.1).buffptr.bind fun buffptr =>
          system.kernel.memory.readRange buffptr found.2 (min (toSizeT
            (((system.kernel.device.circularBuffer.slot found.1).size : Int) - found.2)) call.count)
        with
      | none => rfl
      | some bytes =>
          simp only [Option.map_some, Option.bind_some]
          split
          · rfl
          · simp [outcomeOf, System.setPos, System.setMemory]

theorem outcomeOf_finishWrite (usrCount : Nat) (last : UInt8) :
    outcomeOf file ((finishWrite file usrCount last).exec system) =
      .returned usrCount (system.fPos file + usrCount)
        (mutexUnlock (if last = newline then commitBufferEntry system.kernel else system.kernel))
        [] := by
  unfold finishWrite
  simp only [Program.exec_bind, Program.exec_store, Option.bind_some]
  split
  · simp [outcomeOf, System.setPos, System.setMemory, System.setEntry, System.setBuffer,
      commitBufferEntry]
  · simp [outcomeOf, System.setPos]

theorem outcomeOf_fill (kBuf : Address) (usrCount : Nat) (last : UInt8) (call : Kmalloc) :
    outcomeOf file ((fillSection file kBuf usrCount last call).exec system) =
      match fillBufferEntry system.kernel kBuf usrCount call with
      | .noMemory => .returned (-enomem) (system.fPos file) (mutexUnlock system.kernel) []
      | .oops => .oops
      | .filled filled =>
          .returned usrCount (system.fPos file + usrCount)
            (mutexUnlock (if last = newline then commitBufferEntry filled else filled)) [] := by
  unfold fillSection fillBufferEntry kmallocAction
  simp only [Program.exec_bind, Program.exec_load, Option.bind_some]
  split
  · simp only [Program.exec_bind, Program.exec_store, Option.bind_some, outcomeOf_finishWrite]
    rfl
  · simp only [Program.exec_bind, exec_onMemory]
    cases kmalloc system.kernel.memory call (system.kernel.device.bufferEntry.size + usrCount) with
    | none => rfl
    | some granted =>
        simp only [Option.map_some, Option.bind_some, Program.exec_bind, exec_onMemory,
          Program.exec_store, System.setMemory]
        cases system.kernel.device.bufferEntry.buffptr.bind fun previous =>
            granted.2.copyRange granted.1 0 previous 0 system.kernel.device.bufferEntry.size with
        | none => rfl
        | some moved =>
            simp only [Option.map_some, Option.bind_some]
            cases moved.copyRange granted.1 system.kernel.device.bufferEntry.size kBuf 0 usrCount with
            | none => rfl
            | some merged =>
                simp only [Option.map_some, Option.bind_some, outcomeOf_finishWrite]
                rfl

theorem outcomeOf_write (call : WriteCall) :
    outcomeOf file ((aesdWriteSection file call).exec system) =
      aesdWriteLocked (system.fPos file) call system.kernel := by
  unfold aesdWriteSection aesdWriteLocked
  rw [kmallocAction, Program.exec_bind, exec_onMemory]
  cases kmalloc system.kernel.memory call.kBuf call.data.length with
  | none => rfl
  | some granted =>
      obtain ⟨kBuf, memory⟩ := granted
      simp only [Option.map_some, Option.bind_some, Program.exec_bind, exec_onMemory]
      cases written : memory.writeRange kBuf 0 call.copied with
      | none => simp [System.setMemory, written, outcomeOf]
      | some memory =>
          simp only [System.setMemory, written, Option.map_some, Option.bind_some]
          cases memory.load kBuf ((call.data.length : Int) - 1) with
          | none => rfl
          | some last =>
              simp only [Option.map_some, Option.bind_some]
              exact outcomeOf_fill file _ kBuf call.usrCount last call.tempBuf

end Outcomes

theorem refusal_ioctl_eq_none_iff {file : Nat} {call : IoctlCall} :
    (Operation.ioctl file call).refusal = none ↔ call.Seeks := by
  rw [Operation.refusal]
  constructor
  · intro admitted
    split at admitted
    · next command =>
        split at admitted
        · cases admitted
        · next copied =>
            split at admitted
            · cases admitted
            · next uninterrupted =>
                exact ⟨command, Bool.eq_false_iff.mpr copied, Bool.eq_false_iff.mpr uninterrupted⟩
    · cases admitted
  · intro seeks
    simp [seeks.command, seeks.copied, seeks.uninterrupted]

section Atomicity

variable {fixedSizeLlseek : FixedSizeLlseek} {system next : System} {operation : Operation}

/-- Behind the lock, an operation is its section executed as a whole. -/
theorem operate_section (admitted : operation.refusal = none)
    (free : system.kernel.device.lock = false) :
    operate fixedSizeLlseek system operation =
      outcomeOf operation.file
        ((operation.body fixedSizeLlseek).exec (system.setLock true)) := by
  cases operation with
  | read file call =>
      have uninterrupted : call.interrupted = false := by simpa [Operation.refusal] using admitted
      rw [operate, aesdRead, uninterrupted, underLock_of_free free]
      exact (outcomeOf_read file (system.setLock true) call).symm
  | write file call =>
      have uninterrupted : call.interrupted = false := by simpa [Operation.refusal] using admitted
      rw [operate, aesdWrite, uninterrupted, underLock_of_free free]
      exact (outcomeOf_write file (system.setLock true) call).symm
  | llseek file call =>
      have uninterrupted : call.interrupted = false := by simpa [Operation.refusal] using admitted
      rw [operate, aesdLlseek, uninterrupted, underLock_of_free free]
      simp [outcomeOf, Operation.body, aesdLlseekSection, System.setLock, System.setPos,
        Operation.file]
  | ioctl file call =>
      have seeks := refusal_ioctl_eq_none_iff.mp admitted
      simp only [operate, aesdUnlockedIoctl, seeks.command, seeks.copied, seeks.uninterrupted,
        ↓reduceIte, Bool.false_eq_true, aesdAdjustFileOffset, underLock_of_free free,
        Operation.body, aesdAdjustFileOffsetSection, Operation.file]
      split
      · rfl
      · simp [outcomeOf, System.setLock, System.setPos]

theorem operate_refused {answer : Answer} (refused : operation.refusal = some answer) :
    operate fixedSizeLlseek system operation =
      .returned answer.1 (system.fPos operation.file) system.kernel answer.2 := by
  cases operation with
  | read file call =>
      obtain ⟨interrupted, same⟩ := Option.ite_none_right_eq_some.mp refused
      cases same
      rw [operate, aesdRead, interrupted, underLock_interrupted, Operation.file]
  | write file call =>
      obtain ⟨interrupted, same⟩ := Option.ite_none_right_eq_some.mp refused
      cases same
      rw [operate, aesdWrite, interrupted, underLock_interrupted, Operation.file]
  | llseek file call =>
      obtain ⟨interrupted, same⟩ := Option.ite_none_right_eq_some.mp refused
      cases same
      rw [operate, aesdLlseek, interrupted, underLock_interrupted, Operation.file]
  | ioctl file call =>
      rw [operate, aesdUnlockedIoctl, Operation.file]
      rw [Operation.refusal] at refused
      split at refused
      · next command =>
          rw [if_pos command]
          split at refused
          · next failed =>
              cases refused
              rw [if_pos failed]
          · next copied =>
              obtain ⟨interrupted, same⟩ := Option.ite_none_right_eq_some.mp refused
              cases same
              rw [if_neg copied, aesdAdjustFileOffset, interrupted, underLock_interrupted]
      · next other =>
          cases refused
          rw [if_neg other]

theorem refusal_neg {answer : Answer} (refused : operation.refusal = some answer) :
    answer.1 < 0 := by
  have negative : ∀ {condition : Bool} {errno : Int}, 0 < errno →
      (if condition then some ((-errno, []) : Answer) else none) = some answer → answer.1 < 0 := by
    intro condition errno positive given
    obtain ⟨_, same⟩ := Option.ite_none_right_eq_some.mp given
    cases same
    exact Int.neg_neg_of_pos positive
  cases operation with
  | read | write | llseek => exact negative (by decide) refused
  | ioctl file call =>
      rw [Operation.refusal] at refused
      split at refused
      · split at refused
        · cases refused
          decide
        · exact negative (by decide) refused
      · cases refused
        decide

theorem operate_held (admitted : operation.refusal = none)
    (held : system.kernel.device.lock = true) :
    operate fixedSizeLlseek system operation = .blocked := by
  have blocked : ∀ fPos errno body, underLock system.kernel fPos false errno body = .blocked :=
    fun fPos errno body => by simp [underLock, mutexLockInterruptible, held]
  cases operation with
  | read file call =>
      have uninterrupted : call.interrupted = false := by simpa [Operation.refusal] using admitted
      rw [operate, aesdRead, uninterrupted, blocked]
  | write file call =>
      have uninterrupted : call.interrupted = false := by simpa [Operation.refusal] using admitted
      rw [operate, aesdWrite, uninterrupted, blocked]
  | llseek file call =>
      have uninterrupted : call.interrupted = false := by simpa [Operation.refusal] using admitted
      rw [operate, aesdLlseek, uninterrupted, blocked]
  | ioctl file call =>
      have seeks := refusal_ioctl_eq_none_iff.mp admitted
      simp [operate, aesdUnlockedIoctl, seeks.command, seeks.copied, aesdAdjustFileOffset,
        seeks.uninterrupted, blocked]

/-- A section moves no position but that of its own descriptor. -/
theorem exec_body_fPos {result : Answer × Bool} {after : System}
    (ran : (operation.body fixedSizeLlseek).exec system = some (result, after)) :
    after.fPos = Function.update system.fPos operation.file (after.fPos operation.file) := by
  have framed : Framed operation.file fun other =>
      ∀ file ≠ operation.file, other.fPos file = system.fPos file := by
    constructor
    · exact fun _ _ same => same
    · exact fun _ _ same => same
    · exact fun _ _ same => same
    · intro other position same file apart
      exact (Function.update_of_ne apart _ _).trans (same file apart)
  have kept := (framed.body fixedSizeLlseek).exec (fun _ _ => rfl) ran
  funext file
  by_cases own : file = operation.file
  · rw [own, Function.update_self]
  · rw [Function.update_of_ne own]
    exact kept file own

theorem leave_device (gives : Bool) (after : System) :
    (device fixedSizeLlseek).leave gives after =
      ⟨if gives then mutexUnlock after.kernel else after.kernel, after.fPos⟩ := by
  cases gives <;> rfl

/-- Used by one process at a time, the object is the driver of the other modules. -/
theorem atomic_iff_step (answer : Answer) :
    (device fixedSizeLlseek).Atomic system (operation, answer) next ↔
      Step fixedSizeLlseek system ⟨operation, answer.1, answer.2⟩ next := by
  obtain ⟨retval, delivered⟩ := answer
  constructor
  · intro atomic
    cases atomic with
    | refused refused =>
        refine ⟨_, _, operate_refused refused, ?_⟩
        rw [Function.update_eq_self]
    | @ran _ _ gives after admitted free ran =>
        have whole := @operate_section fixedSizeLlseek system operation admitted free
        have executed : (operation.body fixedSizeLlseek).exec (system.setLock true) =
            some (((retval, delivered), gives), after) := ran
        rw [executed] at whole
        refine ⟨_, _, whole, ?_⟩
        rw [leave_device, exec_body_fPos executed]
        simp [System.setLock]
  · rintro ⟨position, kernel, returned, rfl⟩
    dsimp only at returned ⊢
    cases refused : operation.refusal with
    | some refusal =>
        rw [operate_refused refused] at returned
        obtain ⟨_, _⟩ := refusal
        cases returned
        rw [Function.update_eq_self]
        exact .refused refused
    | none =>
        cases lock : system.kernel.device.lock with
        | true =>
            rw [operate_held refused lock] at returned
            cases returned
        | false =>
            rw [operate_section refused lock] at returned
            cases ran : (operation.body fixedSizeLlseek).exec (system.setLock true) with
            | none =>
                rw [ran] at returned
                cases returned
            | some taken =>
                obtain ⟨⟨⟨_, _⟩, gives⟩, after⟩ := taken
                rw [ran] at returned
                cases returned
                have left : (device fixedSizeLlseek).Atomic system _ _ := .ran refused lock ran
                rw [leave_device, exec_body_fPos ran] at left
                exact left

end Atomicity

/-- An operation with what it returned, once it has taken effect. -/
def eventOf (taken : Operation × Answer) : Event := ⟨taken.1, taken.2.1, taken.2.2⟩

section Processes

variable {Process : Type} [DecidableEq Process] {fixedSizeLlseek : FixedSizeLlseek}
  {first last : Pool System Operation Answer Process}
  {labels : List (Process × Option (Moment Operation Answer))}

/-- The operations of a run in the order in which they took effect. -/
def eventsOf (labels : List (Process × Option (Moment Operation Answer))) : List Event :=
  (effects (moments labels)).map eventOf

theorem run_atomic {system after : System} {taken : List (Operation × Answer)}
    (run : Run (device fixedSizeLlseek).Atomic system taken after) :
    Run (Step fixedSizeLlseek) system (taken.map eventOf) after :=
  run.relabel eventOf fun _ _ _ atomic => (atomic_iff_step _).mp atomic

/-- Whatever processes call the driver and however their actions interleave, the
calls and returns are those of operations that take effect one at a time, each
between its call and its return. -/
theorem operations_linearizable (idle : ∀ process, first.status process = .idle)
    (run : Run (device fixedSizeLlseek).PoolStep first labels last) :
    Linearizable (fun system taken next => Step fixedSizeLlseek system (eventOf taken) next)
      first.shared (visible (moments labels)) :=
  (Guarded.linearizable idle run).mono fun _ _ _ atomic => (atomic_iff_step _).mp atomic

end Processes

def twoProcesses : Pool System Operation Answer Nat := ⟨loadedSystem, fun _ => .idle⟩

/-- Process 1 calls a read while process 0 is inside its write. -/
def readDuringWrite : List (Nat × Option Operation) :=
  [(0, some (.write 0 (.whole [104, 105, newline] (some 1) none))), (0, none), (0, none),
    (1, some (.read 1 ⟨2, false, 0⟩)), (0, none), (0, none), (0, none), (0, none), (0, none),
    (0, none), (0, none), (0, none), (0, none), (1, none), (1, none), (1, none), (1, none),
    (0, none), (1, none), (1, none), (1, none)]

theorem twoProcesses_idle (process : Nat) : twoProcesses.status process = .idle := rfl

theorem operations_linearizable_read_during_write :
    Linearizable (fun system taken next => Step vfsFixedSizeLlseek system (eventOf taken) next)
      loadedSystem
      [(0, .invoke (.write 0 (.whole [104, 105, newline] (some 1) none))),
        (1, .invoke (.read 1 ⟨2, false, 0⟩)), (0, .respond (3, [])),
        (1, .respond (2, [104, 105]))] := by
  obtain ⟨labels, last, scheduled, seen⟩ : ∃ labels last,
      (device vfsFixedSizeLlseek).schedule twoProcesses readDuringWrite = some (labels, last) ∧
      visible (moments labels) = [(0, .invoke (.write 0 (.whole [104, 105, newline] (some 1) none))),
        (1, .invoke (.read 1 ⟨2, false, 0⟩)), (0, .respond (3, [])),
        (1, .respond (2, [104, 105]))] := ⟨_, _, rfl, rfl⟩
  rw [← seen]
  exact operations_linearizable twoProcesses_idle (Guarded.schedule_run scheduled)

section Processes

variable {Process : Type} [DecidableEq Process] {fixedSizeLlseek : FixedSizeLlseek}
  {first last : Pool System Operation Answer Process}
  {labels : List (Process × Option (Moment Operation Answer))}

theorem serialises_steps (idle : ∀ process, first.status process = .idle)
    (run : Run (device fixedSizeLlseek).PoolStep first labels last) :
    ∃ system, Run (Step fixedSizeLlseek) first.shared (eventsOf labels) system ∧
      (device fixedSizeLlseek).Between last system := by
  obtain ⟨system, atomic, between⟩ := Guarded.serialises idle run
  exact ⟨system, run_atomic atomic, between⟩

/-- Whenever no process is inside an operation, the device holds the last ten commands
that the operations have completed in their order of effect, and the rest of the
log as pending bytes. -/
theorem concurrent_runs_hold_log (loaded : Loaded first.shared)
    (idle : ∀ process, first.status process = .idle)
    (run : Run (device fixedSizeLlseek).PoolStep first labels last)
    (zeroFills : ∀ event ∈ eventsOf labels, event.operation.ZeroFills)
    (resting : ∀ process, ¬(last.status process).Inside) :
    last.shared.kernel.ringBytes = (commandLog (eventsOf labels)).retained 10 ∧
      last.shared.kernel.pendingBytes = (commandLog (eventsOf labels)).pending := by
  obtain ⟨system, steps, between⟩ := serialises_steps idle run
  have represents := run_represents_commandLog steps loaded zeroFills
  cases between with
  | resting => exact ⟨represents.ringBytes_eq, represents.pendingBytes_eq⟩
  | inside here => exact absurd (by rw [here]; trivial) (resting _)

theorem concurrent_runs_hold_log_read_during_write :
    ∃ labels last, Run (device vfsFixedSizeLlseek).PoolStep twoProcesses labels last ∧
      (last.shared.kernel.ringBytes = (commandLog (eventsOf labels)).retained 10 ∧
        last.shared.kernel.pendingBytes = (commandLog (eventsOf labels)).pending) ∧
      eventsOf labels = [⟨.write 0 (.whole [104, 105, newline] (some 1) none), 3, []⟩,
        ⟨.read 1 ⟨2, false, 0⟩, 2, [104, 105]⟩] := by
  obtain ⟨labels, last, scheduled, events, resting⟩ : ∃ labels last,
      (device vfsFixedSizeLlseek).schedule twoProcesses readDuringWrite = some (labels, last) ∧
      eventsOf labels = [⟨.write 0 (.whole [104, 105, newline] (some 1) none), 3, []⟩,
        ⟨.read 1 ⟨2, false, 0⟩, 2, [104, 105]⟩] ∧
      ∀ process, last.status process = .idle := by
    refine ⟨_, _, rfl, rfl, fun process => ?_⟩
    match process with
    | 0 | 1 | process + 2 => rfl
  have run := Guarded.schedule_run scheduled
  refine ⟨labels, last, run, concurrent_runs_hold_log loadedSystem_loaded twoProcesses_idle run ?_
    fun process inside => ?_, events⟩
  · rw [events]
    simp [Operation.ZeroFills]
  · simp [resting, Status.Inside] at inside

/-- Once a seek was rejected for its command index, nothing changes any more: the
calls that still return all fail, and the others wait for the lock for ever. -/
theorem rejected_seek_stops_driver {middle : Pool System Operation Answer Process}
    {process : Process} {operation : Operation} {answer : Answer}
    {later : List (Process × Option (Moment Operation Answer))}
    (idle : ∀ process, first.status process = .idle)
    (run : Run (device fixedSizeLlseek).PoolStep first
      (labels ++ [(process, some (.effect operation answer))]) middle)
    (rejected : operation.RejectedSeek)
    (after : Run (device fixedSizeLlseek).PoolStep middle later last) :
    answer = (-einval, []) ∧ last.shared = middle.shared ∧
      (∀ process, ¬(last.status process).Inside) ∧ ∀ event ∈ eventsOf later, event.retval < 0 := by
  obtain ⟨current, leading, step⟩ := run.split
  obtain ⟨system, _, between⟩ := serialises_steps idle leading
  cases operation with
  | read | write | llseek => exact rejected.elim
  | ioctl file call =>
      obtain ⟨seeks, outOfRange⟩ := rejected
      rw [← decodeWriteCmd_copyFromUser call.stack] at outOfRange
      have admitted : (Operation.ioctl file call).refusal = none :=
        refusal_ioctl_eq_none_iff.mpr seeks
      cases step with
      | cons moved done =>
          cases done
          obtain ⟨empty, gives, left, executed, shared⟩ :=
            between.effect moved admitted
          have whole : (aesdAdjustFileOffsetSection file
              (call.stack.copyFromUser call.user).writeCmd).exec (system.setLock true) =
              some ((answer, gives), left) := executed
          rw [aesdAdjustFileOffsetSection, aesdcharMaxWriteOperationsSupported,
            if_pos outOfRange] at whole
          cases whole
          have held : (device fixedSizeLlseek).held middle.shared = true := by
            rw [shared]
            rfl
          obtain ⟨same, out, refused⟩ := Guarded.stuck held empty after
          refine ⟨rfl, same, out, fun event member => ?_⟩
          obtain ⟨one, took, rfl⟩ := List.mem_map.mp member
          exact refusal_neg (refused one took)

end Processes

theorem rejected_seek_stops_driver_seek_to_ten :
    ∃ labels middle later last, Run (device vfsFixedSizeLlseek).PoolStep twoProcesses labels middle ∧
      Run (device vfsFixedSizeLlseek).PoolStep middle later last ∧
      (((-einval, []) : Answer) = (-einval, []) ∧ last.shared = middle.shared ∧
        (∀ process, ¬(last.status process).Inside) ∧
        ∀ event ∈ eventsOf later, event.retval < 0) ∧
      eventsOf later = [⟨.read 1 ⟨1, true, 0⟩, -eintr, []⟩] := by
  obtain ⟨labels, middle, scheduled⟩ : ∃ labels middle,
      (device vfsFixedSizeLlseek).schedule twoProcesses
        [(0, some (.ioctl 0 seekToTen)), (0, none), (0, none)] =
        some (labels ++ [(0, some (.effect (.ioctl 0 seekToTen) (-einval, [])))], middle) ∧
      ∃ later last, (device vfsFixedSizeLlseek).schedule middle
        [(1, some (.read 1 ⟨1, true, 0⟩)), (1, none)] = some (later, last) ∧
        eventsOf later = [⟨.read 1 ⟨1, true, 0⟩, -eintr, []⟩] :=
    ⟨[(0, some (.invoke (.ioctl 0 seekToTen))), (0, none)], _, rfl, _, _, rfl, rfl⟩
  obtain ⟨scheduled, later, last, goesOn, events⟩ := scheduled
  have run := Guarded.schedule_run scheduled
  have after := Guarded.schedule_run goesOn
  have rejected : (Operation.ioctl 0 seekToTen).RejectedSeek :=
    ⟨⟨rfl, rfl, rfl⟩, by decide⟩
  exact ⟨_, middle, later, last, run, after,
    rejected_seek_stops_driver twoProcesses_idle run rejected after, events⟩

end Aesd.Driver
