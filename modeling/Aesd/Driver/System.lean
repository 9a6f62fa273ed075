import Aesd.Driver.OperationProperties
import Aesd.Library.Transition

/-!
# Runs of the driver

Any number of open descriptors share the device, each with a position of its
own that starts at 0. A step is one file operation that returns; its event
records what was returned. The log of a run is computed from its events.
-/

set_option autoImplicit false

namespace Aesd.Driver

open Transition

inductive Operation where
  | read (file : Nat) (call : ReadCall)
  | write (file : Nat) (call : WriteCall)
  | llseek (file : Nat) (call : LlseekCall)
  | ioctl (file : Nat) (call : IoctlCall)

def Operation.file : Operation → Nat
  | .read file _ | .write file _ | .llseek file _ | .ioctl file _ => file

structure System where
  kernel : Kernel
  fPos : Nat → Int

def operate (fixedSizeLlseek : FixedSizeLlseek) (system : System) : Operation → Outcome
  | .read file call => aesdRead system.kernel (system.fPos file) call
  | .write file call => aesdWrite system.kernel (system.fPos file) call
  | .llseek file call => aesdLlseek fixedSizeLlseek system.kernel (system.fPos file) call
  | .ioctl file call => aesdUnlockedIoctl system.kernel (system.fPos file) call

structure Event where
  operation : Operation
  retval : Int
  delivered : List UInt8

def Step (fixedSizeLlseek : FixedSizeLlseek) (system : System) (event : Event) (next : System) :
    Prop :=
  ∃ position kernel, operate fixedSizeLlseek system event.operation =
      .returned event.retval position kernel event.delivered ∧
    next = ⟨kernel, Function.update system.fPos event.operation.file position⟩

def System.after (fixedSizeLlseek : FixedSizeLlseek) (system : System) (operation : Operation) :
    System :=
  match operate fixedSizeLlseek system operation with
  | .returned _ position kernel _ =>
      ⟨kernel, Function.update system.fPos operation.file position⟩
  | .blocked | .oops => system

theorem System.after_step {fixedSizeLlseek : FixedSizeLlseek} {system : System}
    {operation : Operation} {retval position : Int} {kernel : Kernel} {delivered : List UInt8}
    (returned : operate fixedSizeLlseek system operation =
      .returned retval position kernel delivered) :
    Step fixedSizeLlseek system ⟨operation, retval, delivered⟩
      (system.after fixedSizeLlseek operation) := by
  refine ⟨position, kernel, returned, ?_⟩
  rw [System.after, returned]

def System.openFile (system : System) (file : Nat) : System :=
  { system with fPos := Function.update system.fPos file 0 }

/-- The device that a successful `aesd_init_module` sets up, no position moved. -/
def Loaded (system : System) : Prop :=
  (∃ kernel allocChrdevRegion, 0 ≤ allocChrdevRegion ∧
    aesdInitModule kernel allocChrdevRegion 0 = (0, system.kernel)) ∧
  ∀ file, system.fPos file = 0

def loadedSystem : System where
  kernel := ⟨⟨aesdCircularBufferInit, ⟨none, 0⟩, false⟩, .empty⟩
  fPos := fun _ => 0

theorem loadedSystem_loaded : Loaded loadedSystem :=
  ⟨⟨loadedSystem.kernel, 0, Int.le_refl 0, rfl⟩, fun _ => rfl⟩

/-- `fixed_size_llseek` as the kernel implements it: the position reached must
lie between 0 and the size, and a failure leaves the position alone. -/
def vfsFixedSizeLlseek : FixedSizeLlseek := fun position off whence size =>
  let target := if whence = 0 then off else if whence = 1 then position + off else size + off
  if whence = 1 ∧ off = 0 then (position, position)
  else if whence < 0 ∨ 2 < whence ∨ target < 0 ∨ size < target then (-einval, position)
  else (target, target)

/-- The largest request that the kernel's `kmalloc` grants, 4 MiB. -/
def kmallocMaxSize : Nat := 4 * 1024 * 1024

def Kmalloc.offering (address : Option Address) : Kmalloc where
  answer := fun size => if size ≤ kmallocMaxSize then address else none
  garbage := fun _ => 0

def WriteCall.whole (data : List UInt8) (kBuf tempBuf : Option Address) : WriteCall where
  data := data
  interrupted := false
  kBuf := .offering kBuf
  notCopied := 0
  uncopied := fun _ => 0
  tempBuf := .offering tempBuf

def oneCommand : System :=
  loadedSystem.after vfsFixedSizeLlseek (.write 0 (.whole [104, 105, newline] (some 1) none))

theorem oneCommand_reached : Run (Step vfsFixedSizeLlseek) loadedSystem
    [⟨.write 0 (.whole [104, 105, newline] (some 1) none), 3, []⟩] oneCommand :=
  .single (System.after_step rfl)

def pendingByte : System :=
  oneCommand.after vfsFixedSizeLlseek (.write 0 (.whole [98] (some 2) none))

theorem pendingByte_reached : Run (Step vfsFixedSizeLlseek) loadedSystem
    [⟨.write 0 (.whole [104, 105, newline] (some 1) none), 3, []⟩,
      ⟨.write 0 (.whole [98] (some 2) none), 1, []⟩] pendingByte :=
  .cons (System.after_step rfl) (.single (System.after_step rfl))

/-- The bytes a call accepts: the first `usr_count` of its buffer, none on failure. -/
def Event.accepted (event : Event) : List UInt8 :=
  match event.operation with
  | .write _ call => if event.retval < 0 then [] else call.accepted
  | _ => []

/-- A completing call succeeds with its whole buffer, whose last byte is a newline. -/
def Event.completing (event : Event) : Bool :=
  match event.operation with
  | .write _ call => decide (0 ≤ event.retval) && decide (call.usrCount = call.data.length) &&
      decide (call.data.getLast? = some newline)
  | _ => false

def logNext (log : RecordLog UInt8) (event : Event) : RecordLog UInt8 :=
  log.append event.accepted event.completing

def commandLog (events : List Event) : RecordLog UInt8 := events.foldl logNext .empty

/-- Writes pad short copies with zero bytes, as `copy_from_user` does. -/
def Operation.ZeroFills : Operation → Prop
  | .write _ call => call.ZeroFills
  | _ => True

def Operation.Limited (limit : Nat) : Operation → Prop
  | .write _ call => ∀ size, limit < size → call.kBuf.answer size = none ∧
      call.tempBuf.answer size = none
  | _ => True

@[simp]
theorem WriteCall.zeroFills_whole (data : List UInt8) (kBuf tempBuf : Option Address) :
    (WriteCall.whole data kBuf tempBuf).ZeroFills :=
  fun _ => rfl

@[simp]
theorem Operation.zeroFills_whole (file : Nat) (data : List UInt8)
    (kBuf tempBuf : Option Address) :
    (Operation.write file (.whole data kBuf tempBuf)).ZeroFills :=
  WriteCall.zeroFills_whole data kBuf tempBuf

/-- The allocator of a whole write refuses what `kmalloc` refuses. -/
@[simp]
theorem Operation.limited_whole (file : Nat) (data : List UInt8)
    (kBuf tempBuf : Option Address) :
    (Operation.write file (.whole data kBuf tempBuf)).Limited kmallocMaxSize := by
  intro size above
  simp [WriteCall.whole, Kmalloc.offering, above]

theorem Loaded.represents {system : System} (loaded : Loaded system) :
    Represents system.kernel .empty ∧ system.kernel.device.lock = false := by
  obtain ⟨⟨_, _, registered, initialised⟩, _⟩ := loaded
  exact represents_init initialised registered

theorem Event.completing_ends {event : Event} (completes : event.completing = true) :
    event.accepted.getLast? = some newline := by
  unfold Event.completing at completes
  split at completes
  · next file call written =>
      simp only [Bool.and_eq_true, decide_eq_true_eq] at completes
      obtain ⟨⟨success, whole⟩, last⟩ := completes
      have notFailed : ¬event.retval < 0 := by omega
      simp only [Event.accepted, written, notFailed, ↓reduceIte, WriteCall.accepted, whole,
        List.take_length]
      exact last
  · cases completes

theorem commandLog_ends (events : List Event) :
    ∀ command ∈ (commandLog events).completed, command.getLast? = some newline := by
  suffices general : ∀ log : RecordLog UInt8,
      (∀ command ∈ log.completed, command.getLast? = some newline) →
      ∀ command ∈ (events.foldl logNext log).completed, command.getLast? = some newline from
    general .empty (by simp [RecordLog.empty])
  induction events with
  | nil => exact fun _ ends => ends
  | cons event events ih =>
      intro log ends
      refine ih _ (RecordLog.forall_completed_append ends fun completes => ?_)
      rw [List.getLast?_append, event.completing_ends completes]
      rfl

theorem commandLog_readable {events : List Event}
    (fits : (liveContents (commandLog events)).length < 2 ^ 31) : Readable (commandLog events) where
  solid := by
    rintro command member rfl
    exact absurd (commandLog_ends events [] (List.mem_of_mem_drop member)) (by simp)
  fits := fits

section Steps

variable {fixedSizeLlseek : FixedSizeLlseek} {system next : System} {event : Event}
  {log : RecordLog UInt8}

/-- One operation: either the data stays, or a write appended what it accepted. -/
theorem Step.represents (moved : Step fixedSizeLlseek system event next)
    (represents : Represents system.kernel log) :
    (Represents next.kernel log ∧ ∀ file call, event.operation = .write file call →
      event.retval < 0) ∨
    ∃ file call, event.operation = .write file call ∧ event.retval = call.usrCount ∧
      Represents next.kernel (log.append call.accepted call.closes) ∧
      call.Granted (log.pending ++ call.accepted).length := by
  obtain ⟨position, kernel, returned, rfl⟩ := moved
  rcases event with ⟨operation, retval, delivered⟩
  cases operation with
  | read file call =>
      obtain ⟨rfl, _⟩ := aesdRead_returned returned
      exact .inl ⟨represents, fun _ _ same => by cases same⟩
  | write file call =>
      rcases aesdWrite_returned represents returned with
        ⟨negative, _, kept, _⟩ | ⟨count, _, grown, _, _, granted⟩
      · exact .inl ⟨kept, fun _ _ _ => negative⟩
      · exact .inr ⟨file, call, rfl, count, grown, granted⟩
  | llseek file call =>
      obtain ⟨rfl, _⟩ := aesdLlseek_returned returned
      exact .inl ⟨represents, fun _ _ same => by cases same⟩
  | ioctl file call =>
      obtain ⟨same, _⟩ := aesdUnlockedIoctl_returned returned
      exact .inl ⟨(same.represents_iff log).mpr represents, fun _ _ same => by cases same⟩

/-- With zero padding, the event of an operation moves the log as the operation
moves the device: not at all, or by what a write was granted memory for. -/
theorem Step.logNext_cases (moved : Step fixedSizeLlseek system event next)
    (zeroFills : event.operation.ZeroFills) (represents : Represents system.kernel log) :
    (logNext log event = log ∧ Represents next.kernel log) ∨
    ∃ file call, event.operation = .write file call ∧
      logNext log event = log.append call.accepted call.closes ∧
      Represents next.kernel (log.append call.accepted call.closes) ∧
      call.Granted (log.pending ++ call.accepted).length := by
  rcases moved.represents represents with
    ⟨kept, failed⟩ | ⟨file, call, written, count, grown, granted⟩
  · refine .inl ⟨?_, kept⟩
    unfold logNext Event.accepted Event.completing
    split
    · next file call written =>
        have negative := failed file call written
        have notSuccess : ¬0 ≤ event.retval := by omega
        simp [negative, notSuccess]
    · exact RecordLog.append_nothing log
  · refine .inr ⟨file, call, written, ?_, grown, granted⟩
    have fills : call.ZeroFills := by simpa [Operation.ZeroFills, written] using zeroFills
    have success : ¬event.retval < 0 := by omega
    have closes : event.completing = call.closes := by
      rw [Bool.eq_iff_iff, WriteCall.closes_iff fills]
      simp [Event.completing, written, count]
    have accepted : event.accepted = call.accepted := by
      simp [Event.accepted, written, success]
    rw [logNext, accepted, closes]

theorem Step.represents_logNext (moved : Step fixedSizeLlseek system event next)
    (zeroFills : event.operation.ZeroFills) (represents : Represents system.kernel log) :
    Represents next.kernel (logNext log event) := by
  rcases moved.logNext_cases zeroFills represents with ⟨same, kept⟩ | ⟨_, _, _, same, grown, _⟩
  · rwa [same]
  · rwa [same]

end Steps

section Runs

variable {fixedSizeLlseek : FixedSizeLlseek} {first last : System} {events : List Event}

theorem run_represents (run : Run (Step fixedSizeLlseek) first events last)
    (represents : ∃ log, Represents first.kernel log) : ∃ log, Represents last.kernel log := by
  refine run.invariant (fun _ => True) (fun system => ∃ log, Represents system.kernel log) ?_
    (fun _ _ => trivial) represents
  rintro state event after _ ⟨log, holds⟩ moved
  rcases moved.represents holds with ⟨kept, _⟩ | ⟨_, _, _, _, grown, _⟩
  · exact ⟨log, kept⟩
  · exact ⟨_, grown⟩

theorem run_represents_commandLog (run : Run (Step fixedSizeLlseek) first events last)
    (loaded : Loaded first) (zeroFills : ∀ event ∈ events, event.operation.ZeroFills) :
    Represents last.kernel (commandLog events) :=
  run.simulates (fun event => event.operation.ZeroFills)
    (fun system log => Represents system.kernel log)
    (fun _ _ _ _ fills represents moved => moved.represents_logNext fills represents)
    zeroFills loaded.represents.1

end Runs

end Aesd.Driver
