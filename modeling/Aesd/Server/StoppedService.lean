import Aesd.Server.ResponseProperties
import Aesd.Server.SeekLine

/-!
# One line stops the service

`read_char_device` does not look at what its ioctl returns. When the driver
rejects the seek, it keeps the device lock, and the handler goes on to a read
that waits for this lock, with `file_mutex` in its hands.
-/

set_option autoImplicit false

namespace Aesd.Server

open CText Driver Transition Exclusion

/-- A step of a handler when all calls but its seek succeed. -/
inductive SeekHandlerStep (fixedSizeLlseek : FixedSizeLlseek) (client : Nat) :
    Shared → Handler → Action → Shared → Handler → Prop where
  | succeeds {shared next handler after action} :
      HandlerStep fixedSizeLlseek client shared handler action next after →
      SeekHandlerStep fixedSizeLlseek client shared handler action next after
  | seekFails {shared locals stack retval system} : locals.foundIoctlCmd = true → retval < 0 →
      Step fixedSizeLlseek shared.system ⟨.ioctl client (seekIoctl locals stack), retval, []⟩
        system →
      SeekHandlerStep fixedSizeLlseek client shared ⟨locals, .opened⟩ .seek
        { shared with system } ⟨locals, .reading []⟩

def SeekServiceStep (fixedSizeLlseek : FixedSizeLlseek) (service : Service) (label : Nat × Action)
    (next : Service) : Prop :=
  ∃ shared handler,
    SeekHandlerStep fixedSizeLlseek label.1 service.shared (service.handler label.1) label.2
      shared handler ∧
    next = ⟨shared, Function.update service.handler label.1 handler⟩

/-- Steps that need neither the device nor the mutex. -/
def Action.Waits : Action → Prop
  | .receive _ | .disconnect => True
  | _ => False

/-- The driver reads a command index that it rejects. -/
def HandlerLocals.SeeksBeyond (locals : HandlerLocals) : Prop :=
  10 ≤ (decodeWriteCmd (encodeSeekto locals.writeCmd locals.writeCmdOffset).writeCmd).toNat

/-- A handler that waits for the device lock in a read, owning `file_mutex`. -/
structure Service.Stopped (service : Service) (client : Nat) : Prop where
  reading : ∃ got, (service.handler client).phase = .reading got
  owner : service.shared.fileMutex = some client
  held : service.shared.system.kernel.device.lock = true

def Service.Excludes (service : Service) : Prop :=
  Exclusive Phase.Locked (fun client => (service.handler client).phase) service.shared.fileMutex

section Handlers

variable {fixedSizeLlseek : FixedSizeLlseek} {client : Nat} {shared next : Shared}
  {handler after : Handler} {action : Action}

theorem SeekHandlerStep.passage
    (moved : SeekHandlerStep fixedSizeLlseek client shared handler action next after) :
    Passage Phase.Locked client handler.phase after.phase shared.fileMutex next.fileMutex := by
  cases moved with
  | succeeds moved => exact moved.passage
  | seekFails => exact .stay Iff.rfl

/-- Outside of the mutex that another handler owns, one can receive or give up. -/
theorem SeekHandlerStep.waits
    (moved : SeekHandlerStep fixedSizeLlseek client shared handler action next after)
    (outside : ¬handler.phase.Locked) (held : shared.fileMutex ≠ none) :
    next = shared ∧ action.Waits := by
  cases moved with
  | succeeds moved =>
      refine ⟨moved.waits outside held, ?_⟩
      cases moved with
      | receive | disconnect => trivial
      | lockChunk | lockRequest => exact absurd rfl held
      | write | unlockChunk | seek | startReading | read | unlockRequest =>
          exact absurd trivial outside
  | seekFails => exact absurd trivial outside

theorem aesdRead_held {kernel : Kernel} (held : kernel.device.lock = true) (fPos : Int)
    (call : ReadCall) {retval position : Int} {left : Kernel} {delivered : List UInt8}
    (returned : aesdRead kernel fPos call = .returned retval position left delivered) :
    retval < 0 := by
  cases interrupted : call.interrupted with
  | true =>
      rw [aesdRead, interrupted] at returned
      cases returned
      decide
  | false => simp [aesdRead, interrupted, underLock, mutexLockInterruptible, held] at returned

/-- Its own owner does not get on either. -/
theorem SeekHandlerStep.stuck {locals : HandlerLocals} {got : List UInt8}
    (moved : SeekHandlerStep fixedSizeLlseek client shared ⟨locals, .reading got⟩ action next after)
    (held : shared.system.kernel.device.lock = true) : False := by
  cases moved with
  | succeeds moved =>
      cases moved with
      | read operation _ success read =>
          obtain ⟨position, kernel, returned, _⟩ := read
          rw [operation] at returned
          have failed := aesdRead_held held _ _ returned
          omega

/-- The device lock stays free, but for a seek that the driver rejects. -/
theorem SeekHandlerStep.lock
    (moved : SeekHandlerStep fixedSizeLlseek client shared handler action next after)
    (free : shared.system.kernel.device.lock = false) :
    next.system.kernel.device.lock = false ∨
      handler.phase = .opened ∧ after.phase = .reading [] ∧ next.fileMutex = shared.fileMutex := by
  cases moved with
  | succeeds moved =>
      refine .inl ?_
      cases moved with
      | receive | disconnect | unlockChunk | lockRequest | startReading | unlockRequest =>
          exact free
      | lockChunk => split <;> exact free
      | write whole _ wrote =>
          obtain ⟨file, call, written⟩ := whole.write
          exact (wrote.releases_iff free).mpr (by rw [written]; exact id)
      | seek _ sought =>
          obtain ⟨position, kernel, returned, rfl⟩ := sought
          rw [(aesdUnlockedIoctl_sought (seekIoctl_seeks _ _) returned).1]
          exact free
      | read operation _ _ read => exact (read.releases_iff free).mpr (by rw [operation]; exact id)
  | seekFails => exact .inr ⟨rfl, rfl, rfl⟩

end Handlers

section Services

variable {fixedSizeLlseek : FixedSizeLlseek} {first service next last : Service} {client : Nat}
  {label : Nat × Action} {labels : List (Nat × Action)}

theorem SeekServiceStep.excludes (moved : SeekServiceStep fixedSizeLlseek service label next)
    (excludes : service.Excludes) : next.Excludes := by
  obtain ⟨shared, handler, stepped, rfl⟩ := moved
  have after := @Exclusive.step _ _ _ _ _ _ label.1 _ _ excludes stepped.passage
  intro client
  have known := after client
  by_cases same : client = label.1
  · subst same
    simpa using known
  · simpa [same] using known

theorem Service.Stopped.step (stopped : service.Stopped client) (excludes : service.Excludes)
    (moved : SeekServiceStep fixedSizeLlseek service label next) :
    next.Stopped client ∧ next.shared = service.shared ∧ label.2.Waits := by
  obtain ⟨got, reading⟩ := stopped.reading
  obtain ⟨mover, action⟩ := label
  obtain ⟨shared, handler, stepped, rfl⟩ := moved
  dsimp only at stepped
  by_cases own : mover = client
  · subst own
    generalize service.handler mover = handling at stepped reading
    obtain ⟨locals, phase⟩ := handling
    cases reading
    exact (stepped.stuck stopped.held).elim
  · have outside : ¬(service.handler mover).phase.Locked := by
      intro inside
      have owner := (excludes mover).mp inside
      rw [stopped.owner] at owner
      exact own (Option.some.inj owner).symm
    obtain ⟨rfl, waits⟩ := stepped.waits outside (by simp [stopped.owner])
    refine ⟨⟨⟨got, ?_⟩, stopped.owner, stopped.held⟩, rfl, waits⟩
    simpa [Ne.symm own] using reading

theorem run_stopped (stopped : service.Stopped client) (excludes : service.Excludes)
    (run : Run (SeekServiceStep fixedSizeLlseek) service labels last) :
    last.shared = service.shared ∧ ∀ label ∈ labels, label.2.Waits := by
  obtain ⟨_, _, same, waits⟩ := run.recorded (fun current history => current.Stopped client ∧
    current.Excludes ∧ current.shared = service.shared ∧ ∀ label ∈ history, label.2.Waits)
    (by
      intro current history label after past moved
      obtain ⟨stopped, excludes, same, waits⟩ := past
      obtain ⟨still, unchanged, waiting⟩ := stopped.step excludes moved
      refine ⟨still, moved.excludes excludes, unchanged.trans same, fun other member => ?_⟩
      rcases List.mem_append.mp member with earlier | now
      · exact waits other earlier
      · rwa [List.mem_singleton.mp now])
    ⟨stopped, excludes, rfl, by simp⟩
  exact ⟨same, waits⟩

/-- In every run the device lock is held only by a service that has stopped. -/
theorem run_excludes (started : first.Started)
    (run : Run (SeekServiceStep fixedSizeLlseek) first labels last) :
    last.Excludes ∧ (last.shared.system.kernel.device.lock = false ∨
      ∃ client, last.Stopped client) := by
  refine run.invariant (fun _ => True) (fun current => current.Excludes ∧
    (current.shared.system.kernel.device.lock = false ∨ ∃ client, current.Stopped client)) ?_
    (fun _ _ => trivial) ⟨started.sound.exclusive, .inl started.loaded.represents.2⟩
  intro current label next _ holds moved
  obtain ⟨excludes, free | ⟨client, stopped⟩⟩ := holds
  · have after := moved.excludes excludes
    refine ⟨after, ?_⟩
    obtain ⟨shared, handler, stepped, rfl⟩ := moved
    rcases stepped.lock free with released | ⟨opened, reading, same⟩
    · exact .inl released
    · have owner := (excludes label.1).mp (by simp [opened, Phase.Locked])
      cases held : shared.system.kernel.device.lock with
      | false => exact .inl rfl
      | true => exact .inr ⟨label.1, ⟨[], by simp [reading]⟩, same.trans owner, held⟩
  · exact ⟨moved.excludes excludes, .inr ⟨client, (stopped.step excludes moved).1⟩⟩

theorem SeekServiceStep.of_handler {shared next : Shared} {handlers : Nat → Handler}
    {handler after : Handler} {action : Action} (here : handlers client = handler)
    (moved : SeekHandlerStep fixedSizeLlseek client shared handler action next after) :
    SeekServiceStep fixedSizeLlseek ⟨shared, handlers⟩ (client, action)
      ⟨next, Function.update handlers client after⟩ := by
  refine ⟨next, after, ?_, rfl⟩
  dsimp only
  rwa [here]

/-- What a handler does with such a line by itself, where it finds the mutex free. -/
theorem seekLine_run {system : System} (deviceFree : system.kernel.device.lock = false)
    {handlers : Nat → Handler} {locals : HandlerLocals}
    (receiving : handlers client = ⟨locals, .receiving⟩) {x y : List UInt8}
    (first : Numeral x) (second : Numeral y)
    (beyond : HandlerLocals.SeeksBeyond ⟨true, storeInt (decimalValue x), storeInt (decimalValue y)⟩)
    (stack : AesdSeekto) :
    ∃ stopped, Run (SeekServiceStep fixedSizeLlseek) ⟨⟨system, none⟩, handlers⟩
        [(client, .receive (seekLine x y)), (client, .lockChunk), (client, .unlockChunk),
          (client, .lockRequest), (client, .seek)] stopped ∧ stopped.Stopped client := by
  have nonempty : seekLine x y ≠ [] := by simp [seekLine, searchString]
  obtain ⟨sought, parsed, found, beyond⟩ : ∃ sought : HandlerLocals,
      receiveChunk locals (.served (seekLine x y)) = some ⟨sought, none, true⟩ ∧
        sought.foundIoctlCmd = true ∧ sought.SeeksBeyond :=
    ⟨_, receiveChunk_seekLine locals first second, rfl, beyond⟩
  obtain ⟨after, rejected, held⟩ : ∃ after, Step fixedSizeLlseek (system.openFile client)
      ⟨.ioctl client (seekIoctl sought stack), -einval, []⟩ after ∧
        after.kernel.device.lock = true := by
    have outcome := @aesdUnlockedIoctl_seek (system.openFile client).kernel _ deviceFree
      (seekIoctl_seeks sought stack) ((system.openFile client).fPos client)
    have large : 10 ≤ (decodeWriteCmd (seekIoctl sought stack).user.writeCmd).toNat := beyond
    rw [if_pos large] at outcome
    exact ⟨_, ⟨_, _, outcome, rfl⟩, rfl⟩
  refine ⟨_, .cons (.of_handler receiving (.succeeds (.receive nonempty)))
    (.cons (.of_handler (Function.update_self _ _ _) (.succeeds (.lockChunk parsed)))
    (.cons (.of_handler (Function.update_self _ _ _) (.succeeds .unlockChunk))
    (.cons (.of_handler (Function.update_self _ _ _) (.succeeds .lockRequest))
    (.single (.of_handler (Function.update_self _ _ _)
      (.seekFails found (by decide) rejected)))))), ?_⟩
  exact ⟨⟨[], by simp⟩, rfl, held⟩

/-- From any state of the service in which no handler owns `file_mutex`, one client
that sends `AESDCHAR_IOCSEEKTO:X,Y` with an index that the driver rejects stops
it: whatever happens later, nothing is written, read or answered any more. -/
theorem one_line_stops_service (started : first.Started)
    (reached : Run (SeekServiceStep fixedSizeLlseek) first labels service)
    (free : service.shared.fileMutex = none)
    (receiving : (service.handler client).phase = .receiving) {x y : List UInt8}
    (xNumeral : Numeral x) (yNumeral : Numeral y)
    (beyond : HandlerLocals.SeeksBeyond
      ⟨true, storeInt (decimalValue x), storeInt (decimalValue y)⟩) :
    ∃ stopped, Run (SeekServiceStep fixedSizeLlseek) service
        [(client, .receive (seekLine x y)), (client, .lockChunk), (client, .unlockChunk),
          (client, .lockRequest), (client, .seek)] stopped ∧
      ∀ later last, Run (SeekServiceStep fixedSizeLlseek) stopped later last →
        last.shared = stopped.shared ∧ ∀ label ∈ later, label.2.Waits := by
  obtain ⟨excludes, held⟩ := run_excludes started reached
  have deviceFree := held.resolve_right fun ⟨other, stopped⟩ => by
    cases free.symm.trans stopped.owner
  obtain ⟨⟨system, owner⟩, handlers⟩ := service
  cases free
  have here : handlers client = ⟨(handlers client).locals, .receiving⟩ := by
    rw [← receiving]
  obtain ⟨stopped, run, ends⟩ := @seekLine_run fixedSizeLlseek client _ deviceFree _ _ here _ _
    xNumeral yNumeral beyond ⟨0, 0⟩
  have excludes := run.invariant (fun _ => True) Service.Excludes
    (fun _ _ _ _ excludes moved => moved.excludes excludes) (fun _ _ => trivial) excludes
  exact ⟨stopped, run, fun later last goesOn => run_stopped ends excludes goesOn⟩

end Services

/-- `AESDCHAR_IOCSEEKTO:10,0`, the first connection after loading. -/
theorem one_line_stops_service_ten :
    ∃ stopped, Run (SeekServiceStep vfsFixedSizeLlseek)
        (oneHandler ⟨loadedSystem, none⟩ ⟨.start 0 0, .receiving⟩)
        [(1, .receive (seekLine [49, 48] [48])), (1, .lockChunk), (1, .unlockChunk),
          (1, .lockRequest), (1, .seek)] stopped ∧
      ∀ later last, Run (SeekServiceStep vfsFixedSizeLlseek) stopped later last →
        last.shared = stopped.shared ∧ ∀ label ∈ later, label.2.Waits :=
  one_line_stops_service oneHandler_started .refl rfl rfl (numeral_of_all (by decide) rfl)
    (numeral_of_all (by decide) rfl) (by unfold HandlerLocals.SeeksBeyond; decide)

end Aesd.Server
