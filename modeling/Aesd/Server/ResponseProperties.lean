import Aesd.Driver.LimitedSizes
import Aesd.Driver.ReadLoop
import Aesd.Driver.SeekProperties
import Aesd.Server.Responses

/-!
# A response is one snapshot

Only the owner of `file_mutex` touches the device, so what a handler reads in
`read_char_device` is what was live when it acquired the mutex.
-/

set_option autoImplicit false

namespace Aesd.Server

open Driver Transition Exclusion

/-- The position from which `read_char_device` reads: that of a fresh descriptor,
or the one its ioctl sets. -/
def startPosition (kernel : Kernel) (locals : HandlerLocals) : Nat :=
  if locals.foundIoctlCmd then
    let writeCmd := (encodeSeekto locals.writeCmd locals.writeCmdOffset).writeCmd
    (aesdCircularBufferGetFpos kernel.device.circularBuffer (decodeWriteCmd writeCmd).toNat
      (decodeWriteCmdOffset writeCmd).toNat).toNat
  else 0

theorem startPosition_congr {before after : Kernel} (same : SameData before after)
    (locals : HandlerLocals) : startPosition after locals = startPosition before locals := by
  rw [startPosition, same.circularBuffer, startPosition]

/-- How far a response is, from the contents it is taken from. -/
def Progress (contents : List UInt8) (position : Nat) (fPos : Int) : Phase → Prop
  | .opened => fPos = 0
  | .reading got => fPos = ((position + got.length : Nat) : Int) ∧
      got ++ contents.drop (position + got.length) = contents.drop position
  | .finished got | .responding got => got = contents.drop position
  | _ => False

/-- After the response is taken, the position of the descriptor plays no role. -/
theorem Progress.position_free {contents : List UInt8} {position : Nat} {before after : Int}
    {phase : Phase} (progress : Progress contents position before phase)
    (returned : ¬phase.Serving) : Progress contents position after phase := by
  cases phase with
  | receiving | received | appending | requesting => exact progress
  | responding => exact progress
  | opened | reading | finished => exact absurd trivial returned

def Recorded (kernel : Kernel) : Prop :=
  ∃ log, Represents kernel log ∧ ∀ command ∈ log.completed, command ≠ []

structure Service.Sound (service : Service) : Prop where
  recorded : Recorded service.shared.system.kernel
  exclusive : Exclusive Phase.Locked (fun client => (service.handler client).phase)
    service.shared.fileMutex

/-- What holds from the moment a client has the mutex for its response. -/
structure Answering (client : Nat) (start service : Service) : Prop where
  exclusive : Exclusive Phase.Locked (fun client => (service.handler client).phase)
    service.shared.fileMutex
  locals : (service.handler client).locals = (start.handler client).locals
  unchanged : (service.handler client).phase.Serving →
    SameData start.shared.system.kernel service.shared.system.kernel
  progress : Progress start.contents
    (startPosition start.shared.system.kernel (start.handler client).locals)
    (service.shared.system.fPos client) (service.handler client).phase

section Handlers

variable {fixedSizeLlseek : FixedSizeLlseek} {client : Nat} {shared next : Shared}
  {handler after : Handler} {action : Action}

theorem freadNext_locked (contents : List UInt8) (event : Event) :
    (freadNext contents event).Locked := by
  unfold freadNext
  split <;> trivial

theorem HandlerStep.passage
    (moved : HandlerStep fixedSizeLlseek client shared handler action next after) :
    Passage Phase.Locked client handler.phase after.phase shared.fileMutex next.fileMutex := by
  cases moved with
  | receive | disconnect | write | seek | startReading => exact .stay Iff.rfl
  | lockChunk | lockRequest => exact .enter trivial
  | unlockChunk =>
      refine .leave trivial fun held => ?_
      split at held <;> exact held
  | read => exact .stay ⟨fun _ => trivial, fun _ => freadNext_locked _ _⟩
  | unlockRequest => exact .leave trivial id

theorem HandlerStep.waits
    (moved : HandlerStep fixedSizeLlseek client shared handler action next after)
    (outside : ¬handler.phase.Locked) (held : shared.fileMutex ≠ none) : next = shared := by
  cases moved with
  | receive | disconnect => rfl
  | lockChunk | lockRequest => exact absurd rfl held
  | write | unlockChunk | seek | startReading | read | unlockRequest => exact absurd trivial outside

theorem Recorded.step {system after : System} {event : Event}
    (moved : Step fixedSizeLlseek system event after) (recorded : Recorded system.kernel)
    (whole : (∃ file call, event.operation = .write file call) → event.WritesWhole) :
    Recorded after.kernel := by
  obtain ⟨log, represents, solid⟩ := recorded
  rcases moved.represents represents with ⟨kept, _⟩ | ⟨file, call, written, _⟩
  · exact ⟨log, kept, solid⟩
  · have full := whole ⟨file, call, written⟩
    refine ⟨_, moved.represents_data full represents, ?_⟩
    refine RecordLog.forall_completed_append solid fun _ nothing => ?_
    exact full.nonempty (List.append_eq_nil_iff.mp nothing).2

theorem HandlerStep.recorded
    (moved : HandlerStep fixedSizeLlseek client shared handler action next after)
    (recorded : Recorded shared.system.kernel) : Recorded next.system.kernel := by
  cases moved with
  | receive | disconnect | unlockChunk | lockRequest | startReading | unlockRequest =>
      exact recorded
  | lockChunk => split <;> exact recorded
  | write whole _ wrote => exact recorded.step wrote fun _ => whole
  | seek _ sought => exact recorded.step sought fun ⟨_, _, written⟩ => by cases written
  | read operation _ _ read =>
      exact recorded.step read fun ⟨_, _, written⟩ => by cases operation.symm.trans written

/-- A read takes a response on: to the end of the contents, or by what it delivered. -/
theorem Progress.fread {log : RecordLog UInt8} {position : Nat} {got : List UInt8} {fPos : Int}
    {count : Nat} {event : Event} (positive : 0 < count)
    (small : (liveContents log).length < bufferSize)
    (progress : Progress (liveContents log) position fPos (.reading got))
    (delivered : event.delivered = readAt log fPos.toNat count)
    (counted : event.retval = event.delivered.length) :
    Progress (liveContents log) position (fPos + event.retval) (freadNext got event) := by
  obtain ⟨rfl, rest⟩ := progress
  rw [Int.toNat_natCast] at delivered
  have further := readAt_append_drop log (position + got.length) count
  rw [← delivered] at further
  have taken : got ++ event.delivered ++
      (liveContents log).drop (position + got.length + event.delivered.length) =
        (liveContents log).drop position := by
    rw [List.append_assoc, further, rest]
  have bounded : (got ++ event.delivered).length < bufferSize := by
    have total := congrArg List.length taken
    rw [List.length_append, List.length_drop, List.length_drop] at total
    omega
  unfold freadNext
  split
  · next done =>
      have nothing : event.delivered = [] := by
        apply List.eq_nil_of_length_eq_zero
        rcases done with zero | full
        · omega
        · omega
      have past : (liveContents log).length ≤ position + got.length := by
        have empty := (readAt_eq_nil_iff log (position + got.length) count).mp
          (delivered.symm.trans nothing)
        exact empty.resolve_left (Nat.ne_of_gt positive)
      rw [List.drop_eq_nil_of_le past, List.append_nil] at rest
      simp only [nothing, List.append_nil] at bounded ⊢
      rw [List.take_of_length_le (Nat.le_of_lt bounded)]
      exact rest
  · constructor
    · rw [counted, List.length_append]
      omega
    · rwa [List.length_append, ← Nat.add_assoc]

theorem seek_startPosition {system after : System} {locals : HandlerLocals} {stack : AesdSeekto}
    (found : locals.foundIoctlCmd = true)
    (sought : Step fixedSizeLlseek system ⟨.ioctl client (seekIoctl locals stack), 0, []⟩ after) :
    after.kernel = system.kernel ∧
      after.fPos client = startPosition system.kernel locals := by
  obtain ⟨position, kernel, returned, rfl⟩ := sought
  obtain ⟨rfl, rfl⟩ := aesdUnlockedIoctl_sought ⟨rfl, rfl, rfl⟩ returned
  refine ⟨rfl, ?_⟩
  rw [startPosition, if_pos found]
  refine (Function.update_self _ _ _).trans (Int.toNat_of_nonneg ?_).symm
  exact Int.natCast_nonneg _

theorem HandlerStep.serving {contents : List UInt8} {position : Nat} {fPos : Int}
    (moved : HandlerStep fixedSizeLlseek client shared handler action next after)
    (progress : Progress contents position fPos handler.phase) : handler.phase.Serving := by
  cases moved with
  | receive | disconnect | lockChunk | write | unlockChunk | lockRequest => exact progress.elim
  | seek | startReading | read | unlockRequest => trivial

theorem HandlerStep.writes_before {event : Event}
    (moved : HandlerStep fixedSizeLlseek client shared handler (.write event) next after) :
    ¬handler.phase.Serving := by
  cases moved with
  | write => exact id

theorem HandlerStep.progress {log : RecordLog UInt8}
    (moved : HandlerStep fixedSizeLlseek client shared handler action next after)
    (represents : Represents shared.system.kernel log) (readable : Readable log)
    (small : (liveContents log).length < bufferSize)
    (progress : Progress (liveContents log) (startPosition shared.system.kernel handler.locals)
      (shared.system.fPos client) handler.phase) :
    after.locals = handler.locals ∧ SameData shared.system.kernel next.system.kernel ∧
      Progress (liveContents log) (startPosition shared.system.kernel handler.locals)
        (next.system.fPos client) after.phase := by
  cases moved with
  | receive | disconnect | lockChunk | write | unlockChunk | lockRequest => exact progress.elim
  | @startReading _ locals unfound =>
      refine ⟨rfl, .refl _, ?_⟩
      simp only [Progress] at progress ⊢
      simp [startPosition, unfound, progress]
  | @seek _ locals stack system found sought =>
      obtain ⟨same, position⟩ := seek_startPosition found sought
      refine ⟨rfl, same ▸ .refl _, ?_, rfl⟩
      simpa using position
  | @read _ locals contents event system call operation positive success read =>
      obtain ⟨position, kernel, returned, rfl⟩ := read
      rw [operation] at returned
      obtain ⟨delivered, counted, rfl, rfl⟩ := aesdRead_succeeds represents readable
        (by rw [progress.1]; exact Int.natCast_nonneg _) returned success
      refine ⟨rfl, .refl _, ?_⟩
      have fread := progress.fread positive small delivered counted
      simpa [operation, Operation.file] using fread
  | unlockRequest => exact ⟨rfl, .refl _, progress⟩

end Handlers

section Services

variable {fixedSizeLlseek : FixedSizeLlseek} {service next : Service} {label : Nat × Action}

theorem Phase.Serving.locked {phase : Phase} (serving : phase.Serving) : phase.Locked := by
  cases phase with
  | opened | reading | finished => trivial
  | receiving | received | appending | requesting | responding => exact serving.elim

theorem Service.Started.sound (started : service.Started) : service.Sound where
  recorded :=
    ⟨_, started.loaded.represents.1, fun _ member => absurd member List.not_mem_nil⟩
  exclusive := by
    intro client
    simp [Phase.Locked, started.mutexFree, (started.receiving client).1]

theorem ServiceStep.exclusive (moved : ServiceStep fixedSizeLlseek service label next)
    (exclusive : Exclusive Phase.Locked (fun client => (service.handler client).phase)
      service.shared.fileMutex) :
    Exclusive Phase.Locked (fun client => (next.handler client).phase) next.shared.fileMutex := by
  obtain ⟨shared, handler, stepped, rfl⟩ := moved
  have after := exclusive.step stepped.passage
  intro client
  have known := after client
  by_cases same : client = label.1
  · subst same
    simpa using known
  · simpa [same] using known

theorem ServiceStep.sound (moved : ServiceStep fixedSizeLlseek service label next)
    (sound : service.Sound) : next.Sound := by
  refine ⟨?_, moved.exclusive sound.exclusive⟩
  obtain ⟨shared, handler, stepped, rfl⟩ := moved
  exact stepped.recorded sound.recorded

theorem HandlerStep.waits_for {client mover : Nat} {shared : Shared} {handler : Handler}
    {action : Action}
    (moved : HandlerStep fixedSizeLlseek mover service.shared (service.handler mover) action
      shared handler)
    (exclusive : Exclusive Phase.Locked (fun client => (service.handler client).phase)
      service.shared.fileMutex) (other : client ≠ mover)
    (inside : (service.handler client).phase.Locked) : shared = service.shared := by
  apply moved.waits (fun both => other (exclusive.eq_of_inside inside both))
  simp [(exclusive client).mp inside]

/-- No step, of whichever handler, disturbs a response under way. -/
theorem Answering.step {client : Nat} {start : Service} {log : RecordLog UInt8}
    (answering : Answering client start service)
    (moved : ServiceStep fixedSizeLlseek service label next)
    (represents : Represents start.shared.system.kernel log) (readable : Readable log)
    (small : (liveContents log).length < bufferSize) : Answering client start next := by
  have exclusive := moved.exclusive answering.exclusive
  rcases label with ⟨mover, action⟩
  obtain ⟨shared, handler, stepped, rfl⟩ := moved
  dsimp only at stepped
  by_cases own : client = mover
  · subst own
    have data := answering.unchanged (stepped.serving answering.progress)
    have here := (data.represents_iff log).mpr represents
    have contents : start.contents = liveContents log := represents.flatten_ringBytes
    have position := startPosition_congr data (start.handler client).locals
    have progress := answering.progress
    rw [contents, ← position, ← answering.locals] at progress
    obtain ⟨locals, kept, progressed⟩ := stepped.progress here readable small progress
    rw [answering.locals, position, ← contents] at progressed
    refine ⟨exclusive, ?_, fun _ => data.trans kept, ?_⟩
    · simpa using locals.trans answering.locals
    · simpa using progressed
  · have stays : Function.update service.handler mover handler client = service.handler client :=
      Function.update_of_ne own _ _
    by_cases serving : (service.handler client).phase.Serving
    · have waited := stepped.waits_for answering.exclusive own serving.locked
      subst waited
      refine ⟨exclusive, ?_, ?_, ?_⟩
      · simpa only [stays] using answering.locals
      · simpa only [stays] using answering.unchanged
      · simpa only [stays] using answering.progress
    · refine ⟨exclusive, ?_, ?_, ?_⟩
      · simpa only [stays] using answering.locals
      · simpa only [stays] using fun inside => absurd inside serving
      · simpa only [stays] using answering.progress.position_free serving

theorem Answering.start {client : Nat} {before locked : Service}
    (exclusive : Exclusive Phase.Locked (fun client => (before.handler client).phase)
      before.shared.fileMutex)
    (acquires : ServiceStep fixedSizeLlseek before (client, .lockRequest) locked) :
    Answering client before locked := by
  have after := acquires.exclusive exclusive
  obtain ⟨shared, handler, stepped, rfl⟩ := acquires
  dsimp only at stepped
  generalize handles : before.handler client = handling at stepped
  generalize shares : before.shared = sharing at stepped
  cases stepped with
  | lockRequest =>
      refine ⟨after, ?_, fun _ => ?_, ?_⟩
      · simp [handles]
      · rw [shares]
        exact .refl _
      · simp [Progress, System.openFile]

end Services

section Responses

variable {fixedSizeLlseek : FixedSizeLlseek} {first before locked last : Service} {client : Nat}
  {earlier labels : List (Nat × Action)}

theorem run_sound (started : first.Started)
    (run : Run (ServiceStep fixedSizeLlseek) first labels last) : last.Sound :=
  run.invariant (fun _ => True) Service.Sound (fun _ _ _ _ sound moved => moved.sound sound)
    (fun _ _ => trivial) started.sound

theorem Service.Sound.readable (sound : before.Sound) (small : before.contents.length < bufferSize) :
    ∃ log, Represents before.shared.system.kernel log ∧ Readable log ∧
      (liveContents log).length < bufferSize := by
  obtain ⟨log, represents, solid⟩ := sound.recorded
  have contents : before.contents = liveContents log := represents.flatten_ringBytes
  rw [contents] at small
  refine ⟨log, represents, ⟨fun command live => solid command (List.mem_of_mem_drop live), ?_⟩, small⟩
  exact small.trans (by decide)

theorem run_answering (sound : before.Sound) (small : before.contents.length < bufferSize)
    (acquires : ServiceStep fixedSizeLlseek before (client, .lockRequest) locked)
    (run : Run (ServiceStep fixedSizeLlseek) locked labels last) : Answering client before last := by
  obtain ⟨log, represents, readable, fits⟩ := sound.readable small
  exact run.invariant (fun _ => True) (Answering client before)
    (fun _ _ _ _ answering moved => answering.step moved represents readable fits)
    (fun _ _ => trivial) (.start sound.exclusive acquires)

/-- In every interleaving, what a handler reads is what was live when it acquired
`file_mutex` in `read_char_device`, from its start position on. It writes nothing
after that moment, and while it reads nobody does. -/
theorem response_is_one_snapshot (started : first.Started)
    (reached : Run (ServiceStep fixedSizeLlseek) first earlier before)
    (acquires : ServiceStep fixedSizeLlseek before (client, .lockRequest) locked)
    (small : before.contents.length < bufferSize)
    (run : Run (ServiceStep fixedSizeLlseek) locked labels last) :
    (∀ event, (client, .write event) ∉ labels) ∧
    ((last.handler client).phase = .reading [] → last.shared.system.fPos client =
      startPosition before.shared.system.kernel (before.handler client).locals) ∧
    ((last.handler client).phase.Serving → last.contents = before.contents) ∧
    ∀ bytes, (last.handler client).phase = .responding bytes →
      bytes = before.contents.drop
        (startPosition before.shared.system.kernel (before.handler client).locals) := by
  have sound := run_sound started reached
  have answering := run_answering sound small acquires run
  have progress := answering.progress
  refine ⟨?_, ?_, ?_, ?_⟩
  · intro event member
    obtain ⟨left, right, rfl⟩ := List.append_of_mem member
    obtain ⟨middle, leading, trailing⟩ := run.split
    cases trailing with
    | cons moved _ =>
        obtain ⟨_, _, stepped, _⟩ := moved
        exact stepped.writes_before
          (stepped.serving (run_answering sound small acquires leading).progress)
  · intro phase
    rw [phase] at progress
    simpa using progress.1
  · intro serving
    exact congrArg List.flatten (answering.unchanged serving).ringBytes_eq
  · intro bytes phase
    rw [phase] at progress
    exact progress

end Responses

def oneHandler (shared : Shared) (handler : Handler) : Service where
  shared := shared
  handler := Function.update (fun _ => ⟨.start 0 0, .receiving⟩) 0 handler

theorem oneHandler_step {shared next : Shared} {handler after : Handler} {action : Action}
    (moved : HandlerStep vfsFixedSizeLlseek 0 shared handler action next after) :
    ServiceStep vfsFixedSizeLlseek (oneHandler shared handler) (0, action)
      (oneHandler next after) := by
  refine ⟨next, after, by simpa [oneHandler] using moved, ?_⟩
  simp [oneHandler]

theorem oneHandler_started :
    (oneHandler ⟨loadedSystem, none⟩ ⟨.start 0 0, .receiving⟩).Started where
  loaded := loadedSystem_loaded
  mutexFree := rfl
  receiving := by
    intro client
    simp [oneHandler, HandlerLocals.start]

def lineWritten : Event := ⟨.write 0 (.whole [97, newline] (some 1) none), 2, []⟩

def byteRead (delivered : List UInt8) : Event := ⟨.read 0 ⟨1, false, 0⟩, delivered.length, delivered⟩

def afterLine : System := (loadedSystem.openFile 0).after vfsFixedSizeLlseek lineWritten.operation

def readingLine (fPos : Nat) (phase : Phase) : Service :=
  oneHandler ⟨⟨afterLine.kernel, Function.update afterLine.fPos 0 fPos⟩, some 0⟩ ⟨.start 0 0, phase⟩

theorem reading_step {kernel : Kernel} {positions : Nat → Int} {others : Nat → Handler}
    {call : ReadCall} {fPos : Nat} {got delivered : List UInt8} (asks : 0 < call.count)
    (returned : aesdRead kernel fPos call =
      .returned delivered.length (fPos + delivered.length : Nat) kernel delivered) :
    let event : Event := ⟨.read 0 call, delivered.length, delivered⟩
    ServiceStep vfsFixedSizeLlseek
      ⟨⟨⟨kernel, Function.update positions 0 fPos⟩, some 0⟩,
        Function.update others 0 ⟨.start 0 0, .reading got⟩⟩
      (0, .read event)
      ⟨⟨⟨kernel, Function.update positions 0 (fPos + delivered.length : Nat)⟩, some 0⟩,
        Function.update others 0 ⟨.start 0 0, freadNext got event⟩⟩ := by
  intro event
  have read : Step vfsFixedSizeLlseek ⟨kernel, Function.update positions 0 fPos⟩ event
      ⟨kernel, Function.update positions 0 (fPos + delivered.length : Nat)⟩ := by
    refine ⟨(fPos + delivered.length : Nat), kernel, ?_, ?_⟩
    · simpa [operate, event] using returned
    · simp [event, Operation.file]
  refine ⟨_, _, .read rfl asks (Int.natCast_nonneg _) read, ?_⟩
  simp

theorem readingLine_step {fPos : Nat} {got delivered : List UInt8}
    (returned : aesdRead afterLine.kernel fPos ⟨1, false, 0⟩ =
      .returned delivered.length (fPos + delivered.length : Nat) afterLine.kernel delivered) :
    ServiceStep vfsFixedSizeLlseek (readingLine fPos (.reading got)) (0, .read (byteRead delivered))
      (readingLine (fPos + delivered.length) (freadNext got (byteRead delivered))) :=
  reading_step Nat.one_pos returned

theorem lineWritten_step : HandlerStep vfsFixedSizeLlseek 0 ⟨loadedSystem.openFile 0, some 0⟩
    ⟨.start 0 0, .appending lineWritten.data true⟩ (.write lineWritten)
    ⟨afterLine, some 0⟩ ⟨.start 0 0, .appending [] true⟩ := by
  rw [← List.append_nil lineWritten.data]
  exact .write ⟨⟨0, _, rfl⟩, by decide, rfl⟩ rfl (System.after_step rfl)

theorem readingLine_run : Run (ServiceStep vfsFixedSizeLlseek) (readingLine 0 .opened)
    [(0, .startReading), (0, .read (byteRead [97])), (0, .read (byteRead [newline])),
      (0, .read (byteRead [])), (0, .unlockRequest)]
    (oneHandler ⟨⟨afterLine.kernel, Function.update afterLine.fPos 0 2⟩, none⟩
      ⟨.start 0 0, .responding [97, newline]⟩) := by
  refine .cons (oneHandler_step (.startReading rfl)) ?_
  refine .cons (readingLine_step rfl) ?_
  refine .cons (readingLine_step rfl) ?_
  refine .cons (readingLine_step rfl) ?_
  exact .single (oneHandler_step .unlockRequest)

/-- Client 0 writes a line and gets it back in two reads of one byte each. -/
theorem response_is_one_snapshot_two_reads :
    [97, newline] = (oneHandler ⟨afterLine, none⟩ ⟨.start 0 0, .requesting⟩).contents.drop 0 := by
  have reached : Run (ServiceStep vfsFixedSizeLlseek)
      (oneHandler ⟨loadedSystem, none⟩ ⟨.start 0 0, .receiving⟩)
      [(0, .receive [97, newline]), (0, .lockChunk), (0, .write lineWritten), (0, .unlockChunk)]
      (oneHandler ⟨afterLine, none⟩ ⟨.start 0 0, .requesting⟩) := by
    refine .cons (oneHandler_step (.receive (by decide))) ?_
    refine .cons (oneHandler_step (.lockChunk rfl)) ?_
    refine .cons (oneHandler_step lineWritten_step) ?_
    exact .single (oneHandler_step .unlockChunk)
  have acquires : ServiceStep vfsFixedSizeLlseek
      (oneHandler ⟨afterLine, none⟩ ⟨.start 0 0, .requesting⟩) (0, .lockRequest)
      (readingLine 0 .opened) := oneHandler_step .lockRequest
  have small : (oneHandler ⟨afterLine, none⟩ ⟨.start 0 0, .requesting⟩).contents.length <
      bufferSize := by
    decide +kernel
  exact (response_is_one_snapshot oneHandler_started reached acquires small
    readingLine_run).2.2.2 _ rfl

end Aesd.Server
