import Aesd.Driver.SeekProperties
import Aesd.Server.DataLine
import Aesd.Server.WholeContents

/-!
# Sessions one after the other

A session is a connection from its first chunk to its response: the receive loop,
the writes that deliver what it appends, and `read_char_device`. Seen from outside,
the server is a log of commands that each session appends to and reads.
-/

set_option autoImplicit false

namespace Aesd.Server

open CText Driver Transition

section Log

/-- Where the driver puts the position for the seek that a handler found. -/
def seekStart (log : RecordLog UInt8) (locals : HandlerLocals) : Nat :=
  let word := (encodeSeekto locals.writeCmd locals.writeCmdOffset).writeCmd
  (((log.retained 10).take (decodeWriteCmd word).toNat).map List.length).sum +
    (decodeWriteCmdOffset word).toNat

/-- A session of the log: what the receive loop appends is appended, and the response
starts at the position sought, or at the oldest command. -/
def serve (log : RecordLog UInt8) (looped : LoopResult) : RecordLog UInt8 × List UInt8 :=
  let text := looped.appended.flatten
  let after := log.append text (decide (newline ∈ text))
  let start := if looped.locals.foundIoctlCmd then seekStart after looped.locals else 0
  (after, ((liveContents after).drop start).take bufferSize)

def LogSession (log : RecordLog UInt8) (label : LoopResult × ReadResult)
    (next : RecordLog UInt8) : Prop :=
  next = (serve log label.1).1 ∧ label.2.Answers (serve log label.1).2

end Log

/-- What a client sends, and what the C library and the stack happen to contribute. -/
structure Session where
  chunks : List (List UInt8)
  /-- The two numbers before any seek was found. -/
  writeCmd : BitVec 32
  writeCmdOffset : BitVec 32
  looped : LoopResult
  deliveries : List (List Event)
  stack : AesdSeekto
  counts : Nat → Nat
  garbage : Nat → UInt8

def Session.response (session : Session) (fixedSizeLlseek : FixedSizeLlseek) (kernel : Kernel) :
    ReadResult :=
  (readCharDevice (deviceStdio fixedSizeLlseek kernel session.stack session.counts)
    ⟨false, session.garbage⟩ session.looped.locals.foundIoctlCmd session.looped.locals.writeCmd
    session.looped.locals.writeCmdOffset).value

/-- One session, alone, when its allocations succeed and its seek is not rejected. -/
structure SessionStep (fixedSizeLlseek : FixedSizeLlseek) (system : System)
    (label : Session × ReadResult) (next : System) : Prop where
  looped : receiveLoop (.start label.1.writeCmd label.1.writeCmdOffset)
    (label.1.chunks.map .served) = some label.1.looped
  delivered : List.Forall₂ Delivers label.1.looped.appended label.1.deliveries
  wrote : Run (Step fixedSizeLlseek) system label.1.deliveries.flatten next
  accepted : label.1.looped.locals.foundIoctlCmd = true →
    (decodeWriteCmd (encodeSeekto label.1.looped.locals.writeCmd
      label.1.looped.locals.writeCmdOffset).writeCmd).toNat < 10
  asks : ∀ call, 0 < label.1.counts call
  answered : label.2 = label.1.response fixedSizeLlseek next.kernel

section Texts

theorem lineOf_of_prefix {text bytes : List UInt8} (front : text <+: lineOf bytes) :
    lineOf text = text := by
  induction bytes generalizing text with
  | nil =>
      rw [List.prefix_nil.mp front]
      rfl
  | cons byte bytes ih =>
      cases text with
      | nil => rfl
      | cons first text =>
          unfold lineOf at front
          split at front
          · next ends =>
              obtain ⟨rfl, rest⟩ := List.cons_prefix_cons.mp front
              rw [List.prefix_nil.mp rest]
              rfl
          · next apart =>
              obtain ⟨rfl, rest⟩ := List.cons_prefix_cons.mp front
              rw [lineOf, if_neg apart, ih rest]

theorem cString_prefix (text : List UInt8) : cString (text ++ [0]) <+: text := by
  induction text with
  | nil => exact List.nil_prefix
  | cons char text ih =>
      by_cases nul : char = 0
      · simp [cString, nul]
      · have kept : (char != 0) = true := bne_iff_ne.mpr nul
        simpa [cString, List.takeWhile_cons, kept] using ih

/-- What the loop appends ends where its first newline does. -/
theorem receiveLoop_appends_line {chunks : List (List UInt8)} {locals : HandlerLocals}
    {looped : LoopResult} (ran : receiveLoop locals (chunks.map .served) = some looped) :
    lineOf looped.appended.flatten = looped.appended.flatten := by
  induction chunks generalizing locals looped with
  | nil =>
      cases ran
      rfl
  | cons chunk chunks ih =>
      have here : ∀ found : Bool, ((if found then none
          else some (cString (lineOf chunk ++ [0]))).toList.flatten) <+: lineOf chunk := by
        intro found
        cases found with
        | true => exact List.nil_prefix
        | false => simpa using cString_prefix (lineOf chunk)
      simp only [List.map_cons, receiveLoop, receiveChunk_eq] at ran
      by_cases ends : newline ∈ chunk
      · rw [if_pos (decide_eq_true ends)] at ran
        cases ran
        exact lineOf_of_prefix (here _)
      · rw [if_neg (by simp [ends])] at ran
        obtain ⟨later, rest, same⟩ := Option.map_eq_some_iff.mp ran
        cases same
        have absent : newline ∉ lineOf chunk := fun member =>
          ends ((newline_mem_lineOf chunk).mp member)
        rw [List.flatten_append, lineOf_append, if_neg, ih rest]
        exact fun member => absent ((here _).subset member)

end Texts

section Start

variable {fixedSizeLlseek : FixedSizeLlseek} {kernel : Kernel} {log : RecordLog UInt8}

/-- Also a seek to a command that does not exist has its position. -/
theorem getFpos_of_represents (represents : Represents kernel log) (readable : Readable log)
    (command : Nat) {offset : Nat} (small : offset < 16) :
    aesdCircularBufferGetFpos kernel.device.circularBuffer command offset =
      ((((log.retained 10).take command).map List.length).sum + offset : Nat) := by
  have fits := readable.fits
  have split := List.sum_take_add_sum_drop ((log.retained 10).map List.length) command
  rw [← List.length_flatten] at split
  have beyond : (kernel.device.circularBuffer.rotationSizes.take command).sum =
      (((log.retained 10).map List.length).take command).sum := by
    rw [represents.valid.rotationSizes_eq, represents.ring_sizes, List.take_append,
      List.sum_append, List.take_replicate]
    simp
  rw [AesdCircularBuffer.getFpos_eq, beyond, Nat.mod_eq_of_lt (by omega), List.map_take]

theorem charDeviceFile_eq (represents : Represents kernel log)
    (free : kernel.device.lock = false) (readable : Readable log) (locals : HandlerLocals)
    (accepted : locals.foundIoctlCmd = true →
      (decodeWriteCmd (encodeSeekto locals.writeCmd locals.writeCmdOffset).writeCmd).toNat < 10)
    (stack : AesdSeekto) (counts : Nat → Nat) :
    charDeviceFile (deviceStdio fixedSizeLlseek kernel stack counts) locals.foundIoctlCmd
        locals.writeCmd locals.writeCmdOffset =
      ⟨kernel, (if locals.foundIoctlCmd then seekStart log locals else 0 : Nat)⟩ := by
  cases found : locals.foundIoctlCmd with
  | false => rfl
  | true =>
      have few := accepted found
      have small := decodeWriteCmdOffset_lt
        (encodeSeekto locals.writeCmd locals.writeCmdOffset).writeCmd
      have seeks : IoctlCall.Seeks ⟨aesdcharIocseekto,
        encodeSeekto locals.writeCmd locals.writeCmdOffset, stack, false, false⟩ := ⟨rfl, rfl, rfl⟩
      have sought := aesdUnlockedIoctl_seek free seeks 0
      rw [if_neg (Nat.not_le.mpr few), getFpos_of_represents represents readable _ small] at sought
      simp only [charDeviceFile, deviceStdio, sought, DeviceFile.after, ↓reduceIte]
      rfl

end Start

section Refinement

variable {fixedSizeLlseek : FixedSizeLlseek} {first system next last : System}
  {log : RecordLog UInt8} {label : Session × ReadResult} {labels : List (Session × ReadResult)}

/-- A device that writes of sessions have brought to a log. -/
structure Served (fixedSizeLlseek : FixedSizeLlseek) (first system : System)
    (log : RecordLog UInt8) : Prop where
  reached : ∃ events, Run (Step fixedSizeLlseek) first events system ∧
    ∀ event ∈ events, event.operation.WritesSome ∧ event.operation.Limited kmallocMaxSize
  represents : Represents system.kernel log
  solid : ∀ command ∈ log.completed, command ≠ []

theorem Served.free (served : Served fixedSizeLlseek first system log) (loaded : Loaded first) :
    system.kernel.device.lock = false := by
  obtain ⟨events, run, each⟩ := served.reached
  exact run_of_writes_free run loaded fun event member => (each event member).1

theorem Served.readable (served : Served fixedSizeLlseek first system log)
    (loaded : Loaded first) : Readable log where
  solid := fun command member => served.solid command (List.mem_of_mem_drop member)
  fits := by
    obtain ⟨events, run, each⟩ := served.reached
    obtain ⟨sizedLog, represents, sized⟩ :=
      run_represents_sized run loaded fun event member => (each event member).2
    have total := sized.liveContents_le
    rw [liveContents, ← represents.ringBytes_eq, served.represents.ringBytes_eq] at total
    exact total.trans_lt (by decide)

theorem writesSome_of_whole {event : Event} (whole : event.WritesWhole) :
    event.operation.WritesSome := by
  obtain ⟨file, call, written⟩ := whole.write
  have nonempty := whole.nonempty
  rw [Event.data, written] at nonempty
  rwa [written]

def Session.Limited (session : Session) : Prop :=
  ∀ event ∈ session.deliveries.flatten, event.operation.Limited kmallocMaxSize

theorem SessionStep.served (moved : SessionStep fixedSizeLlseek system label next)
    (served : Served fixedSizeLlseek first system log) (limited : label.1.Limited) :
    Served fixedSizeLlseek first next (serve log label.1.looped).1 := by
  have line := receiveLoop_appends_line moved.looped
  have delivered := Delivers.all moved.delivered
  constructor
  · obtain ⟨events, run, each⟩ := served.reached
    refine ⟨_, run.append moved.wrote, fun event member => ?_⟩
    rcases List.mem_append.mp member with earlier | now
    · exact each event earlier
    · exact ⟨writesSome_of_whole (delivered.writes event now), limited event now⟩
  · have kept := @Delivers.appends _ _ _ _ label.1.looped.appended.flatten _ served.represents
      (by rwa [line]) moved.wrote
    rwa [line] at kept
  · refine RecordLog.forall_completed_append served.solid fun closes empty => ?_
    have member := of_decide_eq_true closes
    rw [(List.append_eq_nil_iff.mp empty).2] at member
    cases member

theorem SessionStep.answers (moved : SessionStep fixedSizeLlseek system label next)
    (served : Served fixedSizeLlseek first next (serve log label.1.looped).1)
    (loaded : Loaded first) : label.2.Answers (serve log label.1.looped).2 := by
  have free := served.free loaded
  have readable := served.readable loaded
  have answers := readCharDevice_answers (deviceStdio fixedSizeLlseek next.kernel label.1.stack
    label.1.counts) label.1.garbage label.1.looped.locals.foundIoctlCmd
    label.1.looped.locals.writeCmd label.1.looped.locals.writeCmdOffset
  rw [charDeviceFile_eq served.represents free readable _ moved.accepted] at answers
  have read : ∀ position : Nat, (deviceStdio fixedSizeLlseek next.kernel label.1.stack
      label.1.counts).fread ⟨next.kernel, position⟩ bufferSize =
        ((liveContents (serve log label.1.looped).1).drop position).take bufferSize :=
    fun position => freadLoop_eq served.represents free readable moved.asks bufferSize bufferSize 0
      position [] (Nat.le_add_right _ _)
  rw [read] at answers
  rwa [moved.answered]

theorem loaded_served (loaded : Loaded first) : Served fixedSizeLlseek first first .empty where
  reached := ⟨[], .refl, by simp⟩
  represents := loaded.represents.1
  solid := by simp [RecordLog.empty]

theorem sessions_served (loaded : Loaded first)
    (run : Run (SessionStep fixedSizeLlseek) first labels last)
    (limited : ∀ label ∈ labels, label.1.Limited) :
    ∃ log, Run LogSession .empty (labels.map fun label => (label.1.looped, label.2)) log ∧
      Served fixedSizeLlseek first last log := by
  refine run.refines (fun label => (label.1.looped, label.2)) (fun label => label.1.Limited)
    (Served fixedSizeLlseek first) ?_ limited (loaded_served loaded)
  intro system log label next limited served moved
  have later := moved.served served limited
  exact ⟨_, ⟨rfl, moved.answers later loaded⟩, later⟩

/-- A line in two chunks. -/
def lineSession : Session where
  chunks := [[104, 105], [newline, 33]]
  writeCmd := 7
  writeCmdOffset := 8
  looped := ⟨.start 7 8, [[104, 105], [newline]], true⟩
  deliveries := [[⟨.write 0 (.whole [104, 105] (some 1) none), 2, []⟩],
    [⟨.write 0 (.whole [newline] (some 2) (some 3)), 1, []⟩]]
  stack := ⟨0, 0⟩
  counts := fun _ => 2
  garbage := fun _ => 0

/-- A seek to the second byte of the oldest command. -/
def seekSession : Session where
  chunks := [searchString ++ [48, 44, 49, newline]]
  writeCmd := 7
  writeCmdOffset := 8
  looped := ⟨⟨true, 0, 1⟩, [], true⟩
  deliveries := []
  stack := ⟨5, 6⟩
  counts := fun call => call + 1
  garbage := fun _ => 0

def afterSession : System :=
  (loadedSystem.after vfsFixedSizeLlseek (.write 0 (.whole [104, 105] (some 1) none))).after
    vfsFixedSizeLlseek (.write 0 (.whole [newline] (some 2) (some 3)))

theorem lineSession_step : SessionStep vfsFixedSizeLlseek loadedSystem
    (lineSession, lineSession.response vfsFixedSizeLlseek afterSession.kernel) afterSession where
  looped := by decide +kernel
  delivered := .cons (delivers_whole 0 (by decide) _ _)
    (.cons (delivers_whole 0 (by decide) _ _) .nil)
  wrote := .cons (System.after_step rfl) (.single (System.after_step rfl))
  accepted := by simp [lineSession, HandlerLocals.start]
  asks := fun _ => Nat.two_pos
  answered := rfl

theorem seekSession_step : SessionStep vfsFixedSizeLlseek afterSession
    (seekSession, seekSession.response vfsFixedSizeLlseek afterSession.kernel) afterSession where
  looped := by decide +kernel
  delivered := .nil
  wrote := .refl
  accepted := fun _ => by decide
  asks := fun call => Nat.succ_pos call
  answered := rfl

theorem lineSession_limited : lineSession.Limited ∧ seekSession.Limited := by
  constructor
  · simp [Session.Limited, lineSession]
  · simp [Session.Limited, seekSession]

/-- Whatever the clients send, cut as it may be, a run of sessions is one of the log. -/
theorem sessions_refine_log (loaded : Loaded first)
    (run : Run (SessionStep fixedSizeLlseek) first labels last)
    (limited : ∀ label ∈ labels, label.1.Limited) :
    ∃ log, Run LogSession .empty (labels.map fun label => (label.1.looped, label.2)) log ∧
      Represents last.kernel log := by
  obtain ⟨log, abstract, served⟩ := sessions_served loaded run limited
  exact ⟨log, abstract, served.represents⟩

/-- The second session gets what is behind the byte it named. -/
theorem sessions_refine_log_line_and_seek :
    let response := fun session : Session =>
      session.response vfsFixedSizeLlseek afterSession.kernel
    (∃ log, Run LogSession .empty [(lineSession.looped, response lineSession),
        (seekSession.looped, response seekSession)] log ∧ Represents afterSession.kernel log) ∧
      (serve (serve .empty lineSession.looped).1 seekSession.looped).2 = [105, newline] := by
  intro response
  refine ⟨?_, by decide +kernel⟩
  refine @sessions_refine_log vfsFixedSizeLlseek _ _
    [(lineSession, response lineSession), (seekSession, response seekSession)]
    loadedSystem_loaded (.cons lineSession_step (.single seekSession_step)) ?_
  intro label member
  rcases List.mem_pair.mp member with rfl | rfl
  · exact lineSession_limited.1
  · exact lineSession_limited.2

def Session.line (session : Session) : List UInt8 := lineOf session.chunks.flatten

def linesOf (labels : List (Session × ReadResult)) : List (List UInt8) :=
  labels.map fun label => label.1.line

/-- The client sends a data line to its end. -/
structure Session.SendsLine (session : Session) : Prop where
  plain : Plain session.line
  ends : newline ∈ session.line

theorem SessionStep.line (moved : SessionStep fixedSizeLlseek system label next)
    (sends : label.1.SendsLine) :
    label.1.looped.locals.foundIoctlCmd = false ∧ label.1.looped.appended.flatten = label.1.line := by
  have unfound : (HandlerLocals.start label.1.writeCmd label.1.writeCmdOffset).foundIoctlCmd =
    false := rfl
  obtain ⟨appended, looped, text⟩ := receiveLoop_plain unfound label.1.chunks sends.plain
  cases found : label.1.looped with
  | mk locals texts through =>
      have same := moved.looped.symm.trans looped
      rw [found] at same
      cases same
      exact ⟨rfl, text⟩

theorem SessionStep.serve_line (moved : SessionStep fixedSizeLlseek system label next)
    (sends : label.1.SendsLine) (whole : log.pending = []) :
    serve log label.1.looped = (⟨log.completed ++ [label.1.line], []⟩,
      ((log.completed ++ [label.1.line]).rtake 10).flatten.take bufferSize) := by
  obtain ⟨unfound, text⟩ := moved.line sends
  rw [serve, unfound, text, decide_eq_true sends.ends]
  simp [whole, liveContents, RecordLog.retained]

theorem run_served_lines (loaded : Loaded first)
    (run : Run (SessionStep fixedSizeLlseek) first labels last)
    (limited : ∀ label ∈ labels, label.1.Limited) (lines : ∀ label ∈ labels, label.1.SendsLine) :
    Served fixedSizeLlseek first last ⟨linesOf labels, []⟩ := by
  have start : Served fixedSizeLlseek first first ⟨[], []⟩ := loaded_served loaded
  refine run.recorded (fun system history => (∀ label ∈ history, label.1.Limited ∧
    label.1.SendsLine) → Served fixedSizeLlseek first system
      ⟨linesOf history, []⟩) ?_ (fun _ => start)
    fun label member => ⟨limited label member, lines label member⟩
  intro system history label next past moved each
  have before := past fun earlier member => each earlier (List.mem_append_left _ member)
  obtain ⟨limited, sends⟩ := each label (List.mem_append_right _ List.mem_cons_self)
  have later := moved.served before limited
  rw [moved.serve_line sends rfl] at later
  rw [linesOf, List.map_append]
  exact later

/-- Clients that each send a line get the ten newest lines, their own the last of
them, as far as `BUFFER_SIZE` goes. -/
theorem sessions_answer_last_ten (loaded : Loaded first)
    (run : Run (SessionStep fixedSizeLlseek) first labels last)
    (limited : ∀ label ∈ labels, label.1.Limited) (lines : ∀ label ∈ labels, label.1.SendsLine) :
    last.kernel.ringBytes = (linesOf labels).rtake 10 ∧
      ∀ earlier label later, labels = earlier ++ label :: later →
        label.2.Answers (((linesOf (earlier ++ [label])).rtake 10).flatten.take bufferSize) := by
  refine ⟨(run_served_lines loaded run limited lines).represents.ringBytes_eq, ?_⟩
  rintro earlier label later rfl
  obtain ⟨system, leading, trailing⟩ := run.split
  have before := run_served_lines loaded leading
    (fun label member => limited label (List.mem_append_left _ member))
    fun label member => lines label (List.mem_append_left _ member)
  have own := List.mem_append_right earlier (@List.mem_cons_self _ label later)
  cases trailing with
  | cons moved _ =>
      have answers := moved.answers (moved.served before (limited label own)) loaded
      rw [moved.serve_line (lines label own) rfl] at answers
      rw [linesOf, List.map_append]
      exact answers

/-- A line in one chunk. -/
def shortSession : Session where
  chunks := [[111, newline]]
  writeCmd := 0
  writeCmdOffset := 0
  looped := ⟨.start 0 0, [[111, newline]], true⟩
  deliveries := [[⟨.write 1 (.whole [111, newline] (some 4) none), 2, []⟩]]
  stack := ⟨0, 0⟩
  counts := fun _ => 1
  garbage := fun _ => 0

def afterTwoSessions : System :=
  afterSession.after vfsFixedSizeLlseek (.write 1 (.whole [111, newline] (some 4) none))

theorem shortSession_step : SessionStep vfsFixedSizeLlseek afterSession
    (shortSession, shortSession.response vfsFixedSizeLlseek afterTwoSessions.kernel)
    afterTwoSessions where
  looped := by decide +kernel
  delivered := .cons (delivers_whole 1 (by decide) _ _) .nil
  wrote := .single (System.after_step rfl)
  accepted := by simp [shortSession, HandlerLocals.start]
  asks := fun _ => Nat.one_pos
  answered := rfl

/-- The second client is answered with both lines. -/
theorem sessions_answer_last_ten_two_lines :
    let first := lineSession.response vfsFixedSizeLlseek afterSession.kernel
    let second := shortSession.response vfsFixedSizeLlseek afterTwoSessions.kernel
    afterTwoSessions.kernel.ringBytes = [[104, 105, newline], [111, newline]] ∧
      first.Answers [104, 105, newline] ∧
      second.Answers [104, 105, newline, 111, newline] := by
  intro first second
  obtain ⟨ring, answers⟩ := sessions_answer_last_ten loadedSystem_loaded
    (.cons lineSession_step (.single shortSession_step)) (by
      intro label member
      rcases List.mem_pair.mp member with rfl | rfl
      · exact lineSession_limited.1
      · simp [Session.Limited, shortSession]) (by
      intro label member
      rcases List.mem_pair.mp member with rfl | rfl
      · exact ⟨⟨by decide, by decide⟩, by decide⟩
      · exact ⟨⟨by decide, by decide⟩, by decide⟩)
  exact ⟨ring, answers [] (lineSession, first) [(shortSession, second)] rfl,
    answers [(lineSession, first)] (shortSession, second) [] rfl⟩

end Refinement

end Aesd.Server
