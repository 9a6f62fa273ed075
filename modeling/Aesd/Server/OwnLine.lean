import Aesd.Server.ReceiveProperties
import Aesd.Server.ResponseProperties

/-!
# A client's own line in its response

Between `fclose` and `read_char_device` a handler does not hold `file_mutex`, so
other clients may complete commands after its own and before its response.
-/

set_option autoImplicit false

namespace Aesd.Server

open CText Driver Transition Exclusion

/-- Whether the action completes a command of the device. -/
def Action.closes : Action → Bool
  | .write event => decide (event.data.getLast? = some newline)
  | _ => false

def Action.record (log : RecordLog UInt8) : Action → RecordLog UInt8
  | .write event => log.append event.data (decide (event.data.getLast? = some newline))
  | _ => log

/-- How many commands are completed, by whichever clients. -/
def completions (labels : List (Nat × Action)) : Nat := labels.countP (·.2.closes)

/-- The client's last write has completed a command with its line. -/
def Stored (client : Nat) (line : List UInt8) (log : RecordLog UInt8)
    (labels : List (Nat × Action)) : Prop :=
  ∃ left event right, labels = left ++ (client, .write event) :: right ∧
    event.data.getLast? = some newline ∧ log.EndsRecord line (completions right)

/-- Where a client's line is, from its receipt to the response. -/
def LineAt (client : Nat) (line : List UInt8) (log : RecordLog UInt8)
    (labels : List (Nat × Action)) : Phase → Prop
  | .receiving | .appending _ false => False
  | .received bytes => lineOf bytes = line ∧ newline ∈ bytes
  | .appending [] true | .requesting => Stored client line log labels
  | .appending text true => ∃ written, written ++ text = line ∧ written <:+ log.pending
  | _ => True

/-- What holds of a client from the receipt of its line on. -/
structure Carries (client : Nat) (line : List UInt8) (log : RecordLog UInt8) (service : Service)
    (labels : List (Nat × Action)) : Prop where
  represents : Represents service.shared.system.kernel log
  exclusive : Exclusive Phase.Locked (fun client => (service.handler client).phase)
    service.shared.fileMutex
  unfound : (service.handler client).locals.foundIoctlCmd = false
  line : LineAt client line log labels (service.handler client).phase

section Handlers

variable {fixedSizeLlseek : FixedSizeLlseek} {client : Nat} {shared next : Shared}
  {handler after : Handler} {action : Action} {log : RecordLog UInt8} {line : List UInt8}
  {labels : List (Nat × Action)}

theorem Action.record_eq (log : RecordLog UInt8) (action : Action) :
    ∃ piece, action.record log = log.append piece action.closes := by
  cases action with
  | write event => exact ⟨event.data, rfl⟩
  | receive | disconnect | lockChunk | unlockChunk | lockRequest | seek | startReading | read
  | unlockRequest => exact ⟨[], (RecordLog.append_nothing log).symm⟩

theorem HandlerStep.represents
    (moved : HandlerStep fixedSizeLlseek client shared handler action next after)
    (represents : Represents shared.system.kernel log) :
    Represents next.system.kernel (action.record log) := by
  cases moved with
  | receive | disconnect | unlockChunk | lockRequest | startReading | unlockRequest =>
      exact represents
  | lockChunk => split <;> exact represents
  | write whole _ wrote => exact wrote.represents_data whole represents
  | seek _ sought =>
      rcases sought.represents represents with ⟨kept, _⟩ | ⟨_, _, written, _⟩
      · exact kept
      · cases written
  | read operation _ _ read =>
      rcases read.represents represents with ⟨kept, _⟩ | ⟨_, _, written, _⟩
      · exact kept
      · cases operation.symm.trans written

theorem HandlerStep.quiet
    (moved : HandlerStep fixedSizeLlseek client shared handler action next after)
    (outside : ¬handler.phase.Locked) : action.closes = false ∧ action.record log = log := by
  cases moved with
  | write => exact absurd trivial outside
  | receive | disconnect | lockChunk | unlockChunk | lockRequest | seek | startReading | read
  | unlockRequest => exact ⟨rfl, rfl⟩

theorem HandlerStep.requests
    (moved : HandlerStep fixedSizeLlseek client shared handler .lockRequest next after) :
    handler.phase = .requesting := by
  cases moved with
  | lockRequest => rfl

theorem completions_append (left right : List (Nat × Action)) :
    completions (left ++ right) = completions left + completions right :=
  List.countP_append

theorem Stored.step (stored : Stored client line log labels) (mover : Nat) (action : Action) :
    Stored client line (action.record log) (labels ++ [(mover, action)]) := by
  obtain ⟨left, event, right, rfl, closed, ends⟩ := stored
  obtain ⟨piece, same⟩ := action.record_eq log
  refine ⟨left, event, right ++ [(mover, action)], by simp, closed, ?_⟩
  have later := ends.append piece action.closes
  rw [← same] at later
  rw [completions_append]
  convert later using 2
  cases closes : action.closes <;> simp [completions, closes]

variable {body : List UInt8}

/-- A write takes a piece of the line to the device; the last piece completes the command. -/
theorem LineAt.write {rest : List UInt8} {event : Event} (absent : newline ∉ body)
    (line : LineAt client (body ++ [newline]) log labels (.appending (event.data ++ rest) true))
    (nonempty : event.data ≠ []) :
    LineAt client (body ++ [newline]) (Action.record log (.write event))
      (labels ++ [(client, .write event)]) (.appending rest true) := by
  obtain ⟨written, whole, open_⟩ : ∃ written, written ++ (event.data ++ rest) = body ++ [newline] ∧
      written <:+ log.pending := by
    generalize texts : event.data ++ rest = text at line
    cases text with
    | nil => exact absurd (List.append_eq_nil_iff.mp texts).1 nonempty
    | cons => exact line
  rw [← List.append_assoc] at whole
  cases rest with
  | nil =>
      rw [List.append_nil] at whole
      have closed : event.data.getLast? = some newline := by
        have last := congrArg List.getLast? whole
        rwa [List.getLast?_append_of_ne_nil _ nonempty, List.getLast?_concat] at last
      refine ⟨labels, event, [], rfl, closed, ?_⟩
      rw [Action.record, decide_eq_true closed, ← whole]
      exact RecordLog.endsRecord_of_closing open_
  | cons byte rest =>
      have stays : ¬event.data.getLast? = some newline := by
        intro closed
        rcases List.prefix_concat_iff.mp ⟨_, whole⟩ with all | front
        · rw [all] at whole
          cases List.append_right_eq_self.mp whole
        · exact absent (front.subset (List.mem_append_right _ (List.mem_of_getLast? closed)))
      rw [Action.record, decide_eq_false stays, RecordLog.append_open]
      obtain ⟨before, pending⟩ := open_
      exact ⟨written ++ event.data, whole, before, by rw [← pending, List.append_assoc]⟩

/-- The client's own step takes its line on. -/
theorem HandlerStep.lineAt (absent : newline ∉ body) (plain : Plain (body ++ [newline]))
    (moved : HandlerStep fixedSizeLlseek client shared handler action next after)
    (unfound : handler.locals.foundIoctlCmd = false)
    (line : LineAt client (body ++ [newline]) log labels handler.phase) :
    after.locals.foundIoctlCmd = false ∧
      LineAt client (body ++ [newline]) (action.record log) (labels ++ [(client, action)])
        after.phase := by
  cases moved with
  | receive | disconnect => exact line.elim
  | @lockChunk system locals bytes result handled =>
      obtain ⟨same, ends⟩ := line
      have text : receiveChunk locals ⟨bytes, false⟩ = _ :=
        receiveChunk_plain unfound (same ▸ plain)
      cases handled.symm.trans text
      refine ⟨unfound, ?_⟩
      obtain ⟨byte, rest, filled⟩ : ∃ byte rest, body ++ [newline] = byte :: rest :=
        List.exists_cons_of_ne_nil (by simp)
      rw [decide_eq_true ends, same, Option.getD_some, filled]
      exact ⟨[], rfl, List.nil_suffix⟩
  | @write shared locals rest newLineFound event system whole _ _ =>
      refine ⟨unfound, ?_⟩
      cases newLineFound with
      | false => exact line.elim
      | true => exact line.write absent whole.nonempty
  | @unlockChunk shared locals newLineFound =>
      cases newLineFound with
      | false => exact line.elim
      | true => exact ⟨unfound, line.step client .unlockChunk⟩
  | lockRequest | seek | startReading | unlockRequest => exact ⟨unfound, trivial⟩
  | read =>
      refine ⟨unfound, ?_⟩
      unfold freadNext
      split <;> trivial

end Handlers

section Services

variable {fixedSizeLlseek : FixedSizeLlseek} {client : Nat} {service next : Service}
  {label : Nat × Action} {log : RecordLog UInt8} {body : List UInt8} {labels : List (Nat × Action)}

/-- Another client's step leaves the line where it is, or completes a later command. -/
theorem LineAt.other {phase : Phase} {line : List UInt8} {mover : Nat} {action : Action}
    (at_ : LineAt client line log labels phase)
    (quiet : phase.Locked → action.closes = false ∧ action.record log = log) :
    LineAt client line (action.record log) (labels ++ [(mover, action)]) phase := by
  cases phase with
  | receiving => exact at_.elim
  | received | opened | reading | finished | responding => exact at_
  | requesting => exact Stored.step at_ mover action
  | appending text newLineFound =>
      cases newLineFound with
      | false => exact at_.elim
      | true =>
          cases text with
          | nil => exact Stored.step at_ mover action
          | cons =>
              rw [(quiet trivial).2]
              exact at_

theorem Carries.step (absent : newline ∉ body) (plain : Plain (body ++ [newline]))
    (carries : Carries client (body ++ [newline]) log service labels)
    (moved : ServiceStep fixedSizeLlseek service label next) :
    Carries client (body ++ [newline]) (label.2.record log) next (labels ++ [label]) := by
  have exclusive := moved.exclusive carries.exclusive
  rcases label with ⟨mover, action⟩
  obtain ⟨shared, handler, stepped, rfl⟩ := moved
  dsimp only at stepped
  have represents := stepped.represents carries.represents
  by_cases own : client = mover
  · subst own
    obtain ⟨unfound, line⟩ := stepped.lineAt absent plain carries.unfound carries.line
    exact ⟨represents, exclusive, by simpa using unfound, by simpa using line⟩
  · have stays : Function.update service.handler mover handler client = service.handler client :=
      Function.update_of_ne own _ _
    refine ⟨represents, exclusive, by simpa only [stays] using carries.unfound, ?_⟩
    simp only [stays]
    refine carries.line.other fun inside => stepped.quiet fun both => ?_
    exact own (carries.exclusive.eq_of_inside inside both)

theorem run_carries (absent : newline ∉ body) (plain : Plain (body ++ [newline]))
    (run : Run (ServiceStep fixedSizeLlseek) service labels next)
    (carries : Carries client (body ++ [newline]) log service []) :
    ∃ log, Carries client (body ++ [newline]) log next labels := by
  refine run.recorded (fun service labels => ∃ log, Carries client (body ++ [newline]) log service
    labels) ?_ ⟨log, carries⟩
  exact fun _ _ _ _ ⟨log, carries⟩ moved => ⟨_, carries.step absent plain moved⟩

/-- In every interleaving, a line received in one chunk ends one command, and the
response is the last ten commands at the time of the request: the client's own is
among them unless ten more were completed after it. -/
theorem own_line_in_response {first received before locked last : Service}
    {earlier labels later : List (Nat × Action)} {bytes rest : List UInt8}
    (started : first.Started) (reached : Run (ServiceStep fixedSizeLlseek) first earlier received)
    (line : (received.handler client).phase = .received (body ++ newline :: rest))
    (absent : newline ∉ body) (plain : Plain (body ++ [newline]))
    (unfound : (received.handler client).locals.foundIoctlCmd = false)
    (serves : Run (ServiceStep fixedSizeLlseek) received labels before)
    (acquires : ServiceStep fixedSizeLlseek before (client, .lockRequest) locked)
    (small : before.contents.length < bufferSize)
    (answers : Run (ServiceStep fixedSizeLlseek) locked later last)
    (responded : (last.handler client).phase = .responding bytes) :
    ∃ left event right, labels = left ++ (client, .write event) :: right ∧
      event.data.getLast? = some newline ∧
      (∃ log, Represents before.shared.system.kernel log ∧ bytes = liveContents log ∧
        log.EndsRecord (body ++ [newline]) (completions right)) ∧
      (completions right < 10 → body ++ [newline] <:+: bytes) := by
  have sound := run_sound started reached
  obtain ⟨start, represents, _⟩ := sound.recorded
  have carries : Carries client (body ++ [newline]) start received [] := by
    refine ⟨represents, sound.exclusive, unfound, ?_⟩
    rw [line]
    exact ⟨lineOf_line absent, List.mem_append_right _ List.mem_cons_self⟩
  obtain ⟨log, arrived⟩ := run_carries absent plain serves carries
  have requesting : (before.handler client).phase = .requesting := by
    obtain ⟨_, _, stepped, _⟩ := acquires
    exact stepped.requests
  have answering := run_answering (run_sound started (reached.append serves)) small acquires answers
  have progress := answering.progress
  rw [responded, startPosition, if_neg (by rw [arrived.unfound]; exact Bool.false_ne_true)]
    at progress
  have all : bytes = liveContents log := progress.trans arrived.represents.flatten_ringBytes
  have stored := arrived.line
  rw [requesting] at stored
  obtain ⟨left, event, right, split, closed, ends⟩ := stored
  refine ⟨left, event, right, split, closed, ⟨log, arrived.represents, all, ends⟩, fun recent => ?_⟩
  rw [all]
  exact ends.infix_retained recent

end Services

def otherWritten : Event := ⟨.write 1 (.whole [98, newline] (some 2) none), 2, []⟩

def afterOther : System := (afterLine.openFile 1).after vfsFixedSizeLlseek otherWritten.operation

/-- After the write of client 0, client 1 completes a command of its own. -/
def lineThenOther : List (Nat × Action) :=
  [(0, .lockChunk), (0, .write lineWritten), (0, .unlockChunk), (1, .receive [98, newline]),
    (1, .lockChunk), (1, .write otherWritten), (1, .unlockChunk)]

def commandRead (delivered : List UInt8) : Event :=
  ⟨.read 0 ⟨8, false, 0⟩, delivered.length, delivered⟩

theorem otherWritten_step : HandlerStep vfsFixedSizeLlseek 1 ⟨afterLine.openFile 1, some 1⟩
    ⟨.start 0 0, .appending otherWritten.data true⟩ (.write otherWritten)
    ⟨afterOther, some 1⟩ ⟨.start 0 0, .appending [] true⟩ := by
  rw [← List.append_nil otherWritten.data]
  exact .write ⟨⟨1, _, rfl⟩, by decide, rfl⟩ rfl (System.after_step rfl)

/-- The response of client 0 has its own line and the one completed after it. -/
theorem own_line_in_response_two_clients : ∃ left event right,
    lineThenOther = left ++ (0, .write event) :: right ∧
      event.data.getLast? = some newline ∧
      (∃ log, Represents afterOther.kernel log ∧
        [97, newline, 98, newline] = liveContents log ∧
        log.EndsRecord ([97] ++ [newline]) (completions right)) ∧
      (completions right < 10 → [97] ++ [newline] <:+: [97, newline, 98, newline]) := by
  have reached : Run (ServiceStep vfsFixedSizeLlseek)
      (oneHandler ⟨loadedSystem, none⟩ ⟨.start 0 0, .receiving⟩) [(0, .receive [97, newline])]
      (oneHandler ⟨loadedSystem, none⟩ ⟨.start 0 0, .received [97, newline]⟩) :=
    .single (oneHandler_step (.receive (by decide)))
  obtain ⟨handler, requesting, serves⟩ : ∃ handler : Nat → Handler,
      handler 0 = ⟨.start 0 0, .requesting⟩ ∧ Run (ServiceStep vfsFixedSizeLlseek)
        (oneHandler ⟨loadedSystem, none⟩ ⟨.start 0 0, .received [97, newline]⟩) lineThenOther
        ⟨⟨afterOther, none⟩, handler⟩ := by
    exact ⟨_, rfl, .cons (oneHandler_step (.lockChunk rfl)) <|
      .cons (oneHandler_step lineWritten_step) <| .cons (oneHandler_step .unlockChunk) <|
      .cons ⟨_, _, .receive (by decide), rfl⟩ <| .cons ⟨_, _, .lockChunk rfl, rfl⟩ <|
      .cons ⟨_, _, otherWritten_step, rfl⟩ <| .single ⟨_, _, .unlockChunk, rfl⟩⟩
  have locks : HandlerStep vfsFixedSizeLlseek 0 ⟨afterOther, none⟩ (handler 0) .lockRequest
      ⟨afterOther.openFile 0, some 0⟩ ⟨.start 0 0, .opened⟩ := by
    rw [requesting]
    exact .lockRequest
  have stored : afterOther.kernel.ringBytes.flatten = [97, newline, 98, newline] := by
    decide +kernel
  have answers : Run (ServiceStep vfsFixedSizeLlseek)
      ⟨⟨afterOther.openFile 0, some 0⟩, Function.update handler 0 ⟨.start 0 0, .opened⟩⟩
      [(0, .startReading), (0, .read (commandRead [97, newline])),
        (0, .read (commandRead [98, newline])), (0, .read (commandRead [])), (0, .unlockRequest)]
      _ :=
    .cons ⟨_, _, .startReading rfl, rfl⟩ <| .cons (@reading_step _ _ _ _ 0 _ _ (by decide) rfl) <|
      .cons (reading_step (by decide) rfl) <| .cons (reading_step (by decide) rfl) <|
      .single ⟨_, _, .unlockRequest, rfl⟩
  exact own_line_in_response oneHandler_started reached rfl (by decide) ⟨by decide, by decide⟩ rfl
    serves ⟨_, _, locks, rfl⟩ (by rw [Service.contents, stored]; decide) answers rfl

end Aesd.Server
