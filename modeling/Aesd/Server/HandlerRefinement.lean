import Aesd.Server.ClientLines
import Aesd.Server.ResponseProperties

/-!
# Handlers appear to append chunks in one piece

Between the calls by which a handler appends one chunk, other handlers take their
own steps. Since `file_mutex` is held throughout, the device is left as if each
chunk had been appended in one step, in the order in which the mutex was released.
-/

set_option autoImplicit false

namespace Aesd.Server

open CText Driver Transition Exclusion

section Writes

variable {kernel next : Kernel} {fPos position : Int} {call : WriteCall} {retval : Int}
  {delivered : List UInt8}

/-- What a write does to the device does not depend on the position of its file. -/
theorem aesdWrite_fPos_free (returned : aesdWrite kernel fPos call =
    .returned retval position next delivered) (other : Int) :
    ∃ position, aesdWrite kernel other call = .returned retval position next delivered := by
  revert returned
  unfold aesdWrite underLock
  cases mutexLockInterruptible kernel call.interrupted with
  | interrupted =>
      rintro ⟨⟩
      exact ⟨_, rfl⟩
  | blocked => exact nofun
  | acquired kernel =>
      dsimp only [aesdWriteLocked]
      cases kmalloc kernel.memory call.kBuf call.data.length with
      | none =>
          rintro ⟨⟩
          exact ⟨_, rfl⟩
      | some granted =>
          dsimp only
          cases granted.2.writeRange granted.1 0 call.copied with
          | none => exact nofun
          | some memory =>
              dsimp only
              cases memory.load granted.1 ((call.data.length : Int) - 1) with
              | none => exact nofun
              | some last =>
                  dsimp only
                  cases fillBufferEntry { kernel with memory } granted.1 call.usrCount
                      call.tempBuf with
                  | oops => exact nofun
                  | noMemory | filled =>
                      rintro ⟨⟩
                      exact ⟨_, rfl⟩

theorem Step.write_elsewhere {fixedSizeLlseek : FixedSizeLlseek} {system elsewhere next : System}
    {event : Event} (moved : Step fixedSizeLlseek system event next) (whole : event.WritesWhole)
    (same : elsewhere.kernel = system.kernel) :
    ∃ after, Step fixedSizeLlseek elsewhere event after ∧ after.kernel = next.kernel := by
  obtain ⟨position, kernel, returned, rfl⟩ := moved
  obtain ⟨file, call, written⟩ := whole.write
  rw [written] at returned
  obtain ⟨moved, there⟩ := aesdWrite_fPos_free returned (elsewhere.fPos file)
  rw [← same] at there
  exact ⟨_, ⟨moved, kernel, by rw [written]; exact there, rfl⟩, rfl⟩

end Writes

def Action.received : Action → List UInt8
  | .receive bytes => bytes
  | _ => []

/-- All that a client's handler has received. -/
def receivedBy (client : Nat) (labels : List (Nat × Action)) : List UInt8 :=
  (labels.filter (·.1 = client)).flatMap (·.2.received)

/-- A handler is done with a chunk when it releases the mutex. -/
def finishesChunk : Nat × Action → List Nat
  | (client, .unlockChunk) | (client, .disconnect) => [client]
  | _ => []

def ClientEvent.client : ClientEvent → Nat
  | .chunk client _ | .disconnect client => client

/-- The clients as they stand before any chunk. -/
def Service.clients (service : Service) : Clients where
  system := service.shared.system
  locals := fun client => (service.handler client).locals
  sent := fun _ => []
  left := fun _ => false

def Phase.Appending : Phase → Prop
  | .appending _ _ => True
  | _ => False

/-- Whole writes have brought the device from one state to another, and `text` is what
is left of the text `whole`. -/
def PartlyWritten (fixedSizeLlseek : FixedSizeLlseek) (system : System) (kernel : Kernel)
    (whole text : List UInt8) : Prop :=
  ∃ events after, (∀ event ∈ events, event.WritesWhole) ∧
    (events.map Event.data).flatten ++ text = whole ∧
    Run (Step fixedSizeLlseek) system events after ∧ after.kernel = kernel

/-- Where a handler stands to the client it serves, after receiving `stream`. -/
def Stands (fixedSizeLlseek : FixedSizeLlseek) (clients : Clients) (kernel : Kernel)
    (client : Nat) (stream : List UInt8) : Phase → Prop
  | .receiving => clients.left client = false ∧ stream = clients.sent client
  | .received bytes => clients.left client = false ∧ bytes ≠ [] ∧
      stream = clients.sent client ++ bytes
  | .appending text newLineFound => clients.left client = false ∧
      ∃ bytes, bytes ≠ [] ∧ stream = clients.sent client ++ bytes ∧
        newLineFound = decide (newline ∈ bytes) ∧
        PartlyWritten fixedSizeLlseek clients.system kernel (lineOf bytes) text
  | _ => clients.left client = true ∧ stream = clients.sent client

structure Follows (fixedSizeLlseek : FixedSizeLlseek) (labels : List (Nat × Action))
    (service : Service) (clients : Clients) : Prop where
  exclusive : Exclusive Phase.Locked (fun client => (service.handler client).phase)
    service.shared.fileMutex
  locals : ∀ client, (service.handler client).locals = clients.locals client
  unfound : ∀ client, (clients.locals client).foundIoctlCmd = false
  stands : ∀ client, Stands fixedSizeLlseek clients service.shared.system.kernel client
    (receivedBy client labels) (service.handler client).phase
  quiet : (∀ client, ¬(service.handler client).phase.Appending) →
    clients.system.kernel = service.shared.system.kernel

section Steps

variable {fixedSizeLlseek : FixedSizeLlseek} {client mover : Nat} {labels : List (Nat × Action)}
  {service : Service} {clients after : Clients} {shared : Shared} {handler : Handler}
  {action : Action} {phase : Phase} {kernel next : Kernel} {stream : List UInt8}

theorem Phase.Appending.locked (appending : phase.Appending) : phase.Locked := by
  cases phase with
  | appending => trivial
  | receiving | received | requesting | opened | reading | finished | responding =>
      exact appending.elim

theorem Plain.chunk {sent bytes : List UInt8} (plain : Plain (sent ++ bytes)) :
    Plain (lineOf bytes) :=
  plain.of_within ((lineOf_leading bytes).isInfix.trans (List.suffix_append _ _).isInfix)

theorem receivedBy_self (action : Action) :
    receivedBy mover (labels ++ [(mover, action)]) = receivedBy mover labels ++ action.received := by
  simp [receivedBy]

theorem receivedBy_other (other : client ≠ mover) (action : Action) :
    receivedBy client (labels ++ [(mover, action)]) = receivedBy client labels := by
  simp [receivedBy, Ne.symm other]

theorem receivedBy_silent (action : Action) (silent : action.received = []) :
    receivedBy mover (labels ++ [(mover, action)]) = receivedBy mover labels := by
  rw [receivedBy_self, silent, List.append_nil]

theorem receivedBy_front (left right : List (Nat × Action)) :
    receivedBy client left <+: receivedBy client (left ++ right) := by
  rw [receivedBy, receivedBy, List.filter_append, List.flatMap_append]
  exact List.prefix_append _ _

theorem Stands.congr (stands : Stands fixedSizeLlseek clients kernel client stream phase)
    (left : after.left client = clients.left client) (sent : after.sent client = clients.sent client)
    (appending : phase.Appending → after.system = clients.system ∧ next = kernel) :
    Stands fixedSizeLlseek after next client stream phase := by
  cases phase with
  | appending =>
      obtain ⟨system, rfl⟩ := appending trivial
      unfold Stands
      rw [left, sent, system]
      exact stands
  | receiving | received | requesting | opened | reading | finished | responding =>
      unfold Stands
      rw [left, sent]
      exact stands

/-- A step of one handler, followed by its client alone. -/
theorem Follows.update (follows : Follows fixedSizeLlseek labels service clients)
    (stepped : HandlerStep fixedSizeLlseek mover service.shared (service.handler mover) action
      shared handler) (after : Clients)
    (apart : ∀ client, client ≠ mover → after.left client = clients.left client ∧
      after.sent client = clients.sent client ∧ after.locals client = clients.locals client)
    (locals : handler.locals = after.locals mover)
    (unfound : (after.locals mover).foundIoctlCmd = false)
    (stands : Stands fixedSizeLlseek after shared.system.kernel mover
      (receivedBy mover (labels ++ [(mover, action)])) handler.phase)
    (shows : after.system = clients.system ∨ (service.handler mover).phase.Appending)
    (quiet : ¬handler.phase.Appending → (¬(service.handler mover).phase.Appending →
      clients.system.kernel = service.shared.system.kernel) →
      after.system.kernel = shared.system.kernel) :
    Follows fixedSizeLlseek (labels ++ [(mover, action)])
      ⟨shared, Function.update service.handler mover handler⟩ after := by
  have moved : ServiceStep fixedSizeLlseek service (mover, action)
      ⟨shared, Function.update service.handler mover handler⟩ := ⟨_, _, stepped, rfl⟩
  refine ⟨moved.exclusive follows.exclusive, fun client => ?_, fun client => ?_,
    fun client => ?_, fun none => ?_⟩
  · by_cases own : client = mover
    · subst own
      simpa using locals
    · simpa [own, (apart client own).2.2] using follows.locals client
  · by_cases own : client = mover
    · subst own
      exact unfound
    · rw [(apart client own).2.2]
      exact follows.unfound client
  · by_cases own : client = mover
    · subst own
      simpa using stands
    · obtain ⟨left, sent, _⟩ := apart client own
      simp only [Function.update_of_ne own, receivedBy_other own]
      refine (follows.stands client).congr left sent fun appending => ?_
      have inside := appending.locked
      refine ⟨shows.resolve_right fun both => ?_, ?_⟩
      · exact own (follows.exclusive.eq_of_inside inside both.locked)
      · rw [stepped.waits_for follows.exclusive own inside]
  · refine quiet ?_ fun before => follows.quiet fun client => ?_
    · simpa using none mover
    · by_cases own : client = mover
      · subst own
        exact before
      · simpa [own] using none client

/-- A step that ends no chunk leaves the client where it is. -/
theorem Follows.silent (follows : Follows fixedSizeLlseek labels service clients)
    (stepped : HandlerStep fixedSizeLlseek mover service.shared (service.handler mover) action
      shared handler)
    (unseen : finishesChunk (mover, action) = []) (locals : handler.locals = clients.locals mover)
    (stands : Stands fixedSizeLlseek clients shared.system.kernel mover
      (receivedBy mover (labels ++ [(mover, action)])) handler.phase)
    (quiet : ¬handler.phase.Appending → (¬(service.handler mover).phase.Appending →
      clients.system.kernel = service.shared.system.kernel) →
      clients.system.kernel = shared.system.kernel) :
    ∃ taken after, Run (ClientStep fixedSizeLlseek) clients taken after ∧
      taken.map ClientEvent.client = finishesChunk (mover, action) ∧
      Follows fixedSizeLlseek (labels ++ [(mover, action)])
        ⟨shared, Function.update service.handler mover handler⟩ after := by
  refine ⟨[], clients, .refl, unseen.symm, ?_⟩
  exact follows.update stepped clients (fun _ _ => ⟨rfl, rfl, rfl⟩) locals
    (follows.unfound mover) stands (.inl rfl) quiet

theorem PartlyWritten.write {system before next : System} {whole rest : List UInt8} {event : Event}
    (partly : PartlyWritten fixedSizeLlseek system before.kernel whole (event.data ++ rest))
    (accepted : event.WritesWhole) (wrote : Step fixedSizeLlseek before event next) :
    PartlyWritten fixedSizeLlseek system next.kernel whole rest := by
  obtain ⟨events, reached, writes, texts, run, same⟩ := partly
  obtain ⟨after, there, kept⟩ := Step.write_elsewhere wrote accepted same
  refine ⟨events ++ [event], after, ?_, ?_, run.append (.single there), kept⟩
  · intro one member
    rcases List.mem_append.mp member with old | new
    · exact writes one old
    · cases List.mem_singleton.mp new
      exact accepted
  · simpa using texts

theorem PartlyWritten.delivers {system : System} {whole : List UInt8}
    (partly : PartlyWritten fixedSizeLlseek system kernel whole []) :
    ∃ events after, Delivers whole events ∧ Run (Step fixedSizeLlseek) system events after ∧
      after.kernel = kernel := by
  obtain ⟨events, after, writes, texts, run, same⟩ := partly
  rw [List.append_nil] at texts
  exact ⟨events, after, ⟨writes, texts⟩, run, same⟩

/-- While the mutex is free, no handler is appending. -/
theorem Follows.settled (follows : Follows fixedSizeLlseek labels service clients)
    (free : service.shared.fileMutex = none) :
    clients.system.kernel = service.shared.system.kernel := by
  refine follows.quiet fun client appending => ?_
  have owner := (follows.exclusive client).mp appending.locked
  rw [free] at owner
  cases owner

theorem Follows.step {next : Service} {label : Nat × Action}
    (plain : ∀ client, Plain (receivedBy client (labels ++ [label])))
    (follows : Follows fixedSizeLlseek labels service clients)
    (moved : ServiceStep fixedSizeLlseek service label next) :
    ∃ taken after, Run (ClientStep fixedSizeLlseek) clients taken after ∧
      taken.map ClientEvent.client = finishesChunk label ∧
      Follows fixedSizeLlseek (labels ++ [label]) next after := by
  rcases label with ⟨mover, action⟩
  obtain ⟨shared, handler, stepped, rfl⟩ := moved
  dsimp only at stepped
  have stands := follows.stands mover
  have locals := follows.locals mover
  have unfound := follows.unfound mover
  have update := follows.update stepped
  have silent := follows.silent stepped
  generalize handles : service.handler mover = handling at stepped stands locals update silent
  generalize shares : service.shared = sharing at stepped stands update silent
  cases stepped with
  | @receive shared current bytes filled =>
      obtain ⟨staying, stream⟩ := stands
      refine silent rfl locals ⟨staying, filled, ?_⟩ fun _ quiet => quiet id
      rw [receivedBy_self, stream]
      rfl
  | @disconnect shared current =>
      obtain ⟨staying, stream⟩ := stands
      refine ⟨_, _, .single (.disconnect staying), rfl, update _ ?_ locals unfound
        ⟨Function.update_self _ _ _, ?_⟩ (.inl rfl) fun _ quiet => quiet id⟩
      · intro client other
        exact ⟨Function.update_of_ne other _ _, rfl, rfl⟩
      · rw [receivedBy_silent .disconnect rfl, stream]
  | @lockChunk system current bytes result handled =>
      obtain ⟨staying, filled, stream⟩ := stands
      have sent := plain mover
      rw [receivedBy_silent .lockChunk rfl, stream] at sent
      have same : current = clients.locals mover := locals
      have text : receiveChunk current ⟨bytes, false⟩ = _ :=
        receiveChunk_plain (same ▸ unfound) sent.chunk
      cases handled.symm.trans text
      -- The mutex was free, so the client and the handlers agree on the device.
      have settled := follows.settled (by rw [shares])
      rw [shares] at settled
      refine silent rfl locals
        ⟨staying, bytes, filled, ?_, rfl, [], clients.system, nofun, rfl, .refl, settled⟩
        fun resting => absurd trivial resting
      rw [receivedBy_silent .lockChunk rfl, stream]
  | @write shared current rest newLineFound event system whole file wrote =>
      obtain ⟨staying, bytes, filled, stream, ends, partly⟩ := stands
      refine silent rfl locals ⟨staying, bytes, filled, ?_, ends, partly.write whole wrote⟩
        fun resting => absurd trivial resting
      rw [receivedBy_silent (.write event) rfl, stream]
  | @unlockChunk shared current newLineFound =>
      obtain ⟨staying, bytes, filled, stream, rfl, partly⟩ := stands
      obtain ⟨events, system, delivers, run, kept⟩ := partly.delivers
      have sent := plain mover
      rw [receivedBy_silent .unlockChunk rfl, stream] at sent
      have handled := receiveChunk_plain unfound sent.chunk
      -- Only now does the client take a step, in which all of these writes are one.
      refine ⟨_, _, .single (.chunk staying filled sent handled delivers run), rfl,
        update _ ?_ ?_ ?_ ?_ (.inr trivial) fun _ _ => kept⟩
      · intro client other
        simp [Function.update_of_ne other]
      · simpa using locals
      · simpa using unfound
      · rw [receivedBy_silent .unlockChunk rfl, stream]
        by_cases ends : newline ∈ bytes
        · rw [decide_eq_true ends]
          exact ⟨by simp, by simp⟩
        · rw [decide_eq_false ends]
          exact ⟨by simp, by simp⟩
  | seek found =>
      rw [← locals, found] at unfound
      cases unfound
  | lockRequest =>
      exact silent rfl locals (by rwa [receivedBy_silent .lockRequest rfl]) fun _ quiet => quiet id
  | startReading | unlockRequest =>
      exact silent rfl locals (by rwa [receivedBy_silent _ rfl]) fun _ quiet => quiet id
  | @read shared current contents event system call operation _ _ read =>
      obtain ⟨position, kernel, returned, rfl⟩ := read
      rw [operation] at returned
      obtain ⟨rfl, _⟩ := aesdRead_returned returned
      refine silent rfl locals ?_ fun _ quiet => quiet id
      rw [receivedBy_silent (.read event) rfl]
      unfold freadNext
      split <;> exact stands

end Steps

theorem Service.Started.clients {service : Service} (started : service.Started) :
    service.clients.Started where
  loaded := started.loaded
  locals := fun client => (started.receiving client).2
  sent := fun _ => rfl
  left := fun _ => rfl

theorem Service.Started.follows {fixedSizeLlseek : FixedSizeLlseek} {service : Service}
    (started : service.Started) : Follows fixedSizeLlseek [] service service.clients where
  exclusive := started.sound.exclusive
  locals := fun _ => rfl
  unfound := fun client => (started.receiving client).2
  stands := by
    intro client
    rw [(started.receiving client).1]
    exact ⟨rfl, rfl⟩
  quiet := fun _ => rfl

theorem Follows.sent_prefix {fixedSizeLlseek : FixedSizeLlseek} {labels : List (Nat × Action)}
    {service : Service} {clients : Clients}
    (follows : Follows fixedSizeLlseek labels service clients) (client : Nat) :
    clients.sent client <+: receivedBy client labels := by
  have stands := follows.stands client
  revert stands
  generalize (service.handler client).phase = phase
  cases phase with
  | received =>
      rintro ⟨_, _, stream⟩
      exact ⟨_, stream.symm⟩
  | appending =>
      rintro ⟨_, _, _, stream, _⟩
      exact ⟨_, stream.symm⟩
  | receiving | requesting | opened | reading | finished | responding =>
      rintro ⟨_, stream⟩
      rw [stream]

/-- In every interleaving of handlers whose clients send plain bytes, the device is
left as by clients whose chunks are appended in one step each, in the order in which
the handlers were done with them. -/
theorem handlers_append_chunks {fixedSizeLlseek : FixedSizeLlseek} {first last : Service}
    {labels : List (Nat × Action)} (started : first.Started)
    (run : Run (ServiceStep fixedSizeLlseek) first labels last)
    (plain : ∀ client, Plain (receivedBy client labels)) :
    ∃ events clients, first.clients.Started ∧
      Run (ClientStep fixedSizeLlseek) first.clients events clients ∧
      events.map ClientEvent.client = labels.flatMap finishesChunk ∧
      (∀ client, clients.sent client <+: receivedBy client labels) ∧
      ((∀ client, ¬(last.handler client).phase.Appending) →
        clients.system.kernel = last.shared.system.kernel) := by
  obtain ⟨events, clients, atomic, order, follows⟩ := run.follows finishesChunk ClientEvent.client
    (fun labels => ∀ client, Plain (receivedBy client labels))
    (fun left right both client => (both client).of_within (receivedBy_front left right).isInfix)
    (Follows fixedSizeLlseek) (fun _ _ _ _ _ fits follows moved => follows.step fits moved)
    started.follows plain
  exact ⟨events, clients, started.clients, atomic, order, follows.sent_prefix, follows.quiet⟩

def interleavedChunks : List (Nat × Action) :=
  [(0, .receive [97, newline]), (0, .lockChunk), (1, .receive [98]), (0, .write lineWritten),
    (0, .unlockChunk)]

def startedService : Service :=
  oneHandler ⟨loadedSystem, none⟩ ⟨.start 0 0, .receiving⟩

/-- Client 1's chunk arrives while client 0's is being appended. -/
theorem handlers_append_chunks_two_clients : ∃ last : Service,
    last.shared.system.kernel.ringBytes = [[97, newline]] ∧
    ∃ events clients, startedService.clients.Started ∧
      Run (ClientStep vfsFixedSizeLlseek) startedService.clients events clients ∧
      events.map ClientEvent.client = interleavedChunks.flatMap finishesChunk ∧
      (∀ client, clients.sent client <+: receivedBy client interleavedChunks) ∧
      ((∀ client, ¬(last.handler client).phase.Appending) →
        clients.system.kernel = last.shared.system.kernel) := by
  obtain ⟨handler, run⟩ : ∃ handler, Run (ServiceStep vfsFixedSizeLlseek) startedService
      interleavedChunks ⟨⟨afterLine, none⟩, handler⟩ := by
    exact ⟨_, .cons ⟨_, _, .receive (by decide), rfl⟩ <| .cons ⟨_, _, .lockChunk rfl, rfl⟩ <|
      .cons ⟨_, _, .receive (by decide), rfl⟩ <| .cons ⟨_, _, lineWritten_step, rfl⟩ <|
      .single ⟨_, _, .unlockChunk, rfl⟩⟩
  have stored : afterLine.kernel.ringBytes = [[97, newline]] := by decide +kernel
  have plain : ∀ client, Plain (receivedBy client interleavedChunks) := by
    intro client
    match client with
    | 0 => exact ⟨by decide, by decide⟩
    | 1 => exact ⟨by decide, by decide⟩
    | client + 2 =>
        have nothing : receivedBy (client + 2) interleavedChunks = [] := by
          simp [receivedBy, interleavedChunks]
        rw [nothing]
        exact ⟨by decide, by decide⟩
  exact ⟨_, stored, handlers_append_chunks oneHandler_started run plain⟩

end Aesd.Server
