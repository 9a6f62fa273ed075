import Aesd.Server.ThreadProperties

/-!
# What the server keeps open, and when it accepts again

Where every handler was started, descriptors are closed too often, but never too
seldom: whatever is open belongs to a connection whose handler is not through with
it. A socket whose `pthread_create` failed has no handler and is left open. `main`
waits for no handler that is still at work.
-/

set_option autoImplicit false

namespace Aesd.Server

open HandleTable Transition

/-- The handler has yet to close its socket. -/
def Stage.HasSocket : Stage → Prop
  | .closed | .complete | .exited => False
  | _ => True

/-- Why a descriptor is open: somebody will close it, or nobody ever had to, since
`pthread_create` failed and the connection has no handler. -/
def ServerState.Justifies (server : ServerState) (events : List ServerEvent) (fd : Nat) :
    Descriptor → Prop
  | .other => True
  | .socket connection => connection < server.accepted ∧ server.clientSocket connection = fd ∧
      (server.main = .accepted connection ∨
        (∃ stage, server.stage connection = some stage ∧ stage.HasSocket) ∨
        (.createFails connection ∈ events ∧ server.stage connection = none))
  | .device connection => ∃ stage, server.stage connection = some stage ∧ stage.file = some fd

def ServerState.Justified (server : ServerState) (events : List ServerEvent) : Prop :=
  ∀ fd descriptor, server.table fd = some descriptor → server.Justifies events fd descriptor

section Stages

variable {clientSocket fd : Nat} {stage after : Stage}

theorem StageStep.nothing_keeps (moved : StageStep clientSocket stage .nothing after) :
    stage.file = none ∧ (stage.HasSocket → after.HasSocket) := by
  cases moved with
  | skip | leave | sent | sendFails => exact ⟨rfl, fun _ => trivial⟩
  | setFlag | exit => exact ⟨rfl, id⟩

theorem StageStep.fopen_keeps (moved : StageStep clientSocket stage (.fopen fd) after) :
    stage.file = none ∧ after.file = some fd ∧ after.HasSocket := by
  cases moved with
  | openAppend | openRead => exact ⟨rfl, rfl, trivial⟩

/-- What a handler closes is its file or its socket, and the latter at the end. -/
theorem StageStep.close_keeps (moved : StageStep clientSocket stage (.close fd) after) :
    (∀ file, stage.file = some file → file = fd) ∧ (after.HasSocket ∨ fd = clientSocket) := by
  cases moved with
  | closeAppend | closeLastAppend | closeRead =>
      exact ⟨fun file same => (Option.some.inj same).symm, .inl trivial⟩
  | closeFailed => exact ⟨by simp [Stage.file], .inl trivial⟩
  | close => exact ⟨by simp [Stage.file], .inr rfl⟩

end Stages

section Steps

variable {server next : ServerState} {event : ServerEvent} {events : List ServerEvent}

theorem ServerState.Justified.more (justified : server.Justified events) (event : ServerEvent) :
    server.Justified (events ++ [event]) := by
  intro fd descriptor denotes
  have before := justified fd descriptor denotes
  cases descriptor with
  | other => trivial
  | device connection => exact before
  | socket connection =>
      obtain ⟨known, number, pending | running | ⟨failed, none⟩⟩ := before
      · exact ⟨known, number, .inl pending⟩
      · exact ⟨known, number, .inr (.inl running)⟩
      · exact ⟨known, number, .inr (.inr ⟨List.mem_append_left _ failed, none⟩)⟩

/-- A step of `main` that opens nothing and moves no handler. A socket that was just
accepted is closed, or left to nobody. -/
theorem ServerState.Justified.of_main (justified : server.Justified events)
    (table : ∀ fd descriptor, next.table fd = some descriptor →
      server.table fd = some descriptor)
    (accepted : next.accepted = server.accepted)
    (sockets : next.clientSocket = server.clientSocket) (stages : next.stage = server.stage)
    (pending : ∀ connection, server.main = .accepted connection →
      next.table (server.clientSocket connection) = none ∨
        (.createFails connection ∈ events ∧ server.stage connection = none)) :
    next.Justified events := by
  intro fd descriptor denotes
  have before := justified fd descriptor (table fd descriptor denotes)
  cases descriptor with
  | other => trivial
  | device connection => simpa [ServerState.Justifies, stages] using before
  | socket connection =>
      rw [ServerState.Justifies, accepted, sockets, stages]
      obtain ⟨known, number, waits | settled⟩ := before
      · rcases pending connection waits with closed | failed
        · rw [number] at closed
          cases closed.symm.trans denotes
        · exact ⟨known, number, .inr (.inr failed)⟩
      · exact ⟨known, number, .inr settled⟩

/-- A step of a handler, from what it does to the handler's own descriptors. -/
theorem ServerState.Justified.of_handler (justified : server.Justified events) {connection : Nat}
    {stage after : Stage} (current : server.stage connection = some stage)
    {table : Table Descriptor}
    (others : ∀ fd descriptor, table fd = some descriptor → descriptor ≠ .device connection →
      server.table fd = some descriptor)
    (socket : stage.HasSocket →
      after.HasSocket ∨ table (server.clientSocket connection) = none)
    (device : ∀ fd, table fd = some (.device connection) → after.file = some fd) :
    ServerState.Justified { server with
      table := table
      stage := Function.update server.stage connection (some after) } events := by
  intro fd descriptor denotes
  cases descriptor with
  | other => trivial
  | device owner =>
      by_cases own : owner = connection
      · subst own
        exact ⟨after, Function.update_self _ _ _, device fd denotes⟩
      · obtain ⟨stage, running, file⟩ := justified fd _ (others fd _ denotes (by simpa using own))
        exact ⟨stage, (Function.update_of_ne own _ _).trans running, file⟩
  | socket owner =>
      obtain ⟨known, number, pending | ⟨found, running, has⟩ | ⟨failed, idle⟩⟩ :=
        justified fd _ (others fd _ denotes (by simp))
      · exact ⟨known, number, .inl pending⟩
      · refine ⟨known, number, .inr (.inl ?_)⟩
        by_cases own : owner = connection
        · subst own
          cases current.symm.trans running
          refine ⟨after, Function.update_self _ _ _, (socket has).resolve_right fun closed => ?_⟩
          rw [number] at closed
          cases closed.symm.trans denotes
        · exact ⟨found, (Function.update_of_ne own _ _).trans running, has⟩
      · have own : owner ≠ connection := by
          rintro rfl
          cases current.symm.trans idle
        exact ⟨known, number, .inr (.inr ⟨failed, (Function.update_of_ne own _ _).trans idle⟩)⟩

theorem ServerState.Justified.accept {fd : Nat} (justified : server.Justified events)
    (waits : server.main = .accepting) :
    ServerState.Justified { server with
      table := opened server.table fd (.socket server.accepted)
      accepted := server.accepted + 1
      clientSocket := Function.update server.clientSocket server.accepted fd
      main := .accepted server.accepted } events := by
  intro number descriptor denotes
  rcases of_opened denotes with ⟨rfl, rfl⟩ | before
  · exact ⟨Nat.lt_succ_self _, Function.update_self _ _ _, .inl rfl⟩
  · have held := justified number descriptor before
    cases descriptor with
    | other => trivial
    | device connection => exact held
    | socket connection =>
        obtain ⟨known, same, pending | settled⟩ := held
        · cases waits.symm.trans pending
        · have apart : connection ≠ server.accepted := Nat.ne_of_lt known
          exact ⟨Nat.lt_succ_of_lt known, (Function.update_of_ne apart _ _).trans same,
            .inr settled⟩

theorem ServerState.Justified.createThread {connection : Nat} (justified : server.Justified events)
    (waits : server.main = .accepted connection) (idle : server.stage connection = none) :
    ServerState.Justified { server with
      stage := Function.update server.stage connection (some .receiving)
      main := .inserting connection } events := by
  have started : ∀ owner stage, server.stage owner = some stage →
      Function.update server.stage connection (some .receiving) owner = some stage := by
    intro owner stage running
    have apart : owner ≠ connection := by
      rintro rfl
      cases idle.symm.trans running
    exact (Function.update_of_ne apart _ _).trans running
  intro fd descriptor denotes
  have held := justified fd descriptor denotes
  cases descriptor with
  | other => trivial
  | device owner =>
      obtain ⟨stage, running, file⟩ := held
      exact ⟨stage, started owner stage running, file⟩
  | socket owner =>
      obtain ⟨known, number, owned⟩ := held
      refine ⟨known, number, .inr ?_⟩
      by_cases own : owner = connection
      · subst own
        exact .inl ⟨.receiving, Function.update_self _ _ _, trivial⟩
      · rcases owned with pending | ⟨stage, running, has⟩ | ⟨failed, none⟩
        · cases waits.symm.trans pending
          exact absurd rfl own
        · exact .inl ⟨stage, started owner stage running, has⟩
        · exact .inr ⟨failed, (Function.update_of_ne own _ _).trans none⟩

theorem ServerState.Justified.step (justified : server.Justified events) (listed : Listed server)
    (moved : ServerStep server event next) : next.Justified (events ++ [event]) := by
  have justified := justified.more event
  cases moved with
  | accept waits _ => exact justified.accept waits
  | outOfMemory waits =>
      refine justified.of_main (fun _ _ denotes => (of_closed denotes).1) rfl rfl rfl
        fun connection same => .inl ?_
      cases waits.symm.trans same
      exact Function.update_self _ _ _
  | createThread waits => exact justified.createThread waits (listed.idle waits)
  | createFails waits =>
      refine justified.of_main (fun _ _ => id) rfl rfl rfl fun connection same => .inr ?_
      cases waits.symm.trans same
      exact ⟨by simp, listed.idle waits⟩
  | insertHead waits => exact justified.of_main (fun _ _ => id) rfl rfl rfl (by simp [waits])
  | visitRunning waits _ => exact justified.of_main (fun _ _ => id) rfl rfl rfl (by simp [waits])
  | visitComplete waits _ =>
      exact justified.of_main (fun _ _ denotes => (of_closed denotes).1) rfl rfl rfl
        (by simp [waits])
  | join waits _ => exact justified.of_main (fun _ _ => id) rfl rfl rfl (by simp [waits])
  | cleaned waits => exact justified.of_main (fun _ _ => id) rfl rfl rfl (by simp [waits])
  | work current moved =>
      obtain ⟨noFile, keeps⟩ := moved.nothing_keeps
      refine justified.of_handler current (fun _ _ denotes _ => denotes)
        (fun has => .inl (keeps has)) fun fd denotes => ?_
      obtain ⟨_, same, file⟩ := justified fd _ denotes
      cases current.symm.trans same
      cases noFile.symm.trans file
  | fopen current moved free =>
      obtain ⟨noFile, file, has⟩ := moved.fopen_keeps
      refine justified.of_handler current (fun _ _ denotes other => ?_) (fun _ => .inl has)
        fun number denotes => ?_
      · exact (of_opened denotes).resolve_left fun new => other new.2
      · rcases of_opened denotes with ⟨rfl, _⟩ | before
        · exact file
        · obtain ⟨_, same, open_⟩ := justified number _ before
          cases current.symm.trans same
          cases noFile.symm.trans open_
  | close current moved =>
      obtain ⟨file, socket⟩ := moved.close_keeps
      refine justified.of_handler current (fun _ _ denotes _ => (of_closed denotes).1)
        (fun _ => ?_) fun number denotes => ?_
      · rcases socket with has | rfl
        · exact .inl has
        · exact .inr (Function.update_self _ _ _)
      · obtain ⟨before, apart⟩ := of_closed denotes
        obtain ⟨_, same, open_⟩ := justified number _ before
        cases current.symm.trans same
        exact absurd (file number open_) apart

/-- A handler that has closed its socket keeps nothing open. -/
theorem ServerState.Justified.through (justified : server.Justified events)
    (listed : Listed server) {connection : Nat} {stage : Stage}
    (reached : server.stage connection = some stage) (done : ¬stage.HasSocket) (fd : Nat) :
    server.table fd ≠ some (.socket connection) ∧ server.table fd ≠ some (.device connection) := by
  constructor
  · intro denotes
    obtain ⟨_, _, pending | ⟨_, running, has⟩ | ⟨_, idle⟩⟩ := justified fd _ denotes
    · cases (listed.idle pending).symm.trans reached
    · cases running.symm.trans reached
      exact done has
    · cases idle.symm.trans reached
  · intro denotes
    obtain ⟨_, running, file⟩ := justified fd _ denotes
    cases running.symm.trans reached
    cases stage with
    | appending | reading => exact done trivial
    | receiving | requesting | sending | sendFailed | cleanup | closed | complete | exited =>
        cases file

end Steps

section Runs

variable {first last : ServerState} {events : List ServerEvent}

theorem run_listed (started : first.Started) (run : Run ServerStep first events last) :
    Listed last :=
  run.invariant (fun _ => True) Listed (fun _ _ _ _ listed moved => listed.step moved)
    (fun _ _ => trivial) started.tidy.listed

/-- In every run, also one that closes descriptors of others, what is open is to be
closed, unless it is the socket of a connection for which `pthread_create` failed: a
socket by `main` or a handler that has not closed it, a file by the handler that has
it open. Connections that are done have nothing open. -/
theorem finished_connections_hold_nothing (started : first.Started)
    (run : Run ServerStep first events last) :
    last.Justified events ∧
      ∀ connection stage, last.stage connection = some stage → ¬stage.HasSocket → ∀ fd,
        last.table fd ≠ some (.socket connection) ∧
          last.table fd ≠ some (.device connection) := by
  have start : first.Justified [] := by
    intro fd descriptor denotes
    rw [started.table fd descriptor denotes]
    trivial
  have holds : last.Justified events ∧ Listed last := by
    refine run.recorded (fun server events => server.Justified events ∧ Listed server) ?_
      ⟨start, started.tidy.listed⟩
    intro server events event next holds moved
    obtain ⟨justified, listed⟩ := holds
    exact ⟨justified.step listed moved, listed.step moved⟩
  obtain ⟨justified, listed⟩ := holds
  exact ⟨justified, fun _ _ reached done fd => justified.through listed reached done fd⟩

/-- Connection 0 is answered and its node freed. Connection 1 has no handler: its node
stays in the list, and its socket stays open. -/
theorem finished_connections_hold_nothing_create_fails :
    ∃ events last, Run ServerStep startedServer events last ∧ .createFails 1 ∈ events ∧
      last.main = .accepting ∧ last.threadList = [1] ∧ last.stage 0 = some .exited ∧
      last.table 5 = some (.socket 1) ∧ last.Justified events ∧
      ∀ fd, last.table fd ≠ some (.socket 0) ∧ last.table fd ≠ some (.device 0) := by
  have run : Run ServerStep startedServer
      [.accept 4, .internal, .internal, .internal, .internal, .accept 5, .createFails 1,
        .internal, .internal, .fopen 0 6, .close 0 6, .internal, .close 0 4, .internal,
        .internal, .close 0 4, .internal, .internal, .internal] _ :=
    .cons (.accept rfl rfl) <|
    .cons (.createThread rfl) <|
    .cons (.insertHead rfl) <|
    .cons (.visitRunning rfl (by simp [ServerState.Complete, Stage.Complete])) <|
    .cons (.cleaned rfl) <|
    .cons (.accept rfl rfl) <|
    .cons (.createFails rfl) <|
    .cons (.insertHead rfl) <|
    .cons (@ServerStep.work _ 0 _ _ rfl .leave) <|
    .cons (.fopen rfl .openRead rfl) <|
    .cons (.close rfl .closeRead) <|
    .cons (@ServerStep.work _ 0 _ _ rfl .sent) <|
    .cons (.close rfl .close) <|
    .cons (@ServerStep.work _ 0 _ _ rfl .setFlag) <|
    .cons (.visitRunning rfl (by simp [ServerState.Complete, startedServer])) <|
    .cons (.visitComplete rfl ⟨_, rfl, .inl rfl⟩) <|
    .cons (@ServerStep.work _ 0 _ _ rfl .exit) <|
    .cons (.join rfl rfl) <|
    .cons (.cleaned rfl) .refl
  obtain ⟨justified, through⟩ := finished_connections_hold_nothing startedServer_started run
  exact ⟨_, _, run, by simp, rfl, rfl, rfl, rfl, justified, through 0 .exited rfl id⟩

/-- `main` has moved, or a thread that had set its flag has exited. -/
def ServerState.Spares (server next : ServerState) : Prop :=
  server.main ≠ next.main ∨
    ∃ connection, server.stage connection = some .complete ∧ next.stage connection = some .exited

/-- A step of `main`, as no handler moves `main`, or an exit: in any case not a step of
a handler that is still at work. -/
def SparingStep (server : ServerState) (event : ServerEvent) (next : ServerState) : Prop :=
  ServerStep server event next ∧ server.Spares next

/-- Handlers at work have not moved. -/
def ServerState.Undisturbed (server next : ServerState) : Prop :=
  ∀ connection stage, server.stage connection = some stage → ¬stage.Complete →
    next.stage connection = some stage

/-- `main` gets by itself, and by the exits of threads that are done, to the next
`accept`. -/
def AcceptsWithin (server : ServerState) (steps : Nat) : Prop :=
  ∃ events next, Run SparingStep server events next ∧ next.main = .accepting ∧
    server.Undisturbed next ∧ events.length ≤ steps

variable {server next : ServerState} {event : ServerEvent} {steps : Nat}

theorem undisturbed_of_update {connection : Nat} {stage : Stage}
    (idle : ∀ working, server.stage connection = some working → working.Complete)
    (stages : next.stage = Function.update server.stage connection (some stage)) :
    server.Undisturbed next := by
  intro other working running atWork
  have apart : other ≠ connection := by
    rintro rfl
    exact atWork (idle working running)
  rw [stages]
  exact (Function.update_of_ne apart _ _).trans running

/-- What moves a handler and leaves `main` is, as a sparing step, an exit. -/
theorem undisturbed_of_handler {connection : Nat} {stage after : Stage}
    (current : server.stage connection = some stage)
    (stages : next.stage = Function.update server.stage connection (some after))
    (main : next.main = server.main) (spares : server.Spares next) :
    server.Undisturbed next := by
  refine undisturbed_of_update (fun working running => ?_) stages
  obtain ⟨exiting, complete, exited⟩ := spares.resolve_left (absurd main.symm)
  have own : exiting = connection := by
    by_contra apart
    rw [stages, Function.update_of_ne apart, complete] at exited
    cases exited
  subst own
  cases complete.symm.trans running
  exact .inl rfl

theorem SparingStep.undisturbed (moved : SparingStep server event next) (listed : Listed server) :
    server.Undisturbed next := by
  obtain ⟨moved, spares⟩ := moved
  cases moved with
  | accept | outOfMemory | createFails | insertHead | visitRunning | visitComplete | join
  | cleaned => exact fun _ _ same _ => same
  | createThread waits =>
      refine undisturbed_of_update (fun working running => ?_) rfl
      cases (listed.idle waits).symm.trans running
  | work current _ | fopen current _ _ | close current _ =>
      exact undisturbed_of_handler current rfl rfl spares

theorem AcceptsWithin.here (accepting : server.main = .accepting) : AcceptsWithin server steps :=
  ⟨[], server, .refl, accepting, fun _ _ same _ => same, Nat.zero_le _⟩

theorem AcceptsWithin.after (moved : SparingStep server event next) (listed : Listed server)
    (accepts : Listed next → AcceptsWithin next steps) : AcceptsWithin server (steps + 1) := by
  obtain ⟨events, final, run, accepting, later, short⟩ := accepts (listed.step moved.1)
  refine ⟨event :: events, final, .cons moved run, accepting, ?_, Nat.succ_le_succ short⟩
  intro connection stage running atWork
  exact later connection stage (moved.undisturbed listed connection stage running atWork) atWork

theorem AcceptsWithin.mono {more : Nat} (accepts : AcceptsWithin server steps)
    (enough : steps ≤ more) : AcceptsWithin server more := by
  obtain ⟨events, final, run, accepting, undisturbed, short⟩ := accepts
  exact ⟨events, final, run, accepting, undisturbed, Nat.le_trans short enough⟩

/-- The join waits for a thread that has set its flag, and has only to exit. -/
theorem accepts_of_joining {connection : Nat} {rest : List Nat} (listed : Listed server)
    (waits : server.main = .joining connection rest)
    (later : ∀ after : ServerState, Listed after → after.main = .cleaning rest →
      AcceptsWithin after steps) :
    AcceptsWithin server (steps + 2) := by
  have loops := listed.loops
  rw [waits] at loops
  obtain ⟨_, stage, running, done⟩ := loops
  have joins : ∀ server : ServerState, Listed server → server.main = .joining connection rest →
      server.stage connection = some .exited → AcceptsWithin server (steps + 1) := by
    intro server listed waits exited
    exact .after ⟨.join waits exited, .inl (by simp [waits])⟩ listed
      fun listed => later _ listed rfl
  rcases done with rfl | rfl
  · exact .after ⟨.work running .exit, .inr ⟨connection, running, Function.update_self _ _ _⟩⟩
      listed fun listed => joins _ listed waits (Function.update_self _ _ _)
  · exact (joins server listed waits running).mono (Nat.le_succ _)

theorem accepts_of_cleaning (rest : List Nat) :
    ∀ server : ServerState, Listed server → server.main = .cleaning rest →
      AcceptsWithin server (3 * rest.length + 1) := by
  induction rest with
  | nil =>
      intro server listed visits
      exact .after ⟨.cleaned visits, .inl (by simp [visits])⟩ listed fun _ => .here rfl
  | cons connection rest ih =>
      intro server listed visits
      by_cases complete : server.Complete connection
      · exact .after ⟨.visitComplete visits complete, .inl (by simp [visits])⟩ listed
          fun listed => accepts_of_joining listed rfl ih
      · refine (AcceptsWithin.after ⟨.visitRunning visits complete, .inl (by simp [visits])⟩ listed
          fun listed => ih _ listed rfl).mono ?_
        rw [List.length_cons]
        omega

theorem accepts_of_inserting {connection : Nat} (listed : Listed server)
    (waits : server.main = .inserting connection) :
    AcceptsWithin server (3 * server.threadList.length + 5) :=
  .after ⟨.insertHead waits, .inl (by simp [waits])⟩ listed
    fun listed => accepts_of_cleaning (connection :: server.threadList) _ listed rfl

/-- Whatever its clients do, the server can always get back to `accept` without a
step of a handler that is still at work, in a number of steps that the list bounds. -/
theorem server_accepts_again (started : first.Started) (run : Run ServerStep first events last) :
    AcceptsWithin last (3 * last.threadList.length + 6) := by
  have listed := run_listed started run
  have loops := listed.loops
  cases main : last.main with
  | accepting => exact .here main
  | cleaning rest =>
      rw [main] at loops
      have short := loops.length_le
      exact (accepts_of_cleaning rest last listed main).mono (by omega)
  | joining connection rest =>
      rw [main] at loops
      have short := loops.1.length_le
      rw [List.length_cons] at short
      exact (accepts_of_joining listed main (accepts_of_cleaning rest)).mono (by omega)
  | inserting connection => exact (accepts_of_inserting listed main).mono (Nat.le_succ _)
  | accepted connection =>
      exact .after ⟨.createThread main, .inl (by simp [main])⟩ listed
        fun listed => accepts_of_inserting listed rfl

/-- Client 0 sends nothing; `main` is about to join the thread of connection 1. -/
theorem server_accepts_again_silent_client :
    ∃ events last, Run ServerStep startedServer events last ∧ last.main = .joining 1 [0] ∧
      last.stage 0 = some .receiving ∧ last.stage 1 = some .complete ∧ AcceptsWithin last 12 := by
  have run : Run ServerStep startedServer
      [.accept 4, .internal, .internal, .internal, .internal, .accept 5, .internal, .internal,
        .fopen 1 6, .close 1 6, .internal, .close 1 5, .internal, .internal, .close 1 5] _ :=
    .cons (.accept rfl rfl) <|
    .cons (.createThread rfl) <|
    .cons (.insertHead rfl) <|
    .cons (.visitRunning rfl (by simp [ServerState.Complete, Stage.Complete])) <|
    .cons (.cleaned rfl) <|
    .cons (.accept rfl rfl) <|
    .cons (.createThread rfl) <|
    .cons (@ServerStep.work _ 1 _ _ rfl .leave) <|
    .cons (.fopen rfl .openRead rfl) <|
    .cons (.close rfl .closeRead) <|
    .cons (@ServerStep.work _ 1 _ _ rfl .sent) <|
    .cons (.close rfl .close) <|
    .cons (@ServerStep.work _ 1 _ _ rfl .setFlag) <|
    .cons (.insertHead rfl) <|
    .cons (.visitComplete rfl ⟨_, rfl, .inl rfl⟩) .refl
  exact ⟨_, _, run, rfl, rfl, rfl, server_accepts_again startedServer_started run⟩

end Runs

end Aesd.Server
