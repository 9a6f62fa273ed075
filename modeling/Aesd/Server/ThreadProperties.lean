import Aesd.Server.Threads

/-!
# Who closes a socket

A handler closes its `client_socket`, and `cleanup_threads` closes the same number
again later. In between, the number may denote a newer connection. It never does
as long as no number is given out that is still to be closed.
-/

set_option autoImplicit false

namespace Aesd.Server

open HandleTable Transition

/-- `cleanup_threads`, if not `main` itself, has yet to close the socket of a
connection. Where no thread was started, it never comes to that. -/
def ServerState.Owes (server : ServerState) (connection : Nat) : Prop :=
  match server.main with
  | .accepted current | .inserting current =>
      connection = current ∨ connection ∈ server.threadList
  | .joining current _ => connection ≠ current ∧ connection ∈ server.threadList
  | .accepting | .cleaning _ => connection ∈ server.threadList

/-- No descriptor is given out whose number is still to be closed. -/
def ServerState.GivesUnowed (server : ServerState) : ServerEvent → Prop
  | .accept fd | .fopen _ fd =>
      ∀ connection, server.Owes connection → server.clientSocket connection ≠ fd
  | .close _ _ | .createFails _ | .internal => True

def Stage.file : Stage → Option Nat
  | .appending file | .reading file => some file
  | _ => none

/-- The numbers that are still to be closed, and for what. -/
def ServerState.claims (server : ServerState) : Descriptor → Nat → Prop
  | .other, _ => False
  | .device connection, fd => ∃ stage, server.stage connection = some stage ∧ stage.file = some fd
  | .socket connection, fd => server.Owes connection ∧ server.clientSocket connection = fd

def ServerState.Loops (server : ServerState) : MainStage → Prop
  | .accepting => True
  | .accepted connection => connection ∉ server.threadList ∧ server.stage connection = none
  | .inserting connection => connection ∉ server.threadList
  | .cleaning rest => rest.Sublist server.threadList
  | .joining connection rest =>
      (connection :: rest).Sublist server.threadList ∧ server.Complete connection

/-- The thread list and the stages, descriptors aside. -/
structure Listed (server : ServerState) : Prop where
  known : ∀ connection, server.Owes connection → connection < server.accepted
  created : ∀ connection stage, server.stage connection = some stage →
    connection < server.accepted
  running : ∀ connection stage, server.stage connection = some stage → ¬stage.Complete →
    server.Owes connection
  nodup : server.threadList.Nodup
  loops : server.Loops server.main

theorem StageStep.complete {clientSocket : Nat} {stage after : Stage} {effect : Effect}
    (moved : StageStep clientSocket stage effect after) (complete : stage.Complete) :
    after.Complete := by
  cases moved with
  | exit => exact .inr rfl
  | openAppend | closeAppend | closeLastAppend | skip | leave | openRead | closeRead | sent
  | sendFails | closeFailed | close | setFlag => simp [Stage.Complete] at complete

section Lists

variable {server : ServerState} {connection : Nat} {rest : List Nat}

theorem Listed.work {stage after : Stage} {effect : Effect} (listed : Listed server)
    (current : server.stage connection = some stage)
    (moved : StageStep (server.clientSocket connection) stage effect after) :
    Listed { server with stage := Function.update server.stage connection (some after) } where
  known := listed.known
  created := by
    intro other reached found
    by_cases same : other = connection
    · subst same
      exact listed.created other stage current
    · exact listed.created other reached (by simpa [same] using found)
  running := by
    intro other reached found busy
    by_cases same : other = connection
    · subst same
      have ended : reached = after := by simpa using found.symm
      exact listed.running other stage current fun complete => busy (ended ▸ moved.complete complete)
    · exact listed.running other reached (by simpa [same] using found) busy
  nodup := listed.nodup
  loops := by
    have loops := listed.loops
    dsimp only
    generalize server.main = main at loops ⊢
    cases main with
    | accepting | inserting | cleaning => exact loops
    | accepted waiting =>
        have apart : waiting ≠ connection := by
          rintro rfl
          rw [loops.2] at current
          cases current
        exact ⟨loops.1, by simpa [apart] using loops.2⟩
    | joining joined =>
        obtain ⟨listed, reached, found, complete⟩ := loops
        refine ⟨listed, ?_⟩
        by_cases same : joined = connection
        · subst same
          cases found.symm.trans current
          exact ⟨after, by simp, moved.complete complete⟩
        · exact ⟨reached, by simpa [same] using found, complete⟩

theorem Listed.of_lists (listed : Listed server) (table : Table Descriptor)
    (clientSocket : Nat → Nat) : Listed { server with table, clientSocket } :=
  ⟨listed.known, listed.created, listed.running, listed.nodup, listed.loops⟩

/-- A step of the accept loop that starts no thread and owes the same as before. -/
private theorem Listed.of_owes {next : ServerState} (listed : Listed server)
    (accepted : next.accepted = server.accepted) (stage : next.stage = server.stage)
    (owes : ∀ other, next.Owes other ↔ server.Owes other) (nodup : next.threadList.Nodup)
    (loops : next.Loops next.main) : Listed next where
  known := by
    intro other owed
    rw [accepted]
    exact listed.known other ((owes other).mp owed)
  created := by
    rw [accepted, stage]
    exact listed.created
  running := by
    rw [stage]
    exact fun other reached found busy => (owes other).mpr (listed.running other reached found busy)
  nodup := nodup
  loops := loops

theorem Listed.accept (listed : Listed server) (waits : server.main = .accepting) :
    Listed { server with
      accepted := server.accepted + 1, main := .accepted server.accepted } where
  known := by
    rintro other (rfl | member)
    · exact Nat.lt_succ_self _
    · exact Nat.lt_succ_of_lt (listed.known other (by simpa [ServerState.Owes, waits] using member))
  created := fun other stage found => Nat.lt_succ_of_lt (listed.created other stage found)
  running := by
    intro other stage found busy
    have owes := listed.running other stage found busy
    exact .inr (by simpa [ServerState.Owes, waits] using owes)
  nodup := listed.nodup
  loops := by
    refine ⟨fun member => ?_, ?_⟩
    · exact Nat.lt_irrefl _ (listed.known _ (by simpa [ServerState.Owes, waits] using member))
    · cases found : server.stage server.accepted with
      | none => rfl
      | some stage => exact absurd (listed.created _ stage found) (Nat.lt_irrefl _)

theorem Listed.idle (listed : Listed server) (waits : server.main = .accepted connection) :
    server.stage connection = none := by
  have loops := listed.loops
  rw [waits] at loops
  exact loops.2

theorem Listed.outOfMemory (listed : Listed server) (waits : server.main = .accepted connection) :
    Listed { server with main := .accepting } where
  known := by
    intro other member
    exact listed.known other (by simpa [ServerState.Owes, waits] using .inr member)
  created := listed.created
  running := by
    intro other stage found busy
    have owes := listed.running other stage found busy
    simp only [ServerState.Owes, waits] at owes
    rcases owes with rfl | member
    · cases (listed.idle waits).symm.trans found
    · exact member
  nodup := listed.nodup
  loops := trivial

theorem Listed.createThread (listed : Listed server) (waits : server.main = .accepted connection) :
    Listed { server with
      stage := Function.update server.stage connection (some .receiving)
      main := .inserting connection } where
  known := by
    intro other owes
    exact listed.known other (by simpa [ServerState.Owes, waits] using owes)
  created := by
    intro other stage found
    by_cases same : other = connection
    · subst same
      exact listed.known other (by simp [ServerState.Owes, waits])
    · exact listed.created other stage (by simpa [same] using found)
  running := by
    intro other stage found busy
    by_cases same : other = connection
    · exact .inl same
    · have owes := listed.running other stage (by simpa [same] using found) busy
      simpa [ServerState.Owes, waits] using owes
  nodup := listed.nodup
  loops := by
    have loops := listed.loops
    rw [waits] at loops
    exact loops.1

theorem Listed.createFails (listed : Listed server) (waits : server.main = .accepted connection) :
    Listed { server with main := .inserting connection } := by
  have loops := listed.loops
  rw [waits] at loops
  refine listed.of_owes rfl rfl (fun other => ?_) listed.nodup ?_
  · simp [ServerState.Owes, waits]
  · exact loops.1

theorem Listed.insertHead (listed : Listed server) (waits : server.main = .inserting connection) :
    Listed { server with
      threadList := connection :: server.threadList
      main := .cleaning (connection :: server.threadList) } := by
  have loops := listed.loops
  rw [waits] at loops
  refine listed.of_owes rfl rfl (fun other => ?_) (List.nodup_cons.mpr ⟨loops, listed.nodup⟩) ?_
  · simp [ServerState.Owes, waits]
  · exact List.Sublist.refl _

theorem Listed.visitRunning (listed : Listed server)
    (visits : server.main = .cleaning (connection :: rest)) :
    Listed { server with main := .cleaning rest } := by
  have loops := listed.loops
  rw [visits] at loops
  refine listed.of_owes rfl rfl (fun other => ?_) listed.nodup ?_
  · simp [ServerState.Owes, visits]
  · exact (List.sublist_cons_self _ _).trans loops

theorem Listed.visitComplete (listed : Listed server)
    (visits : server.main = .cleaning (connection :: rest)) (complete : server.Complete connection) :
    Listed { server with main := .joining connection rest } where
  known := by
    rintro other ⟨_, member⟩
    exact listed.known other (by simpa [ServerState.Owes, visits] using member)
  created := listed.created
  running := by
    intro other stage found busy
    have owes := listed.running other stage found busy
    refine ⟨?_, by simpa [ServerState.Owes, visits] using owes⟩
    rintro rfl
    obtain ⟨reached, same, done⟩ := complete
    cases found.symm.trans same
    exact busy done
  nodup := listed.nodup
  loops := by
    have loops := listed.loops
    rw [visits] at loops
    exact ⟨loops, complete⟩

theorem Listed.join (listed : Listed server) (waits : server.main = .joining connection rest) :
    Listed { server with
      threadList := server.threadList.erase connection
      main := .cleaning rest } := by
  have loops := listed.loops
  rw [waits] at loops
  refine listed.of_owes rfl rfl (fun other => ?_) (listed.nodup.erase connection) ?_
  · simp [ServerState.Owes, waits, listed.nodup.mem_erase_iff]
  · have left := loops.1.erase connection
    rw [List.erase_cons_head] at left
    exact left

theorem Listed.cleaned (listed : Listed server) (visits : server.main = .cleaning []) :
    Listed { server with main := .accepting } :=
  listed.of_owes rfl rfl (fun other => by simp [ServerState.Owes, visits]) listed.nodup trivial

theorem Listed.step {next : ServerState} {event : ServerEvent} (listed : Listed server)
    (moved : ServerStep server event next) : Listed next := by
  cases moved with
  | accept waits _ => exact (listed.accept waits).of_lists _ _
  | outOfMemory waits => exact (listed.outOfMemory waits).of_lists _ _
  | createThread waits => exact listed.createThread waits
  | createFails waits => exact listed.createFails waits
  | insertHead waits => exact listed.insertHead waits
  | visitRunning visits _ => exact listed.visitRunning visits
  | visitComplete visits complete => exact (listed.visitComplete visits complete).of_lists _ _
  | join waits _ => exact listed.join waits
  | cleaned visits => exact listed.cleaned visits
  | work current moved => exact listed.work current moved
  | fopen current moved _ => exact (listed.work current moved).of_lists _ _
  | close current moved => exact (listed.work current moved).of_lists _ _

end Lists

/-- Every number still to be closed denotes what it is to be closed for, if
anything, and a file that a handler has open is open. -/
structure Tidy (server : ServerState) : Prop where
  listed : Listed server
  unshared : Unshared server.table server.claims
  files : ∀ connection fd, server.claims (.device connection) fd →
    server.table fd = some (.device connection)

theorem ServerState.Started.tidy {server : ServerState} (started : server.Started) :
    Tidy server where
  listed :=
    { known := by simp [ServerState.Owes, started.main, started.threadList]
      created := by simp [started.stage]
      running := by simp [started.stage]
      nodup := by simp [started.threadList]
      loops := by simp [started.main, ServerState.Loops] }
  unshared := by
    intro claimant fd claimed
    cases claimant with
    | other => exact claimed.elim
    | device connection => simp [ServerState.claims, started.stage] at claimed
    | socket connection =>
        simp [ServerState.claims, ServerState.Owes, started.main, started.threadList] at claimed
  files := by simp [ServerState.claims, started.stage]

theorem StageStep.nothing_file {clientSocket : Nat} {stage after : Stage}
    (moved : StageStep clientSocket stage .nothing after) : after.file = none := by
  cases moved <;> rfl

theorem StageStep.fopen_file {clientSocket fd : Nat} {stage after : Stage}
    (moved : StageStep clientSocket stage (.fopen fd) after) : after.file = some fd := by
  cases moved <;> rfl

/-- A handler closes its file, or its socket while it still runs. -/
theorem StageStep.close_file {clientSocket fd : Nat} {stage after : Stage}
    (moved : StageStep clientSocket stage (.close fd) after) :
    after.file = none ∧ (stage.file = some fd ∨ (clientSocket = fd ∧ ¬stage.Complete)) := by
  cases moved with
  | closeAppend | closeLastAppend | closeRead => exact ⟨rfl, .inl rfl⟩
  | closeFailed | close => exact ⟨rfl, .inr ⟨rfl, by simp [Stage.Complete]⟩⟩

section Claims

variable {server next : ServerState} {fd : Nat}

theorem claims_of_owes (stage : next.stage = server.stage)
    (clientSocket : next.clientSocket = server.clientSocket)
    (owes : ∀ connection, next.Owes connection → server.Owes connection) (claimant : Descriptor)
    (handle : Nat) (claimed : next.claims claimant handle) : server.claims claimant handle := by
  cases claimant with
  | other => exact claimed
  | device connection => simpa only [ServerState.claims, stage] using claimed
  | socket connection =>
      exact ⟨owes connection claimed.1, by rw [← clientSocket]; exact claimed.2⟩

theorem claims_of_work (server : ServerState) {connection : Nat} {after : Stage}
    {claimant : Descriptor} {handle : Nat} (claimed : next.claims claimant handle)
    (stage : next.stage = Function.update server.stage connection (some after))
    (clientSocket : next.clientSocket = server.clientSocket)
    (owes : ∀ connection, next.Owes connection → server.Owes connection) :
    (claimant = .device connection ∧ after.file = some handle) ∨
      (claimant ≠ .device connection ∧ server.claims claimant handle) := by
  cases claimant with
  | other => exact claimed.elim
  | socket owner =>
      exact .inr ⟨by simp, owes owner claimed.1, by rw [← clientSocket]; exact claimed.2⟩
  | device owner =>
      obtain ⟨reached, found, file⟩ := claimed
      rw [stage] at found
      by_cases same : owner = connection
      · subst same
        have moved : reached = after := by simpa using found.symm
        exact .inl ⟨rfl, moved ▸ file⟩
      · exact .inr ⟨by simpa using same, reached, by simpa [same] using found, file⟩

theorem Tidy.of_fewer (tidy : Tidy server) (listed : Listed next)
    (table : next.table = server.table)
    (fewer : ∀ claimant handle, next.claims claimant handle → server.claims claimant handle) :
    Tidy next where
  listed := listed
  unshared := by
    rw [table]
    exact tidy.unshared.mono fewer
  files := by
    intro connection handle claimed
    rw [table]
    exact tidy.files connection handle (fewer _ _ claimed)

theorem Tidy.of_closed (tidy : Tidy server) (listed : Listed next) {claimant : Descriptor}
    (claimed : server.claims claimant fd) (table : next.table = closed server.table fd)
    (fewer : ∀ holder handle, next.claims holder handle → server.claims holder handle)
    (ended : ∀ connection handle, next.claims (.device connection) handle →
      .device connection ≠ claimant) : Tidy next where
  listed := listed
  unshared := by
    rw [table]
    exact (tidy.unshared.closed fd).mono fewer
  files := by
    intro connection handle still
    rw [table]
    exact tidy.unshared.open_of_closed claimed (tidy.files connection handle (fewer _ _ still))
      (ended connection handle still)

/-- Giving out a free number on which no connection has a claim. -/
theorem Tidy.of_opened (tidy : Tidy server) (listed : Listed next) {holder : Descriptor}
    (free : server.table fd = none)
    (unowed : ∀ connection, server.Owes connection → server.clientSocket connection ≠ fd)
    (table : next.table = opened server.table fd holder)
    (grown : ∀ claimant handle, next.claims claimant handle →
      (claimant = holder ∧ handle = fd) ∨ server.claims claimant handle) : Tidy next where
  listed := listed
  unshared := by
    have unclaimed : ∀ claimant, server.claims claimant fd → claimant = holder := by
      intro claimant claimed
      cases claimant with
      | other => exact claimed.elim
      | device connection => cases free.symm.trans (tidy.files connection fd claimed)
      | socket connection => exact absurd claimed.2 (unowed connection claimed.1)
    intro claimant handle claimed found denotes
    rw [table] at denotes
    rcases grown claimant handle claimed with ⟨rfl, rfl⟩ | before
    · rw [opened, Function.update_self] at denotes
      exact (Option.some.inj denotes).symm
    · exact tidy.unshared.opened unclaimed claimant handle before found denotes
  files := by
    intro connection handle claimed
    rw [table]
    rcases grown _ _ claimed with ⟨rfl, rfl⟩ | before
    · rw [opened, Function.update_self]
    · exact open_of_opened free (tidy.files connection handle before)

end Claims

section Steps

variable {server next : ServerState} {event : ServerEvent}

/-- Whoever closes a number has a claim on it. -/
theorem ServerStep.close_claimed {connection fd : Nat} (listed : Listed server)
    (moved : ServerStep server (.close connection fd) next) :
    server.claims (.socket connection) fd ∨ server.claims (.device connection) fd := by
  cases moved with
  | outOfMemory waits => exact .inl ⟨by simp [ServerState.Owes, waits], rfl⟩
  | visitComplete visits _ =>
      have loops := listed.loops
      rw [visits] at loops
      refine .inl ⟨?_, rfl⟩
      simpa [ServerState.Owes, visits] using loops.subset List.mem_cons_self
  | @close _ _ stage _ current moved =>
      rcases moved.close_file.2 with file | ⟨own, running⟩
      · exact .inr ⟨stage, current, file⟩
      · exact .inl ⟨listed.running connection stage current running, own⟩

theorem Tidy.closes_own {connection fd other : Nat} (tidy : Tidy server)
    (moved : ServerStep server (.close connection fd) next)
    (denotes : server.table fd = some (.socket other)) : other = connection := by
  rcases moved.close_claimed tidy.listed with claimed | claimed
  · exact Descriptor.socket.inj (tidy.unshared _ fd claimed _ denotes)
  · cases tidy.unshared _ fd claimed _ denotes

theorem Tidy.accept {fd : Nat} (tidy : Tidy server) (waits : server.main = .accepting)
    (free : server.table fd = none) (unowed : server.GivesUnowed (.accept fd)) :
    Tidy { server with
      table := opened server.table fd (.socket server.accepted)
      accepted := server.accepted + 1
      clientSocket := Function.update server.clientSocket server.accepted fd
      main := .accepted server.accepted } := by
  have listed := (tidy.listed.accept waits).of_lists
    (opened server.table fd (.socket server.accepted))
    (Function.update server.clientSocket server.accepted fd)
  refine tidy.of_opened listed free unowed rfl fun claimant handle claimed => ?_
  cases claimant with
  | other | device => exact .inr claimed
  | socket connection =>
      obtain ⟨owes, same⟩ := claimed
      rcases owes with rfl | member
      · exact .inl ⟨rfl, same.symm.trans (Function.update_self _ _ _)⟩
      · have owed : server.Owes connection := by simpa [ServerState.Owes, waits] using member
        have apart := Nat.ne_of_lt (tidy.listed.known connection owed)
        exact .inr ⟨owed, (Function.update_of_ne apart _ _).symm.trans same⟩

/-- Closing the socket of a connection that is still owed. -/
theorem Tidy.close_owed {connection : Nat} (tidy : Tidy server) (listed : Listed next)
    (owes : server.Owes connection)
    (table : next.table = closed server.table (server.clientSocket connection))
    (stage : next.stage = server.stage) (clientSocket : next.clientSocket = server.clientSocket)
    (fewer : ∀ other, next.Owes other → server.Owes other) : Tidy next := by
  have claimed : server.claims (.socket connection) (server.clientSocket connection) :=
    ⟨owes, rfl⟩
  refine tidy.of_closed listed claimed table (claims_of_owes stage clientSocket fewer) ?_
  intro _ _ _ same
  cases same

theorem Tidy.close {connection fd : Nat} {stage after : Stage} (tidy : Tidy server)
    (current : server.stage connection = some stage)
    (moved : StageStep (server.clientSocket connection) stage (.close fd) after) :
    Tidy { server with
      table := closed server.table fd
      stage := Function.update server.stage connection (some after) } := by
  have listed := (tidy.listed.work current moved).of_lists (closed server.table fd)
    server.clientSocket
  have kept : ∀ claimant handle, ServerState.claims { server with
      table := closed server.table fd
      stage := Function.update server.stage connection (some after) } claimant handle →
      claimant ≠ .device connection ∧ server.claims claimant handle := by
    intro claimant handle claimed
    rcases claims_of_work server claimed rfl rfl (fun _ => id) with ⟨_, file⟩ | before
    · rw [moved.close_file.1] at file
      cases file
    · exact before
  have fewer := fun claimant handle still => (kept claimant handle still).2
  rcases ServerStep.close_claimed tidy.listed (.close current moved) with claimed | claimed
  · exact tidy.of_closed listed claimed rfl fewer fun _ _ _ same => by cases same
  · exact tidy.of_closed listed claimed rfl fewer fun _ _ still => (kept _ _ still).1

theorem Tidy.step (tidy : Tidy server) (unowed : server.GivesUnowed event)
    (moved : ServerStep server event next) : Tidy next := by
  have listed := tidy.listed.step moved
  cases moved with
  | accept waits free => exact tidy.accept waits free unowed
  | outOfMemory waits =>
      refine tidy.close_owed listed (by simp [ServerState.Owes, waits]) rfl rfl rfl ?_
      intro other member
      simpa [ServerState.Owes, waits] using .inr member
  | @createThread connection waits =>
      refine tidy.of_fewer listed rfl fun claimant handle claimed => ?_
      have owes : ∀ other, other = connection ∨ other ∈ server.threadList → server.Owes other := by
        simp [ServerState.Owes, waits]
      rcases claims_of_work server claimed rfl rfl owes with ⟨_, file⟩ | ⟨_, before⟩
      · cases file
      · exact before
  | createFails waits =>
      refine tidy.of_fewer listed rfl (claims_of_owes rfl rfl fun other owes => ?_)
      simpa [ServerState.Owes, waits] using owes
  | insertHead waits =>
      refine tidy.of_fewer listed rfl (claims_of_owes rfl rfl fun other owes => ?_)
      simpa [ServerState.Owes, waits] using owes
  | visitRunning visits _ =>
      refine tidy.of_fewer listed rfl (claims_of_owes rfl rfl fun other owes => ?_)
      simpa [ServerState.Owes, visits] using owes
  | visitComplete visits complete =>
      have loops := tidy.listed.loops
      rw [visits] at loops
      have member := loops.subset List.mem_cons_self
      refine tidy.close_owed listed (by simpa [ServerState.Owes, visits] using member) rfl rfl rfl ?_
      intro other owes
      simpa [ServerState.Owes, visits] using owes.2
  | join waits _ =>
      refine tidy.of_fewer listed rfl (claims_of_owes rfl rfl fun other owes => ?_)
      have left := tidy.listed.nodup.mem_erase_iff.mp owes
      simpa [ServerState.Owes, waits] using left
  | cleaned visits =>
      refine tidy.of_fewer listed rfl (claims_of_owes rfl rfl fun other owes => ?_)
      simpa [ServerState.Owes, visits] using owes
  | work current moved =>
      refine tidy.of_fewer listed rfl fun claimant handle claimed => ?_
      rcases claims_of_work server claimed rfl rfl (fun _ => id) with ⟨_, file⟩ | ⟨_, before⟩
      · rw [moved.nothing_file] at file
        cases file
      · exact before
  | fopen current moved free =>
      refine tidy.of_opened listed free unowed rfl fun claimant handle claimed => ?_
      rcases claims_of_work server claimed rfl rfl (fun _ => id) with ⟨own, file⟩ | ⟨_, before⟩
      · rw [moved.fopen_file] at file
        exact .inl ⟨own, (Option.some.inj file).symm⟩
      · exact .inr before
  | close current moved => exact tidy.close current moved

end Steps

def CarefulStep (server : ServerState) (event : ServerEvent) (next : ServerState) : Prop :=
  ServerStep server event next ∧ server.GivesUnowed event

/-- In a run that never gives out a number that is still to be closed, whoever
closes a socket closes its own, in any order of accepts, handlers and clean-ups. -/
theorem closes_own_socket {first last : ServerState} {events : List ServerEvent}
    (started : first.Started) (run : Run CarefulStep first events last) :
    ∀ connection fd next, ServerStep last (.close connection fd) next →
      ∀ other, last.table fd = some (.socket other) → other = connection := by
  have tidy : Tidy last := by
    refine run.invariant (fun _ => True) Tidy ?_ (fun _ _ => trivial) started.tidy
    exact fun _ _ _ _ tidy moved => tidy.step moved.2 moved.1
  exact fun _ _ _ moved _ denotes => tidy.closes_own moved denotes

def startedServer : ServerState where
  table := fun fd => if fd < 4 then some .other else none
  accepted := 0
  clientSocket := fun _ => 0
  stage := fun _ => none
  threadList := []
  main := .accepting

theorem startedServer_started : startedServer.Started where
  table := by
    intro fd descriptor denotes
    simp only [startedServer, Option.ite_none_right_eq_some] at denotes
    exact (Option.some.inj denotes.2).symm
  accepted := rfl
  stage := fun _ => rfl
  threadList := rfl
  main := rfl

/-- Sockets 4 and 5 are open; handler 0, whose send failed, is about to close 4. -/
theorem closes_own_socket_failed_send :
    ∃ events last, Run CarefulStep startedServer events last ∧
      last.table 4 = some (.socket 0) ∧ last.table 5 = some (.socket 1) ∧
      last.stage 0 = some .sendFailed ∧ last.main = .inserting 1 ∧
      ∀ connection fd next, ServerStep last (.close connection fd) next →
        ∀ other, last.table fd = some (.socket other) → other = connection := by
  have unowed : startedServer.GivesUnowed (.accept 4) := by
    simp [ServerState.GivesUnowed, ServerState.Owes, startedServer]
  have run : Run CarefulStep startedServer
      [.accept 4, .internal, .internal, .internal, .internal, .accept 5, .internal, .internal,
        .fopen 0 6, .close 0 6, .internal] _ :=
    .cons ⟨.accept rfl rfl, unowed⟩ <|
    .cons ⟨.createThread rfl, trivial⟩ <|
    .cons ⟨.insertHead rfl, trivial⟩ <|
    .cons ⟨.visitRunning rfl (by simp [ServerState.Complete, Stage.Complete]), trivial⟩ <|
    .cons ⟨.cleaned rfl, trivial⟩ <|
    .cons ⟨.accept rfl rfl, by
      simp [ServerState.GivesUnowed, ServerState.Owes, startedServer]⟩ <|
    .cons ⟨.createThread rfl, trivial⟩ <|
    .cons ⟨@ServerStep.work _ 0 _ _ rfl .leave, trivial⟩ <|
    .cons ⟨.fopen rfl .openRead rfl, by
      simp [ServerState.GivesUnowed, ServerState.Owes, startedServer, Function.update_apply]⟩ <|
    .cons ⟨.close rfl .closeRead, trivial⟩ <|
    .cons ⟨@ServerStep.work _ 0 _ _ rfl .sendFails, trivial⟩ .refl
  exact ⟨_, _, run, rfl, rfl, rfl, rfl, closes_own_socket startedServer_started run⟩

/-- A step in which the kernel gives out the lowest free number. -/
def LowestStep (server : ServerState) (event : ServerEvent) (next : ServerState) : Prop :=
  ServerStep server event next ∧
    match event with
    | .accept fd | .fopen _ fd => ∀ lower < fd, server.table lower ≠ none
    | .close _ _ | .createFails _ | .internal => True

/-- Client 0 is answered, its socket 4 closed and its handler done; client 1 is
accepted on 4; then `cleanup_threads` closes 4 for client 0. -/
theorem cleanup_closes_later_client :
    ∃ events last next, startedServer.Started ∧ Run LowestStep startedServer events last ∧
      ServerStep last (.close 0 4) next ∧ last.table 4 = some (.socket 1) := by
  have run : Run LowestStep startedServer
      [.accept 4, .internal, .internal, .internal, .internal, .internal, .fopen 0 5, .close 0 5,
        .internal, .close 0 4, .internal, .accept 4, .internal, .internal, .internal] _ :=
    .cons ⟨.accept rfl rfl, by decide⟩ <|
    .cons ⟨.createThread rfl, trivial⟩ <|
    .cons ⟨.insertHead rfl, trivial⟩ <|
    .cons ⟨.visitRunning rfl (by simp [ServerState.Complete, Stage.Complete]), trivial⟩ <|
    .cons ⟨.cleaned rfl, trivial⟩ <|
    .cons ⟨@ServerStep.work _ 0 _ _ rfl .leave, trivial⟩ <|
    .cons ⟨.fopen rfl .openRead rfl, by decide⟩ <|
    .cons ⟨.close rfl .closeRead, trivial⟩ <|
    .cons ⟨@ServerStep.work _ 0 _ _ rfl .sent, trivial⟩ <|
    .cons ⟨.close rfl .close, trivial⟩ <|
    .cons ⟨@ServerStep.work _ 0 _ _ rfl .setFlag, trivial⟩ <|
    .cons ⟨.accept rfl rfl, by decide⟩ <|
    .cons ⟨.createThread rfl, trivial⟩ <|
    .cons ⟨.insertHead rfl, trivial⟩ <|
    .cons ⟨.visitRunning rfl (by simp [ServerState.Complete, Stage.Complete]), trivial⟩ .refl
  exact ⟨_, _, _, startedServer_started, run, .visitComplete rfl ⟨_, rfl, .inl rfl⟩, rfl⟩

end Aesd.Server
