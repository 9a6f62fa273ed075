import Aesd.Library.HandleTable
import Aesd.Library.Transition

/-!
# Connections and their threads

The accept loop of `main`, `cleanup_threads` and the handlers, as far as
descriptors and the thread list go. The listening socket, the standard streams
and the system log are open throughout. `file_mutex` is left out: it only rules
out runs.
-/

set_option autoImplicit false

namespace Aesd.Server

open HandleTable Transition

inductive Descriptor where
  | other
  | device (connection : Nat)
  | socket (connection : Nat)
  deriving DecidableEq

/-- Where `handle_connection` is, for one connection. -/
inductive Stage where
  | receiving
  | appending (file : Nat)
  | requesting
  | reading (file : Nat)
  | sending
  | sendFailed
  | cleanup
  | closed
  | complete
  | exited
  deriving DecidableEq

inductive Effect where
  | nothing
  | fopen (fd : Nat)
  | close (fd : Nat)

inductive StageStep (clientSocket : Nat) : Stage → Effect → Stage → Prop where
  | openAppend {file} : StageStep clientSocket .receiving (.fopen file) (.appending file)
  | closeAppend {file} : StageStep clientSocket (.appending file) (.close file) .receiving
  | closeLastAppend {file} : StageStep clientSocket (.appending file) (.close file) .requesting
  /-- A chunk after a seek command opens no file. -/
  | skip : StageStep clientSocket .receiving .nothing .receiving
  | leave : StageStep clientSocket .receiving .nothing .requesting
  | openRead {file} : StageStep clientSocket .requesting (.fopen file) (.reading file)
  | closeRead {file} : StageStep clientSocket (.reading file) (.close file) .sending
  | sent : StageStep clientSocket .sending .nothing .cleanup
  | sendFails : StageStep clientSocket .sending .nothing .sendFailed
  | closeFailed : StageStep clientSocket .sendFailed (.close clientSocket) .cleanup
  | close : StageStep clientSocket .cleanup (.close clientSocket) .closed
  | setFlag : StageStep clientSocket .closed .nothing .complete
  | exit : StageStep clientSocket .complete .nothing .exited

/-- Where the accept loop is; `cleaning` has the nodes still to visit. -/
inductive MainStage where
  | accepting
  | accepted (connection : Nat)
  | inserting (connection : Nat)
  | cleaning (rest : List Nat)
  /-- The socket of the node is closed; waiting in `pthread_join`. -/
  | joining (connection : Nat) (rest : List Nat)
  deriving DecidableEq

/-- Connections are numbered in the order of their acceptance. -/
structure ServerState where
  table : Table Descriptor
  accepted : Nat
  clientSocket : Nat → Nat
  stage : Nat → Option Stage
  threadList : List Nat
  main : MainStage

def Stage.Complete (stage : Stage) : Prop := stage = .complete ∨ stage = .exited

def ServerState.Complete (server : ServerState) (connection : Nat) : Prop :=
  ∃ stage, server.stage connection = some stage ∧ stage.Complete

/-- A `close` names the connection on whose behalf it is executed. `fclose` counts
as one. `createFails` is a `pthread_create` that starts no handler. -/
inductive ServerEvent where
  | accept (fd : Nat)
  | fopen (connection fd : Nat)
  | close (connection fd : Nat)
  | createFails (connection : Nat)
  | internal

inductive ServerStep : ServerState → ServerEvent → ServerState → Prop where
  | accept {server : ServerState} {fd : Nat} : server.main = .accepting → server.table fd = none →
      ServerStep server (.accept fd)
        { server with
          table := opened server.table fd (.socket server.accepted)
          accepted := server.accepted + 1
          clientSocket := Function.update server.clientSocket server.accepted fd
          main := .accepted server.accepted }
  | outOfMemory {server : ServerState} {connection : Nat} : server.main = .accepted connection →
      ServerStep server (.close connection (server.clientSocket connection))
        { server with
          table := closed server.table (server.clientSocket connection)
          main := .accepting }
  | createThread {server : ServerState} {connection : Nat} : server.main = .accepted connection →
      ServerStep server .internal
        { server with
          stage := Function.update server.stage connection (some .receiving)
          main := .inserting connection }
  /-- `main` does not look at the result and inserts the node all the same. -/
  | createFails {server : ServerState} {connection : Nat} : server.main = .accepted connection →
      ServerStep server (.createFails connection) { server with main := .inserting connection }
  | insertHead {server : ServerState} {connection : Nat} : server.main = .inserting connection →
      ServerStep server .internal
        { server with
          threadList := connection :: server.threadList
          main := .cleaning (connection :: server.threadList) }
  | visitRunning {server : ServerState} {connection : Nat} {rest : List Nat} :
      server.main = .cleaning (connection :: rest) → ¬server.Complete connection →
      ServerStep server .internal { server with main := .cleaning rest }
  | visitComplete {server : ServerState} {connection : Nat} {rest : List Nat} :
      server.main = .cleaning (connection :: rest) → server.Complete connection →
      ServerStep server (.close connection (server.clientSocket connection))
        { server with
          table := closed server.table (server.clientSocket connection)
          main := .joining connection rest }
  | join {server : ServerState} {connection : Nat} {rest : List Nat} :
      server.main = .joining connection rest → server.stage connection = some .exited →
      ServerStep server .internal
        { server with
          threadList := server.threadList.erase connection
          main := .cleaning rest }
  | cleaned {server : ServerState} : server.main = .cleaning [] →
      ServerStep server .internal { server with main := .accepting }
  | work {server : ServerState} {connection : Nat} {stage after : Stage} :
      server.stage connection = some stage →
      StageStep (server.clientSocket connection) stage .nothing after →
      ServerStep server .internal
        { server with stage := Function.update server.stage connection (some after) }
  | fopen {server : ServerState} {connection fd : Nat} {stage after : Stage} :
      server.stage connection = some stage →
      StageStep (server.clientSocket connection) stage (.fopen fd) after →
      server.table fd = none →
      ServerStep server (.fopen connection fd)
        { server with
          table := opened server.table fd (.device connection)
          stage := Function.update server.stage connection (some after) }
  | close {server : ServerState} {connection fd : Nat} {stage after : Stage} :
      server.stage connection = some stage →
      StageStep (server.clientSocket connection) stage (.close fd) after →
      ServerStep server (.close connection fd)
        { server with
          table := closed server.table fd
          stage := Function.update server.stage connection (some after) }

structure ServerState.Started (server : ServerState) : Prop where
  table : ∀ fd descriptor, server.table fd = some descriptor → descriptor = .other
  accepted : server.accepted = 0
  stage : ∀ connection, server.stage connection = none
  threadList : server.threadList = []
  main : server.main = .accepting

end Aesd.Server
