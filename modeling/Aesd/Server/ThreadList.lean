import Aesd.Library.Blocks
import Aesd.Library.LinkedList
import Aesd.Library.Transition

/-!
# The thread list in memory

The accept loop and `cleanup_threads` over the nodes that `malloc` gave out, with
the macros of `sys/queue.h` taken apart: each link that is followed is a step, and
handlers set their flags between any two steps. Only `main` takes
`thread_list_mutex`. A thread has a number of its own; the address of a node that
was freed may be given out again.
-/

set_option autoImplicit false

namespace Aesd.Server

open LinkedList

/-- The fields of a node that `cleanup_threads` reads. -/
structure ThreadInfo where
  threadId : Nat
  threadCompleteFlag : Bool
  entries : Option Address

inductive ThreadStage where
  | running
  /-- The flag is set; `pthread_exit` is next. -/
  | flagged
  | exited
  | joined
  deriving DecidableEq

structure Thread where
  info : Address
  stage : ThreadStage

/-- Where the accept loop is, with the locals of `cleanup_threads` and `SLIST_REMOVE`. -/
inductive MainPoint where
  | accepting
  | inserting (info : Address)
  | cleaning
  | visiting (info : Option Address)
  | testing (info : Address) (tmp : Option Address)
  | joining (info : Address) (tmp : Option Address)
  | removing (info : Address) (tmp : Option Address)
  | searching (info : Address) (tmp curelm : Option Address)
  | freeing (info : Address) (tmp : Option Address)

structure ThreadsState where
  heap : Address → Option ThreadInfo
  threadList : Option Address
  thread : Nat → Option Thread
  main : MainPoint

inductive ThreadEvent where
  | create (thread : Nat)
  | insert (thread : Nat)
  | passBegin
  | join (thread : Nat)
  | unlink (thread : Nat)
  | free (thread : Nat)
  | passEnd
  | setFlag (thread : Nat)
  | exit (thread : Nat)
  | internal
  deriving DecidableEq

inductive ThreadStep : ThreadsState → ThreadEvent → ThreadsState → Prop where
  /-- An accepted connection; the link of the new node is whatever the block held. -/
  | create {server : ThreadsState} {info : Address} {thread : Nat} {entries : Option Address} :
      server.main = .accepting → server.heap info = none → server.thread thread = none →
      ThreadStep server (.create thread)
        { server with
          heap := Function.update server.heap info (some ⟨thread, false, entries⟩)
          thread := Function.update server.thread thread (some ⟨info, .running⟩)
          main := .inserting info }
  | insertHead {server : ThreadsState} {info : Address} {node : ThreadInfo} :
      server.main = .inserting info → server.heap info = some node →
      ThreadStep server (.insert node.threadId)
        { server with
          heap := Function.update server.heap info
            (some { node with entries := server.threadList })
          threadList := some info
          main := .cleaning }
  | passBegin {server : ThreadsState} : server.main = .cleaning →
      ThreadStep server .passBegin { server with main := .visiting server.threadList }
  | next {server : ThreadsState} {info : Address} {node : ThreadInfo} :
      server.main = .visiting (some info) → server.heap info = some node →
      ThreadStep server .internal { server with main := .testing info node.entries }
  | skip {server : ThreadsState} {info : Address} {tmp : Option Address} {node : ThreadInfo} :
      server.main = .testing info tmp → server.heap info = some node →
      node.threadCompleteFlag = false →
      ThreadStep server .internal { server with main := .visiting tmp }
  | complete {server : ThreadsState} {info : Address} {tmp : Option Address} {node : ThreadInfo} :
      server.main = .testing info tmp → server.heap info = some node →
      node.threadCompleteFlag = true →
      ThreadStep server .internal { server with main := .joining info tmp }
  /-- `pthread_join` waits for the exit; a second one is a step like the first. -/
  | join {server : ThreadsState} {info : Address} {tmp : Option Address} {node : ThreadInfo}
      {thread : Thread} :
      server.main = .joining info tmp → server.heap info = some node →
      server.thread node.threadId = some thread →
      thread.stage = .exited ∨ thread.stage = .joined →
      ThreadStep server (.join node.threadId)
        { server with
          thread := Function.update server.thread node.threadId (some ⟨thread.info, .joined⟩)
          main := .removing info tmp }
  | removeHead {server : ThreadsState} {info : Address} {tmp : Option Address}
      {node : ThreadInfo} :
      server.main = .removing info tmp → server.threadList = some info →
      server.heap info = some node →
      ThreadStep server (.unlink node.threadId)
        { server with threadList := node.entries, main := .freeing info tmp }
  | search {server : ThreadsState} {info : Address} {tmp : Option Address} :
      server.main = .removing info tmp → server.threadList ≠ some info →
      ThreadStep server .internal { server with main := .searching info tmp server.threadList }
  | advance {server : ThreadsState} {info curelm : Address} {tmp : Option Address}
      {node : ThreadInfo} :
      server.main = .searching info tmp (some curelm) → server.heap curelm = some node →
      node.entries ≠ some info →
      ThreadStep server .internal { server with main := .searching info tmp node.entries }
  | removeAfter {server : ThreadsState} {info curelm : Address} {tmp : Option Address}
      {node removed : ThreadInfo} :
      server.main = .searching info tmp (some curelm) → server.heap curelm = some node →
      node.entries = some info → server.heap info = some removed →
      ThreadStep server (.unlink removed.threadId)
        { server with
          heap := Function.update server.heap curelm (some { node with entries := removed.entries })
          main := .freeing info tmp }
  | free {server : ThreadsState} {info : Address} {tmp : Option Address} {node : ThreadInfo} :
      server.main = .freeing info tmp → server.heap info = some node →
      ThreadStep server (.free node.threadId)
        { server with heap := Function.update server.heap info none, main := .visiting tmp }
  | passEnd {server : ThreadsState} : server.main = .visiting none →
      ThreadStep server .passEnd { server with main := .accepting }
  /-- A handler writes to the node it was started with. -/
  | setFlag {server : ThreadsState} {thread : Nat} {info : Address} {node : ThreadInfo} :
      server.thread thread = some ⟨info, .running⟩ → server.heap info = some node →
      ThreadStep server (.setFlag thread)
        { server with
          heap := Function.update server.heap info (some { node with threadCompleteFlag := true })
          thread := Function.update server.thread thread (some ⟨info, .flagged⟩) }
  | exit {server : ThreadsState} {thread : Nat} {info : Address} :
      server.thread thread = some ⟨info, .flagged⟩ →
      ThreadStep server (.exit thread)
        { server with thread := Function.update server.thread thread (some ⟨info, .exited⟩) }

structure ThreadsState.Started (server : ThreadsState) : Prop where
  heap : ∀ address, server.heap address = none
  threadList : server.threadList = none
  thread : ∀ thread, server.thread thread = none
  main : server.main = .accepting

/-- The addresses that the next step of `main`, or of a handler, reads or writes.
A null pointer is among them when it would be followed. -/
inductive ThreadsState.Uses (server : ThreadsState) : Option Address → Prop where
  | inserting {info} : server.main = .inserting info → Uses server (some info)
  | visiting {info} : server.main = .visiting (some info) → Uses server (some info)
  | testing {info tmp} : server.main = .testing info tmp → Uses server (some info)
  | joining {info tmp} : server.main = .joining info tmp → Uses server (some info)
  | removing {info tmp} : server.main = .removing info tmp → server.threadList = some info →
      Uses server (some info)
  | searching {info tmp curelm} : server.main = .searching info tmp curelm → Uses server curelm
  | removed {info tmp curelm node} : server.main = .searching info tmp (some curelm) →
      server.heap curelm = some node → node.entries = some info → Uses server (some info)
  | freeing {info tmp} : server.main = .freeing info tmp → Uses server (some info)
  | setFlag {thread info} : server.thread thread = some ⟨info, .running⟩ →
      Uses server (some info)

end Aesd.Server
