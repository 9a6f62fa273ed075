import Aesd.Driver.WholeWrites
import Aesd.Library.Exclusion
import Aesd.Server.Connection

/-!
# Handlers between their calls

`handle_connection` as a program of phases, in which every call of the driver is
a step of its own and only `file_mutex` keeps handlers apart. Each handler has at
most one device descriptor open, which carries the handler's number.
-/

set_option autoImplicit false

namespace Aesd.Server

open CText Driver Transition Exclusion

inductive Phase where
  | receiving
  /-- A chunk was received; waiting for `file_mutex`. -/
  | received (bytes : List UInt8)
  /-- Inside `fprintf` and `fclose`, with what is left to write. -/
  | appending (text : List UInt8) (newLineFound : Bool)
  /-- Past the loop; waiting for `file_mutex` in `read_char_device`. -/
  | requesting
  | opened
  /-- Inside `fread`, with what was read so far. -/
  | reading (contents : List UInt8)
  | finished (contents : List UInt8)
  | responding (contents : List UInt8)

def Phase.Locked : Phase → Prop
  | .appending _ _ | .opened | .reading _ | .finished _ => True
  | _ => False

/-- The phases of `read_char_device` under `file_mutex`. -/
def Phase.Serving : Phase → Prop
  | .opened | .reading _ | .finished _ => True
  | _ => False

structure Handler where
  locals : HandlerLocals
  phase : Phase

inductive Action where
  | receive (bytes : List UInt8)
  | disconnect
  | lockChunk
  | write (event : Event)
  | unlockChunk
  | lockRequest
  | seek
  | startReading
  | read (event : Event)
  | unlockRequest

structure Shared where
  system : System
  fileMutex : Option Nat

/-- What `fread` has after a read: it goes on until the requested size is there or
a read returns 0. -/
def freadNext (contents : List UInt8) (event : Event) : Phase :=
  if event.retval = 0 ∨ bufferSize ≤ (contents ++ event.delivered).length then
    .finished ((contents ++ event.delivered).take bufferSize)
  else .reading (contents ++ event.delivered)

/-- One step of a handler, when all calls succeed. -/
inductive HandlerStep (fixedSizeLlseek : FixedSizeLlseek) (client : Nat) :
    Shared → Handler → Action → Shared → Handler → Prop where
  | receive {shared locals bytes} : bytes ≠ [] →
      HandlerStep fixedSizeLlseek client shared ⟨locals, .receiving⟩ (.receive bytes)
        shared ⟨locals, .received bytes⟩
  | disconnect {shared locals} :
      HandlerStep fixedSizeLlseek client shared ⟨locals, .receiving⟩ .disconnect
        shared ⟨locals, .requesting⟩
  | lockChunk {system locals bytes result} :
      receiveChunk locals ⟨bytes, false⟩ = some result →
      HandlerStep fixedSizeLlseek client ⟨system, none⟩ ⟨locals, .received bytes⟩ .lockChunk
        ⟨if result.appended.isSome then system.openFile client else system, some client⟩
        ⟨result.locals, .appending (result.appended.getD []) result.newLineFound⟩
  | write {shared locals rest newLineFound event system} :
      event.WritesWhole → event.operation.file = client →
      Step fixedSizeLlseek shared.system event system →
      HandlerStep fixedSizeLlseek client shared
        ⟨locals, .appending (event.data ++ rest) newLineFound⟩ (.write event)
        { shared with system } ⟨locals, .appending rest newLineFound⟩
  | unlockChunk {shared locals newLineFound} :
      HandlerStep fixedSizeLlseek client shared ⟨locals, .appending [] newLineFound⟩ .unlockChunk
        { shared with fileMutex := none }
        ⟨locals, if newLineFound then .requesting else .receiving⟩
  | lockRequest {system locals} :
      HandlerStep fixedSizeLlseek client ⟨system, none⟩ ⟨locals, .requesting⟩ .lockRequest
        ⟨system.openFile client, some client⟩ ⟨locals, .opened⟩
  | seek {shared locals stack system} : locals.foundIoctlCmd = true →
      Step fixedSizeLlseek shared.system ⟨.ioctl client (seekIoctl locals stack), 0, []⟩ system →
      HandlerStep fixedSizeLlseek client shared ⟨locals, .opened⟩ .seek
        { shared with system } ⟨locals, .reading []⟩
  | startReading {shared locals} : locals.foundIoctlCmd = false →
      HandlerStep fixedSizeLlseek client shared ⟨locals, .opened⟩ .startReading
        shared ⟨locals, .reading []⟩
  | read {shared locals contents event system} {call : ReadCall} :
      event.operation = .read client call → 0 < call.count → 0 ≤ event.retval →
      Step fixedSizeLlseek shared.system event system →
      HandlerStep fixedSizeLlseek client shared ⟨locals, .reading contents⟩ (.read event)
        { shared with system } ⟨locals, freadNext contents event⟩
  | unlockRequest {shared locals contents} :
      HandlerStep fixedSizeLlseek client shared ⟨locals, .finished contents⟩ .unlockRequest
        { shared with fileMutex := none } ⟨locals, .responding contents⟩

structure Service where
  shared : Shared
  handler : Nat → Handler

def ServiceStep (fixedSizeLlseek : FixedSizeLlseek) (service : Service) (label : Nat × Action)
    (next : Service) : Prop :=
  ∃ shared handler,
    HandlerStep fixedSizeLlseek label.1 service.shared (service.handler label.1) label.2
      shared handler ∧
    next = ⟨shared, Function.update service.handler label.1 handler⟩

structure Service.Started (service : Service) : Prop where
  loaded : Loaded service.shared.system
  mutexFree : service.shared.fileMutex = none
  receiving : ∀ client, (service.handler client).phase = .receiving ∧
    (service.handler client).locals.foundIoctlCmd = false

def Service.contents (service : Service) : List UInt8 :=
  service.shared.system.kernel.ringBytes.flatten

end Aesd.Server
