import Aesd.Driver.Operations
import Aesd.Library.CText

/-!
# The receive loop of a connection

What `handle_connection` does with each received chunk while it holds
`file_mutex`, and how `read_char_device` packs the seek it found. Messages to the
terminal and the system log are left out.
-/

set_option autoImplicit false

namespace Aesd.Server

open CText Driver

def bufferSize : Nat := 100000

/-- `AESDCHAR_IOCSEEKTO:` -/
def searchString : List UInt8 :=
  [65, 69, 83, 68, 67, 72, 65, 82, 95, 73, 79, 67, 83, 69, 69, 75, 84, 79, 58]

/-- `buf` holds the received bytes and the terminator stored behind them. The new
string is null when `malloc` fails. -/
def extractDataUpToNewline (buf : List UInt8) (nread : Nat) (mallocFails : Bool) :
    Option (List UInt8) × Bool :=
  match (buf.take nread).findIdx? (· == newline) with
  | some newLineIndex =>
      (if mallocFails then none
        else some ((buf.take (newLineIndex + 2)).set (newLineIndex + 1) 0), true)
  | none => (if mallocFails then none else some ((buf.take (nread + 1)).set nread 0), false)

/-- The locals of `handle_connection` that outlive one chunk. The two numbers
start with whatever the stack holds. -/
structure HandlerLocals where
  foundIoctlCmd : Bool
  writeCmd : BitVec 32
  writeCmdOffset : BitVec 32
  deriving DecidableEq

def HandlerLocals.start (writeCmd writeCmdOffset : BitVec 32) : HandlerLocals :=
  ⟨false, writeCmd, writeCmdOffset⟩

/-- A `recvfrom` that returns a positive count, and the allocation after it. -/
structure RecvCall where
  bytes : List UInt8
  mallocFails : Bool

structure Received where
  locals : HandlerLocals
  /-- The string given to `fprintf`, if the file is opened. -/
  appended : Option (List UInt8)
  newLineFound : Bool
  deriving DecidableEq

def searchNewString (locals : HandlerLocals) (newString : List UInt8) : HandlerLocals :=
  match strstr searchString (cString newString) with
  | none => locals
  | some result =>
      let scanned := sscanfPair (result.drop searchString.length) locals.writeCmd
        locals.writeCmdOffset
      ⟨true, scanned.1, scanned.2⟩

/-- One round of the loop; searching a null string has no result. -/
def receiveChunk (locals : HandlerLocals) (call : RecvCall) : Option Received :=
  let extracted := extractDataUpToNewline (call.bytes ++ [0]) call.bytes.length call.mallocFails
  extracted.1.map fun newString =>
    let searched := searchNewString locals newString
    { locals := searched
      appended := if searched.foundIoctlCmd then none else some (cString newString)
      newLineFound := extracted.2 }

structure LoopResult where
  locals : HandlerLocals
  appended : List (List UInt8)
  throughNewline : Bool
  deriving DecidableEq

def receiveLoop (locals : HandlerLocals) : List RecvCall → Option LoopResult
  | [] => some ⟨locals, [], false⟩
  | call :: calls =>
      match receiveChunk locals call with
      | none => none
      | some received =>
          if received.newLineFound then some ⟨received.locals, received.appended.toList, true⟩
          else (receiveLoop received.locals calls).map fun later =>
            { later with appended := received.appended.toList ++ later.appended }

def encodeSeekto (writeCmd writeCmdOffset : BitVec 32) : AesdSeekto :=
  ⟨(writeCmd <<< 4) ||| writeCmdOffset, 0⟩

def seekIoctl (locals : HandlerLocals) (stack : AesdSeekto) : IoctlCall where
  cmd := aesdcharIocseekto
  user := encodeSeekto locals.writeCmd locals.writeCmdOffset
  stack := stack
  copyFails := false
  interrupted := false

end Aesd.Server
