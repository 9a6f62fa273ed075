import Aesd.Server.BufferRanges
import Aesd.Server.ReceiveProperties

/-!
# Allocations and reads that fail

What a whole call of `handle_connection` does with `file_mutex` and with the
buffers it was given. A failed allocation is searched as the null string, and
the failing returns of the read functions leave the mutex locked.
-/

set_option autoImplicit false

namespace Aesd.Server

open Driver

section Handler

variable {File : Type}

/-- The read function of either build, with the seek that the loop has found. -/
def contentsToSend (useAesdCharDevice : Bool) (stdio : Stdio File) (malloc : Malloc)
    (locals : HandlerLocals) : ReadResult :=
  if useAesdCharDevice then
    (readCharDevice stdio malloc locals.foundIoctlCmd locals.writeCmd locals.writeCmdOffset).value
  else (readFile stdio malloc).value

def readAndSend (useAesdCharDevice : Bool) (stdio : Stdio File) (malloc : Malloc)
    (locals : HandlerLocals) : List HandlerCall :=
  let result := contentsToSend useAesdCharDevice stdio malloc locals
  result.calls ++ [.sendto result.contents result.fsize]

/-- The calls of a handler from a chunk on. -/
def handleConnection (useAesdCharDevice : Bool) (stdio : Stdio File) (malloc : Malloc)
    (locals : HandlerLocals) : List RecvCall → List HandlerCall
  | [] => readAndSend useAesdCharDevice stdio malloc locals
  | call :: calls =>
      let extracted := extractDataUpToNewline (call.bytes ++ [0]) call.bytes.length call.mallocFails
      match extracted.1 with
      -- Searching the null string does not return.
      | none => [.lock, .strstr none]
      | some newString =>
          let searched := searchNewString locals newString
          [.lock, .strstr (some newString), .unlock] ++
            if extracted.2 then readAndSend useAesdCharDevice stdio malloc searched
            else handleConnection useAesdCharDevice stdio malloc searched calls

end Handler

/-- The chunks that the loop receives: it stops behind a newline. -/
def throughNewline : List RecvCall → List RecvCall
  | [] => []
  | call :: calls => if newline ∈ call.bytes then [call] else call :: throughNewline calls

/-- `fread` delivers as much as `ftell` announced. -/
def Stdio.DeliversSize {File : Type} (stdio : Stdio File) : Prop :=
  (stdio.fread (stdio.fseek (stdio.fseek stdio.fopen 0 seekEnd) 0 seekSet)
    (stdio.ftell (stdio.fseek stdio.fopen 0 seekEnd))).length =
      stdio.ftell (stdio.fseek stdio.fopen 0 seekEnd)

instance {File : Type} (stdio : Stdio File) : Decidable stdio.DeliversSize := by
  unfold Stdio.DeliversSize
  infer_instance

/-- Whether the mutex is held after some calls. -/
def holdsMutex : Bool → List HandlerCall → Bool
  | held, [] => held
  | _, .lock :: calls => holdsMutex true calls
  | _, .unlock :: calls => holdsMutex false calls
  | held, .strstr _ :: calls | held, .sendto _ _ :: calls => holdsMutex held calls

/-- No null buffer is searched or sent, and what is sent has a length. -/
def HandlerCall.Defined : HandlerCall → Prop
  | .lock | .unlock => True
  | .strstr haystack => haystack ≠ none
  | .sendto contents length => contents ≠ none ∧ length ≠ none

structure Orderly (calls : List HandlerCall) : Prop where
  released : holdsMutex false calls = false
  defined : ∀ call ∈ calls, call.Defined

section Orderly

variable {left right : List HandlerCall}

theorem holdsMutex_append (held : Bool) (left right : List HandlerCall) :
    holdsMutex held (left ++ right) = holdsMutex (holdsMutex held left) right := by
  induction left generalizing held with
  | nil => rfl
  | cons call left ih => cases call <;> exact ih _

theorem Orderly.append_iff (orderly : Orderly left) : Orderly (left ++ right) ↔ Orderly right := by
  have held : holdsMutex false (left ++ right) = holdsMutex false right := by
    rw [holdsMutex_append, orderly.released]
  constructor
  · intro whole
    exact ⟨held ▸ whole.released, fun call member =>
      whole.defined call (List.mem_append_right left member)⟩
  · intro later
    refine ⟨held ▸ later.released, fun call member => ?_⟩
    rcases List.mem_append.mp member with before | after
    · exact orderly.defined call before
    · exact later.defined call after

theorem Orderly.append (orderly : Orderly left) (later : Orderly right) :
    Orderly (left ++ right) :=
  orderly.append_iff.mpr later

theorem orderly_round (newString : List UInt8) :
    Orderly [.lock, .strstr (some newString), .unlock] :=
  ⟨rfl, by simp [HandlerCall.Defined]⟩

theorem orderly_sendto {contents : Option (List UInt8)} {length : Option Nat}
    (given : contents ≠ none) (assigned : length ≠ none) :
    Orderly [.lock, .unlock, .sendto contents length] :=
  ⟨rfl, by simp [HandlerCall.Defined, given, assigned]⟩

theorem not_orderly_locked (contents : Option (List UInt8)) (length : Option Nat) :
    ¬Orderly [.lock, .sendto contents length] :=
  fun orderly => Bool.noConfusion orderly.released

end Orderly

section Reading

variable {File : Type} (stdio : Stdio File) (malloc : Malloc)

theorem readCharDevice_result (foundCmd : Bool) (writeCmd writeCmdOffset : BitVec 32) :
    let result := (readCharDevice stdio malloc foundCmd writeCmd writeCmdOffset).value
    if malloc.fails then
      result.contents = none ∧ result.fsize = none ∧ result.calls = [.lock]
    else
      result.contents ≠ none ∧ result.fsize ≠ none ∧ result.calls = [.lock, .unlock] := by
  cases fails : malloc.fails <;> simp [readCharDevice, Malloc.block, fails]

/-- `*fsize` is assigned before anything can fail. -/
theorem readFile_result :
    let result := (readFile stdio malloc).value
    result.fsize ≠ none ∧
      if malloc.fails = false ∧ stdio.DeliversSize then
        result.contents ≠ none ∧ result.calls = [.lock, .unlock]
      else result.contents = none ∧ result.calls = [.lock] := by
  cases fails : malloc.fails with
  | true => simp [readFile, Malloc.block, fails]
  | false => by_cases delivered : (stdio.fread (stdio.fseek (stdio.fseek stdio.fopen 0 seekEnd) 0
      seekSet) (stdio.ftell (stdio.fseek stdio.fopen 0 seekEnd))).length =
        stdio.ftell (stdio.fseek stdio.fopen 0 seekEnd) <;>
    simp [readFile, Malloc.block, fails, Stdio.DeliversSize, delivered]

theorem orderly_readAndSend_iff (useAesdCharDevice : Bool) (locals : HandlerLocals) :
    Orderly (readAndSend useAesdCharDevice stdio malloc locals) ↔
      malloc.fails = false ∧ (useAesdCharDevice = false → stdio.DeliversSize) := by
  unfold readAndSend contentsToSend
  cases useAesdCharDevice with
  | true =>
      have result := readCharDevice_result stdio malloc locals.foundIoctlCmd locals.writeCmd
        locals.writeCmdOffset
      cases fails : malloc.fails with
      | true =>
          rw [fails] at result
          simp [result.2.2, not_orderly_locked]
      | false =>
          rw [fails] at result
          simpa [result.2.2] using orderly_sendto result.1 result.2.1
  | false =>
      have result := readFile_result stdio malloc
      by_cases succeeds : malloc.fails = false ∧ stdio.DeliversSize
      · simp only [succeeds, and_self, ↓reduceIte] at result
        simpa [succeeds, result.2.2] using orderly_sendto result.2.1 result.1
      · simp only [if_neg succeeds] at result
        simp [succeeds, result.2.2, not_orderly_locked]

end Reading

section Receiving

variable {File : Type} (useAesdCharDevice : Bool) (stdio : Stdio File) (malloc : Malloc)

theorem extractDataUpToNewline_fails (bytes : List UInt8) :
    (extractDataUpToNewline (bytes ++ [0]) bytes.length true).1 = none := by
  rw [extractDataUpToNewline]
  split <;> rfl

theorem receiveLoop_eq_none_iff (locals : HandlerLocals) (calls : List RecvCall) :
    receiveLoop locals calls = none ↔ ∃ call ∈ throughNewline calls, call.mallocFails = true := by
  induction calls generalizing locals with
  | nil => simp [receiveLoop, throughNewline]
  | cons call calls ih =>
      obtain ⟨bytes, mallocFails⟩ := call
      cases mallocFails with
      | true =>
          have first : (⟨bytes, true⟩ : RecvCall) ∈ throughNewline (⟨bytes, true⟩ :: calls) := by
            rw [throughNewline]
            split <;> exact List.mem_cons_self
          simp only [receiveLoop, receiveChunk, extractDataUpToNewline_fails, Option.map_none,
            true_iff]
          exact ⟨_, first, rfl⟩
      | false =>
          have received := receiveChunk_eq locals bytes
          rw [RecvCall.served] at received
          by_cases ends : newline ∈ bytes
          · simp [receiveLoop, received, throughNewline, ends]
          · simp [receiveLoop, received, throughNewline, ends, ih]

/-- Where the receive loop does not return, the null string was searched. Where it
does, its calls are in order and the reading is next. -/
theorem handleConnection_cases (locals : HandlerLocals) (calls : List RecvCall) :
    (receiveLoop locals calls = none ∧
      .strstr none ∈ handleConnection useAesdCharDevice stdio malloc locals calls) ∨
    ∃ result rounds, receiveLoop locals calls = some result ∧ Orderly rounds ∧
      handleConnection useAesdCharDevice stdio malloc locals calls =
        rounds ++ readAndSend useAesdCharDevice stdio malloc result.locals := by
  induction calls generalizing locals with
  | nil => exact .inr ⟨_, [], rfl, ⟨rfl, fun _ member => absurd member List.not_mem_nil⟩, rfl⟩
  | cons call calls ih =>
      rw [receiveLoop, receiveChunk, handleConnection]
      cases extracted : extractDataUpToNewline (call.bytes ++ [0]) call.bytes.length
        call.mallocFails with
      | mk newString newLineFound =>
          cases newString with
          | none => exact .inl ⟨rfl, by simp⟩
          | some newString =>
              cases newLineFound with
              | true => exact .inr ⟨_, _, rfl, orderly_round newString, rfl⟩
              | false =>
                  rcases ih (searchNewString locals newString) with
                    ⟨looped, searched⟩ | ⟨result, rounds, looped, orderly, continued⟩
                  · exact .inl ⟨by simp [looped], by simp [searched]⟩
                  · refine .inr ⟨{ result with appended := _ ++ result.appended }, _,
                      by simp [looped]; rfl, (orderly_round newString).append orderly, ?_⟩
                    simp [continued]

end Receiving

/-- Every path through a handler gives `file_mutex` back, searches no null string
and sends a buffer with an assigned length exactly when each allocation it makes
succeeds and, in the build without the device, `fread` delivers the whole file. -/
theorem handler_failures_harmless_iff {File : Type} (useAesdCharDevice : Bool) (stdio : Stdio File)
    (malloc : Malloc) (writeCmd writeCmdOffset : BitVec 32) (calls : List RecvCall) :
    Orderly (handleConnection useAesdCharDevice stdio malloc (.start writeCmd writeCmdOffset)
        calls) ↔
      (∀ call ∈ throughNewline calls, call.mallocFails = false) ∧ malloc.fails = false ∧
        (useAesdCharDevice = false → stdio.DeliversSize) := by
  have unserved := receiveLoop_eq_none_iff (.start writeCmd writeCmdOffset) calls
  rcases handleConnection_cases useAesdCharDevice stdio malloc (.start writeCmd writeCmdOffset)
    calls with ⟨looped, searched⟩ | ⟨result, rounds, looped, orderly, continued⟩
  · obtain ⟨call, member, fails⟩ := unserved.mp looped
    constructor
    · intro orderly
      exact absurd rfl (orderly.defined _ searched)
    · intro served
      rw [served.1 call member] at fails
      cases fails
  · have served : ∀ call ∈ throughNewline calls, call.mallocFails = false := by
      intro call member
      rw [looped] at unserved
      apply Bool.eq_false_iff.mpr
      exact fun fails => Option.some_ne_none _ (unserved.mpr ⟨call, member, fails⟩)
    rw [continued, orderly.append_iff, orderly_readAndSend_iff]
    exact (and_iff_right served).symm

/-- The allocation of `read_char_device` fails; that of the first chunk does; and
`fread` delivers one byte of two. -/
theorem handler_failures_harmful :
    handleConnection true (.delivering [97, newline]) ⟨true, fun _ => 0⟩ (.start 0 0) [] =
      [.lock, .sendto none none] ∧
    handleConnection true (.delivering [97, newline]) ⟨false, fun _ => 0⟩ (.start 0 0)
      [⟨[97, newline], true⟩] = [.lock, .strstr none] ∧
    handleConnection false { Stdio.delivering [97] with ftell := fun _ => 2 } ⟨false, fun _ => 0⟩
      (.start 0 0) [] = [.lock, .sendto none (some 2)] ∧
    ¬Orderly [.lock, .sendto none none] ∧ ¬Orderly [.lock, .strstr none] ∧
    ¬Orderly [.lock, .sendto none (some 2)] :=
  ⟨rfl, rfl, rfl, not_orderly_locked _ _, fun orderly => Bool.noConfusion orderly.released,
    not_orderly_locked _ _⟩

end Aesd.Server
