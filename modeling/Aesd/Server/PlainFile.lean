import Aesd.Library.Linearizability
import Aesd.Server.ReceiveProperties
import Aesd.Server.WholeContents
import Mathlib.Data.List.Flatten

/-!
# The build without the device

The server on an ordinary file: handlers and the timer thread append to it, and
handlers read it whole by `read_file`. Each request runs under `file_mutex`, one
`write` or `read` of the C library after the other.
-/

set_option autoImplicit false

namespace Aesd.Server

open Driver Transition

structure PlainFile where
  contents : List UInt8
  mutex : Bool

/-- How many bytes each read of the C library asks for. -/
structure ReadSizes where
  count : Nat → Nat
  positive : ∀ call, 0 < count call

inductive FileRequest where
  /-- `fopen(FILE_NAME, "a+")`, `fprintf` and `fclose`, which write the text in pieces. -/
  | append (pieces : List (List UInt8))
  | read (malloc : Malloc) (sizes : ReadSizes)

def appendProgram : List (List UInt8) → Program PlainFile Unit
  | [] => pure ()
  | piece :: pieces => do
      .store fun file => { file with contents := file.contents ++ piece }
      appendProgram pieces

/-- The reads of one `fread` from the start of the file, as in `freadLoop`. -/
def freadProgram (sizes : ReadSizes) (requested : Nat) :
    Nat → Nat → List UInt8 → Program PlainFile (List UInt8)
  | 0, _, got => pure (got.take requested)
  | remaining + 1, call, got =>
      if requested ≤ got.length then pure (got.take requested)
      else do
        let bytes ← .load fun file => (file.contents.drop got.length).take (sizes.count call)
        if bytes = [] then pure got
        else freadProgram sizes requested remaining (call + 1) (got ++ bytes)

def readFileProgram (malloc : Malloc) (sizes : ReadSizes) :
    Program PlainFile (ReadResult × Bool) := do
  let fileSize ← .load fun file => file.contents.length
  match malloc.block (fileSize + 1) with
  | none => pure (⟨none, some fileSize, [.lock]⟩, false)
  | some block => do
      let bytes ← freadProgram sizes fileSize fileSize 0 []
      if bytes.length = fileSize then
        pure (⟨some ((fillFront block bytes).set fileSize 0), some fileSize, [.lock, .unlock]⟩, true)
      else pure (⟨none, some fileSize, [.lock]⟩, false)

def FileRequest.body : FileRequest → Program PlainFile (Option ReadResult × Bool)
  | .append pieces => do
      appendProgram pieces
      pure (none, true)
  | .read malloc sizes => do
      let result ← readFileProgram malloc sizes
      pure (some result.1, result.2)

section Keeping

variable {holds : PlainFile → Prop}

theorem keeps_appendProgram (kept : ∀ file contents, holds file → holds { file with contents })
    (pieces : List (List UInt8)) : (appendProgram pieces).Keeps holds := by
  induction pieces with
  | nil => exact Program.keeps_pure _
  | cons piece pieces ih =>
      exact (Program.keeps_store fun file start => kept file _ start).bind fun _ => ih

theorem keeps_freadProgram (sizes : ReadSizes) (requested remaining call : Nat)
    (got : List UInt8) : (freadProgram sizes requested remaining call got).Keeps holds := by
  induction remaining generalizing call got with
  | zero => exact Program.keeps_pure _
  | succ remaining ih =>
      unfold freadProgram
      split
      · exact Program.keeps_pure _
      · refine (Program.keeps_load _).bind fun bytes => ?_
        split
        · exact Program.keeps_pure _
        · exact ih _ _

theorem keeps_readFileProgram (malloc : Malloc) (sizes : ReadSizes) :
    (readFileProgram malloc sizes).Keeps holds := by
  refine (Program.keeps_load _).bind fun fileSize => ?_
  split
  · exact Program.keeps_pure _
  · refine (keeps_freadProgram _ _ _ _ _).bind fun bytes => ?_
    split <;> exact Program.keeps_pure _

theorem FileRequest.keeps_body (kept : ∀ file contents, holds file → holds { file with contents })
    (request : FileRequest) : request.body.Keeps holds := by
  cases request with
  | append pieces => exact (keeps_appendProgram kept pieces).bind fun _ => Program.keeps_pure _
  | read malloc sizes => exact (keeps_readFileProgram _ _).bind fun _ => Program.keeps_pure _

end Keeping

/-- The file as an object whose requests run under `file_mutex`. -/
def plainFile : Guarded PlainFile FileRequest (Option ReadResult) where
  held := PlainFile.mutex
  setHeld := fun held file => { file with mutex := held }
  refusal := fun _ => none
  body := FileRequest.body
  held_setHeld := fun _ _ => rfl
  body_keeps := FileRequest.keeps_body fun _ _ held => held

section Executions

variable (file : PlainFile)

theorem exec_appendProgram (pieces : List (List UInt8)) :
    (appendProgram pieces).exec file =
      some ((), { file with contents := file.contents ++ pieces.flatten }) := by
  induction pieces generalizing file with
  | nil => simp [appendProgram]
  | cons piece pieces ih => simp [appendProgram, ih]

private theorem take_of_front {got contents : List UInt8} (front : got <+: contents)
    {requested : Nat} (enough : requested ≤ got.length) :
    got.take requested = contents.take requested := by
  obtain ⟨rest, rfl⟩ := front
  rw [List.take_append_of_le_length enough]

/-- What was read so far is the front of the file, since nobody else writes to it. -/
theorem exec_freadProgram (sizes : ReadSizes) (requested remaining call : Nat)
    {got : List UInt8} (front : got <+: file.contents)
    (enough : requested ≤ remaining + got.length) :
    (freadProgram sizes requested remaining call got).exec file =
      some (file.contents.take requested, file) := by
  induction remaining generalizing call got with
  | zero =>
      rw [Nat.zero_add] at enough
      rw [freadProgram, take_of_front front enough, Program.exec_pure]
  | succ remaining ih =>
      unfold freadProgram
      by_cases complete : requested ≤ got.length
      · rw [if_pos complete, take_of_front front complete, Program.exec_pure]
      · obtain ⟨rest, contents⟩ := front
        have positive := sizes.positive call
        have ahead : file.contents.drop got.length = rest := by
          rw [← contents, List.drop_left]
        simp only [if_neg complete, Program.exec_bind, Program.exec_load, Option.bind_some, ahead]
        cases rest with
        | nil =>
            rw [List.append_nil] at contents
            rw [List.take_nil, if_pos rfl, Program.exec_pure, ← contents,
              List.take_of_length_le (by omega)]
        | cons byte rest =>
            have more : ((byte :: rest).take (sizes.count call)).length ≠ 0 := by
              simp [Nat.ne_of_gt positive]
            rw [if_neg fun none => more (by rw [none, List.length_nil])]
            apply ih
            · rw [← contents]
              exact List.prefix_append_right_inj got |>.mpr (List.take_prefix _ _)
            · rw [List.length_append]
              omega

/-- The C library on a plain file, where an open file is its position. -/
def plainStdio (contents : List UInt8) : Stdio Nat where
  fopen := 0
  ioctl position _ := position
  fseek position off whence :=
    ((if whence = seekEnd then contents.length else if whence = seekSet then 0 else position : Int) +
      off).toNat
  ftell position := position
  fread position requested := (contents.drop position).take requested

/-- Run alone, the section is `read_file`, and gives the mutex back where it unlocks it. -/
theorem exec_readFileProgram (malloc : Malloc) (sizes : ReadSizes) :
    (readFileProgram malloc sizes).exec file =
      some (((readFile (plainStdio file.contents) malloc).value, !malloc.fails), file) := by
  have whole := exec_freadProgram file sizes file.contents.length file.contents.length 0
    List.nil_prefix (Nat.le_add_right _ _)
  simp only [List.take_length] at whole
  simp only [readFileProgram, readFile, plainStdio, Program.exec_bind, Program.exec_load,
    Option.bind_some, Malloc.block]
  cases malloc.fails with
  | true => simp
  | false => simp [whole, seekEnd, seekSet]

end Executions

/-- What a request appends. -/
def FileRequest.text : FileRequest → List UInt8
  | .append pieces => pieces.flatten
  | .read _ _ => []

/-- A read without memory returns without unlocking. -/
def FileRequest.KeepsMutex : FileRequest → Prop
  | .append _ => False
  | .read malloc _ => malloc.fails

/-- What a request may return, where the file has these contents. -/
def FileRequest.Returns (contents : List UInt8) : FileRequest → Option ReadResult → Prop
  | .append _, ret => ret = none
  | .read malloc _, ret => ∃ result, ret = some result ∧
      if malloc.fails then result.contents = none else result.Answers contents

def appendedTexts (taken : List (FileRequest × Option ReadResult)) : List UInt8 :=
  (taken.map fun one => one.1.text).flatten

@[simp] theorem appendedTexts_append (left right : List (FileRequest × Option ReadResult)) :
    appendedTexts (left ++ right) = appendedTexts left ++ appendedTexts right := by
  simp [appendedTexts]

theorem plainStdio_answers (contents : List UInt8) (garbage : Nat → UInt8) :
    (readFile (plainStdio contents) ⟨false, garbage⟩).value.Answers contents :=
  readFile_answers _ _ (by simp [plainStdio, seekEnd]) (by simp [plainStdio, seekEnd, seekSet])

section Requests

variable {file next : PlainFile} {request : FileRequest} {ret : Option ReadResult}

/-- One request, run alone. -/
theorem FileRequest.exec_body (file : PlainFile) (request : FileRequest) :
    ∃ ret gives, request.body.exec file =
        some ((ret, gives), { file with contents := file.contents ++ request.text }) ∧
      request.Returns file.contents ret ∧ (gives = false ↔ request.KeepsMutex) := by
  cases request with
  | append pieces =>
      exact ⟨none, true, by simp [body, exec_appendProgram, text], rfl, by simp [KeepsMutex]⟩
  | read malloc sizes =>
      refine ⟨_, !malloc.fails, by simp [body, exec_readFileProgram, text]; rfl, ⟨_, rfl, ?_⟩,
        by simp [KeepsMutex]⟩
      obtain ⟨fails, garbage⟩ := malloc
      cases fails with
      | true => simp [readFile, Malloc.block]
      | false => simpa using plainStdio_answers file.contents garbage

theorem atomic_request (moved : plainFile.Atomic file (request, ret) next) :
    file.mutex = false ∧ request.Returns file.contents ret ∧
      next.contents = file.contents ++ request.text ∧ (next.mutex = true ↔ request.KeepsMutex) := by
  obtain ⟨ret', gives', executed, returns, keeps⟩ :=
    request.exec_body (plainFile.setHeld true file)
  cases moved with
  | refused refusal => cases refusal
  | ran _ free ran =>
      cases executed.symm.trans ran
      refine ⟨free, returns, ?_, ?_⟩
      · cases gives' <;> rfl
      · rw [← keeps]
        cases gives' <;> simp [Guarded.leave, plainFile]

end Requests

section Interleavings

variable {Thread : Type} [DecidableEq Thread]
  {pool next : Pool PlainFile FileRequest (Option ReadResult) Thread}
  {labels : List (Thread × Option (Moment FileRequest (Option ReadResult)))}

theorem run_contents {file last : PlainFile} {taken : List (FileRequest × Option ReadResult)}
    (run : Run plainFile.Atomic file taken last) :
    last.contents = file.contents ++ appendedTexts taken := by
  induction run with
  | refl => simp [appendedTexts]
  | cons moved _ ih =>
      obtain ⟨_, _, contents, _⟩ := atomic_request moved
      rw [ih, contents, List.append_assoc]
      rfl

theorem run_held {file last : PlainFile} {taken : List (FileRequest × Option ReadResult)}
    (run : Run plainFile.Atomic file taken last) (held : file.mutex = true) : taken = [] := by
  cases run with
  | refl => rfl
  | cons moved _ =>
      obtain ⟨free, _⟩ := atomic_request moved
      cases held.symm.trans free

theorem request_returns (idle : ∀ thread, pool.status thread = .idle)
    (run : Run plainFile.PoolStep pool labels next)
    {left right : List (FileRequest × Option ReadResult)} {request : FileRequest}
    {ret : Option ReadResult} (split : effects (moments labels) = left ++ (request, ret) :: right) :
    request.Returns (pool.shared.contents ++ appendedTexts left) ret ∧
      (request.KeepsMutex → right = []) := by
  obtain ⟨state, atomic, _⟩ := Guarded.serialises idle run
  rw [split] at atomic
  obtain ⟨middle, leading, trailing⟩ := atomic.split
  cases trailing with
  | cons moved rest =>
      obtain ⟨_, returns, _, keeps⟩ := atomic_request moved
      rw [← run_contents leading]
      exact ⟨returns, fun starved => run_held rest (keeps.mpr starved)⟩

/-- Whatever the interleaving of handlers and the timer, each request finds the
file as the requests before it have left it, whole; none takes effect after a read
without memory; and at rest the file holds all that was appended. -/
theorem plain_file_snapshots (idle : ∀ thread, pool.status thread = .idle)
    (run : Run plainFile.PoolStep pool labels next) :
    (∀ left request ret right, effects (moments labels) = left ++ (request, ret) :: right →
      request.Returns (pool.shared.contents ++ appendedTexts left) ret ∧
        (request.KeepsMutex → right = [])) ∧
    ((∀ thread, ¬(next.status thread).Inside) →
      next.shared.contents = pool.shared.contents ++ appendedTexts (effects (moments labels))) := by
  refine ⟨fun left request ret right split => request_returns idle run split, fun empty => ?_⟩
  obtain ⟨state, atomic, between⟩ := Guarded.serialises idle run
  cases between with
  | resting => exact run_contents atomic
  | inside here => exact absurd (by rw [here]; trivial) (empty _)

/-- A client's line in two chunks, and a timestamp while the first is being appended. -/
def lineAndTimestamp : List (Nat × Option FileRequest) :=
  [(0, some (.append [[97]])), (0, none), (1, some (.append [[116], [newline]])), (0, none),
    (0, none), (1, none), (0, none), (0, some (.append [[98, newline]])), (1, none), (1, none),
    (1, none), (0, none), (0, none), (0, none), (0, none),
    (0, some (.read ⟨false, fun _ => 0⟩ ⟨fun _ => 4, fun _ => by decide⟩)), (0, none), (0, none),
    (0, none), (0, none), (0, none), (0, none)]

def emptyFile : Pool PlainFile FileRequest (Option ReadResult) Nat :=
  ⟨⟨[], false⟩, fun _ => .idle⟩

theorem plain_file_snapshots_line_and_timestamp : ∃ labels last,
    plainFile.schedule emptyFile lineAndTimestamp = some (labels, last) ∧
      (effects (moments labels)).length = 4 ∧
    (∀ left request ret right, effects (moments labels) = left ++ (request, ret) :: right →
      request.Returns ([] ++ appendedTexts left) ret ∧ (request.KeepsMutex → right = [])) ∧
    ((∀ thread, ¬(last.status thread).Inside) →
      last.shared.contents = [] ++ appendedTexts (effects (moments labels))) := by
  obtain ⟨labels, last, scheduled, taken⟩ : ∃ labels last,
      plainFile.schedule emptyFile lineAndTimestamp = some (labels, last) ∧
        (effects (moments labels)).length = 4 := ⟨_, _, rfl, rfl⟩
  exact ⟨labels, last, scheduled, taken,
    plain_file_snapshots (fun _ => rfl) (Guarded.schedule_run scheduled)⟩

/-- What a handler asks for: the appends of its receive loop, then the file. -/
def handlerRequests (appends : List (List (List UInt8))) (malloc : Malloc) (sizes : ReadSizes) :
    List FileRequest :=
  appends.map .append ++ [.read malloc sizes]

theorem handlerRequests_front {appends : List (List (List UInt8))} {malloc : Malloc}
    {sizes : ReadSizes} {left right : List FileRequest} {mallocBefore : Malloc}
    {sizesBefore : ReadSizes}
    (split : left ++ .read mallocBefore sizesBefore :: right =
      handlerRequests appends malloc sizes) :
    left = appends.map .append ∧ mallocBefore = malloc := by
  induction appends generalizing left with
  | nil =>
      cases left with
      | nil =>
          cases split
          exact ⟨rfl, rfl⟩
      | cons request left => simp [handlerRequests] at split
  | cons pieces appends ih =>
      cases left with
      | nil => cases split
      | cons request left =>
          obtain ⟨same, later⟩ := List.cons.inj split
          obtain ⟨front, malloc⟩ := ih later
          exact ⟨by rw [same, front, List.map_cons], malloc⟩

/-- A response is the file at one moment. The client's own appends, which make up its
line, are among the requests served by then, in order, each with its text in one
piece; between them there may be those of others. -/
theorem response_holds_own_line (idle : ∀ thread, pool.status thread = .idle)
    (run : Run plainFile.PoolStep pool labels next) (client : Thread) {result : ReadResult}
    (responded : (client, .respond (some result)) ∈ moments labels)
    {appends : List (List (List UInt8))} {malloc : Malloc} {sizes : ReadSizes}
    (requests : (ofThread client (moments labels)).filterMap Moment.call? =
      handlerRequests appends malloc sizes) (works : malloc.fails = false)
    {locals looped : HandlerLocals} {through : Bool} {chunks : List (List UInt8)}
    (unfound : locals.foundIoctlCmd = false) (plain : Plain (lineOf chunks.flatten))
    (loop : receiveLoop locals (chunks.map .served) =
      some ⟨looped, appends.map List.flatten, through⟩) :
    ∃ earlier, earlier <+: effects (moments labels) ∧
      result.Answers (pool.shared.contents ++ appendedTexts earlier) ∧
      (appends.map FileRequest.append).Sublist (earlier.map Prod.fst) ∧
      (appends.map List.flatten).flatten = lineOf chunks.flatten ∧
      (lineOf chunks.flatten).Sublist (appendedTexts earlier) := by
  obtain ⟨before, after, split⟩ := List.append_of_mem responded
  have whole : ofThread client (moments labels) =
      ofThread client before ++ .respond (some result) :: ofThread client after := by
    rw [split, ofThread_append]
    simp [ofThread]
  have follows := Guarded.follows idle run client
  rw [whole] at follows
  obtain ⟨own, request, answered⟩ := Moment.Follows.answered follows
  obtain ⟨seen, rest, taken, ownSeen⟩ := ofThread_split answered
  have all : effects (moments labels) = effects seen ++ (request, some result) ::
      effects (rest ++ (client, .respond (some result)) :: after) := by
    rw [split, taken, List.append_assoc, effects_append]
    rfl
  obtain ⟨returns, _⟩ := request_returns idle run all
  cases request with
  | append pieces => cases returns
  | read mallocBefore sizesBefore =>
      rw [answered, List.append_assoc] at follows whole
      obtain ⟨phase, leading, trailing⟩ := follows.split
      have calls := Moment.Follows.calls leading
      cases trailing with
      | cons taking _ =>
          cases taking
          rw [whole, List.filterMap_append, calls, List.append_assoc] at requests
          obtain ⟨appended, rfl⟩ := handlerRequests_front requests
          obtain ⟨texts, plainLoop, line⟩ := receiveLoop_plain unfound chunks plain
          cases loop.symm.trans plainLoop
          obtain ⟨answer, same, answers⟩ := returns
          cases same
          rw [works] at answers
          have served := (ofThread_effects client seen).map Prod.fst
          rw [ownSeen, appended] at served
          refine ⟨effects seen, ⟨_, all.symm⟩, answers, served, line, ?_⟩
          have texts := (served.map FileRequest.text).flatten
          rw [List.map_map, List.map_map] at texts
          rw [← line]
          exact texts

theorem response_holds_own_line_line_and_timestamp : ∃ labels last,
    plainFile.schedule emptyFile lineAndTimestamp = some (labels, last) ∧
      ∃ (result : ReadResult) (earlier : _), earlier <+: effects (moments labels) ∧
        result.Answers ([] ++ appendedTexts earlier) ∧
        ([.append [[97]], .append [[98, newline]]] : List FileRequest).Sublist
          (earlier.map Prod.fst) ∧
        [97, 98, newline] = lineOf [97, 98, newline, 99] ∧
        (lineOf [97, 98, newline, 99]).Sublist (appendedTexts earlier) := by
  obtain ⟨labels, last, result, scheduled, responded, requests⟩ : ∃ labels last result,
      plainFile.schedule emptyFile lineAndTimestamp = some (labels, last) ∧
        (moments labels)[10]? = some (0, .respond (some result)) ∧
        (ofThread 0 (moments labels)).filterMap Moment.call? =
          handlerRequests [[[97]], [[98, newline]]] ⟨false, fun _ => 0⟩
            ⟨fun _ => 4, fun _ => by decide⟩ := ⟨_, _, _, rfl, rfl, rfl⟩
  have plain : Plain (lineOf [[97], [98, newline, 99]].flatten) := ⟨by decide, by decide⟩
  have unfound : (HandlerLocals.start 0 0).foundIoctlCmd = false := rfl
  exact ⟨labels, last, scheduled, result,
    response_holds_own_line (fun _ => rfl) (Guarded.schedule_run scheduled) 0
      (List.mem_of_getElem? responded) requests rfl unfound plain rfl⟩

end Interleavings

end Aesd.Server
