import Aesd.Driver.LockDiscipline

/-!
# Reads against concurrent writes

A position counts from the oldest live command, so each eviction shifts what it
denotes. In terms of everything ever completed, a read at a position starts
behind all evicted bytes, and two successive reads of one descriptor are apart
by exactly what was evicted between them.
-/

set_option autoImplicit false

namespace Aesd.Driver

open Transition

def completedBytes (log : RecordLog UInt8) : List UInt8 := log.completed.flatten

def evictedBytes (log : RecordLog UInt8) : List UInt8 := (log.evicted 10).flatten

theorem completedBytes_eq (log : RecordLog UInt8) :
    completedBytes log = evictedBytes log ++ liveContents log := by
  rw [completedBytes, evictedBytes, liveContents, ← List.flatten_append,
    log.evicted_append_retained]

/-- Where a position falls in the concatenation of all completed commands. -/
def streamOffset (log : RecordLog UInt8) (position : Nat) : Nat :=
  (evictedBytes log).length + position

theorem readAt_completedBytes (log : RecordLog UInt8) (position count : Nat) :
    readAt log position count = ((completedBytes log).drop (streamOffset log position)).take
      (readAt log position count).length := by
  rw [completedBytes_eq, streamOffset, List.drop_append, List.drop_eq_nil_of_le (by omega),
    List.nil_append, Nat.add_sub_cancel_left]
  exact readAt_eq_take_drop log position count

/-- The calls that interleave: reads, and writes of non-empty buffers with zero padding. -/
def Operation.ReadsOrWrites : Operation → Prop
  | .read _ _ => True
  | .write _ call => call.data ≠ [] ∧ call.ZeroFills
  | _ => False

theorem Operation.ReadsOrWrites.zeroFills {operation : Operation}
    (plain : operation.ReadsOrWrites) : operation.ZeroFills := by
  cases operation with
  | read file call => trivial
  | write file call => exact plain.2
  | llseek file call => exact plain.elim
  | ioctl file call => exact plain.elim

theorem Operation.ReadsOrWrites.notRejected {operation : Operation}
    (plain : operation.ReadsOrWrites) : ¬operation.RejectedSeek := by
  cases operation with
  | ioctl file call => exact plain.elim
  | read file call | write file call | llseek file call => exact id

section Positions

variable {fixedSizeLlseek : FixedSizeLlseek} {system next : System} {event : Event}

theorem Step.moves (moved : Step fixedSizeLlseek system event next)
    (represents : ∃ log, Represents system.kernel log) (plain : event.operation.ReadsOrWrites) :
    next.fPos = Function.update system.fPos event.operation.file
      (system.fPos event.operation.file + max event.retval 0) := by
  obtain ⟨log, represents⟩ := represents
  obtain ⟨position, kernel, returned, rfl⟩ := moved
  rcases event with ⟨operation, retval, delivered⟩
  apply congrArg (Function.update _ _)
  cases operation with
  | read file call =>
      rcases (aesdRead_returned returned).2 with ⟨negative, same⟩ | ⟨nonnegative, moved⟩
      · rw [same, max_eq_right (Int.le_of_lt negative), Int.add_zero]
        rfl
      · rw [moved, max_eq_left nonnegative]
        rfl
  | write file call =>
      rcases aesdWrite_returned represents returned with ⟨negative, same, _⟩ | ⟨count, moved, _⟩
      · rw [same, max_eq_right (Int.le_of_lt negative), Int.add_zero]
        rfl
      · rw [moved, max_eq_left (by omega), count]
        rfl
  | llseek file call => exact plain.elim
  | ioctl file call => exact plain.elim

theorem run_positions_nonnegative {first last : System} {events : List Event}
    (run : Run (Step fixedSizeLlseek) first events last)
    (plain : ∀ event ∈ events, event.operation.ReadsOrWrites)
    (represents : ∃ log, Represents first.kernel log) (start : ∀ file, 0 ≤ first.fPos file) :
    ∀ file, 0 ≤ last.fPos file := by
  refine (run.invariant (fun event => event.operation.ReadsOrWrites)
    (fun system => (∃ log, Represents system.kernel log) ∧ ∀ file, 0 ≤ system.fPos file)
    ?_ plain ⟨represents, start⟩).2
  rintro system event next plain ⟨represents, nonnegative⟩ moved
  refine ⟨run_represents (.single moved) represents, fun file => ?_⟩
  rw [moved.moves represents plain]
  by_cases own : file = event.operation.file
  · subst own
    rw [Function.update_self]
    have before := nonnegative event.operation.file
    omega
  · rw [Function.update_of_ne own]
    exact nonnegative file

theorem run_position_unmoved {first last : System} {events : List Event} {file : Nat}
    (run : Run (Step fixedSizeLlseek) first events last)
    (plain : ∀ event ∈ events, event.operation.ReadsOrWrites)
    (idle : ∀ event ∈ events, event.operation.file = file → event.retval ≤ 0)
    (represents : ∃ log, Represents first.kernel log) : last.fPos file = first.fPos file := by
  refine (run.invariant
    (fun event => event.operation.ReadsOrWrites ∧
      (event.operation.file = file → event.retval ≤ 0))
    (fun system => (∃ log, Represents system.kernel log) ∧
      system.fPos file = first.fPos file)
    ?_ (fun event member => ⟨plain event member, idle event member⟩) ⟨represents, rfl⟩).2
  rintro system event next ⟨plain, idle⟩ ⟨represents, same⟩ moved
  refine ⟨run_represents (.single moved) represents, ?_⟩
  rw [moved.moves represents plain, ← same]
  by_cases own : event.operation.file = file
  · subst own
    rw [Function.update_self, max_eq_right (idle rfl), Int.add_zero]
  · rw [Function.update_of_ne (Ne.symm own)]

end Positions

def liveTotal (kernel : Kernel) : Nat :=
  (kernel.device.circularBuffer.liveEntries.map AesdBufferEntry.size).sum

theorem Represents.liveTotal_eq {kernel : Kernel} {log : RecordLog UInt8}
    (represents : Represents kernel log) : liveTotal kernel = (liveContents log).length := by
  rw [liveTotal, represents.ring_sizes, liveContents, List.length_flatten]

/-- What a successful read of a count at a position answers, in terms of
everything ever completed. -/
structure ReadsCompleted (log : RecordLog UInt8) (fPos : Int) (count : Nat) (retval position : Int)
    (delivered : List UInt8) : Prop where
  counted : retval = delivered.length
  bytes : delivered =
    ((completedBytes log).drop (streamOffset log fPos.toNat)).take delivered.length
  bounded : delivered.length ≤ count
  inside : fPos ≤ (liveContents log).length →
    streamOffset log fPos.toNat + delivered.length ≤
      (evictedBytes log).length + (liveContents log).length
  empty : retval = 0 ↔ count = 0 ∨ (liveContents log).length ≤ fPos
  moved : position = fPos + retval

theorem aesdRead_readsCompleted {kernel after : Kernel} {log : RecordLog UInt8}
    (represents : Represents kernel log) (readable : Readable log) {fPos retval position : Int}
    (nonnegative : 0 ≤ fPos) {call : ReadCall} {delivered : List UInt8}
    (returned : aesdRead kernel fPos call = .returned retval position after delivered)
    (succeeded : 0 ≤ retval) :
    ReadsCompleted log fPos call.count retval position delivered := by
  obtain ⟨rfl, counted, moved, _⟩ := aesdRead_succeeds represents readable nonnegative returned
    succeeded
  refine ⟨counted, readAt_completedBytes _ _ _, readAt_length_le _ _ _, ?_, ?_, moved⟩
  · intro within
    have fits := readAt_end_le log fPos.toNat call.count (by omega)
    rw [streamOffset]
    omega
  · have nothing := readAt_eq_nil_iff log fPos.toNat call.count
    rw [← List.length_eq_zero_iff] at nothing
    omega

section Growth

theorem commandLog_completed_grows (earlier later : List Event) :
    (commandLog earlier).completed <+: (commandLog (earlier ++ later)).completed := by
  rw [commandLog, commandLog, List.foldl_append]
  generalize earlier.foldl logNext .empty = log
  induction later generalizing log with
  | nil => exact List.prefix_rfl
  | cons event later ih => exact (log.completed_prefix_append _ _).trans (ih _)

/-- No command is empty, so an eviction always takes bytes away. -/
theorem evicted_flatten_eq_nil {events : List Event} {evicted : List (List UInt8)}
    (members : evicted ⊆ (commandLog events).completed) :
    evicted.flatten = [] ↔ evicted = [] := by
  constructor
  · intro nothing
    cases evicted with
    | nil => rfl
    | cons command rest =>
        have empty : command = [] := (List.append_eq_nil_iff.mp nothing).1
        subst empty
        exact absurd (commandLog_ends events [] (members List.mem_cons_self)) (by simp)
  · rintro rfl
    rfl

end Growth

section Runs

variable {fixedSizeLlseek : FixedSizeLlseek} {first system : System} {events : List Event}

/-- What a run of reads and writes establishes: the log, a free lock and positions from 0. -/
theorem run_readable (loaded : Loaded first) (run : Run (Step fixedSizeLlseek) first events system)
    (plain : ∀ event ∈ events, event.operation.ReadsOrWrites) :
    Represents system.kernel (commandLog events) ∧ system.kernel.device.lock = false ∧
      (∀ file, 0 ≤ system.fPos file) ∧
      (liveTotal system.kernel < 2 ^ 31 → Readable (commandLog events)) := by
  have represents := run_represents_commandLog run loaded
    fun event member => (plain event member).zeroFills
  refine ⟨represents, ?_, ?_, ?_⟩
  · exact run_releases run (fun event member => (plain event member).notRejected)
      loaded.represents.2
  · exact run_positions_nonnegative run plain ⟨_, loaded.represents.1⟩
      fun file => Int.le_of_eq (loaded.2 file).symm
  · intro fits
    rw [represents.liveTotal_eq] at fits
    exact commandLog_readable fits

structure SuccessiveReads (fixedSizeLlseek : FixedSizeLlseek) (first : System) (file : Nat)
    (earlier between : List Event) (former latter : Event) (before after : System) : Prop where
  leading : Run (Step fixedSizeLlseek) first earlier before
  formerRead : ∃ call, former.operation = .read file call
  continued : ∃ next, Step fixedSizeLlseek before former next ∧
    Run (Step fixedSizeLlseek) next between after
  latterRead : ∃ call, latter.operation = .read file call
  ended : ∃ last, Step fixedSizeLlseek after latter last
  nonempty : 0 < former.retval ∧ 0 < latter.retval
  /-- In between, the descriptor is not moved; any writes come from others. -/
  idle : ∀ event ∈ between, event.operation.file = file →
    (∃ call, event.operation = .read file call) ∧ event.retval ≤ 0
  plain : ∀ event ∈ earlier ++ between, event.operation.ReadsOrWrites
  fits : liveTotal before.kernel < 2 ^ 31 ∧ liveTotal after.kernel < 2 ^ 31

theorem Step.readsCompleted {next : System} {event : Event} {file : Nat} {log : RecordLog UInt8}
    (moved : Step fixedSizeLlseek system event next)
    (read : ∃ call, event.operation = .read file call) (represents : Represents system.kernel log)
    (readable : Readable log) (nonnegative : 0 ≤ system.fPos file) (succeeded : 0 ≤ event.retval) :
    ∃ count, ReadsCompleted log (system.fPos file) count event.retval (next.fPos file)
      event.delivered := by
  obtain ⟨call, read⟩ := read
  obtain ⟨position, kernel, returned, rfl⟩ := moved
  rcases event with ⟨operation, retval, delivered⟩
  cases read
  refine ⟨call.count, ?_⟩
  have answer := aesdRead_readsCompleted represents readable nonnegative returned succeeded
  simpa [Operation.file] using answer

private theorem take_drop_of_grows {left right : List UInt8} (grows : left <+: right)
    {start count : Nat} (inside : start + count ≤ left.length) :
    (right.drop start).take count = (left.drop start).take count := by
  obtain ⟨added, rfl⟩ := grows
  rw [List.drop_append_of_le_length (by omega),
    List.take_append_of_le_length (by rw [List.length_drop]; omega)]

private theorem completedBytes_grows (earlier later : List Event) :
    completedBytes (commandLog earlier) <+: completedBytes (commandLog (earlier ++ later)) := by
  obtain ⟨added, same⟩ := commandLog_completed_grows earlier later
  exact ⟨added.flatten, by rw [completedBytes, completedBytes, ← same, List.flatten_append]⟩

private theorem SuccessiveReads.all_plain {file : Nat} {earlier between : List Event}
    {former latter : Event} {before after : System}
    (reads : SuccessiveReads fixedSizeLlseek first file earlier between former latter before after) :
    ∀ event ∈ earlier ++ former :: between, event.operation.ReadsOrWrites := by
  intro event member
  rcases List.mem_append.mp member with inEarlier | rest
  · exact reads.plain event (List.mem_append_left _ inEarlier)
  · rcases List.mem_cons.mp rest with rfl | inBetween
    · obtain ⟨call, read⟩ := reads.formerRead
      rw [read]
      trivial
    · exact reads.plain event (List.mem_append_right _ inBetween)

/-- Two successive reads take stretches of the stream that are apart by exactly
the bytes of the commands evicted between them. -/
theorem SuccessiveReads.apart {file : Nat} {earlier between : List Event} {former latter : Event}
    {before after : System} (loaded : Loaded first)
    (reads : SuccessiveReads fixedSizeLlseek first file earlier between former latter before after) :
    ∃ evicted, (commandLog (earlier ++ former :: between)).evicted 10 =
        (commandLog earlier).evicted 10 ++ evicted ∧
      let start := streamOffset (commandLog earlier) (before.fPos file).toNat
      let resumed := streamOffset (commandLog (earlier ++ former :: between))
        (after.fPos file).toNat
      let stream := completedBytes (commandLog (earlier ++ former :: between))
      former.delivered = (stream.drop start).take former.delivered.length ∧
      latter.delivered = (stream.drop resumed).take latter.delivered.length ∧
      resumed = start + former.delivered.length + evicted.flatten.length ∧
      (resumed = start + former.delivered.length ↔ evicted = []) := by
  obtain ⟨next, moved, continued⟩ := reads.continued
  obtain ⟨last, ended⟩ := reads.ended
  have plain := reads.all_plain
  obtain ⟨represents, _, nonnegative, readable⟩ := run_readable loaded reads.leading
    fun event member => plain event (List.mem_append_left _ member)
  obtain ⟨laterRepresents, _, laterNonnegative, laterReadable⟩ := run_readable loaded
    (reads.leading.append (.cons moved continued)) plain
  obtain ⟨_, one⟩ := moved.readsCompleted reads.formerRead represents (readable reads.fits.1)
    (nonnegative file) (Int.le_of_lt reads.nonempty.1)
  obtain ⟨_, two⟩ := ended.readsCompleted reads.latterRead laterRepresents
    (laterReadable reads.fits.2) (laterNonnegative file) (Int.le_of_lt reads.nonempty.2)
  have unmoved : after.fPos file = next.fPos file :=
    run_position_unmoved continued
      (fun event member => plain event (List.mem_append_right _ (List.mem_cons_of_mem _ member)))
      (fun event member own => (reads.idle event member own).2)
      (run_represents (.single moved) ⟨_, represents⟩)
  obtain ⟨evicted, grown⟩ := RecordLog.evicted_prefix 10
    (commandLog_completed_grows earlier (former :: between))
  have within : before.fPos file ≤ (liveContents (commandLog earlier)).length := by
    have notEmpty := mt one.empty.mpr (Int.ne_of_gt reads.nonempty.1)
    omega
  have inside := one.inside within
  rw [← List.length_append, ← completedBytes_eq] at inside
  have stream := completedBytes_grows earlier (former :: between)
  have apart : streamOffset (commandLog (earlier ++ former :: between)) (after.fPos file).toNat =
      streamOffset (commandLog earlier) (before.fPos file).toNat + former.delivered.length +
        evicted.flatten.length := by
    have start := nonnegative file
    have position := one.moved
    have count := one.counted
    rw [streamOffset, streamOffset, evictedBytes, evictedBytes, ← grown, List.flatten_append,
      List.length_append]
    omega
  refine ⟨evicted, grown.symm, ?_, two.bytes, apart, ?_⟩
  · rw [take_drop_of_grows stream inside]
    exact one.bytes
  · have members : evicted ⊆ (commandLog (earlier ++ former :: between)).completed := by
      intro command member
      have inEvicted : command ∈ (commandLog (earlier ++ former :: between)).evicted 10 :=
        grown ▸ List.mem_append_right _ member
      exact List.take_subset _ _ inEvicted
    rw [← evicted_flatten_eq_nil members, ← List.length_eq_zero_iff]
    omega

/-- In every run of reads and writes, a successful read answers a stretch of all
that was ever completed, starting behind the evicted bytes; successive non-empty
reads of one descriptor skip exactly the bytes evicted between them. -/
theorem reads_against_writes (fixedSizeLlseek : FixedSizeLlseek) (loaded : Loaded first) :
    (∀ events system, Run (Step fixedSizeLlseek) first events system →
      (∀ event ∈ events, event.operation.ReadsOrWrites) → liveTotal system.kernel < 2 ^ 31 →
      (commandLog events).completed = (commandLog events).evicted 10 ++ system.kernel.ringBytes ∧
      liveTotal system.kernel = (liveContents (commandLog events)).length ∧
      ∀ fPos call, 0 ≤ fPos →
        (call.interrupted = false → call.notCopied = 0 → ∃ retval position after delivered,
          aesdRead system.kernel fPos call = .returned retval position after delivered ∧
            0 ≤ retval) ∧
        ∀ retval position after delivered,
          aesdRead system.kernel fPos call = .returned retval position after delivered →
          0 ≤ retval →
          ReadsCompleted (commandLog events) fPos call.count retval position delivered) ∧
    ∀ file earlier between former latter before after,
      SuccessiveReads fixedSizeLlseek first file earlier between former latter before after →
      ∃ evicted, (commandLog (earlier ++ former :: between)).evicted 10 =
          (commandLog earlier).evicted 10 ++ evicted ∧
        let start := streamOffset (commandLog earlier) (before.fPos file).toNat
        let resumed := streamOffset (commandLog (earlier ++ former :: between))
          (after.fPos file).toNat
        let stream := completedBytes (commandLog (earlier ++ former :: between))
        former.delivered = (stream.drop start).take former.delivered.length ∧
        latter.delivered = (stream.drop resumed).take latter.delivered.length ∧
        resumed = start + former.delivered.length + evicted.flatten.length ∧
        (resumed = start + former.delivered.length ↔ evicted = []) := by
  refine ⟨?_, fun file earlier between former latter before after reads => reads.apart loaded⟩
  intro events system run plain fits
  obtain ⟨represents, free, _, readable⟩ := run_readable loaded run plain
  refine ⟨?_, represents.liveTotal_eq, fun fPos call nonnegative => ⟨?_, ?_⟩⟩
  · rw [represents.ringBytes_eq, RecordLog.evicted_append_retained]
  · intro uninterrupted copied
    have answer := aesdRead_eq represents free (readable fits) nonnegative uninterrupted
    simp only [copied, Nat.zero_min, lt_self_iff_false, ↓reduceIte] at answer
    exact ⟨_, _, _, _, answer, Int.natCast_nonneg _⟩
  · intro retval position after delivered returned succeeded
    exact aesdRead_readsCompleted represents (readable fits) nonnegative returned succeeded

end Runs

def lineWrite (number : Nat) : Operation :=
  .write 0 (.whole [UInt8.ofNat number, newline] (some number) none)

def lineEvents (lines : Nat) : List Event :=
  (List.range lines).map fun number => ⟨lineWrite number, 2, []⟩

def linesWritten : Nat → System
  | 0 => loadedSystem
  | number + 1 => (linesWritten number).after vfsFixedSizeLlseek (lineWrite number)

theorem linesWritten_run :
    Run (Step vfsFixedSizeLlseek) loadedSystem (lineEvents 10) (linesWritten 10) :=
  .cons (System.after_step rfl) <| .cons (System.after_step rfl) <|
  .cons (System.after_step rfl) <| .cons (System.after_step rfl) <|
  .cons (System.after_step rfl) <| .cons (System.after_step rfl) <|
  .cons (System.after_step rfl) <| .cons (System.after_step rfl) <|
  .cons (System.after_step rfl) <| .cons (System.after_step rfl) .refl

theorem lineWrite_readsOrWrites (number : Nat) : (lineWrite number).ReadsOrWrites :=
  ⟨List.cons_ne_nil _ _, WriteCall.zeroFills_whole _ _ _⟩

def readOne : Operation := .read 1 ⟨1, false, 0⟩

def firstRead : System := (linesWritten 10).after vfsFixedSizeLlseek readOne

def firstEvicted : System := firstRead.after vfsFixedSizeLlseek (lineWrite 10)

/-- The first byte of a full ring is read; then an eleventh line evicts the first one. -/
theorem successiveReads_eviction :
    SuccessiveReads vfsFixedSizeLlseek loadedSystem 1 (lineEvents 10) [⟨lineWrite 10, 2, []⟩]
      ⟨readOne, 1, [0]⟩ ⟨readOne, 1, [newline]⟩ (linesWritten 10) firstEvicted where
  leading := linesWritten_run
  formerRead := ⟨_, rfl⟩
  continued := ⟨firstRead, System.after_step rfl, .single (System.after_step rfl)⟩
  latterRead := ⟨_, rfl⟩
  ended := ⟨_, System.after_step rfl⟩
  nonempty := ⟨by decide, by decide⟩
  idle := by simp [lineWrite, Operation.file]
  plain := by
    intro event member
    rcases List.mem_append.mp member with early | last
    · obtain ⟨number, _, rfl⟩ := List.mem_map.mp early
      exact lineWrite_readsOrWrites number
    · cases List.mem_singleton.mp last
      exact lineWrite_readsOrWrites 10
  fits := ⟨by decide +kernel, by decide +kernel⟩

/-- The second read goes on two bytes further in the stream than the first one ended. -/
theorem reads_against_writes_eviction :
    ReadsCompleted (commandLog (lineEvents 10)) 0 1 1 1 [0] ∧
    ∃ evicted, evicted = [[0, newline]] ∧
      streamOffset (commandLog (lineEvents 10 ++ [⟨readOne, 1, [0]⟩, ⟨lineWrite 10, 2, []⟩]))
          (firstEvicted.fPos 1).toNat =
        streamOffset (commandLog (lineEvents 10)) ((linesWritten 10).fPos 1).toNat + 1 +
          evicted.flatten.length := by
  have reads := successiveReads_eviction
  obtain ⟨answers, apart⟩ := reads_against_writes vfsFixedSizeLlseek loadedSystem_loaded
  have first := (answers _ _ linesWritten_run
    (fun event member => reads.plain event (List.mem_append_left _ member)) reads.fits.1).2.2 0
    ⟨1, false, 0⟩ (by decide)
  obtain ⟨evicted, grown, _, _, resumed, _⟩ := apart _ _ _ _ _ _ _ reads
  have one : (commandLog (lineEvents 10 ++ [⟨readOne, 1, [0]⟩, ⟨lineWrite 10, 2, []⟩])).evicted 10 =
      [[0, newline]] := by decide +kernel
  have none : (commandLog (lineEvents 10)).evicted 10 = [] := by decide +kernel
  rw [none, List.nil_append] at grown
  exact ⟨first.2 1 1 _ [0] rfl (by decide), evicted, grown.symm.trans one, resumed⟩

/-- A descriptor that has written stands past the end of an empty ring: its read
returns nothing, at a position beyond the live total. -/
theorem read_behind_own_write :
    let write := Operation.write 0 (.whole [97] (some 1) none)
    let system := loadedSystem.after vfsFixedSizeLlseek write
    Loaded loadedSystem ∧ Run (Step vfsFixedSizeLlseek) loadedSystem [⟨write, 1, []⟩] system ∧
    write.ReadsOrWrites ∧ system.fPos 0 = 1 ∧ liveTotal system.kernel = 0 ∧
    ∃ after, operate vfsFixedSizeLlseek system (.read 0 ⟨1, false, 0⟩) = .returned 0 1 after [] ∧
      ¬((evictedBytes (commandLog [⟨write, 1, []⟩])).length + system.fPos 0 + 0 ≤
        (evictedBytes (commandLog [⟨write, 1, []⟩])).length + liveTotal system.kernel) := by
  refine ⟨loadedSystem_loaded, .single ⟨_, _, rfl, rfl⟩, ?_, rfl, by decide +kernel, _, rfl,
    by decide +kernel⟩
  simp [Operation.ReadsOrWrites, WriteCall.whole, WriteCall.ZeroFills]

end Aesd.Driver
