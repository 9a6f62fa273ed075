import Aesd.Driver.LimitedSizes
import Aesd.Driver.ReadLoop
import Aesd.Driver.SeekEnd
import Aesd.Driver.WholeWrites
import Aesd.Server.ReadFunctions

/-!
# The two read paths on the device

`read_file` sizes its block from the seek to the end and returns all of it.
`read_char_device` reads into a block of fixed size, so the two agree exactly on
contents that fit this block.
-/

set_option autoImplicit false

namespace Aesd.Server

open Driver Transition

/-- The result is a block that starts with these bytes, reported with their number. -/
def ReadResult.Answers (result : ReadResult) (bytes : List UInt8) : Prop :=
  ∃ block, result.contents = some block ∧ result.fsize = some bytes.length ∧
    block.take bytes.length = bytes

/-- `lseek` to the end gives the size it was told, to the start gives 0. -/
structure SeeksEnds (fixedSizeLlseek : FixedSizeLlseek) : Prop where
  toEnd : ∀ position size, 0 ≤ size → fixedSizeLlseek position 0 seekEnd size = (size, size)
  toStart : ∀ position size, 0 ≤ size → fixedSizeLlseek position 0 seekSet size = (0, 0)

theorem ReadResult.Answers.unique {result : ReadResult} {one other : List UInt8}
    (answers : result.Answers one) (answersOther : result.Answers other) : one = other := by
  obtain ⟨block, contents, fsize, taken⟩ := answers
  obtain ⟨_, contentsOther, fsizeOther, takenOther⟩ := answersOther
  cases contents.symm.trans contentsOther
  have length := Option.some.inj (fsize.symm.trans fsizeOther)
  rw [← taken, ← takenOther, length]

theorem take_fillFront_set (block bytes : List UInt8) (last : UInt8) :
    ((fillFront block bytes).set bytes.length last).take bytes.length = bytes := by
  rw [List.take_set_of_le (Nat.le_refl _)]
  exact List.take_left

@[simp] theorem charDeviceFile_unfound {File : Type} (stdio : Stdio File)
    (writeCmd writeCmdOffset : BitVec 32) :
    charDeviceFile stdio false writeCmd writeCmdOffset = stdio.fopen := rfl

theorem readCharDevice_answers {File : Type} (stdio : Stdio File) (garbage : Nat → UInt8)
    (foundCmd : Bool) (writeCmd writeCmdOffset : BitVec 32) :
    (readCharDevice stdio ⟨false, garbage⟩ foundCmd writeCmd writeCmdOffset).value.Answers
      (stdio.fread (charDeviceFile stdio foundCmd writeCmd writeCmdOffset) bufferSize) := by
  refine ⟨_, rfl, rfl, ?_⟩
  simp only [Traced.value_store, List.set_set]
  exact take_fillFront_set _ _ _

theorem readFile_answers {File : Type} (stdio : Stdio File) (garbage : Nat → UInt8)
    {bytes : List UInt8}
    (size : stdio.ftell (stdio.fseek stdio.fopen 0 seekEnd) = bytes.length)
    (delivered : stdio.fread (stdio.fseek (stdio.fseek stdio.fopen 0 seekEnd) 0 seekSet)
      bytes.length = bytes) :
    (readFile stdio ⟨false, garbage⟩).value.Answers bytes := by
  simp only [readFile, Malloc.block, Bool.false_eq_true, ↓reduceIte, size, delivered]
  exact ⟨_, rfl, rfl, take_fillFront_set _ _ _⟩

section Device

variable {fixedSizeLlseek : FixedSizeLlseek} {kernel : Kernel} {log : RecordLog UInt8}
  {counts : Nat → Nat}

/-- Each round either ends the reading or brings at least one byte closer. -/
theorem freadLoop_eq (represents : Represents kernel log) (free : kernel.device.lock = false)
    (readable : Readable log) (positive : ∀ call, 0 < counts call) (requested : Nat)
    (remaining call position : Nat) (got : List UInt8)
    (enough : requested ≤ remaining + got.length) :
    freadLoop counts requested remaining call ⟨kernel, position⟩ got =
      (got ++ (liveContents log).drop position).take requested := by
  induction remaining generalizing call position got with
  | zero =>
      rw [freadLoop, List.take_append_of_le_length (by omega)]
  | succ remaining ih =>
      rw [freadLoop]
      by_cases complete : requested ≤ got.length
      · rw [if_pos complete, List.take_append_of_le_length complete]
      · have split := readAt_append_drop log position (counts call)
        have empty := readAt_eq_nil_iff log position (counts call)
        simp only [if_neg complete, aesdRead_whole represents free readable position (counts call)]
        by_cases more : (0 : Int) < (readAt log position (counts call)).length
        · rw [if_pos more, ih _ _ _ (by rw [List.length_append]; omega), List.append_assoc, split]
        · have nothing : readAt log position (counts call) = [] :=
            List.eq_nil_of_length_eq_zero (by omega)
          have past := (empty.mp nothing).resolve_left (Nat.ne_of_gt (positive call))
          rw [if_neg more, List.drop_eq_nil_of_le past, List.append_nil,
            List.take_of_length_le (by omega)]

theorem fread_eq (represents : Represents kernel log) (free : kernel.device.lock = false)
    (readable : Readable log) (positive : ∀ call, 0 < counts call) (stack : AesdSeekto)
    (requested : Nat) :
    (deviceStdio fixedSizeLlseek kernel stack counts).fread ⟨kernel, 0⟩ requested =
      (liveContents log).take requested :=
  freadLoop_eq represents free readable positive requested requested 0 0 [] (Nat.le_add_right _ _)

@[simp] theorem deviceStdio_fopen (stack : AesdSeekto) :
    (deviceStdio fixedSizeLlseek kernel stack counts).fopen = ⟨kernel, 0⟩ := rfl

theorem fseek_eq (free : kernel.device.lock = false) (stack : AesdSeekto) (fPos off whence : Int) :
    (deviceStdio fixedSizeLlseek kernel stack counts).fseek ⟨kernel, fPos⟩ off whence =
      ⟨kernel, (fixedSizeLlseek fPos off whence
        (circBuffSize kernel.device.circularBuffer)).2⟩ := by
  simp only [deviceStdio, aesdLlseek, underLock_of_free free, DeviceFile.after,
    mutexUnlock_of_free free]

theorem readCharDevice_answers_iff (represents : Represents kernel log)
    (free : kernel.device.lock = false) (readable : Readable log)
    (positive : ∀ call, 0 < counts call) (stack : AesdSeekto) (garbage : Nat → UInt8)
    (writeCmd writeCmdOffset : BitVec 32) :
    (readCharDevice (deviceStdio fixedSizeLlseek kernel stack counts) ⟨false, garbage⟩ false
        writeCmd writeCmdOffset).value.Answers (liveContents log) ↔
      (liveContents log).length ≤ bufferSize := by
  have answers := readCharDevice_answers (deviceStdio fixedSizeLlseek kernel stack counts) garbage
    false writeCmd writeCmdOffset
  rw [charDeviceFile_unfound, deviceStdio_fopen,
    fread_eq represents free readable positive] at answers
  constructor
  · intro whole
    exact List.take_eq_self_iff _ |>.mp (answers.unique whole)
  · intro fits
    rwa [List.take_of_length_le fits] at answers

theorem readFile_answers_whole (represents : Represents kernel log)
    (free : kernel.device.lock = false) (readable : Readable log)
    (seeks : SeeksEnds fixedSizeLlseek) (positive : ∀ call, 0 < counts call) (stack : AesdSeekto)
    (garbage : Nat → UInt8) :
    (readFile (deviceStdio fixedSizeLlseek kernel stack counts) ⟨false, garbage⟩).value.Answers
      (liveContents log) := by
  have size := represents.circBuffSize_eq.trans (Holds.liveSizes_sum represents)
  have nonnegative := Int.natCast_nonneg (circBuffSize kernel.device.circularBuffer)
  have toEnd : (deviceStdio fixedSizeLlseek kernel stack counts).fseek
      (deviceStdio fixedSizeLlseek kernel stack counts).fopen 0 seekEnd =
        ⟨kernel, circBuffSize kernel.device.circularBuffer⟩ := by
    rw [deviceStdio_fopen, fseek_eq free, seeks.toEnd _ _ nonnegative]
  apply readFile_answers
  · rw [toEnd, ← size]
    rfl
  · rw [toEnd, fseek_eq free, seeks.toStart _ _ nonnegative,
      fread_eq represents free readable positive, List.take_length]

end Device

/-- On every content that the driver can hold, `read_char_device` without a seek
and `read_file` both return the live entries end to end, with their total size,
exactly when this size is at most `BUFFER_SIZE`. -/
theorem read_paths_agree_iff {fixedSizeLlseek : FixedSizeLlseek} {first last : System}
    {events : List Event} (loaded : Loaded first)
    (run : Run (Step fixedSizeLlseek) first events last)
    (zeroFills : ∀ event ∈ events, event.operation.ZeroFills)
    (limited : ∀ event ∈ events, event.operation.Limited kmallocMaxSize)
    (free : last.kernel.device.lock = false) (seeks : SeeksEnds fixedSizeLlseek)
    {counts otherCounts : Nat → Nat} (positive : ∀ call, 0 < counts call)
    (otherPositive : ∀ call, 0 < otherCounts call) (stack : AesdSeekto)
    (garbage otherGarbage : Nat → UInt8) (writeCmd writeCmdOffset : BitVec 32) :
    let contents := last.kernel.ringBytes.flatten
    contents.length =
      (last.kernel.device.circularBuffer.liveEntries.map AesdBufferEntry.size).sum ∧
    ((readCharDevice (deviceStdio fixedSizeLlseek last.kernel stack counts) ⟨false, garbage⟩ false
        writeCmd writeCmdOffset).value.Answers contents ∧
      (readFile (deviceStdio fixedSizeLlseek last.kernel stack otherCounts)
        ⟨false, otherGarbage⟩).value.Answers contents ↔ contents.length ≤ bufferSize) := by
  have represents := run_represents_commandLog run loaded zeroFills
  have readable := run_readable_of_limited run loaded zeroFills limited
  dsimp only
  rw [represents.flatten_ringBytes, Holds.liveSizes_sum represents]
  refine ⟨rfl, ?_⟩
  have char := @readCharDevice_answers_iff fixedSizeLlseek _ _ _ represents free readable positive
    stack garbage writeCmd writeCmdOffset
  have file := readFile_answers_whole represents free readable seeks otherPositive stack
    otherGarbage
  exact ⟨fun both => char.mp both.1, fun fits => ⟨char.mpr fits, file⟩⟩

theorem vfsFixedSizeLlseek_seeksEnds : SeeksEnds vfsFixedSizeLlseek where
  toEnd := by
    intro position size nonnegative
    simp [vfsFixedSizeLlseek, seekEnd, nonnegative]
  toStart := by
    intro position size nonnegative
    simp [vfsFixedSizeLlseek, seekSet, nonnegative]

theorem read_paths_agree_iff_one_command :
    let contents := oneCommand.kernel.ringBytes.flatten
    contents.length =
      (oneCommand.kernel.device.circularBuffer.liveEntries.map AesdBufferEntry.size).sum ∧
    ((readCharDevice (deviceStdio vfsFixedSizeLlseek oneCommand.kernel ⟨0, 0⟩ fun _ => 2)
        ⟨false, fun _ => 0⟩ false 0 0).value.Answers contents ∧
      (readFile (deviceStdio vfsFixedSizeLlseek oneCommand.kernel ⟨0, 0⟩ fun call => call + 1)
        ⟨false, fun _ => 0⟩).value.Answers contents ↔ contents.length ≤ bufferSize) :=
  read_paths_agree_iff loadedSystem_loaded oneCommand_reached
    (by simp) (by simp) rfl vfsFixedSizeLlseek_seeksEnds (fun _ => Nat.two_pos) (fun call => Nat.succ_pos call) _ _ _ _ _

def lineWriting (body : List UInt8) : Event :=
  ⟨.write 0 (.whole (body ++ [newline]) (some 1) none), (body ++ [newline]).length, []⟩

/-- One command of `BUFFER_SIZE + 1` bytes: `read_char_device` leaves out its last
byte, `read_file` does not. -/
theorem long_line_cut :
    ∃ last, Loaded loadedSystem ∧
      Run (Step vfsFixedSizeLlseek) loadedSystem [lineWriting (List.replicate bufferSize 97)] last ∧
      last.kernel.device.lock = false ∧
      last.kernel.ringBytes.flatten = List.replicate bufferSize 97 ++ [newline] ∧
      (readCharDevice (deviceStdio vfsFixedSizeLlseek last.kernel ⟨0, 0⟩ fun _ => 4096)
        ⟨false, fun _ => 0⟩ false 0 0).value.Answers (List.replicate bufferSize 97) ∧
      (readFile (deviceStdio vfsFixedSizeLlseek last.kernel ⟨0, 0⟩ fun _ => 4096)
        ⟨false, fun _ => 0⟩).value.Answers (List.replicate bufferSize 97 ++ [newline]) ∧
      ¬(readCharDevice (deviceStdio vfsFixedSizeLlseek last.kernel ⟨0, 0⟩ fun _ => 4096)
        ⟨false, fun _ => 0⟩ false 0 0).value.Answers
          (List.replicate bufferSize 97 ++ [newline]) := by
  have length : (List.replicate bufferSize (97 : UInt8)).length = bufferSize :=
    List.length_replicate
  have granted : (List.replicate bufferSize (97 : UInt8)).length + 1 ≤ kmallocMaxSize := by
    rw [length]
    decide
  obtain ⟨last, moved, free, ring⟩ := line_written (List.replicate bufferSize 97) granted
  have contents : last.kernel.ringBytes.flatten = List.replicate bufferSize 97 ++ [newline] := by
    rw [ring, List.flatten_singleton]
  obtain ⟨log, represents⟩ := run_represents (.single moved) ⟨_, loadedSystem_loaded.represents.1⟩
  have live : liveContents log = List.replicate bufferSize 97 ++ [newline] :=
    represents.flatten_ringBytes.symm.trans contents
  have readable : Readable log := by
    constructor
    · intro command member
      rw [← represents.ringBytes_eq, ring] at member
      rw [List.mem_singleton.mp member]
      simp
    · have total : (log.retained 10).flatten.length = bufferSize + 1 := by
        rw [← liveContents, live, List.length_append, length]
        rfl
      rw [total]
      decide
  have char := readCharDevice_answers (deviceStdio vfsFixedSizeLlseek last.kernel ⟨0, 0⟩
    fun _ => 4096) (fun _ => 0) false 0 0
  have asks : ∀ call : Nat, 0 < (fun _ => 4096 : Nat → Nat) call := by simp
  have file := readFile_answers_whole represents free readable vfsFixedSizeLlseek_seeksEnds asks
    ⟨0, 0⟩ fun _ => 0
  rw [charDeviceFile_unfound, deviceStdio_fopen, fread_eq represents free readable
    asks, live, List.take_append_of_le_length (Nat.le_of_eq length.symm),
    List.take_of_length_le (Nat.le_of_eq length)] at char
  rw [live] at file
  refine ⟨last, loadedSystem_loaded, .single moved, free, contents, char, file, fun whole => ?_⟩
  have same := congrArg List.length (char.unique whole)
  rw [List.length_append] at same
  exact absurd same (by simp)

end Aesd.Server
