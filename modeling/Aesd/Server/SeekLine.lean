import Aesd.Driver.LimitedSizes
import Aesd.Driver.LockDiscipline
import Aesd.Driver.ReadLoop
import Aesd.Server.ReceiveProperties

/-!
# The seek command from end to end

A seek line is parsed into two numbers, packed into one word and cut out of its
low byte again by the driver, which leaves four bits for each of them.
-/

set_option autoImplicit false

namespace Aesd.Server

open CText Driver Transition

/-- `AESDCHAR_IOCSEEKTO:`, two numerals with a comma between them, and a newline. -/
def seekLine (x y : List UInt8) : List UInt8 := searchString ++ (x ++ 44 :: (y ++ [newline]))

theorem searchString_text : 0 ∉ searchString ∧ newline ∉ searchString := by decide

theorem numeral_text {digits : List UInt8} (numeral : Numeral digits) :
    0 ∉ digits ∧ newline ∉ digits := by
  have apart : ∀ char : UInt8, isDigit char = false → char ∉ digits := by
    intro char notDigit member
    exact absurd ((numeral.decimal char member).symm.trans notDigit) (by decide)
  exact ⟨apart 0 rfl, apart newline rfl⟩

theorem searchNewString_keyword (locals : HandlerLocals) {rest : List UInt8}
    (nulFree : 0 ∉ rest) :
    searchNewString locals (searchString ++ rest ++ [0]) =
      ⟨true, (sscanfPair rest locals.writeCmd locals.writeCmdOffset).1,
        (sscanfPair rest locals.writeCmd locals.writeCmdOffset).2⟩ := by
  have text : cString (searchString ++ rest ++ [0]) = searchString ++ rest := by
    refine cString_of_nulFree ?_ (by simp)
    rw [List.mem_append, not_or]
    exact ⟨searchString_text.1, nulFree⟩
  rw [searchNewString, text, strstr_append]
  simp only [List.drop_left]

theorem sscanfPair_numerals {x y : List UInt8} (first : Numeral x) (second : Numeral y)
    (rest : List UInt8) (ends : ∀ char ∈ rest.head?, isDigit char = false)
    (writeCmd writeCmdOffset : BitVec 32) :
    sscanfPair (x ++ 44 :: (y ++ rest)) writeCmd writeCmdOffset =
      (storeInt (decimalValue x), storeInt (decimalValue y)) := by
  have comma : ∀ char ∈ (44 :: (y ++ rest)).head?, isDigit char = false := by
    intro char head
    cases head
    rfl
  rw [sscanfPair, scanInt_numeral first _ comma]
  simp only [scanInt_numeral second rest ends]

theorem seekLine_ends (x y : List UInt8) (first : Numeral x) (second : Numeral y) :
    lineOf (seekLine x y) = seekLine x y ∧ newline ∈ seekLine x y := by
  have absent : newline ∉ searchString ++ (x ++ 44 :: y) := by
    simp only [List.mem_append, List.mem_cons, not_or]
    exact ⟨searchString_text.2, (numeral_text first).2, by decide, (numeral_text second).2⟩
  have shape : seekLine x y = searchString ++ (x ++ 44 :: y) ++ newline :: [] := by
    simp [seekLine]
  rw [shape]
  exact ⟨lineOf_line absent, by simp⟩

theorem receiveChunk_seekLine (locals : HandlerLocals) {x y : List UInt8} (first : Numeral x)
    (second : Numeral y) :
    receiveChunk locals (.served (seekLine x y)) =
      some ⟨⟨true, storeInt (decimalValue x), storeInt (decimalValue y)⟩, none, true⟩ := by
  obtain ⟨whole, ends⟩ := seekLine_ends x y first second
  have nulFree : 0 ∉ x ++ 44 :: (y ++ [newline]) := by
    simp only [List.mem_append, List.mem_cons, List.not_mem_nil, or_false, not_or]
    exact ⟨(numeral_text first).1, by decide, (numeral_text second).1, by decide⟩
  have searched := searchNewString_keyword locals nulFree
  rw [sscanfPair_numerals first second [newline] (by simp [isDigit, newline])] at searched
  rw [receiveChunk_eq, whole]
  simp only [seekLine, List.append_assoc] at searched ⊢
  rw [searched]
  simp [seekLine] at ends ⊢

section Codec

private theorem low_nibble_eq {word : BitVec 32} (small : word.toNat < 16) : word &&& 0xF = word := by
  apply BitVec.eq_of_toNat_eq
  rw [BitVec.toNat_and]
  exact (Nat.and_two_pow_sub_one_eq_mod word.toNat 4).trans (Nat.mod_eq_of_lt small)

theorem storeInt_toNat {value : Nat} (small : value < 2 ^ 32) : (storeInt value).toNat = value := by
  have clamped : max (-2 ^ 63) (min (value : Int) (2 ^ 63 - 1)) = value := by omega
  rw [storeInt, clamped, BitVec.ofInt_natCast, BitVec.toNat_ofNat]
  omega

/-- The driver's offset is the low nibble, so only an offset below 16 comes back. -/
theorem decode_encode_offset {writeCmd writeCmdOffset : BitVec 32}
    (small : writeCmdOffset.toNat < 16) :
    decodeWriteCmdOffset (encodeSeekto writeCmd writeCmdOffset).writeCmd = writeCmdOffset := by
  have nibble : decodeWriteCmdOffset (encodeSeekto writeCmd writeCmdOffset).writeCmd =
      writeCmdOffset &&& 0xF := by
    refine low_nibble_congr fun index low => ?_
    simp [encodeSeekto, low]
  rw [nibble, low_nibble_eq small]

theorem decode_encode_command {writeCmd writeCmdOffset : BitVec 32} (few : writeCmd.toNat < 16)
    (small : writeCmdOffset.toNat < 16) :
    decodeWriteCmd (encodeSeekto writeCmd writeCmdOffset).writeCmd = writeCmd := by
  have nibble : decodeWriteCmd (encodeSeekto writeCmd writeCmdOffset).writeCmd =
      writeCmd &&& 0xF := by
    refine low_nibble_congr fun index low => ?_
    have above : writeCmdOffset.getLsbD (4 + index) = false := by
      have power : 2 ^ 4 ≤ 2 ^ (4 + index) := Nat.pow_le_pow_right (by decide) (by omega)
      exact Nat.testBit_lt_two_pow (Nat.lt_of_lt_of_le small power)
    have inWord : 4 + index < 32 := by omega
    simp only [encodeSeekto, BitVec.getLsbD_ushiftRight, BitVec.getLsbD_or,
      BitVec.getLsbD_shiftLeft, above, inWord, Bool.or_false]
    simp
  rw [nibble, low_nibble_eq few]

end Codec

/-- The position of an offset in the live entry at an index, oldest first. -/
def livePosition (kernel : Kernel) (x y : Nat) : Nat :=
  ((kernel.device.circularBuffer.liveEntries.take x).map AesdBufferEntry.size).sum + y

/-- The seek a handler found names an entry and an offset, and reaches that byte:
the driver decodes both numbers, moves there, and reading goes on from there. -/
structure SeekReaches (kernel : Kernel) (locals : HandlerLocals) (stack : AesdSeekto) (x y : Nat) :
    Prop where
  found : locals.foundIoctlCmd = true
  command : (decodeWriteCmd (stack.copyFromUser (seekIoctl locals stack).user).writeCmd).toNat = x
  offset :
    (decodeWriteCmdOffset (stack.copyFromUser (seekIoctl locals stack).user).writeCmd).toNat = y
  reached : ∃ after, aesdUnlockedIoctl kernel 0 (seekIoctl locals stack) =
      .returned 0 (livePosition kernel x y) after [] ∧
    ∀ counts, (∀ count ∈ counts, 0 < count) →
      readSequence after (livePosition kernel x y) counts <+:
        kernel.ringBytes.flatten.drop (livePosition kernel x y) ∧
      ((kernel.ringBytes.flatten.drop (livePosition kernel x y)).length ≤ counts.length →
        readSequence after (livePosition kernel x y) counts =
          kernel.ringBytes.flatten.drop (livePosition kernel x y))

section Reach

variable {kernel : Kernel} {log : RecordLog UInt8} {x y : Nat}

theorem seekIoctl_seeks (locals : HandlerLocals) (stack : AesdSeekto) :
    (seekIoctl locals stack).Seeks := ⟨rfl, rfl, rfl⟩

theorem live_bounds (represents : Represents kernel log)
    (live : x < kernel.device.circularBuffer.liveEntries.length) :
    x < 10 ∧ x < (log.retained 10).length := by
  have count := congrArg List.length represents.ring_sizes
  rw [List.length_map, List.length_map] at count
  have few := kernel.device.circularBuffer.liveCount_le
  rw [← AesdCircularBuffer.liveEntries_length] at few
  exact ⟨by omega, by omega⟩

theorem seekReaches_of_small (represents : Represents kernel log)
    (free : kernel.device.lock = false) (readable : Readable log)
    (few : x < 10) (live : x < (log.retained 10).length) (small : y < 16) (stack : AesdSeekto) :
    SeekReaches kernel ⟨true, storeInt x, storeInt y⟩ stack x y := by
  have xStored : (storeInt (x : Int)).toNat = x := storeInt_toNat (by omega)
  have yStored : (storeInt (y : Int)).toNat = y := storeInt_toNat (by omega)
  have command : decodeWriteCmd (encodeSeekto (storeInt x) (storeInt y)).writeCmd = storeInt x :=
    decode_encode_command (by omega) (by omega)
  have offset : decodeWriteCmdOffset (encodeSeekto (storeInt x) (storeInt y)).writeCmd =
      storeInt y := decode_encode_offset (by omega)
  have position : livePosition kernel x y =
      (((log.retained 10).take x).map List.length).sum + y := by
    rw [livePosition, List.map_take, represents.ring_sizes, List.map_take]
  refine ⟨rfl, ?_, ?_, kernel, ?_, ?_⟩
  · rw [decodeWriteCmd_copyFromUser]
    exact (congrArg BitVec.toNat command).trans xStored
  · rw [decodeWriteCmdOffset_copyFromUser]
    exact (congrArg BitVec.toNat offset).trans yStored
  · have sought := aesdUnlockedIoctl_position represents free readable
      (seekIoctl_seeks ⟨true, storeInt x, storeInt y⟩ stack)
      (by simp only [seekIoctl, command]; omega) (by simp only [seekIoctl, command]; omega) 0
    rw [sought, position]
    simp only [seekIoctl, command, offset, xStored, yStored]
  · intro counts positive
    rw [represents.flatten_ringBytes]
    exact readSequence_eq represents free readable _ positive

theorem SeekReaches.free {locals : HandlerLocals} {stack : AesdSeekto}
    (reaches : SeekReaches kernel locals stack x y) : kernel.device.lock = false := by
  obtain ⟨after, returned, _⟩ := reaches.reached
  cases held : kernel.device.lock with
  | false => rfl
  | true =>
      simp [aesdUnlockedIoctl, seekIoctl, aesdAdjustFileOffset, underLock,
        mutexLockInterruptible, held] at returned

theorem SeekReaches.small {locals : HandlerLocals} {stack : AesdSeekto}
    (reaches : SeekReaches kernel locals stack x y) : y < 16 := by
  rw [← reaches.offset]
  exact decodeWriteCmdOffset_lt _

end Reach

/-- In every reachable state, the seek line of a live byte is recognised, and it
reaches that byte exactly when the offset is below 16 and the device lock free. -/
theorem seek_line_reaches_byte_iff {fixedSizeLlseek : FixedSizeLlseek} {first system : System}
    {events : List Event} (loaded : Loaded first)
    (run : Run (Step fixedSizeLlseek) first events system)
    (zeroFills : ∀ event ∈ events, event.operation.ZeroFills)
    (limited : ∀ event ∈ events, event.operation.Limited kmallocMaxSize)
    {x y : Nat} (live : x < system.kernel.device.circularBuffer.liveEntries.length)
    (xText yText : List UInt8) (xNumeral : Numeral xText) (yNumeral : Numeral yText)
    (xValue : decimalValue xText = x) (yValue : decimalValue yText = y)
    (writeCmd writeCmdOffset : BitVec 32) (stack : AesdSeekto) :
    ∃ locals, receiveChunk (.start writeCmd writeCmdOffset) (.served (seekLine xText yText)) =
        some ⟨locals, none, true⟩ ∧
      (SeekReaches system.kernel locals stack x y ↔
        y < 16 ∧ system.kernel.device.lock = false) := by
  have represents := run_represents_commandLog run loaded zeroFills
  have readable := run_readable_of_limited run loaded zeroFills limited
  obtain ⟨few, present⟩ := live_bounds represents live
  refine ⟨_, receiveChunk_seekLine _ xNumeral yNumeral, ?_⟩
  rw [xValue, yValue]
  constructor
  · exact fun reaches => ⟨reaches.small, reaches.free⟩
  · rintro ⟨small, free⟩
    exact seekReaches_of_small represents free readable few present small stack

theorem seek_line_reaches_byte_iff_third_byte :
    let write := Operation.write 0 (.whole [97, 98, 99, newline] (some 1) none)
    SeekReaches (loadedSystem.after vfsFixedSizeLlseek write).kernel ⟨true, 0, 2⟩ ⟨5, 7⟩ 0 2 := by
  intro write
  have run : Run (Step vfsFixedSizeLlseek) loadedSystem [⟨write, 4, []⟩]
      (loadedSystem.after vfsFixedSizeLlseek write) := .single ⟨_, _, rfl, rfl⟩
  have fills : ∀ event ∈ [(⟨write, 4, []⟩ : Event)], event.operation.ZeroFills := by
    simp [write]
  have limited : ∀ event ∈ [(⟨write, 4, []⟩ : Event)],
      event.operation.Limited kmallocMaxSize := by
    simp [write]
  obtain ⟨locals, received, reaches⟩ := seek_line_reaches_byte_iff loadedSystem_loaded run fills
    limited (x := 0) (by decide +kernel) [48] [50] (numeral_of_all (by decide) rfl)
    (numeral_of_all (by decide) rfl) rfl rfl 3 4 ⟨5, 7⟩
  have parsed : receiveChunk (.start 3 4) (.served (seekLine [48] [50])) =
      some ⟨⟨true, 0, 2⟩, none, true⟩ := by decide +kernel
  cases received.symm.trans parsed
  exact reaches.mpr ⟨by decide, rfl⟩

/-- Offset 16 of an entry of 17 bytes: the driver reads it as offset 0 of the
next entry, and the position is 17. -/
theorem seek_line_misses_sixteenth_byte :
    let write := Operation.write 0 (.whole (List.replicate 16 97 ++ [newline]) (some 1) none)
    let system := loadedSystem.after vfsFixedSizeLlseek write
    Run (Step vfsFixedSizeLlseek) loadedSystem [⟨write, 17, []⟩] system ∧
    system.kernel.device.circularBuffer.liveEntries = [⟨some 1, 17⟩] ∧
    receiveChunk (.start 0 0) (.served (seekLine [48] [49, 54])) =
      some ⟨⟨true, 0, 16⟩, none, true⟩ ∧
    ¬SeekReaches system.kernel ⟨true, 0, 16⟩ ⟨0, 0⟩ 0 16 ∧
    ∃ after, aesdUnlockedIoctl system.kernel 0 (seekIoctl ⟨true, 0, 16⟩ ⟨0, 0⟩) =
      .returned 0 17 after [] := by
  refine ⟨.single ⟨_, _, rfl, rfl⟩, by decide +kernel, by decide +kernel, ?_, _, rfl⟩
  intro reaches
  exact absurd reaches.offset (by decide)

end Aesd.Server
