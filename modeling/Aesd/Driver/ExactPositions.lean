import Aesd.Driver.LimitedSizes
import Aesd.Driver.SeekProperties
import Aesd.Library.Arithmetic

/-!
# The arithmetic of the position functions

Both loops again, once with every sum, comparison and difference recorded and
once in unbounded integers. Under the limit of the allocator, the live entries
are too small for any of these steps to differ.
-/

set_option autoImplicit false

namespace Aesd.Driver

open AesdCircularBuffer Cyclic MachineInt Transition

section Recorded

variable (buffer : AesdCircularBuffer)

def findEntryComputed (charOffset : Nat) :
    Nat → Nat → Int → Int → Computed (Option (Nat × Nat))
  | 0, _, _, _ => pure none
  | remaining + 1, i, pos, posStart => do
      let arrPos := i % 10
      let pos ← Computed.sum pos (buffer.slot arrPos).size
      if pos = 0 then pure none
      else
        let inside ← Computed.less charOffset pos
        if inside then
          let offset ← Computed.difference charOffset posStart
          pure (some (arrPos, offset))
        else
          let posStart ← Computed.sum posStart (buffer.slot arrPos).size
          findEntryComputed charOffset remaining (i + 1) pos posStart

def findEntryOffsetComputed (charOffset : Nat) : Computed (Option (Nat × Nat)) := do
  let arrEnd ← Computed.sum buffer.outOffs aesdcharMaxWriteOperationsSupported
  findEntryComputed buffer charOffset (arrEnd - buffer.outOffs).toNat buffer.outOffs 0 0

def getFposComputed (buffPos : Nat) : Nat → Nat → Int → Nat → Computed Int
  | 0, _, bytePos, _ => pure bytePos
  | remaining + 1, i, bytePos, posCount =>
      let arrPos := i % aesdcharMaxWriteOperationsSupported
      if posCount = buffPos then pure bytePos
      else do
        let bytePos ← Computed.sum bytePos (buffer.slot arrPos).size
        getFposComputed buffPos remaining (i + 1) bytePos (posCount + 1)

def getFposOffsetComputed (buffPos offset : Nat) : Computed Int := do
  let arrEnd ← Computed.sum buffer.outOffs aesdcharMaxWriteOperationsSupported
  let bytePos ← getFposComputed buffer buffPos (arrEnd - buffer.outOffs).toNat buffer.outOffs 0 0
  Computed.unsignedSum bytePos offset

end Recorded

section Unbounded

variable (buffer : AesdCircularBuffer)

def findEntryUnbounded (charOffset : Nat) : Nat → Nat → Int → Int → Option (Nat × Int)
  | 0, _, _, _ => none
  | remaining + 1, i, pos, posStart =>
      let arrPos := i % 10
      let pos := pos + (buffer.slot arrPos).size
      if pos = 0 then none
      else if (charOffset : Int) < pos then some (arrPos, charOffset - posStart)
      else findEntryUnbounded charOffset remaining (i + 1) pos
        (posStart + (buffer.slot arrPos).size)

def findEntryOffsetUnbounded (charOffset : Nat) : Option (Nat × Int) :=
  findEntryUnbounded buffer charOffset aesdcharMaxWriteOperationsSupported buffer.outOffs 0 0

def getFposUnbounded (buffPos : Nat) : Nat → Nat → Int → Nat → Int
  | 0, _, bytePos, _ => bytePos
  | remaining + 1, i, bytePos, posCount =>
      let arrPos := i % aesdcharMaxWriteOperationsSupported
      if posCount = buffPos then bytePos
      else getFposUnbounded buffPos remaining (i + 1) (bytePos + (buffer.slot arrPos).size)
        (posCount + 1)

def getFposOffsetUnbounded (buffPos offset : Nat) : Int :=
  getFposUnbounded buffer buffPos aesdcharMaxWriteOperationsSupported buffer.outOffs 0 0 + offset

end Unbounded

section Loops

variable (buffer : AesdCircularBuffer)

theorem findEntryComputed_value (charOffset remaining i : Nat) (pos posStart : Int) :
    (findEntryComputed buffer charOffset remaining i pos posStart).value =
      findEntryLoop buffer charOffset remaining i pos posStart := by
  induction remaining generalizing i pos posStart with
  | zero => rfl
  | succ remaining ih =>
      rw [findEntryComputed, findEntryLoop]
      by_cases zero : toInt32 (pos + (buffer.slot (i % 10)).size) = 0
      · simp [zero]
      · by_cases inside : charOffset < toSizeT (toInt32 (pos + (buffer.slot (i % 10)).size))
        · simp [zero, inside]
        · simp [zero, inside, ih]

theorem getFposComputed_value (buffPos remaining i : Nat) (bytePos : Int) (posCount : Nat) :
    (getFposComputed buffer buffPos remaining i bytePos posCount).value =
      getFposLoop buffer buffPos remaining i bytePos posCount := by
  induction remaining generalizing i bytePos posCount with
  | zero => rfl
  | succ remaining ih =>
      rw [getFposComputed, getFposLoop]
      by_cases arrived : posCount = buffPos
      · simp [arrived]
      · simp [arrived, ih]

/-- Before each iteration `pos` and `pos_start` are the same sum of sizes, and the
offset looked for is not below it. -/
theorem findEntryComputed_exact (charOffset remaining i total : Nat)
    (fits : total + ((readout buffer.slot 10 i remaining).map AesdBufferEntry.size).sum < 2 ^ 31)
    (reached : total ≤ charOffset) :
    (findEntryComputed buffer charOffset remaining i total total).Exact ∧
      (findEntryComputed buffer charOffset remaining i total total).value.map
          (fun found => (found.1, (found.2 : Int))) =
        findEntryUnbounded buffer charOffset remaining i total total := by
  induction remaining generalizing i total with
  | zero => exact ⟨Computed.exact_pure _, rfl⟩
  | succ remaining ih =>
      rw [readout_cons, List.map_cons, List.sum_cons] at fits
      obtain ⟨summed, pos⟩ := @Computed.sum_exact total (buffer.slot (i % 10)).size (by omega)
        (by omega)
      obtain ⟨compared, less⟩ := @Computed.less_exact (total + (buffer.slot (i % 10)).size : Int)
        charOffset (by omega) (by omega)
      rw [findEntryComputed, findEntryUnbounded]
      simp only [Computed.exact_bind, Logged.value_bind, summed, pos, true_and]
      by_cases zero : (total : Int) + (buffer.slot (i % 10)).size = 0
      · simp [zero]
      · simp only [zero, ↓reduceIte, Computed.exact_bind, Logged.value_bind, compared, less, true_and]
        by_cases inside : (charOffset : Int) < total + (buffer.slot (i % 10)).size
        · obtain ⟨subtracted, offset⟩ := @Computed.difference_exact total charOffset (by omega)
            (by omega)
          simp only [inside, ↓reduceIte, Computed.exact_bind, Logged.value_bind, subtracted,
            Computed.exact_pure, Logged.value_pure, Option.map_some, offset, and_self]
        · simp only [inside, ↓reduceIte, Computed.exact_bind, Logged.value_bind, summed, pos,
            true_and]
          exact_mod_cast ih (i + 1) (total + (buffer.slot (i % 10)).size) (by omega) (by omega)

/-- The sum of the sizes before the command, the rest of which only adds to it. -/
theorem getFposComputed_exact (buffPos remaining i total posCount : Nat)
    (fits : total + ((readout buffer.slot 10 i remaining).map AesdBufferEntry.size).sum < 2 ^ 31) :
    ∃ bytePos : Nat,
      getFposUnbounded buffer buffPos remaining i total posCount = bytePos ∧
      bytePos ≤ total + ((readout buffer.slot 10 i remaining).map AesdBufferEntry.size).sum ∧
      (getFposComputed buffer buffPos remaining i total posCount).Exact ∧
      (getFposComputed buffer buffPos remaining i total posCount).value = bytePos := by
  induction remaining generalizing i total posCount with
  | zero => exact ⟨total, rfl, Nat.le_refl _, Computed.exact_pure _, rfl⟩
  | succ remaining ih =>
      rw [readout_cons, List.map_cons, List.sum_cons] at fits ⊢
      rw [getFposComputed, getFposUnbounded]
      by_cases arrived : posCount = buffPos
      · simp only [arrived, ↓reduceIte]
        exact ⟨total, rfl, Nat.le_add_right _ _, Computed.exact_pure _, rfl⟩
      · obtain ⟨summed, stored⟩ := @Computed.sum_exact total (buffer.slot (i % 10)).size (by omega)
          (by omega)
        simp only [arrived, ↓reduceIte, Computed.exact_bind, Logged.value_bind, summed, stored,
          true_and, aesdcharMaxWriteOperationsSupported]
        obtain ⟨bytePos, unbounded, bounded, rest⟩ := ih (i + 1)
          (total + (buffer.slot (i % 10)).size) (posCount + 1) (by omega)
        rw [Int.natCast_add] at unbounded rest
        exact ⟨bytePos, unbounded, by omega, rest⟩

end Loops

section Functions

variable {buffer : AesdCircularBuffer}

theorem arrEnd_exact (small : buffer.outOffs < 10) :
    (Computed.sum buffer.outOffs aesdcharMaxWriteOperationsSupported).Exact ∧
      ((Computed.sum buffer.outOffs aesdcharMaxWriteOperationsSupported).value -
        buffer.outOffs).toNat = aesdcharMaxWriteOperationsSupported := by
  obtain ⟨summed, stored⟩ := @Computed.sum_exact buffer.outOffs
    aesdcharMaxWriteOperationsSupported (by omega)
    (by simp only [aesdcharMaxWriteOperationsSupported]; omega)
  exact ⟨summed, by rw [stored]; omega⟩

theorem findEntryOffsetComputed_exact (small : buffer.outOffs < 10)
    (fits : buffer.rotationSizes.sum < 2 ^ 31) (charOffset : Nat) :
    (findEntryOffsetComputed buffer charOffset).Exact ∧
      (findEntryOffsetComputed buffer charOffset).value =
        aesdCircularBufferFindEntryOffsetForFpos buffer charOffset ∧
      (aesdCircularBufferFindEntryOffsetForFpos buffer charOffset).map
          (fun found => (found.1, (found.2 : Int))) =
        findEntryOffsetUnbounded buffer charOffset := by
  obtain ⟨summed, iterations⟩ := arrEnd_exact small
  have loop := findEntryComputed_exact buffer charOffset aesdcharMaxWriteOperationsSupported
    buffer.outOffs 0 (by rwa [Nat.zero_add]) (Nat.zero_le _)
  have value := findEntryComputed_value buffer charOffset aesdcharMaxWriteOperationsSupported
    buffer.outOffs 0 0
  rw [findEntryOffsetComputed, Computed.exact_bind, Logged.value_bind, iterations]
  refine ⟨⟨summed, loop.1⟩, value, ?_⟩
  rw [aesdCircularBufferFindEntryOffsetForFpos, ← value]
  exact loop.2

theorem getFposOffsetComputed_exact (small : buffer.outOffs < 10) (buffPos : Nat) {offset : Nat}
    (fits : buffer.rotationSizes.sum + offset < 2 ^ 31) :
    (getFposOffsetComputed buffer buffPos offset).Exact ∧
      (getFposOffsetComputed buffer buffPos offset).value =
        aesdCircularBufferGetFpos buffer buffPos offset ∧
      aesdCircularBufferGetFpos buffer buffPos offset =
        getFposOffsetUnbounded buffer buffPos offset := by
  obtain ⟨summed, iterations⟩ := arrEnd_exact small
  have sizes : 0 + ((readout buffer.slot 10 buffer.outOffs
      aesdcharMaxWriteOperationsSupported).map AesdBufferEntry.size).sum =
        buffer.rotationSizes.sum := Nat.zero_add _
  obtain ⟨bytePos, unbounded, bounded, exactly, stored⟩ := getFposComputed_exact buffer buffPos
    aesdcharMaxWriteOperationsSupported buffer.outOffs 0 0 (by omega)
  have value := getFposComputed_value buffer buffPos aesdcharMaxWriteOperationsSupported
    buffer.outOffs 0 0
  obtain ⟨added, sum⟩ := @Computed.unsignedSum_exact bytePos offset (by omega) (by omega)
  rw [Int.ofNat_zero] at unbounded exactly stored
  have returned : aesdCircularBufferGetFpos buffer buffPos offset = bytePos + offset := by
    rw [aesdCircularBufferGetFpos, ← value, stored]
    exact sum
  rw [getFposOffsetComputed, Computed.exact_bind, Logged.value_bind, iterations,
    Computed.exact_bind, Logged.value_bind, stored, returned, getFposOffsetUnbounded, unbounded]
  exact ⟨⟨summed, exactly, added⟩, sum, rfl⟩

end Functions

/-- After any run under the allocator's limit, all the arithmetic of both position
functions is that of the integers, and so are their results. -/
theorem position_arithmetic_exact {fixedSizeLlseek : FixedSizeLlseek} {first last : System}
    {events : List Event} (loaded : Loaded first)
    (run : Run (Step fixedSizeLlseek) first events last)
    (limited : ∀ event ∈ events, event.operation.Limited kmallocMaxSize) :
    let buffer := last.kernel.device.circularBuffer
    (∀ charOffset : Nat,
      (findEntryOffsetComputed buffer charOffset).Exact ∧
      (findEntryOffsetComputed buffer charOffset).value =
        aesdCircularBufferFindEntryOffsetForFpos buffer charOffset ∧
      (aesdCircularBufferFindEntryOffsetForFpos buffer charOffset).map
          (fun found => (found.1, (found.2 : Int))) =
        findEntryOffsetUnbounded buffer charOffset) ∧
    ∀ writeCmd : BitVec 32,
      let buffPos := (decodeWriteCmd writeCmd).toNat
      let offset := (decodeWriteCmdOffset writeCmd).toNat
      (getFposOffsetComputed buffer buffPos offset).Exact ∧
      (getFposOffsetComputed buffer buffPos offset).value =
        aesdCircularBufferGetFpos buffer buffPos offset ∧
      aesdCircularBufferGetFpos buffer buffPos offset =
        getFposOffsetUnbounded buffer buffPos offset := by
  obtain ⟨log, represents, sized⟩ := run_represents_sized run loaded limited
  intro buffer
  have small : buffer.outOffs < 10 := represents.valid.outBound
  have total : buffer.rotationSizes.sum ≤ 10 * kmallocMaxSize := by
    rw [represents.valid.rotationSizes_sum, Holds.liveSizes_sum represents]
    exact sized.liveContents_le
  have tiny : 10 * kmallocMaxSize + 16 < 2 ^ 31 := by decide
  constructor
  · exact findEntryOffsetComputed_exact small (by omega)
  · intro writeCmd buffPos offset
    have offsetBound : offset < 16 := decodeWriteCmdOffset_lt writeCmd
    exact getFposOffsetComputed_exact small buffPos (by omega)

theorem position_arithmetic_exact_one_command :
    let buffer := oneCommand.kernel.device.circularBuffer
    (∀ charOffset : Nat,
      (findEntryOffsetComputed buffer charOffset).Exact ∧
      (findEntryOffsetComputed buffer charOffset).value =
        aesdCircularBufferFindEntryOffsetForFpos buffer charOffset ∧
      (aesdCircularBufferFindEntryOffsetForFpos buffer charOffset).map
          (fun found => (found.1, (found.2 : Int))) =
        findEntryOffsetUnbounded buffer charOffset) ∧
    ∀ writeCmd : BitVec 32,
      let buffPos := (decodeWriteCmd writeCmd).toNat
      let offset := (decodeWriteCmdOffset writeCmd).toNat
      (getFposOffsetComputed buffer buffPos offset).Exact ∧
      (getFposOffsetComputed buffer buffPos offset).value =
        aesdCircularBufferGetFpos buffer buffPos offset ∧
      aesdCircularBufferGetFpos buffer buffPos offset =
        getFposOffsetUnbounded buffer buffPos offset :=
  position_arithmetic_exact loadedSystem_loaded oneCommand_reached (by simp)

/-- The sums for position 1 of a command of three bytes. -/
example : (findEntryOffsetComputed oneCommand.kernel.device.circularBuffer 1).log =
    [.sum 10 10, .sum 3 3, .less 1 3 true, .difference 1 0 1] := by
  decide

end Aesd.Driver
