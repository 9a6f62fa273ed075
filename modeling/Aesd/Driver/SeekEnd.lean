import Aesd.Driver.WriteRuns
import Mathlib.Order.Bounds.Basic

/-!
# Where the data ends

`aesd_llseek` adds up the slots in the order of the array, the lookup of a read
walks the ring from its read location. Both come to the same end of the data.
-/

set_option autoImplicit false

namespace Aesd.Driver

open AesdCircularBuffer Cyclic Transition

theorem entries_eq_readout (buffer : AesdCircularBuffer) :
    buffer.entry.toList = readout buffer.slot 10 0 10 := by
  have length : buffer.entry.toList.length = 10 := Vector.length_toList
  apply List.ext_getElem
  · rw [length, readout_length]
  · intro index inside _
    rw [length] at inside
    have bound : index < aesdcharMaxWriteOperationsSupported := inside
    simp [readout, slot, Nat.mod_eq_of_lt inside, Vector.getElem?_eq_getElem bound]

/-- The sum over the array is the sum over the live entries, whose pointers are
all set; the other slots are clear. -/
theorem Represents.circBuffSize_eq {kernel : Kernel} {log : RecordLog UInt8}
    (represents : Represents kernel log) :
    circBuffSize kernel.device.circularBuffer =
      (kernel.device.circularBuffer.liveEntries.map AesdBufferEntry.size).sum := by
  have order := (readout_perm kernel.device.circularBuffer.slot 10
    kernel.device.circularBuffer.outOffs).map
      fun entry => if entry.buffptr.isSome then entry.size else 0
  rw [circBuffSize, entries_eq_readout, ← order.sum_eq, represents.valid.rotation,
    List.map_append, List.sum_append]
  have live : kernel.device.circularBuffer.liveEntries.map
      (fun entry => if entry.buffptr.isSome then entry.size else 0) =
        kernel.device.circularBuffer.liveEntries.map AesdBufferEntry.size := by
    apply List.map_congr_left
    intro entry member
    obtain ⟨address, _, pointer, _, _⟩ := represents.ringBacked entry member
    simp [pointer]
  rw [live]
  simp [AesdBufferEntry.zero]

def ReturnsZero (kernel : Kernel) (fPos : Int) (call : ReadCall) : Prop :=
  ∃ position after delivered, aesdRead kernel fPos call = .returned 0 position after delivered

section Reads

variable {kernel : Kernel} {log : RecordLog UInt8}

/-- A read that asks for bytes returns 0 from the end of the data on. A copy that
fails before it returns an error instead. -/
theorem returnsZero_iff (represents : Represents kernel log) (free : kernel.device.lock = false)
    (readable : Readable log) {fPos : Int} (nonnegative : 0 ≤ fPos) {call : ReadCall}
    (positive : 0 < call.count) (uninterrupted : call.interrupted = false) :
    ReturnsZero kernel fPos call ↔
      (circBuffSize kernel.device.circularBuffer : Int) ≤ fPos := by
  have answer := aesdRead_eq represents free readable nonnegative uninterrupted
  have empty := readAt_eq_nil_iff log fPos.toNat call.count
  dsimp only at answer
  rw [represents.circBuffSize_eq, Holds.liveSizes_sum represents]
  constructor
  · intro returned
    obtain ⟨position, after, delivered, zero⟩ := returned
    rw [answer] at zero
    split at zero
    · cases zero
    · injection zero with nothing
      have past := (empty.mp (List.eq_nil_of_length_eq_zero (by omega))).resolve_left (by omega)
      omega
  · intro past
    have nothing := empty.mpr (.inr (by omega))
    simp only [nothing, List.length_nil, Nat.min_zero, Nat.lt_irrefl, ↓reduceIte] at answer
    exact ⟨_, _, _, answer⟩

end Reads

/-- Given this size, `fixed_size_llseek` succeeds only with a position from 0 up to it. -/
def FixedSizeLlseek.StaysWithin (fixedSizeLlseek : FixedSizeLlseek) (fPos : Int)
    (call : LlseekCall) (size : Int) : Prop :=
  0 ≤ (fixedSizeLlseek fPos call.off call.whence size).1 →
    0 ≤ (fixedSizeLlseek fPos call.off call.whence size).2 ∧
      (fixedSizeLlseek fPos call.off call.whence size).2 ≤ size

/-- The `fixed_size_llseek` of the kernel keeps within the size in every seek from a
position that does. -/
theorem vfsFixedSizeLlseek_staysWithin {fPos size : Int} (call : LlseekCall)
    (nonnegative : 0 ≤ fPos) (inside : fPos ≤ size) :
    FixedSizeLlseek.StaysWithin vfsFixedSizeLlseek fPos call size := by
  unfold FixedSizeLlseek.StaysWithin vfsFixedSizeLlseek
  dsimp only
  generalize (if call.whence = 0 then call.off else if call.whence = 1 then fPos + call.off
    else size + call.off) = target
  by_cases asks : call.whence = 1 ∧ call.off = 0
  · simp only [asks, and_self, ↓reduceIte]
    exact fun _ => ⟨nonnegative, inside⟩
  · rw [if_neg asks]
    by_cases refused : call.whence < 0 ∨ 2 < call.whence ∨ target < 0 ∨ size < target
    · rw [if_pos refused]
      have failed : ¬(0 : Int) ≤ -einval := by decide
      exact fun success => absurd success failed
    · rw [if_neg refused]
      exact fun _ => ⟨by omega, by omega⟩

/-- After any writes, the size that `aesd_llseek` adds up is that of the live
entries, and the least position at which a read returns 0. A successful seek hands
this size on: where `fixed_size_llseek` keeps within it, a read from the position
reached returns 0 exactly when that position is the size. -/
theorem llseek_and_read_agree_on_end {fixedSizeLlseek : FixedSizeLlseek} {first last : System}
    {events : List Event} (loaded : Loaded first)
    (run : Run (Step fixedSizeLlseek) first events last)
    (writes : ∀ event ∈ events, event.operation.WritesSome)
    (zeroFills : ∀ event ∈ events, event.operation.ZeroFills)
    (fits : (last.kernel.device.circularBuffer.liveEntries.map AesdBufferEntry.size).sum < 2 ^ 31) :
    let size := circBuffSize last.kernel.device.circularBuffer
    size = (last.kernel.device.circularBuffer.liveEntries.map AesdBufferEntry.size).sum ∧
    (∀ call : ReadCall, 0 < call.count → call.interrupted = false →
      IsLeast {fPos : Int | 0 ≤ fPos ∧ ReturnsZero last.kernel fPos call} size) ∧
    ∀ fPos seek retval position after delivered,
      aesdLlseek fixedSizeLlseek last.kernel fPos seek =
        .returned retval position after delivered → 0 ≤ retval →
      fixedSizeLlseek.StaysWithin fPos seek size →
      ∀ call : ReadCall, 0 < call.count → call.interrupted = false →
        (ReturnsZero after position call ↔ position = size) := by
  intro size
  have represents := run_represents_commandLog run loaded zeroFills
  have free := run_of_writes_free run loaded writes
  have readable : Readable (commandLog events) := by
    rw [Holds.liveSizes_sum represents] at fits
    exact commandLog_readable fits
  refine ⟨represents.circBuffSize_eq, ?_, ?_⟩
  · intro call positive uninterrupted
    constructor
    · have nonnegative := Int.natCast_nonneg size
      exact ⟨nonnegative, (returnsZero_iff represents free readable nonnegative positive
        uninterrupted).mpr (Int.le_refl _)⟩
    · intro fPos returns
      exact (returnsZero_iff represents free readable returns.1 positive uninterrupted).mp returns.2
  · intro fPos seek retval position after delivered sought success within call positive
      uninterrupted
    obtain ⟨rfl, ⟨negative, _⟩ | passedOn⟩ := aesdLlseek_returned sought
    · exact absurd success (Int.not_le.mpr negative)
    · rw [FixedSizeLlseek.StaysWithin, ← passedOn] at within
      obtain ⟨nonnegative, inside⟩ := within success
      rw [returnsZero_iff represents free readable nonnegative positive uninterrupted]
      exact ⟨fun past => Int.le_antisymm inside past, fun same => Int.le_of_eq same.symm⟩

theorem llseek_and_read_agree_on_end_one_command :
    let size := circBuffSize oneCommand.kernel.device.circularBuffer
    size = (oneCommand.kernel.device.circularBuffer.liveEntries.map AesdBufferEntry.size).sum ∧
    (∀ call : ReadCall, 0 < call.count → call.interrupted = false →
      IsLeast {fPos : Int | 0 ≤ fPos ∧ ReturnsZero oneCommand.kernel fPos call} size) ∧
    ∀ seek retval position after delivered,
      aesdLlseek vfsFixedSizeLlseek oneCommand.kernel 0 seek =
        .returned retval position after delivered → 0 ≤ retval →
      ∀ call : ReadCall, 0 < call.count → call.interrupted = false →
        (ReturnsZero after position call ↔ position = size) := by
  intro size
  obtain ⟨sum, least, agree⟩ := llseek_and_read_agree_on_end loadedSystem_loaded oneCommand_reached
    (fun event member => by cases List.mem_singleton.mp member; exact List.cons_ne_nil _ _)
    (by simp) (by decide)
  refine ⟨sum, least, fun seek retval position after delivered sought success => ?_⟩
  exact agree 0 seek retval position after delivered sought success
    (vfsFixedSizeLlseek_staysWithin seek (Int.le_refl 0) (Int.natCast_nonneg _))

/-- From the end of one command of three bytes a read returns 0; one byte before
it, it does not. -/
example : aesdLlseek vfsFixedSizeLlseek oneCommand.kernel 0 ⟨0, 2, false⟩ =
      .returned 3 3 oneCommand.kernel [] ∧
    aesdRead oneCommand.kernel 3 ⟨1, false, 0⟩ = .returned 0 3 oneCommand.kernel [] ∧
    aesdRead oneCommand.kernel 2 ⟨1, false, 0⟩ = .returned 1 3 oneCommand.kernel [newline] :=
  ⟨rfl, rfl, rfl⟩

end Aesd.Driver
