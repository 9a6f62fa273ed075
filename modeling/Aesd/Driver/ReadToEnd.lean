import Aesd.Driver.ReadLoop
import Aesd.Driver.WriteRuns

/-!
# Reading until nothing is returned

A caller that reads until a call returns 0 gets everything from its position
on, in no more calls than there are bytes, whatever counts it asks for.
-/

set_option autoImplicit false

namespace Aesd.Driver

open Transition

/-- The values and the bytes that reads with these counts return, one after the
other, with every copy succeeding. -/
def readReturns (kernel : Kernel) (fPos : Int) : List Nat → List (Int × List UInt8)
  | [] => []
  | count :: counts =>
      match aesdRead kernel fPos ⟨count, false, 0⟩ with
      | .returned retval position after delivered =>
          (retval, delivered) :: readReturns after position counts
      | .blocked | .oops => []

section Loop

variable {kernel : Kernel} {log : RecordLog UInt8}

theorem readReturns_cons (represents : Represents kernel log) (free : kernel.device.lock = false)
    (readable : Readable log) (position count : Nat) (counts : List Nat) :
    readReturns kernel position (count :: counts) =
      (((readAt log position count).length : Int), readAt log position count) ::
        readReturns kernel ((position + (readAt log position count).length : Nat) : Int)
          counts := by
  simp only [readReturns, aesdRead_whole represents free readable position count]

/-- Each call that is not the last one takes at least one of the bytes left. -/
theorem readReturns_ends (represents : Represents kernel log)
    (free : kernel.device.lock = false) (readable : Readable log) (position : Nat)
    (counts : Nat → Nat) (positive : ∀ call, 0 < counts call) :
    ∃ chunks : List (List UInt8), chunks.length ≤ (liveContents log).length - position ∧
      (∀ chunk ∈ chunks, chunk ≠ []) ∧
      chunks.flatten = (liveContents log).drop position ∧
      readReturns kernel position ((List.range (chunks.length + 1)).map counts) =
        chunks.map (fun chunk => ((chunk.length : Int), chunk)) ++ [(0, [])] := by
  induction left : (liveContents log).length - position using Nat.strongRecOn
    generalizing position counts with
  | _ left ih =>
      have next := readReturns_cons represents free readable position (counts 0)
      have split := readAt_append_drop log position (counts 0)
      have empty := readAt_eq_nil_iff log position (counts 0)
      cases got : readAt log position (counts 0) with
      | nil =>
          have past := (empty.mp got).resolve_left (Nat.ne_of_gt (positive 0))
          refine ⟨[], Nat.zero_le _, fun _ member => absurd member List.not_mem_nil, ?_, ?_⟩
          · exact (List.drop_eq_nil_of_le past).symm
          · have ends := next []
            rw [got] at ends
            exact ends
      | cons byte bytes =>
          rw [got] at next split
          have inside : position < (liveContents log).length := by
            by_contra past
            have nothing := empty.mpr (.inr (Nat.le_of_not_lt past))
            cases got.symm.trans nothing
          have reached := readAt_end_le log position (counts 0) (Nat.le_of_lt inside)
          rw [got] at reached
          simp only [List.length_cons] at reached next split
          obtain ⟨chunks, few, filled, contents, returned⟩ := ih
            ((liveContents log).length - (position + (bytes.length + 1))) (by omega)
            (position + (bytes.length + 1)) (fun call => counts (call + 1))
            (fun call => positive (call + 1)) rfl
          refine ⟨(byte :: bytes) :: chunks, by simp only [List.length_cons]; omega, ?_, ?_, ?_⟩
          · intro chunk member
            rcases List.mem_cons.mp member with rfl | later
            · exact List.cons_ne_nil _ _
            · exact filled chunk later
          · rw [List.flatten_cons, contents]
            exact split
          · rw [List.length_cons, List.range_succ_eq_map, List.map_cons, List.map_map, next]
            exact congrArg _ returned

end Loop

/-- After any writes, reading on from a position with any positive counts comes
to a call that returns 0, after at most as many others as there are bytes from
the position on. What the calls return up to there is exactly these bytes. -/
theorem reading_until_zero {fixedSizeLlseek : FixedSizeLlseek} {first last : System}
    {events : List Event} (loaded : Loaded first)
    (run : Run (Step fixedSizeLlseek) first events last)
    (writes : ∀ event ∈ events, event.operation.WritesSome)
    (zeroFills : ∀ event ∈ events, event.operation.ZeroFills)
    (fits : (last.kernel.device.circularBuffer.liveEntries.map AesdBufferEntry.size).sum < 2 ^ 31)
    {fPos : Int} (nonnegative : 0 ≤ fPos) (counts : Nat → Nat)
    (positive : ∀ call, 0 < counts call) :
    ∃ chunks : List (List UInt8),
      chunks.length ≤
        (last.kernel.device.circularBuffer.liveEntries.map AesdBufferEntry.size).sum - fPos.toNat ∧
      (∀ chunk ∈ chunks, chunk ≠ []) ∧
      chunks.flatten = last.kernel.ringBytes.flatten.drop fPos.toNat ∧
      readReturns last.kernel fPos ((List.range (chunks.length + 1)).map counts) =
        chunks.map (fun chunk => ((chunk.length : Int), chunk)) ++ [(0, [])] := by
  have represents := run_represents_commandLog run loaded zeroFills
  have free := run_of_writes_free run loaded writes
  have total := Holds.liveSizes_sum represents
  rw [total] at fits ⊢
  obtain ⟨position, rfl⟩ := Int.eq_ofNat_of_zero_le nonnegative
  rw [represents.flatten_ringBytes, Int.toNat_natCast]
  exact readReturns_ends represents free (commandLog_readable fits) position counts positive

theorem reading_until_zero_one_command :
    ∃ chunks : List (List UInt8),
      chunks.length ≤ (oneCommand.kernel.device.circularBuffer.liveEntries.map
        AesdBufferEntry.size).sum - (1 : Int).toNat ∧
      (∀ chunk ∈ chunks, chunk ≠ []) ∧
      chunks.flatten = oneCommand.kernel.ringBytes.flatten.drop (1 : Int).toNat ∧
      readReturns oneCommand.kernel 1
          ((List.range (chunks.length + 1)).map fun call => call + 1) =
        chunks.map (fun chunk => ((chunk.length : Int), chunk)) ++ [(0, [])] :=
  reading_until_zero loadedSystem_loaded oneCommand_reached
    (fun event member => by cases List.mem_singleton.mp member; exact List.cons_ne_nil _ _)
    (by simp) (by decide) (by decide) _ (fun call => Nat.succ_pos call)

end Aesd.Driver
