import Aesd.Driver.System
import Mathlib.Algebra.Order.BigOperators.Group.List
import Mathlib.Algebra.Order.Ring.Nat
import Mathlib.Algebra.Group.Action.Defs

/-!
# Sizes under the allocator's limit

The kernel's `kmalloc` refuses every request above 4 MiB. Each command was once
held in one block, so the live total stays far below what an `int` can hold.
-/

set_option autoImplicit false

namespace Aesd.Driver

open Transition

/-- Every command of a log, and what is pending, fits one block of the limit. -/
structure SizedBy (limit : Nat) (log : RecordLog UInt8) : Prop where
  completed : ∀ command ∈ log.completed, command.length ≤ limit
  pending : log.pending.length ≤ limit

theorem SizedBy.empty (limit : Nat) : SizedBy limit .empty where
  completed := fun _ member => absurd member List.not_mem_nil
  pending := Nat.zero_le limit

theorem SizedBy.append {limit : Nat} {log : RecordLog UInt8} {piece : List UInt8}
    (sized : SizedBy limit log) (fits : (log.pending ++ piece).length ≤ limit) (closes : Bool) :
    SizedBy limit (log.append piece closes) where
  completed := RecordLog.forall_completed_append sized.completed fun _ => fits
  pending := by
    cases closes with
    | false => exact fits
    | true => exact Nat.zero_le _

theorem SizedBy.liveContents_le {limit : Nat} {log : RecordLog UInt8} (sized : SizedBy limit log) :
    (liveContents log).length ≤ 10 * limit := by
  have each : ∀ size ∈ (log.retained 10).map List.length, size ≤ limit := by
    intro size member
    obtain ⟨command, live, rfl⟩ := List.mem_map.mp member
    exact sized.completed command (List.mem_of_mem_drop live)
  have total := List.sum_le_card_nsmul _ _ each
  rw [List.length_map, smul_eq_mul, ← List.length_flatten] at total
  have few : (log.retained 10).length ≤ 10 := by
    rw [RecordLog.retained_length]
    exact Nat.min_le_right _ _
  exact total.trans (Nat.mul_le_mul_right limit few)

/-- Under the limit, an allocation for some bytes is granted only if they fit it. -/
theorem WriteCall.Granted.le_limit {call : WriteCall} {size limit file : Nat}
    (granted : call.Granted size) (limited : (Operation.write file call).Limited limit) :
    size ≤ limit := by
  obtain ⟨request, below, answered⟩ := granted
  by_contra above
  have refused := limited request (by omega)
  rcases answered with first | second
  · exact first refused.1
  · exact second refused.2

theorem run_sized {fixedSizeLlseek : FixedSizeLlseek} {first last : System} {events : List Event}
    {limit : Nat} (run : Run (Step fixedSizeLlseek) first events last) (loaded : Loaded first)
    (zeroFills : ∀ event ∈ events, event.operation.ZeroFills)
    (limited : ∀ event ∈ events, event.operation.Limited limit) :
    SizedBy limit (commandLog events) := by
  refine (run.simulates
    (fun event => event.operation.ZeroFills ∧ event.operation.Limited limit)
    (fun system log => Represents system.kernel log ∧ SizedBy limit log) ?_
    (fun event member => ⟨zeroFills event member, limited event member⟩)
    ⟨loaded.represents.1, .empty limit⟩).2
  rintro system log event after ⟨fills, limited⟩ ⟨represents, sized⟩ moved
  rcases moved.logNext_cases fills represents with
    ⟨same, kept⟩ | ⟨file, call, written, same, grown, granted⟩
  · rw [same]
    exact ⟨kept, sized⟩
  · rw [same]
    rw [written] at limited
    exact ⟨grown, sized.append (granted.le_limit limited) _⟩

/-- Whatever a short copy leaves in `k_buf`, the device holds some log of that size. -/
theorem run_represents_sized {fixedSizeLlseek : FixedSizeLlseek} {first last : System}
    {events : List Event} {limit : Nat} (run : Run (Step fixedSizeLlseek) first events last)
    (loaded : Loaded first) (limited : ∀ event ∈ events, event.operation.Limited limit) :
    ∃ log, Represents last.kernel log ∧ SizedBy limit log := by
  refine run.invariant (fun event => event.operation.Limited limit)
    (fun system => ∃ log, Represents system.kernel log ∧ SizedBy limit log) ?_ limited
    ⟨_, loaded.represents.1, .empty limit⟩
  intro system event after limited holds moved
  obtain ⟨log, represents, sized⟩ := holds
  rcases moved.represents represents with ⟨kept, _⟩ | ⟨file, call, written, _, grown, granted⟩
  · exact ⟨log, kept, sized⟩
  · rw [written] at limited
    exact ⟨_, grown, sized.append (granted.le_limit limited) _⟩

theorem liveSizes_lt_of_limited {kernel : Kernel} {log : RecordLog UInt8}
    (represents : Represents kernel log) (sized : SizedBy kmallocMaxSize log) :
    (kernel.device.circularBuffer.liveEntries.map AesdBufferEntry.size).sum < 2 ^ 31 := by
  rw [Holds.liveSizes_sum represents]
  exact sized.liveContents_le.trans_lt (by decide)

theorem run_readable_of_limited {fixedSizeLlseek : FixedSizeLlseek} {first last : System}
    {events : List Event} (run : Run (Step fixedSizeLlseek) first events last)
    (loaded : Loaded first) (zeroFills : ∀ event ∈ events, event.operation.ZeroFills)
    (limited : ∀ event ∈ events, event.operation.Limited kmallocMaxSize) :
    Readable (commandLog events) := by
  have total := (run_sized run loaded zeroFills limited).liveContents_le
  exact commandLog_readable (total.trans_lt (by decide))

end Aesd.Driver
