import Aesd.Driver.ReadProperties

/-!
# Reading on

A caller that reads again and again, with no write in between, gets the live
contents from its position on, whatever counts it asks for.
-/

set_option autoImplicit false

namespace Aesd.Driver

def readSequence (kernel : Kernel) (fPos : Int) : List Nat → List UInt8
  | [] => []
  | count :: counts =>
      match aesdRead kernel fPos ⟨count, false, 0⟩ with
      | .returned _ position after delivered => delivered ++ readSequence after position counts
      | .blocked | .oops => []

theorem readAt_append_drop (log : RecordLog UInt8) (position count : Nat) :
    readAt log position count ++
      (liveContents log).drop (position + (readAt log position count).length) =
        (liveContents log).drop position := by
  have taken := readAt_eq_take_drop log position count
  generalize readAt log position count = bytes at taken ⊢
  rw [← List.drop_drop]
  exact (congrArg (· ++ _) taken).trans (List.take_append_drop _ _)

theorem readSequence_eq {kernel : Kernel} {log : RecordLog UInt8}
    (represents : Represents kernel log) (free : kernel.device.lock = false)
    (readable : Readable log) (position : Nat) {counts : List Nat}
    (positive : ∀ count ∈ counts, 0 < count) :
    readSequence kernel position counts <+: (liveContents log).drop position ∧
      (((liveContents log).drop position).length ≤ counts.length →
        readSequence kernel position counts = (liveContents log).drop position) := by
  induction counts generalizing position with
  | nil =>
      refine ⟨List.nil_prefix, fun short => ?_⟩
      rw [List.eq_nil_of_length_eq_zero (Nat.le_zero.mp short)]
      rfl
  | cons count counts ih =>
      have split := readAt_append_drop log position count
      have empty := readAt_eq_nil_iff log position count
      have later := ih (position + (readAt log position count).length)
        fun next member => positive next (List.mem_cons_of_mem _ member)
      simp only [readSequence, aesdRead_whole represents free readable position count]
      generalize readAt log position count = bytes at split empty later ⊢
      rw [← split]
      refine ⟨(List.prefix_append_right_inj bytes).mpr later.1, fun short => ?_⟩
      rw [List.length_append, List.length_cons] at short
      apply congrArg (bytes ++ ·)
      cases bytes with
      | nil =>
          have past : (liveContents log).length ≤ position :=
            (empty.mp rfl).resolve_left (Nat.pos_iff_ne_zero.mp (positive count List.mem_cons_self))
          have rest : (liveContents log).drop (position + ([] : List UInt8).length) = [] :=
            List.drop_eq_nil_of_le past
          rw [rest] at later ⊢
          exact List.prefix_nil.mp later.1
      | cons byte bytes =>
          apply later.2
          simp only [List.length_cons] at short ⊢
          omega

end Aesd.Driver
