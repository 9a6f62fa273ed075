import Mathlib.Algebra.Order.Ring.Nat
import Mathlib.Data.List.Basic
import Mathlib.Algebra.BigOperators.Group.List.Basic

/-!
# Positions in a concatenation

A position in the concatenation of several parts falls in one part at one
offset. `locate` finds both from the sizes alone; `segmentAt` is what the part
still holds from there on.
-/

set_option autoImplicit false

namespace Aesd.Concatenation

universe u
variable {α : Type u}

/-- The index of the part a position falls in, and the offset inside it. -/
def locate : List Nat → Nat → Option (Nat × Nat)
  | [], _ => none
  | size :: sizes, position =>
      if position < size then some (0, position)
      else (locate sizes (position - size)).map fun found => (found.1 + 1, found.2)

/-- What is left, from the position on, of the part the position falls in. -/
def segmentAt : List (List α) → Nat → List α
  | [], _ => []
  | part :: parts, position =>
      if position < part.length then part.drop position
      else segmentAt parts (position - part.length)

theorem locate_eq_none_iff (sizes : List Nat) (position : Nat) :
    locate sizes position = none ↔ sizes.sum ≤ position := by
  induction sizes generalizing position with
  | nil => simp [locate]
  | cons size sizes ih =>
      simp only [locate, List.sum_cons]
      split
      · simp only [reduceCtorEq, false_iff]
        omega
      · rw [Option.map_eq_none_iff, ih]
        omega

/-- A position is located at the only index and offset that the parts before it
leave room for. -/
theorem locate_eq_some_iff (sizes : List Nat) (position index offset : Nat) :
    locate sizes position = some (index, offset) ↔
      ∃ size, sizes[index]? = some size ∧ offset < size ∧
        position = (sizes.take index).sum + offset := by
  induction sizes generalizing position index with
  | nil => simp [locate]
  | cons size sizes ih =>
      simp only [locate]
      cases index with
      | zero =>
          split
          · next inside =>
              simp only [Option.some.injEq, Prod.mk.injEq, true_and, List.getElem?_cons_zero,
                exists_eq_left', List.take_zero, List.sum_nil, Nat.zero_add]
              constructor
              · intro same
                subst same
                exact ⟨inside, rfl⟩
              · exact fun found => found.2
          · next outside =>
              simp only [Option.map_eq_some_iff, Prod.mk.injEq, Nat.add_eq_zero_iff, one_ne_zero,
                and_false, false_and, exists_false, List.getElem?_cons_zero, Option.some.injEq,
                exists_eq_left', List.take_zero, List.sum_nil, Nat.zero_add, false_iff, not_and]
              omega
      | succ index =>
          split
          · next inside =>
              simp only [Option.some.injEq, Prod.mk.injEq, Nat.right_eq_add, Nat.add_eq_zero_iff,
                one_ne_zero, and_false, false_and, List.take_succ_cons, List.sum_cons, false_iff]
              intro found
              obtain ⟨_, _, _, same⟩ := found
              omega
          · next outside =>
              have inner := ih (position - size) index
              simp only [Option.map_eq_some_iff, Prod.mk.injEq, Nat.add_right_cancel_iff,
                List.getElem?_cons_succ, List.take_succ_cons, List.sum_cons]
              constructor
              · intro found
                obtain ⟨⟨_, _⟩, located, rfl, rfl⟩ := found
                obtain ⟨part, present, below, same⟩ := inner.mp located
                exact ⟨part, present, below, by omega⟩
              · intro found
                obtain ⟨part, present, below, same⟩ := found
                exact ⟨(index, offset), inner.mpr ⟨part, present, below, by omega⟩, rfl, rfl⟩

theorem locate_append_zeros (sizes : List Nat) (count position : Nat) :
    locate (sizes ++ List.replicate count 0) position = locate sizes position := by
  induction sizes generalizing position with
  | nil =>
      rw [List.nil_append, (locate_eq_none_iff _ _).mpr (by simp)]
      rfl
  | cons size sizes ih => simp only [List.cons_append, locate, ih]

theorem segmentAt_of_locate {parts : List (List α)} {position index offset : Nat}
    (found : locate (parts.map List.length) position = some (index, offset)) :
    ∃ part, parts[index]? = some part ∧ offset < part.length ∧
      segmentAt parts position = part.drop offset := by
  induction parts generalizing position index with
  | nil => simp [locate] at found
  | cons part parts ih =>
      simp only [List.map_cons, locate] at found
      split at found
      · next inside =>
          cases found
          exact ⟨part, rfl, inside, by simp [segmentAt, inside]⟩
      · next outside =>
          obtain ⟨⟨inner, _⟩, located, same⟩ := Option.map_eq_some_iff.mp found
          cases same
          obtain ⟨hit, present, below, segment⟩ := ih located
          exact ⟨hit, by simpa using present, below, by simp [segmentAt, outside, segment]⟩

theorem segmentAt_prefix (parts : List (List α)) (position : Nat) :
    segmentAt parts position <+: parts.flatten.drop position := by
  induction parts generalizing position with
  | nil => simp [segmentAt]
  | cons part parts ih =>
      simp only [segmentAt, List.flatten_cons]
      split
      · next inside =>
          rw [List.drop_append_of_le_length (Nat.le_of_lt inside)]
          exact List.prefix_append _ _
      · next outside =>
          rw [List.drop_append, List.drop_eq_nil_of_le (by omega), List.nil_append]
          exact ih (position - part.length)

theorem segmentAt_eq_nil_iff (parts : List (List α)) (position : Nat) :
    segmentAt parts position = [] ↔ parts.flatten.length ≤ position := by
  induction parts generalizing position with
  | nil => simp [segmentAt]
  | cons part parts ih =>
      simp only [segmentAt, List.flatten_cons, List.length_append]
      split
      · next inside =>
          rw [List.drop_eq_nil_iff]
          omega
      · next outside =>
          rw [ih]
          omega

/-- A bounded read at a position returns a stretch of the concatenation. -/
theorem take_segmentAt (parts : List (List α)) (position count : Nat) :
    (segmentAt parts position).take count =
      (parts.flatten.drop position).take ((segmentAt parts position).take count).length := by
  obtain ⟨rest, split⟩ := segmentAt_prefix parts position
  rw [← split]
  simp only [List.length_take]
  rw [List.take_append_of_le_length (Nat.min_le_right _ _), List.take_eq_take_iff]
  omega

theorem take_segmentAt_eq_nil_iff (parts : List (List α)) (position count : Nat) :
    (segmentAt parts position).take count = [] ↔ count = 0 ∨ parts.flatten.length ≤ position := by
  rw [List.take_eq_nil_iff, segmentAt_eq_nil_iff]

end Aesd.Concatenation
