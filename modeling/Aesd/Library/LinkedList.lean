import Mathlib.Data.List.Nodup
import Mathlib.Logic.Function.Basic

/-!
# Singly linked lists in memory

Each allocated cell holds a link to another cell or to none. The cells that a
pointer leads to form a chain. Chains are unique, do not come back to a cell, and
change in the obvious way when a cell is put in front or taken out.
-/

set_option autoImplicit false

namespace Aesd.LinkedList

universe u
variable {Cell : Type u}

/-- The link in each cell that is allocated. -/
abbrev Links (Cell : Type u) := Cell → Option (Option Cell)

inductive Chain (links : Links Cell) : Option Cell → List Cell → Prop where
  | nil : Chain links none []
  | cons {cell link rest} : links cell = some link → Chain links link rest →
      Chain links (some cell) (cell :: rest)

namespace Chain

variable {links changed : Links Cell} {pointer link : Option Cell} {cell before : Cell}
  {cells left right : List Cell}

theorem tail (chain : Chain links (some cell) cells) (stored : links cell = some link) :
    ∃ rest, cells = cell :: rest ∧ Chain links link rest := by
  cases chain with
  | cons present rest =>
      cases present.symm.trans stored
      exact ⟨_, rfl, rest⟩

theorem unique (chain : Chain links pointer left) (other : Chain links pointer right) :
    left = right := by
  induction chain generalizing right with
  | nil =>
      cases other
      rfl
  | cons stored _ ih =>
      obtain ⟨rest, split, later⟩ := other.tail stored
      rw [split, ih later]

theorem pointer_eq (chain : Chain links pointer (cell :: cells)) : pointer = some cell := by
  cases chain
  rfl

/-- From any of its cells on, a chain is that of a pointer to the cell. -/
theorem from_cell (chain : Chain links pointer (left ++ cell :: right)) :
    Chain links (some cell) (cell :: right) := by
  induction left generalizing pointer with
  | nil =>
      cases chain.pointer_eq
      exact chain
  | cons first left ih =>
      cases chain with
      | cons _ rest => exact ih rest

theorem allocated (chain : Chain links pointer cells) (member : cell ∈ cells) :
    ∃ link, links cell = some link := by
  obtain ⟨left, right, rfl⟩ := List.append_of_mem member
  cases chain.from_cell with
  | cons stored _ => exact ⟨_, stored⟩

theorem nodup (chain : Chain links pointer cells) : cells.Nodup := by
  induction chain with
  | nil => exact List.nodup_nil
  | @cons cell link rest stored chain ih =>
      refine List.nodup_cons.mpr ⟨fun member => ?_, ih⟩
      -- A chain that came back to a cell would be its own proper suffix.
      obtain ⟨left, right, split⟩ := List.append_of_mem member
      rw [split] at chain
      have whole : Chain links (some cell) (cell :: (left ++ cell :: right)) := .cons stored chain
      have lengths := congrArg List.length (whole.unique chain.from_cell)
      simp only [List.length_cons, List.length_append] at lengths
      omega

theorem congr (chain : Chain links pointer cells)
    (same : ∀ cell ∈ cells, changed cell = links cell) : Chain changed pointer cells := by
  induction chain with
  | nil => exact .nil
  | @cons cell link rest stored _ ih =>
      have later := ih fun other member => same other (List.mem_cons_of_mem cell member)
      exact .cons ((same cell List.mem_cons_self).trans stored) later

variable [DecidableEq Cell]

theorem update (chain : Chain links pointer cells) (absent : cell ∉ cells)
    (value : Option (Option Cell)) : Chain (Function.update links cell value) pointer cells := by
  refine chain.congr fun other member => Function.update_of_ne ?_ _ _
  rintro rfl
  exact absent member

theorem insertHead (chain : Chain links pointer cells) (absent : cell ∉ cells) :
    Chain (Function.update links cell (some pointer)) (some cell) (cell :: cells) :=
  .cons (Function.update_self _ _ _) (chain.update absent _)

/-- Giving a cell the link of its successor takes the successor out. -/
theorem unlink (chain : Chain links pointer (left ++ before :: cell :: right))
    (stored : links cell = some link) :
    Chain (Function.update links before (some link)) pointer (left ++ before :: right) := by
  induction left generalizing pointer with
  | nil =>
      cases chain.pointer_eq
      obtain ⟨unshared, _⟩ := List.nodup_cons.mp chain.nodup
      have successor : Chain links (some cell) (cell :: right) :=
        @from_cell _ links (some before) cell [before] right chain
      obtain ⟨_, same, rest⟩ := successor.tail stored
      cases same
      have absent : before ∉ right := fun member => unshared (List.mem_cons_of_mem _ member)
      exact .cons (Function.update_self _ _ _) (rest.update absent _)
  | cons first left ih =>
      obtain ⟨unshared, _⟩ := List.nodup_cons.mp chain.nodup
      cases chain with
      | cons stored rest =>
          have apart : first ≠ before := by
            rintro rfl
            exact unshared (by simp)
          exact .cons ((Function.update_of_ne apart _ _).trans stored) (ih rest)

end Chain

end Aesd.LinkedList
