import Mathlib.Data.List.DropRight

/-!
# A log of records behind a bounded window

A writer appends pieces; some pieces close the record under construction. Only
the newest `capacity` closed records are retained, the older ones are evicted.
The stream of everything appended is the closed records and the open one.
-/

set_option autoImplicit false

namespace Aesd

universe u

/-- A bounded window takes in a value at its end, and lets go of its oldest one
only when there are enough values to fill it. -/
theorem rtake_concat {α : Type u} {capacity : Nat} (positive : 0 < capacity) (values : List α)
    (value : α) :
    (values ++ [value]).rtake capacity =
      (if values.length < capacity then values.rtake capacity
        else (values.rtake capacity).tail) ++ [value] := by
  obtain ⟨smaller, rfl⟩ : ∃ smaller, capacity = smaller + 1 := ⟨capacity - 1, by omega⟩
  rw [List.rtake_concat_succ]
  congr 1
  split
  · next room =>
      simp only [List.rtake]
      rw [Nat.sub_eq_zero_of_le (by omega), Nat.sub_eq_zero_of_le (by omega)]
  · next full =>
      simp only [List.rtake, List.tail_drop]
      congr 1
      omega

structure RecordLog (α : Type u) where
  completed : List (List α)
  pending : List α
  deriving DecidableEq

namespace RecordLog

variable {α : Type u}

def empty : RecordLog α := ⟨[], []⟩

/-- Append a piece; a closing piece completes the record under construction. -/
def append (log : RecordLog α) (piece : List α) (closes : Bool) : RecordLog α :=
  if closes then ⟨log.completed ++ [log.pending ++ piece], []⟩
  else ⟨log.completed, log.pending ++ piece⟩

def stream (log : RecordLog α) : List α := log.completed.flatten ++ log.pending

def retained (capacity : Nat) (log : RecordLog α) : List (List α) := log.completed.rtake capacity

def evicted (capacity : Nat) (log : RecordLog α) : List (List α) := log.completed.rdrop capacity

@[simp] theorem append_open (log : RecordLog α) (piece : List α) :
    log.append piece false = ⟨log.completed, log.pending ++ piece⟩ := rfl

@[simp] theorem append_closing (log : RecordLog α) (piece : List α) :
    log.append piece true = ⟨log.completed ++ [log.pending ++ piece], []⟩ := rfl

@[simp] theorem append_nothing (log : RecordLog α) : log.append [] false = log := by
  simp [append]

theorem append_open_append (log : RecordLog α) (first second : List α) (closes : Bool) :
    (log.append first false).append second closes = log.append (first ++ second) closes := by
  cases closes <;> simp

theorem stream_append (log : RecordLog α) (piece : List α) (closes : Bool) :
    (log.append piece closes).stream = log.stream ++ piece := by
  cases closes <;> simp [stream]

theorem evicted_append_retained (capacity : Nat) (log : RecordLog α) :
    log.evicted capacity ++ log.retained capacity = log.completed :=
  List.take_append_drop _ _

theorem retained_length (capacity : Nat) (log : RecordLog α) :
    (log.retained capacity).length = min log.completed.length capacity := by
  simp only [retained, List.rtake, List.length_drop]
  omega

theorem completed_prefix_append (log : RecordLog α) (piece : List α) (closes : Bool) :
    log.completed <+: (log.append piece closes).completed := by
  cases closes
  · exact List.prefix_rfl
  · exact List.prefix_append _ _

/-- What every completed record has, a closing piece must give to the one it completes. -/
theorem forall_completed_append {holds : List α → Prop} {log : RecordLog α} {piece : List α}
    {closes : Bool} (every : ∀ record ∈ log.completed, holds record)
    (completes : closes = true → holds (log.pending ++ piece)) :
    ∀ record ∈ (log.append piece closes).completed, holds record := by
  cases closes with
  | false => exact every
  | true =>
      intro record member
      rcases List.mem_append.mp member with old | new
      · exact every record old
      · rw [List.mem_singleton.mp new]
        exact completes rfl

theorem evicted_prefix (capacity : Nat) {earlier later : RecordLog α}
    (grows : earlier.completed <+: later.completed) :
    earlier.evicted capacity <+: later.evicted capacity := by
  obtain ⟨added, same⟩ := grows
  have early : earlier.evicted capacity =
      later.completed.take (earlier.completed.length - capacity) := by
    rw [← same, List.take_append_of_le_length (Nat.sub_le _ _)]
    rfl
  rw [early]
  apply List.take_prefix_take_left
  rw [← same, List.length_append]
  omega

theorem retained_append_closing {capacity : Nat} (positive : 0 < capacity) (log : RecordLog α)
    (piece : List α) :
    (log.append piece true).retained capacity =
      (if log.completed.length < capacity then log.retained capacity
        else (log.retained capacity).tail) ++ [log.pending ++ piece] :=
  rtake_concat positive log.completed (log.pending ++ piece)

section EndsRecord

variable {line piece : List α} {later capacity : Nat} {log : RecordLog α}

/-- A completed record ends in `line`, and `later` more were completed after it. -/
def EndsRecord (line : List α) (later : Nat) (log : RecordLog α) : Prop :=
  ∃ older record newer, log.completed = older ++ record :: newer ∧ line <:+ record ∧
    newer.length = later

theorem EndsRecord.append (ends : log.EndsRecord line later) (piece : List α) (closes : Bool) :
    (log.append piece closes).EndsRecord line (later + closes.toNat) := by
  obtain ⟨older, record, newer, completed, suffix, counted⟩ := ends
  cases closes with
  | false => exact ⟨older, record, newer, completed, suffix, counted⟩
  | true =>
      refine ⟨older, record, newer ++ [log.pending ++ piece], ?_, suffix, ?_⟩
      · rw [append_closing, completed, List.append_assoc, List.cons_append]
      · rw [List.length_append, counted]
        rfl

theorem endsRecord_of_closing {written : List α} (open_ : written <:+ log.pending) :
    (log.append piece true).EndsRecord (written ++ piece) 0 := by
  obtain ⟨before, pending⟩ := open_
  refine ⟨log.completed, log.pending ++ piece, [], rfl, ⟨before, ?_⟩, rfl⟩
  rw [← pending, List.append_assoc]

theorem EndsRecord.retained (ends : log.EndsRecord line later) (recent : later < capacity) :
    ∃ record ∈ log.retained capacity, line <:+ record := by
  obtain ⟨older, record, newer, completed, suffix, counted⟩ := ends
  refine ⟨record, ?_, suffix⟩
  rw [RecordLog.retained, completed, List.rtake, List.drop_append_of_le_length]
  · exact List.mem_append_right _ List.mem_cons_self
  · simp only [List.length_append, List.length_cons]
    omega

theorem EndsRecord.infix_retained (ends : log.EndsRecord line later) (recent : later < capacity) :
    line <:+: (log.retained capacity).flatten := by
  obtain ⟨record, member, suffix⟩ := ends.retained recent
  exact suffix.isInfix.trans (List.infix_of_mem_flatten member)

end EndsRecord

section Expand

universe v
variable {β : Type v} (expand : α → List β)

def expanded (log : RecordLog α) : RecordLog β :=
  ⟨log.completed.map (·.flatMap expand), log.pending.flatMap expand⟩

theorem expanded_append (log : RecordLog α) (piece : List α) (closes : Bool) :
    (log.append piece closes).expanded expand =
      (log.expanded expand).append (piece.flatMap expand) closes := by
  cases closes <;> simp [expanded]

theorem expanded_retained (capacity : Nat) (log : RecordLog α) :
    (log.expanded expand).retained capacity =
      (log.retained capacity).map (·.flatMap expand) := by
  simp [expanded, retained, List.rtake]

end Expand

section Pieces

variable [DecidableEq α] (terminator : α)

/-- Append pieces in order, each closing a record when it ends in the terminator. -/
def appendPieces (log : RecordLog α) (pieces : List (List α)) : RecordLog α :=
  pieces.foldl (fun log piece => log.append piece (decide (piece.getLast? = some terminator))) log

@[simp] theorem appendPieces_nil (log : RecordLog α) : log.appendPieces terminator [] = log := rfl

@[simp] theorem appendPieces_cons (log : RecordLog α) (piece : List α) (pieces : List (List α)) :
    log.appendPieces terminator (piece :: pieces) =
      (log.append piece (decide (piece.getLast? = some terminator))).appendPieces terminator
        pieces := rfl

variable {terminator}

theorem appendPieces_of_notMem (log : RecordLog α) {pieces : List (List α)}
    (absent : terminator ∉ pieces.flatten) :
    log.appendPieces terminator pieces = ⟨log.completed, log.pending ++ pieces.flatten⟩ := by
  induction pieces generalizing log with
  | nil => simp
  | cons piece pieces ih =>
      rw [List.flatten_cons, List.mem_append, not_or] at absent
      have stays : ¬piece.getLast? = some terminator := fun last =>
        absent.1 (List.mem_of_getLast? last)
      rw [appendPieces_cons, decide_eq_false stays, append_open, ih _ absent.2]
      simp

/-- Non-empty pieces of one terminated line complete exactly one record. -/
theorem appendPieces_line (log : RecordLog α) {pieces : List (List α)} {body : List α}
    (nonempty : ∀ piece ∈ pieces, piece ≠ []) (absent : terminator ∉ body)
    (line : pieces.flatten = body ++ [terminator]) :
    log.appendPieces terminator pieces =
      ⟨log.completed ++ [log.pending ++ (body ++ [terminator])], []⟩ := by
  induction pieces generalizing log body with
  | nil => simp at line
  | cons piece pieces ih =>
      have remaining : ∀ later ∈ pieces, later ≠ [] := fun later member =>
        nonempty later (List.mem_cons_of_mem _ member)
      rw [List.flatten_cons] at line
      rcases List.append_eq_append_iff.mp line with ⟨left, rfl, rest⟩ | ⟨surplus, rfl, rest⟩
      · have stays : ¬piece.getLast? = some terminator := fun last =>
          absent (List.mem_append_left _ (List.mem_of_getLast? last))
        have absentLeft : terminator ∉ left := fun member =>
          absent (List.mem_append_right _ member)
        rw [appendPieces_cons, decide_eq_false stays, append_open, ih _ remaining absentLeft rest]
        simp
      · cases surplus with
        | nil =>
            have stays : ¬(body ++ []).getLast? = some terminator := by
              rw [List.append_nil]
              exact fun last => absent (List.mem_of_getLast? last)
            rw [appendPieces_cons, decide_eq_false stays, append_open,
              ih _ remaining List.not_mem_nil rest.symm]
            simp
        | cons final surplus =>
            simp only [List.cons_append, List.cons.injEq, List.nil_eq, List.append_eq_nil_iff]
              at rest
            obtain ⟨rfl, rfl, nothing⟩ := rest
            have done : pieces = [] := by
              cases pieces with
              | nil => rfl
              | cons later pieces =>
                  exact absurd (List.append_eq_nil_iff.mp nothing).1
                    (remaining later List.mem_cons_self)
            subst done
            simp

end Pieces

end RecordLog

end Aesd
