import Aesd.Driver.CircularBuffer
import Aesd.Library.Concatenation
import Aesd.Library.Cyclic

/-!
# Laws of the circular buffer

The live entries are read round the end of the array from `outOffs`. Adding an
entry appends it, evicting the oldest of a full buffer. The two position loops
agree with locating a position in the list of live sizes as long as the live
total fits an `int`.
-/

set_option autoImplicit false

namespace Aesd.Driver.AesdCircularBuffer

open MachineInt Cyclic Concatenation

@[simp] theorem slot_setSlot (buffer : AesdCircularBuffer) {index : Nat} (bound : index < 10)
    (value : AesdBufferEntry) :
    (buffer.setSlot index value).slot = Function.update buffer.slot index value := by
  funext other
  by_cases same : other = index
  · subst same
    have inside : other < aesdcharMaxWriteOperationsSupported := bound
    simp [slot, setSlot, inside]
  · rw [Function.update_of_ne same]
    simp [slot, setSlot, Ne.symm same]

@[simp] theorem slot_init (index : Nat) : aesdCircularBufferInit.slot index = .zero := by
  simp only [slot, aesdCircularBufferInit, Vector.getElem?_replicate]
  split <;> rfl

def liveCount (buffer : AesdCircularBuffer) : Nat :=
  if buffer.full then 10 else (buffer.inOffs + 10 - buffer.outOffs) % 10

def liveEntries (buffer : AesdCircularBuffer) : List AesdBufferEntry :=
  readout buffer.slot 10 buffer.outOffs buffer.liveCount

structure Valid (buffer : AesdCircularBuffer) : Prop where
  inBound : buffer.inOffs < 10
  outBound : buffer.outOffs < 10
  fullMeets : buffer.full = true → buffer.inOffs = buffer.outOffs
  vacant : ∀ offset, buffer.liveCount ≤ offset → offset < 10 →
    buffer.slot ((buffer.outOffs + offset) % 10) = .zero

@[simp] theorem liveEntries_length (buffer : AesdCircularBuffer) :
    buffer.liveEntries.length = buffer.liveCount := by
  simp [liveEntries]

theorem slot_of_liveEntries {buffer : AesdCircularBuffer} {index : Nat} {entry : AesdBufferEntry}
    (live : buffer.liveEntries[index]? = some entry) :
    buffer.slot ((buffer.outOffs + index) % 10) = entry := by
  unfold liveEntries readout at live
  rw [List.getElem?_map] at live
  obtain ⟨offset, inRange, same⟩ := Option.map_eq_some_iff.mp live
  obtain ⟨bound, value⟩ := List.getElem?_eq_some_iff.mp inRange
  rw [List.getElem_range] at value
  rw [← same, value]

theorem liveCount_le (buffer : AesdCircularBuffer) : buffer.liveCount ≤ 10 := by
  unfold liveCount
  split <;> omega

theorem full_iff_liveCount (buffer : AesdCircularBuffer) :
    buffer.full = true ↔ buffer.liveCount = 10 := by
  unfold liveCount
  split
  · next full => simp [full]
  · next notFull =>
      simp only [notFull, Bool.false_eq_true, false_iff]
      omega

theorem Valid.inOffs_eq {buffer : AesdCircularBuffer} (valid : buffer.Valid) :
    buffer.inOffs = (buffer.outOffs + buffer.liveCount) % 10 := by
  have inBound := valid.inBound
  have outBound := valid.outBound
  unfold liveCount
  split
  · next full =>
      have meets := valid.fullMeets full
      omega
  · omega

/-- The slots that are live: as many as there are live entries, from `outOffs`
on, round the end of the array. -/
def Live (buffer : AesdCircularBuffer) (index : Nat) : Prop :=
  ∃ offset < buffer.liveCount, index = (buffer.outOffs + offset) % 10

theorem Valid.slot_of_not_live {buffer : AesdCircularBuffer}
    (valid : buffer.Valid) {index : Nat} (bound : index < 10) (notLive : ¬buffer.Live index) :
    buffer.slot index = .zero := by
  have outBound := valid.outBound
  have turned : index = (buffer.outOffs + (index + 10 - buffer.outOffs) % 10) % 10 := by omega
  have vacant : buffer.liveCount ≤ (index + 10 - buffer.outOffs) % 10 :=
    Nat.le_of_not_lt fun inside => notLive ⟨_, inside, turned⟩
  rw [turned]
  exact valid.vacant _ vacant (Nat.mod_lt _ (by decide))

theorem Live.mem_liveEntries {buffer : AesdCircularBuffer} {index : Nat}
    (live : buffer.Live index) : buffer.slot index ∈ buffer.liveEntries := by
  obtain ⟨offset, inside, rfl⟩ := live
  exact List.mem_map.mpr ⟨offset, List.mem_range.mpr inside, rfl⟩

theorem Valid.live_of_size_pos {buffer : AesdCircularBuffer} (valid : buffer.Valid) {index : Nat}
    (positive : 0 < (buffer.slot index).size) : buffer.slot index ∈ buffer.liveEntries := by
  have bound : index < 10 := by
    by_contra beyond
    have outside : ¬index < aesdcharMaxWriteOperationsSupported := beyond
    simp [slot, outside, AesdBufferEntry.zero] at positive
  by_contra notMember
  have vacant := valid.slot_of_not_live bound fun live => notMember live.mem_liveEntries
  simp [vacant, AesdBufferEntry.zero] at positive

theorem init_valid : aesdCircularBufferInit.Valid where
  inBound := by decide
  outBound := by decide
  fullMeets := by decide
  vacant := fun _ _ _ => slot_init _

@[simp] theorem init_liveEntries : aesdCircularBufferInit.liveEntries = [] := rfl

/-- All ten slots in ring order: the live entries, then cleared slots. -/
theorem Valid.rotation {buffer : AesdCircularBuffer} (valid : buffer.Valid) :
    readout buffer.slot 10 buffer.outOffs 10 =
      buffer.liveEntries ++ List.replicate (10 - buffer.liveCount) .zero := by
  have bounded := buffer.liveCount_le
  have split : readout buffer.slot 10 buffer.outOffs 10 =
      readout buffer.slot 10 buffer.outOffs (buffer.liveCount + (10 - buffer.liveCount)) := by
    rw [Nat.add_sub_cancel' bounded]
  rw [split, readout_add, liveEntries]
  congr 1
  refine List.eq_replicate_iff.mpr ⟨readout_length _ _ _ _, ?_⟩
  intro entry member
  obtain ⟨offset, inside, rfl⟩ := List.mem_map.mp member
  rw [Nat.add_assoc]
  apply valid.vacant _ (Nat.le_add_right _ _)
  have below := List.mem_range.mp inside
  omega

section AddEntry

variable {buffer : AesdCircularBuffer} (valid : buffer.Valid) (added : AesdBufferEntry)
include valid

private theorem addEntry_slot :
    (aesdCircularBufferAddEntry buffer added).2.slot =
      Function.update buffer.slot ((buffer.outOffs + buffer.liveCount) % 10) added := by
  rw [← valid.inOffs_eq, ← slot_setSlot buffer valid.inBound]
  rfl

theorem addEntry_liveCount :
    (aesdCircularBufferAddEntry buffer added).2.liveCount =
      if buffer.full then 10 else buffer.liveCount + 1 := by
  have inBound := valid.inBound
  have outBound := valid.outBound
  by_cases full : buffer.full = true
  · have meets := valid.fullMeets full
    simp [liveCount, aesdCircularBufferAddEntry, full, meets]
  · simp only [liveCount, aesdCircularBufferAddEntry, full, aesdcharMaxWriteOperationsSupported,
      Bool.false_eq_true, ↓reduceIte, decide_eq_true_eq]
    split <;> omega

/-- Adding appends, and drops the oldest entry exactly when the buffer is full. -/
theorem addEntry_liveEntries :
    (aesdCircularBufferAddEntry buffer added).2.liveEntries =
      (if buffer.full then buffer.liveEntries.tail else buffer.liveEntries) ++ [added] := by
  rw [liveEntries, addEntry_slot valid, addEntry_liveCount valid]
  by_cases full : buffer.full = true
  · have count := buffer.full_iff_liveCount.mp full
    have start : (aesdCircularBufferAddEntry buffer added).2.outOffs =
        (buffer.outOffs + 1) % 10 := by
      simp [aesdCircularBufferAddEntry, full, aesdcharMaxWriteOperationsSupported]
    rw [if_pos full, if_pos full, start, readout_mod, count, Nat.add_mod_right,
      readout_replace_oldest added (by omega), liveEntries, count]
  · have room : buffer.liveCount < 10 := by
      have bounded := buffer.liveCount_le
      have different : buffer.liveCount ≠ 10 := fun same => full (buffer.full_iff_liveCount.mpr same)
      omega
    have start : (aesdCircularBufferAddEntry buffer added).2.outOffs = buffer.outOffs := by
      simp [aesdCircularBufferAddEntry, full]
    rw [if_neg full, if_neg full, start, readout_push added room, liveEntries]

theorem addEntry_returned :
    (aesdCircularBufferAddEntry buffer added).1 =
      if buffer.full then (buffer.liveEntries.head?.bind (·.buffptr)) else none := by
  by_cases full : buffer.full = true
  · have count := buffer.full_iff_liveCount.mp full
    have meets := valid.fullMeets full
    have head : buffer.liveEntries.head? = some (buffer.slot buffer.outOffs) := by
      rw [liveEntries, count, readout_cons, Nat.mod_eq_of_lt valid.outBound, List.head?_cons]
    simp [aesdCircularBufferAddEntry, full, meets, head]
  · simp [aesdCircularBufferAddEntry, full]

theorem addEntry_valid : (aesdCircularBufferAddEntry buffer added).2.Valid where
  inBound := Nat.mod_lt _ (by decide)
  outBound := by
    simp only [aesdCircularBufferAddEntry, aesdcharMaxWriteOperationsSupported]
    split
    · omega
    · exact valid.outBound
  fullMeets := fun full => of_decide_eq_true full
  vacant := by
    rw [addEntry_liveCount valid, addEntry_slot valid]
    by_cases full : buffer.full = true
    · intro offset above below
      rw [if_pos full] at above
      omega
    · intro offset above below
      rw [if_neg full] at above
      have start : (aesdCircularBufferAddEntry buffer added).2.outOffs = buffer.outOffs := by
        simp [aesdCircularBufferAddEntry, full]
      rw [start, Function.update_of_ne]
      · exact valid.vacant offset (by omega) below
      · intro same
        have equal := offset_injective below (by omega) same
        omega

/-- The pointer that comes back and those still live are the former ones in
order, followed by the new one. -/
theorem addEntry_pointers :
    (aesdCircularBufferAddEntry buffer added).1.toList ++
        (aesdCircularBufferAddEntry buffer added).2.liveEntries.filterMap AesdBufferEntry.buffptr =
      buffer.liveEntries.filterMap AesdBufferEntry.buffptr ++ added.buffptr.toList := by
  have last : [added].filterMap AesdBufferEntry.buffptr = added.buffptr.toList := by
    cases pointer : added.buffptr <;> simp [pointer]
  rw [addEntry_returned valid, addEntry_liveEntries valid, List.filterMap_append, last]
  by_cases full : buffer.full = true
  · rw [if_pos full, if_pos full]
    cases live : buffer.liveEntries with
    | nil => rfl
    | cons oldest rest => cases pointer : oldest.buffptr <;> simp [pointer]
  · rw [if_neg full, if_neg full]
    rfl

end AddEntry

section Positions

def rotationSizes (buffer : AesdCircularBuffer) : List Nat :=
  (readout buffer.slot 10 buffer.outOffs 10).map AesdBufferEntry.size

/-- The running sums are exact while the remaining total fits an `int`. The
early exit on a zero sum needs that an empty first slot means an empty rest. -/
private theorem findEntryLoop_eq (buffer : AesdCircularBuffer) (position remaining i total : Nat)
    (fits : total + ((readout buffer.slot 10 i remaining).map AesdBufferEntry.size).sum < 2 ^ 31)
    (reached : total ≤ position)
    (empty : total = 0 → (buffer.slot (i % 10)).size = 0 →
      ((readout buffer.slot 10 i remaining).map AesdBufferEntry.size).sum = 0) :
    findEntryLoop buffer position remaining i total total =
      (locate ((readout buffer.slot 10 i remaining).map AesdBufferEntry.size)
        (position - total)).map fun found => ((i + found.1) % 10, found.2) := by
  induction remaining generalizing i total with
  | zero => rfl
  | succ remaining ih =>
      rw [readout_cons] at fits empty ⊢
      simp only [List.map_cons, List.sum_cons] at fits empty ⊢
      have exactSum : toInt32 ((total : Int) + (buffer.slot (i % 10)).size) =
          ((total + (buffer.slot (i % 10)).size : Nat) : Int) := by
        rw [toInt32_of_bounds (by omega) (by omega), Int.natCast_add]
      have exactSize : toSizeT ((total + (buffer.slot (i % 10)).size : Nat) : Int) =
          total + (buffer.slot (i % 10)).size := toSizeT_natCast (by omega)
      simp only [findEntryLoop, exactSum, exactSize, locate]
      by_cases zero : total + (buffer.slot (i % 10)).size = 0
      · have rest := empty (by omega) (by omega)
        have nothing : locate ((readout buffer.slot 10 (i + 1) remaining).map AesdBufferEntry.size)
            (position - total - (buffer.slot (i % 10)).size) = none :=
          (locate_eq_none_iff _ _).mpr (by omega)
        rw [if_pos (by omega), if_neg (by omega), nothing]
        rfl
      · rw [if_neg (by omega)]
        by_cases inside : position < total + (buffer.slot (i % 10)).size
        · have offset : toSizeT ((position : Int) - total) = position - total := by
            have exactly := toSizeT_of_bounds ((position : Int) - total) (by omega)
              (by omega)
            omega
          rw [if_pos inside, if_pos (by omega), offset]
          rfl
        · rw [if_neg inside, if_neg (by omega), ih (i + 1) _ (by omega) (by omega) (by omega),
            Option.map_map, Nat.sub_sub]
          refine congrArg (fun shift => Option.map shift _) (funext fun found => ?_)
          simp only [Function.comp_apply, Prod.mk.injEq, and_true]
          omega

/-- The lookup is `locate` on the slot sizes, counted from the read location. -/
theorem findEntry_eq_locate (buffer : AesdCircularBuffer) (position : Nat)
    (fits : buffer.rotationSizes.sum < 2 ^ 31)
    (empty : (buffer.slot (buffer.outOffs % 10)).size = 0 → buffer.rotationSizes.sum = 0) :
    aesdCircularBufferFindEntryOffsetForFpos buffer position =
      (locate buffer.rotationSizes position).map fun found =>
        ((buffer.outOffs + found.1) % 10, found.2) :=
  findEntryLoop_eq buffer position 10 buffer.outOffs 0 (by rw [Nat.zero_add]; exact fits) (Nat.zero_le _)
    (fun _ => empty)

/-- The `int` sum of the loop wraps, as the list sum does when it is stored. -/
private theorem getFposLoop_eq (buffer : AesdCircularBuffer) (buffPos remaining i : Nat)
    (total : Int) (count : Nat) (reached : count ≤ buffPos) :
    getFposLoop buffer buffPos remaining i (toInt32 total) count =
      toInt32 (total + (((readout buffer.slot 10 i remaining).map AesdBufferEntry.size).take
        (buffPos - count)).sum) := by
  induction remaining generalizing i total count with
  | zero => simp [getFposLoop]
  | succ remaining ih =>
      simp only [getFposLoop, aesdcharMaxWriteOperationsSupported]
      by_cases arrived : count = buffPos
      · simp [arrived]
      · obtain ⟨left, gap⟩ : ∃ left, buffPos - count = left + 1 := ⟨buffPos - count - 1, by omega⟩
        have next : buffPos - (count + 1) = left := by omega
        rw [if_neg arrived, toInt32_toInt32_add, ih (i + 1) _ (count + 1) (by omega), next, gap,
          readout_cons, List.map_cons, List.take_succ_cons, List.sum_cons, Int.natCast_add,
          Int.add_assoc]

/-- The file position is the exact one reduced to 32 bits. -/
theorem getFpos_eq (buffer : AesdCircularBuffer) (buffPos offset : Nat) :
    aesdCircularBufferGetFpos buffer buffPos offset =
      (((buffer.rotationSizes.take buffPos).sum + offset) % 2 ^ 32 : Nat) := by
  have start : (0 : Int) = toInt32 0 := (toInt32_of_bounds (Int.le_refl 0) (by decide)).symm
  rw [aesdCircularBufferGetFpos, start, getFposLoop_eq buffer buffPos _ _ 0 0 (Nat.zero_le _),
    toUInt32_toInt32_add, Int.zero_add, Nat.sub_zero, ← Int.natCast_add, toUInt32_natCast]
  rfl

end Positions

section LivePositions

variable {buffer : AesdCircularBuffer} (valid : buffer.Valid)
include valid

theorem Valid.rotationSizes_eq :
    buffer.rotationSizes =
      buffer.liveEntries.map AesdBufferEntry.size ++ List.replicate (10 - buffer.liveCount) 0 := by
  rw [rotationSizes, valid.rotation, List.map_append, List.map_replicate]
  rfl

theorem Valid.rotationSizes_sum :
    buffer.rotationSizes.sum = (buffer.liveEntries.map AesdBufferEntry.size).sum := by
  rw [valid.rotationSizes_eq, List.sum_append]
  simp

/-- With no empty entry, a position is looked up in the live sizes alone. -/
theorem Valid.find_eq (solid : ∀ entry ∈ buffer.liveEntries, 0 < entry.size)
    (fits : (buffer.liveEntries.map AesdBufferEntry.size).sum < 2 ^ 31) (position : Nat) :
    aesdCircularBufferFindEntryOffsetForFpos buffer position =
      (locate (buffer.liveEntries.map AesdBufferEntry.size) position).map fun found =>
        ((buffer.outOffs + found.1) % 10, found.2) := by
  rw [findEntry_eq_locate buffer position, valid.rotationSizes_eq, locate_append_zeros]
  · rwa [valid.rotationSizes_sum]
  · intro zero
    have firstSize : buffer.rotationSizes.head? =
        some (buffer.slot (buffer.outOffs % 10)).size := by
      rw [rotationSizes, readout_cons]
      rfl
    rw [zero, valid.rotationSizes_eq] at firstSize
    rw [valid.rotationSizes_sum]
    cases live : buffer.liveEntries with
    | nil => rfl
    | cons oldest rest =>
        rw [live] at firstSize
        have empty : oldest.size = 0 := by simpa using firstSize
        have positive := solid oldest (by simp [live])
        omega

/-- A live command starts behind the sizes of the older ones. -/
theorem Valid.getFpos_eq {buffPos : Nat} (live : buffPos ≤ buffer.liveCount) (offset : Nat) :
    aesdCircularBufferGetFpos buffer buffPos offset =
      ((((buffer.liveEntries.map AesdBufferEntry.size).take buffPos).sum + offset) % 2 ^ 32 :
        Nat) := by
  rw [AesdCircularBuffer.getFpos_eq, valid.rotationSizes_eq,
    List.take_append_of_le_length (by simpa using live)]

end LivePositions

end Aesd.Driver.AesdCircularBuffer
