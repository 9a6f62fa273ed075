import Aesd.Driver.CircularBufferProperties
import Aesd.Library.RecordLog
import Mathlib.Data.List.ReduceOption

/-!
# Runs of additions to the circular buffer

Adding entries in order keeps the ten newest of them. Each call hands back the
pointer of the entry that the call pushes out of the buffer, and no other.
-/

set_option autoImplicit false

namespace Aesd.Driver

open AesdCircularBuffer

/-- Add entries in order: what each call hands back, and the buffer they leave. -/
def addEntries (buffer : AesdCircularBuffer) :
    List AesdBufferEntry → List (Option Address) × AesdCircularBuffer
  | [] => ([], buffer)
  | entry :: entries =>
      let added := aesdCircularBufferAddEntry buffer entry
      let later := addEntries added.2 entries
      (added.1 :: later.1, later.2)

/-- The buffer holds the ten newest entries of a history. -/
structure Retains (buffer : AesdCircularBuffer) (history : List AesdBufferEntry) : Prop where
  valid : buffer.Valid
  live : buffer.liveEntries = history.rtake 10

/-- What the call after a history hands back: the entry ten calls ago leaves. -/
def handedBack (history : List AesdBufferEntry) : Option Address :=
  if history.length < 10 then none else history[history.length - 10]?.bind AesdBufferEntry.buffptr

theorem init_retains : Retains aesdCircularBufferInit [] := ⟨init_valid, rfl⟩

section Retains

variable {buffer : AesdCircularBuffer} {history : List AesdBufferEntry}

theorem Retains.liveCount_eq (retains : Retains buffer history) :
    buffer.liveCount = min history.length 10 := by
  rw [← liveEntries_length, retains.live, List.rtake, List.length_drop]
  omega

theorem Retains.full_iff (retains : Retains buffer history) :
    buffer.full = true ↔ 10 ≤ history.length := by
  rw [full_iff_liveCount, retains.liveCount_eq]
  omega

theorem Retains.addEntry (retains : Retains buffer history) (entry : AesdBufferEntry) :
    Retains (aesdCircularBufferAddEntry buffer entry).2 (history ++ [entry]) where
  valid := addEntry_valid retains.valid entry
  live := by
    rw [addEntry_liveEntries retains.valid, rtake_concat (by decide), ← retains.live]
    by_cases full : buffer.full = true
    · have many := retains.full_iff.mp full
      rw [if_pos full, if_neg (by omega)]
    · have few : ¬10 ≤ history.length := fun many => full (retains.full_iff.mpr many)
      rw [if_neg full, if_pos (by omega)]

theorem Retains.handedBack_eq (retains : Retains buffer history) (entry : AesdBufferEntry) :
    (aesdCircularBufferAddEntry buffer entry).1 = handedBack history := by
  rw [addEntry_returned retains.valid, handedBack]
  by_cases full : buffer.full = true
  · have many := retains.full_iff.mp full
    rw [if_pos full, if_neg (by omega), retains.live, List.rtake, List.head?_drop]
  · have few : ¬10 ≤ history.length := fun many => full (retains.full_iff.mpr many)
    rw [if_neg full, if_pos (by omega)]

theorem Retains.addEntries (retains : Retains buffer history) (entries : List AesdBufferEntry) :
    Retains (addEntries buffer entries).2 (history ++ entries) := by
  induction entries generalizing buffer history with
  | nil => simpa [Driver.addEntries] using retains
  | cons entry entries ih =>
      have later := ih (retains.addEntry entry)
      rwa [List.append_assoc] at later

theorem Retains.addEntries_handedBack (retains : Retains buffer history)
    (entries : List AesdBufferEntry) :
    (Driver.addEntries buffer entries).1 =
      (List.range entries.length).map fun call => handedBack (history ++ entries.take call) := by
  induction entries generalizing buffer history with
  | nil => rfl
  | cons entry entries ih =>
      rw [Driver.addEntries, List.length_cons, List.range_succ_eq_map, List.map_cons,
        List.map_map]
      dsimp only
      rw [retains.handedBack_eq, ih (retains.addEntry entry)]
      simp [Function.comp_def]

end Retains

theorem addEntries_pointers {buffer : AesdCircularBuffer} (valid : buffer.Valid)
    (entries : List AesdBufferEntry) :
    (addEntries buffer entries).1.reduceOption ++
        (addEntries buffer entries).2.liveEntries.filterMap AesdBufferEntry.buffptr =
      buffer.liveEntries.filterMap AesdBufferEntry.buffptr ++
        entries.filterMap AesdBufferEntry.buffptr := by
  induction entries generalizing buffer with
  | nil => simp [addEntries]
  | cons entry entries ih =>
      have first := addEntry_pointers valid entry
      have later := ih (addEntry_valid valid entry)
      have here : (addEntries buffer (entry :: entries)).1.reduceOption =
          (aesdCircularBufferAddEntry buffer entry).1.toList ++
            (addEntries (aesdCircularBufferAddEntry buffer entry).2 entries).1.reduceOption := by
        cases back : (aesdCircularBufferAddEntry buffer entry).1 <;> simp [addEntries, back]
      have head : (entry :: entries).filterMap AesdBufferEntry.buffptr =
          entry.buffptr.toList ++ entries.filterMap AesdBufferEntry.buffptr := by
        cases pointer : entry.buffptr <;> simp [pointer]
      calc (addEntries buffer (entry :: entries)).1.reduceOption ++
            (addEntries buffer (entry :: entries)).2.liveEntries.filterMap AesdBufferEntry.buffptr
          = (aesdCircularBufferAddEntry buffer entry).1.toList ++
              ((aesdCircularBufferAddEntry buffer entry).2.liveEntries.filterMap
                AesdBufferEntry.buffptr ++ entries.filterMap AesdBufferEntry.buffptr) := by
            rw [here, List.append_assoc, ← later]
            rfl
        _ = buffer.liveEntries.filterMap AesdBufferEntry.buffptr ++
              (entry :: entries).filterMap AesdBufferEntry.buffptr := by
            rw [← List.append_assoc, first, List.append_assoc, ← head]

/-- From an initialised buffer, the ten newest entries are live, oldest first,
and every other slot is cleared. The calls hand back, one by one and in order,
the pointers of the entries that leave, each by the call that pushes it out. -/
theorem addEntries_keeps_ten_newest (entries : List AesdBufferEntry) :
    let ring := fun history => (addEntries aesdCircularBufferInit history).2
    let returned := (addEntries aesdCircularBufferInit entries).1
    (ring entries).inOffs < 10 ∧ (ring entries).outOffs < 10 ∧
    ((ring entries).full = true ↔ 10 ≤ entries.length) ∧
    (ring entries).liveEntries = entries.drop (entries.length - min entries.length 10) ∧
    (∀ index < 10, ¬(ring entries).Live index → (ring entries).slot index = ⟨none, 0⟩) ∧
    returned.length = entries.length ∧
    (∀ call < entries.length, returned[call]? =
      some (if call < 10 then none else entries[call - 10]?.bind AesdBufferEntry.buffptr)) ∧
    (∀ call entry, entries[call]? = some entry →
      (10 ≤ call → (ring (entries.take call)).liveEntries.head? = entries[call - 10]?) ∧
      (ring (entries.take (call + 1))).liveEntries =
        (if call < 10 then (ring (entries.take call)).liveEntries
          else (ring (entries.take call)).liveEntries.tail) ++ [entry]) ∧
    returned.reduceOption ++ (ring entries).liveEntries.filterMap AesdBufferEntry.buffptr =
      entries.filterMap AesdBufferEntry.buffptr := by
  intro ring returned
  have retains : ∀ history, Retains (ring history) history := fun history =>
    init_retains.addEntries history
  have handed : returned =
      (List.range entries.length).map fun call => handedBack (entries.take call) :=
    init_retains.addEntries_handedBack entries
  have valid := (retains entries).valid
  refine ⟨valid.inBound, valid.outBound, (retains entries).full_iff, ?_,
    fun index bound => valid.slot_of_not_live bound, by simp [handed], ?_, ?_,
    addEntries_pointers init_valid entries⟩
  · rw [(retains entries).live, List.rtake]
    congr 1
    omega
  · intro call inside
    rw [handed, List.getElem?_map, List.getElem?_range inside, Option.map_some, handedBack,
      List.length_take, Nat.min_eq_left (Nat.le_of_lt inside)]
    split
    · rfl
    · rw [List.getElem?_take_of_lt (by omega)]
  · intro call entry called
    have inside := (List.getElem?_eq_some_iff.mp called).1
    have length : (entries.take call).length = call := by
      rw [List.length_take, Nat.min_eq_left (Nat.le_of_lt inside)]
    constructor
    · intro many
      rw [(retains _).live, List.rtake, List.head?_drop, length,
        List.getElem?_take_of_lt (by omega)]
    · rw [(retains _).live, (retains _).live, List.take_add_one, called, Option.toList_some,
        rtake_concat (by decide), length]

end Aesd.Driver
