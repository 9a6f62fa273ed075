import Aesd.Server.ReadFunctions

/-!
# Indices into the buffers of the server

The loops over `buf` and the terminators behind what was received, extracted or
read. A terminator goes one index past the bytes, so all indices are in range
exactly when the bytes leave room for it.
-/

set_option autoImplicit false

namespace Aesd.Server

open Driver

/-- The loop that searches the newline, from an index on. -/
def searchNewLine (buf : List UInt8) : Nat → Nat → Traced (Option Nat)
  | 0, _ => pure none
  | remaining + 1, i => do
      let byte ← Traced.load buf i
      if byte = some newline then pure (some i) else searchNewLine buf remaining (i + 1)

/-- The loop that copies into the new string, from an index on. -/
def copyToNewString (buf : List UInt8) : Nat → Nat → List UInt8 → Traced (List UInt8)
  | 0, _, newString => pure newString
  | remaining + 1, j, newString => do
      let byte ← Traced.load buf j
      let newString ← Traced.store newString j (byte.getD 0)
      copyToNewString buf remaining (j + 1) newString

def extractDataUpToNewlineTraced (buf : List UInt8) (nread : Nat) (malloc : Malloc) :
    Traced (Option (List UInt8) × Bool) := do
  let newLineIndex ← searchNewLine buf nread 0
  -- Without a newline, the index is that of the last byte.
  let newSize := newLineIndex.elim (nread + 1) (· + 2)
  match malloc.block newSize with
  | none => pure (none, newLineIndex.isSome)
  | some newString => do
      let newString ← copyToNewString buf newSize 0 newString
      let newString ← Traced.store newString (newSize - 1) 0
      pure (some newString, newLineIndex.isSome)

/-- A chunk received into `buf`, the terminator behind it and its extraction. -/
def receiveIntoBuf (buf bytes : List UInt8) (malloc : Malloc) :
    Traced (Option (List UInt8) × Bool) := do
  let buf ← Traced.store (fillFront buf bytes) bytes.length 0
  extractDataUpToNewlineTraced buf bytes.length malloc

section Loops

variable {buf : List UInt8}

theorem searchNewLine_safe {remaining i : Nat} (inside : i + remaining ≤ buf.length) :
    (searchNewLine buf remaining i).Safe := by
  induction remaining generalizing i with
  | zero => exact Traced.safe_pure _
  | succ remaining ih =>
      rw [searchNewLine, Traced.safe_bind, Traced.safe_load]
      refine ⟨by omega, ?_⟩
      split
      · exact Traced.safe_pure _
      · exact ih (by omega)

theorem searchNewLine_value {remaining i : Nat} (inside : i + remaining ≤ buf.length) :
    (searchNewLine buf remaining i).value =
      (((buf.drop i).take remaining).findIdx? (· == newline)).map (i + ·) := by
  induction remaining generalizing i with
  | zero => rfl
  | succ remaining ih =>
      have here : i < buf.length := by omega
      rw [searchNewLine, Logged.value_bind, Traced.value_load, List.drop_eq_getElem_cons here,
        List.take_succ_cons, List.findIdx?_cons, List.getElem?_eq_getElem here]
      by_cases ends : buf[i] = newline
      · simp [ends]
      · have goesOn : ¬(some buf[i] = some newline) := by simpa using ends
        have unequal : (buf[i] == newline) = false := by simpa using ends
        rw [if_neg goesOn, ih (by omega), unequal, if_neg Bool.false_ne_true, Option.map_map]
        refine congrArg (fun shift => Option.map shift _) (funext fun index => ?_)
        simp only [Function.comp_apply]
        omega

theorem copyToNewString_safe {remaining j : Nat} {newString : List UInt8}
    (readable : j + remaining ≤ buf.length) (writable : j + remaining ≤ newString.length) :
    (copyToNewString buf remaining j newString).Safe := by
  induction remaining generalizing j newString with
  | zero => exact Traced.safe_pure _
  | succ remaining ih =>
      rw [copyToNewString, Traced.safe_bind, Traced.safe_load, Traced.safe_bind, Traced.safe_store]
      refine ⟨by omega, by omega, ih (by omega) ?_⟩
      rw [Traced.value_store, List.length_set]
      omega

theorem copyToNewString_value {remaining j : Nat} {newString : List UInt8}
    (readable : j + remaining ≤ buf.length) (writable : j + remaining = newString.length)
    (copied : newString.take j = buf.take j) :
    (copyToNewString buf remaining j newString).value = buf.take (j + remaining) := by
  induction remaining generalizing j newString with
  | zero =>
      rw [copyToNewString, Logged.value_pure, Nat.add_zero, ← copied, List.take_of_length_le]
      omega
  | succ remaining ih =>
      have here : j < buf.length := by omega
      rw [copyToNewString, Logged.value_bind, Logged.value_bind, Traced.value_load,
        Traced.value_store, List.getElem?_eq_getElem here, Option.getD_some, ih]
      · rw [Nat.add_assoc, Nat.add_comm 1]
      · omega
      · rw [List.length_set]
        omega
      · have fits : j < newString.length := by omega
        have length : (newString.take j).length = j := List.length_take_of_le (by omega)
        rw [List.take_set, List.take_succ_eq_append_getElem fits,
          List.take_succ_eq_append_getElem here, ← copied,
          List.set_append_right _ _ (Nat.le_of_eq length), length, Nat.sub_self]
        rfl

theorem copyToNewString_whole {size : Nat} {newString : List UInt8} (inside : size ≤ buf.length)
    (length : newString.length = size) :
    (copyToNewString buf size 0 newString).value = buf.take size := by
  have copied := @copyToNewString_value buf size 0 newString (by omega) (by omega) rfl
  rwa [Nat.zero_add] at copied

end Loops

theorem Malloc.length_block {malloc : Malloc} {size : Nat} {block : List UInt8}
    (granted : malloc.block size = some block) : block.length = size := by
  unfold Malloc.block at granted
  split at granted
  · cases granted
  · cases granted
    simp

theorem length_fillFront {buffer bytes : List UInt8} (fits : bytes.length ≤ buffer.length) :
    (fillFront buffer bytes).length = buffer.length := by
  rw [fillFront, List.length_append, List.length_drop]
  omega

section Extraction

variable {buf bytes : List UInt8} {nread : Nat}

theorem newSize_le (inside : nread ≤ buf.length) :
    (searchNewLine buf nread 0).value.elim (nread + 1) (· + 2) ≤ nread + 1 := by
  rw [searchNewLine_value (by omega)]
  cases found : ((buf.drop 0).take nread).findIdx? (· == newline) with
  | none => exact Nat.le_refl _
  | some index =>
      have below := (List.findIdx?_eq_some_iff_getElem.mp found).1
      rw [List.length_take] at below
      simp only [Option.map_some, Option.elim_some]
      omega

/-- The copy goes one past the last byte it needs, so the terminator of what was
received must be there. -/
theorem extractDataUpToNewlineTraced_safe (malloc : Malloc) (room : nread < buf.length) :
    (extractDataUpToNewlineTraced buf nread malloc).Safe := by
  have bounded := newSize_le (Nat.le_of_lt room)
  rw [extractDataUpToNewlineTraced, Traced.safe_bind]
  refine ⟨searchNewLine_safe (by omega), ?_⟩
  dsimp only
  split
  · exact Traced.safe_pure _
  · next newString granted =>
      have length := Malloc.length_block granted
      rw [Traced.safe_bind, Traced.safe_bind, Traced.safe_store]
      refine ⟨copyToNewString_safe (by omega) (by omega), ?_, Traced.safe_pure _⟩
      rw [copyToNewString_whole (by omega) length, List.length_take]
      have positive : 0 < (searchNewLine buf nread 0).value.elim (nread + 1) (· + 2) := by
        cases (searchNewLine buf nread 0).value <;> exact Nat.succ_pos _
      omega

theorem receiveIntoBuf_safe_iff (malloc : Malloc) (received : bytes.length ≤ buf.length) :
    (receiveIntoBuf buf bytes malloc).Safe ↔ bytes.length < buf.length := by
  rw [receiveIntoBuf, Traced.safe_bind, Traced.safe_store, Traced.value_store,
    length_fillFront received]
  refine ⟨And.left, fun room => ⟨room, extractDataUpToNewlineTraced_safe malloc ?_⟩⟩
  rwa [List.length_set, length_fillFront received]

theorem extractDataUpToNewlineTraced_value (malloc : Malloc) (bytes rest : List UInt8) :
    (extractDataUpToNewlineTraced (bytes ++ 0 :: rest) bytes.length malloc).value =
      extractDataUpToNewline (bytes ++ [0]) bytes.length malloc.fails := by
  have room : bytes.length < (bytes ++ 0 :: rest).length := by simp
  have bounded := newSize_le (Nat.le_of_lt room)
  have leading : ∀ size ≤ bytes.length + 1,
      (bytes ++ 0 :: rest).take size = (bytes ++ [0]).take size := by
    intro size inside
    rw [List.append_cons, List.take_append_of_le_length (by simpa using inside)]
  have found := searchNewLine_value (Nat.le_of_lt ((Nat.zero_add _).trans_lt room))
  rw [List.drop_zero, List.take_left] at found
  have text : (bytes ++ [0]).take bytes.length = bytes := List.take_left
  unfold extractDataUpToNewlineTraced extractDataUpToNewline Malloc.block
  simp only [Logged.value_bind, found, text] at bounded ⊢
  cases malloc.fails with
  | true => cases bytes.findIdx? (· == newline) <;> rfl
  | false =>
      have copied : ∀ size ≤ bytes.length + 1,
          (copyToNewString (bytes ++ 0 :: rest) size 0
            ((List.range size).map malloc.garbage)).value = (bytes ++ [0]).take size := by
        intro size inside
        rw [copyToNewString_whole (by simp; omega) (by simp), leading size inside]
      cases newLine : bytes.findIdx? (· == newline) with
      | none => simp [copied _ (Nat.le_refl _)]
      | some index =>
          rw [newLine] at bounded
          have inside : index + 2 ≤ bytes.length + 1 := by simpa using bounded
          simp [copied _ inside]

/-- Where there is room for the terminator, the loops extract what the model of
the receive loop says. -/
theorem receiveIntoBuf_value (malloc : Malloc) (room : bytes.length < buf.length) :
    (receiveIntoBuf buf bytes malloc).value =
      extractDataUpToNewline (bytes ++ [0]) bytes.length malloc.fails := by
  have terminated : (fillFront buf bytes).set bytes.length 0 =
      bytes ++ 0 :: buf.drop (bytes.length + 1) := by
    rw [fillFront, List.drop_eq_getElem_cons room, List.set_append_right _ _ (Nat.le_refl _),
      Nat.sub_self, List.set_cons_zero]
  rw [receiveIntoBuf, Logged.value_bind, Traced.value_store, terminated]
  exact extractDataUpToNewlineTraced_value malloc _ _

end Extraction

theorem readCharDevice_safe_iff {File : Type} (stdio : Stdio File) (malloc : Malloc)
    (foundCmd : Bool) (writeCmd writeCmdOffset : BitVec 32)
    (delivered : (stdio.fread (charDeviceFile stdio foundCmd writeCmd writeCmdOffset)
      bufferSize).length ≤ bufferSize) :
    (readCharDevice stdio malloc foundCmd writeCmd writeCmdOffset).Safe ↔
      malloc.fails = true ∨ (stdio.fread (charDeviceFile stdio foundCmd writeCmd writeCmdOffset)
        bufferSize).length < bufferSize := by
  unfold readCharDevice
  split
  · next refused =>
      have fails : malloc.fails = true := by simpa [Malloc.block] using refused
      simp [fails]
  · next block granted =>
      have length := Malloc.length_block granted
      have succeeds : malloc.fails = false := by
        simpa [Malloc.block] using Option.isSome_of_mem granted
      have filled := length_fillFront (delivered.trans_eq length.symm)
      simp [succeeds, filled, length]

theorem terminator_mem_readCharDevice {File : Type} (stdio : Stdio File) (garbage : Nat → UInt8)
    (foundCmd : Bool) (writeCmd writeCmdOffset : BitVec 32)
    (delivered : (stdio.fread (charDeviceFile stdio foundCmd writeCmd writeCmdOffset)
      bufferSize).length ≤ bufferSize) :
    ⟨(stdio.fread (charDeviceFile stdio foundCmd writeCmd writeCmdOffset) bufferSize).length,
        bufferSize⟩ ∈
      (readCharDevice stdio ⟨false, garbage⟩ foundCmd writeCmd writeCmdOffset).log := by
  rw [readCharDevice, Malloc.block, if_neg Bool.false_ne_true]
  dsimp only
  rw [Logged.log_bind, Traced.log_store, length_fillFront (by simpa using delivered)]
  simp

/-- Every index into `buf`, the new string and the block of `read_char_device` is
in range exactly when the chunk leaves room for a terminator in `buf`, and what
`fread` delivers does so in the block, if there is a block. -/
theorem buffer_indices_in_range_iff {buf bytes : List UInt8} (capacity : buf.length = bufferSize)
    (received : bytes.length ≤ bufferSize) (malloc : Malloc) {File : Type} (stdio : Stdio File)
    (fileMalloc : Malloc) (foundCmd : Bool) (writeCmd writeCmdOffset : BitVec 32)
    (delivered : (stdio.fread (charDeviceFile stdio foundCmd writeCmd writeCmdOffset)
      bufferSize).length ≤ bufferSize) :
    (receiveIntoBuf buf bytes malloc).Safe ∧
        (readCharDevice stdio fileMalloc foundCmd writeCmd writeCmdOffset).Safe ↔
      bytes.length < bufferSize ∧ (fileMalloc.fails = true ∨
        (stdio.fread (charDeviceFile stdio foundCmd writeCmd writeCmdOffset)
          bufferSize).length < bufferSize) := by
  rw [receiveIntoBuf_safe_iff malloc (received.trans_eq capacity.symm), capacity,
    readCharDevice_safe_iff stdio fileMalloc foundCmd writeCmd writeCmdOffset delivered]

/-- A file that is always at its start and of which `fread` delivers some bytes. -/
def Stdio.delivering (bytes : List UInt8) : Stdio Unit where
  fopen := ()
  ioctl := fun _ _ => ()
  fseek := fun _ _ _ => ()
  ftell := fun _ => bytes.length
  fread := fun _ requested => bytes.take requested

theorem buffer_indices_in_range_iff_one_line :
    (receiveIntoBuf (List.replicate bufferSize 0) [97, newline] ⟨false, fun _ => 0⟩).Safe ∧
        (readCharDevice (.delivering [97, newline]) ⟨false, fun _ => 0⟩ false 0 0).Safe ↔
      [(97 : UInt8), newline].length < bufferSize ∧ (false = true ∨
        ((Stdio.delivering [97, newline]).fread (charDeviceFile (.delivering [97, newline]) false 0 0)
          bufferSize).length < bufferSize) :=
  buffer_indices_in_range_iff List.length_replicate (by decide) _ _ ⟨false, fun _ => 0⟩ _ _ _
    (by decide)

/-- A chunk of `BUFFER_SIZE` bytes puts the terminator behind `buf`, and contents
of `BUFFER_SIZE` bytes put it behind the block. -/
theorem terminators_behind_buffers :
    (⟨bufferSize, bufferSize⟩ : Access) ∈ (receiveIntoBuf (List.replicate bufferSize 0)
      (List.replicate bufferSize 97) ⟨false, fun _ => 0⟩).log ∧
    (⟨bufferSize, bufferSize⟩ : Access) ∈ (readCharDevice
      (.delivering (List.replicate bufferSize 97)) ⟨false, fun _ => 0⟩ false 0 0).log ∧
    ¬(⟨bufferSize, bufferSize⟩ : Access).InRange ∧
    ¬((receiveIntoBuf (List.replicate bufferSize 0) (List.replicate bufferSize 97)
        ⟨false, fun _ => 0⟩).Safe ∧
      (readCharDevice (.delivering (List.replicate bufferSize 97)) ⟨false, fun _ => 0⟩ false 0
        0).Safe) := by
  have outside : ¬(⟨bufferSize, bufferSize⟩ : Access).InRange := Nat.lt_irrefl _
  have whole : (List.replicate bufferSize (97 : UInt8)).length = bufferSize := List.length_replicate
  have received : (⟨bufferSize, bufferSize⟩ : Access) ∈ (receiveIntoBuf
      (List.replicate bufferSize 0) (List.replicate bufferSize 97) ⟨false, fun _ => 0⟩).log := by
    rw [receiveIntoBuf, Logged.log_bind, Traced.log_store, length_fillFront (by simp)]
    simp
  refine ⟨received, ?_, outside, fun safe => outside (safe.1 _ received)⟩
  have fread : (Stdio.delivering (List.replicate bufferSize 97)).fread (charDeviceFile
      (.delivering (List.replicate bufferSize 97)) false 0 0) bufferSize =
        List.replicate bufferSize 97 := List.take_of_length_le (Nat.le_of_eq whole)
  have fits : ((Stdio.delivering (List.replicate bufferSize 97)).fread (charDeviceFile
      (.delivering (List.replicate bufferSize 97)) false 0 0) bufferSize).length ≤ bufferSize := by
    rw [fread, whole]
  have terminator := terminator_mem_readCharDevice _ (fun _ => 0) false 0 0 fits
  rwa [fread, whole] at terminator

end Aesd.Server
