import Aesd.Driver.System

/-!
# What failing and succeeding operations change

A negative return value means that the entries, their bytes and the position are
as before. A read or write that returns a count moves the position by it.
-/

set_option autoImplicit false

namespace Aesd.Driver

open Transition

def FixedSizeLlseek.KeepsPositionOnFailure (fixedSizeLlseek : FixedSizeLlseek) : Prop :=
  ∀ position off whence size, (fixedSizeLlseek position off whence size).1 < 0 →
    (fixedSizeLlseek position off whence size).2 = position

structure SameContents (before after : Kernel) : Prop where
  circularBuffer : after.device.circularBuffer = before.device.circularBuffer
  bufferEntry : after.device.bufferEntry = before.device.bufferEntry
  ringBytes : after.ringBytes = before.ringBytes
  pendingBytes : after.pendingBytes = before.pendingBytes

theorem SameContents.refl (kernel : Kernel) : SameContents kernel kernel := ⟨rfl, rfl, rfl, rfl⟩

theorem SameData.sameContents {before after : Kernel} (same : SameData before after) :
    SameContents before after :=
  ⟨same.circularBuffer, same.bufferEntry, same.ringBytes_eq, same.pendingBytes_eq⟩

theorem Represents.sameContents {before after : Kernel} {log : RecordLog UInt8}
    (earlier : Represents before log) (later : Represents after log)
    (device : after.device = before.device) : SameContents before after where
  circularBuffer := congrArg AesdDev.circularBuffer device
  bufferEntry := congrArg AesdDev.bufferEntry device
  ringBytes := later.ring.trans earlier.ring.symm
  pendingBytes := later.current.trans earlier.current.symm

/-- Appending a piece adds exactly its bytes behind everything still stored; at
most the oldest command leaves at the front. -/
theorem Represents.append_stored {before after : Kernel} {log : RecordLog UInt8}
    {piece : List UInt8} {closes : Bool} (earlier : Represents before log)
    (later : Represents after (log.append piece closes)) :
    ∃ evicted, evicted <+: before.ringBytes ∧ evicted.length ≤ 1 ∧
      evicted.flatten ++ after.ringBytes.flatten ++ after.pendingBytes =
        before.ringBytes.flatten ++ before.pendingBytes ++ piece := by
  rw [earlier.ringBytes_eq, earlier.pendingBytes_eq, later.ringBytes_eq, later.pendingBytes_eq]
  cases closes with
  | false => exact ⟨[], List.nil_prefix, Nat.zero_le _, by simp [RecordLog.retained]⟩
  | true =>
      rw [RecordLog.retained_append_closing (by decide)]
      by_cases room : log.completed.length < 10
      · exact ⟨[], List.nil_prefix, Nat.zero_le _, by simp [room]⟩
      · refine ⟨(log.retained 10).take 1, List.take_prefix _ _, List.length_take_le _ _, ?_⟩
        have whole := congrArg List.flatten (List.take_append_drop 1 (log.retained 10))
        rw [List.flatten_append] at whole
        simp [room, ← whole]

section Outcomes

variable {fixedSizeLlseek : FixedSizeLlseek} {system : System} {log : RecordLog UInt8}
  {operation : Operation} {retval position : Int} {after : Kernel} {delivered : List UInt8}

theorem operate_failed (keeps : fixedSizeLlseek.KeepsPositionOnFailure)
    (represents : Represents system.kernel log)
    (returned : operate fixedSizeLlseek system operation =
      .returned retval position after delivered) (failed : retval < 0) :
    SameContents system.kernel after ∧ position = system.fPos operation.file := by
  cases operation with
  | read file call =>
      obtain ⟨rfl, ⟨_, same⟩ | ⟨nonnegative, _⟩⟩ := aesdRead_returned returned
      · exact ⟨.refl _, same⟩
      · omega
  | write file call =>
      rcases aesdWrite_returned represents returned with
        ⟨_, same, kept, device⟩ | ⟨count, _⟩
      · exact ⟨represents.sameContents kept device, same⟩
      · omega
  | llseek file call =>
      obtain ⟨rfl, ⟨_, same⟩ | sought⟩ := aesdLlseek_returned returned
      · exact ⟨.refl _, same⟩
      · refine ⟨.refl _, (congrArg Prod.snd sought).trans (keeps _ _ _ _ ?_)⟩
        rwa [← congrArg Prod.fst sought]
  | ioctl file call =>
      obtain ⟨same, ⟨_, kept⟩ | success⟩ := aesdUnlockedIoctl_returned returned
      · exact ⟨same.sameContents, kept⟩
      · omega

theorem aesdRead_succeeded {kernel : Kernel} {fPos : Int} {call : ReadCall}
    (returned : aesdRead kernel fPos call = .returned retval position after delivered)
    (succeeded : 0 ≤ retval) : SameContents kernel after ∧ position = fPos + retval := by
  obtain ⟨rfl, ⟨negative, _⟩ | ⟨_, moved⟩⟩ := aesdRead_returned returned
  · omega
  · exact ⟨.refl _, moved⟩

theorem aesdWrite_succeeded {kernel : Kernel} {fPos : Int} {call : WriteCall}
    (represents : Represents kernel log)
    (returned : aesdWrite kernel fPos call = .returned retval position after delivered)
    (succeeded : 0 ≤ retval) :
    position = fPos + retval ∧ retval = (call.data.take retval.toNat).length ∧
    ∃ evicted, evicted <+: kernel.ringBytes ∧ evicted.length ≤ 1 ∧
      evicted.flatten ++ after.ringBytes.flatten ++ after.pendingBytes =
        kernel.ringBytes.flatten ++ kernel.pendingBytes ++ call.data.take retval.toNat := by
  rcases aesdWrite_returned represents returned with ⟨negative, _⟩ | ⟨count, moved, grown, _⟩
  · omega
  · have accepted : call.data.take retval.toNat = call.accepted := by
      rw [count, Int.toNat_natCast]
      rfl
    rw [accepted]
    refine ⟨by rw [moved, count], by rw [call.accepted_length, count], ?_⟩
    exact represents.append_stored grown

end Outcomes

/-- In every reachable state, an operation that fails leaves the entries, the
pending bytes and the position; a read or write that returns a count moves the
position by it, a read keeping all data and a write adding that many bytes. -/
theorem failed_operations_change_no_data {fixedSizeLlseek : FixedSizeLlseek}
    (keeps : fixedSizeLlseek.KeepsPositionOnFailure) {first system : System} {events : List Event}
    (loaded : Loaded first) (run : Run (Step fixedSizeLlseek) first events system)
    {operation : Operation} {retval position : Int} {after : Kernel} {delivered : List UInt8}
    (returned : operate fixedSizeLlseek system operation =
      .returned retval position after delivered) :
    (retval < 0 → SameContents system.kernel after ∧ position = system.fPos operation.file) ∧
    (∀ file call, operation = .read file call → 0 ≤ retval →
      SameContents system.kernel after ∧ position = system.fPos file + retval) ∧
    ∀ file call, operation = .write file call → 0 ≤ retval →
      position = system.fPos file + retval ∧ retval = (call.data.take retval.toNat).length ∧
      ∃ evicted, evicted <+: system.kernel.ringBytes ∧ evicted.length ≤ 1 ∧
        evicted.flatten ++ after.ringBytes.flatten ++ after.pendingBytes =
          system.kernel.ringBytes.flatten ++ system.kernel.pendingBytes ++
            call.data.take retval.toNat := by
  obtain ⟨log, represents⟩ := run_represents run ⟨_, loaded.represents.1⟩
  refine ⟨operate_failed keeps represents returned, ?_, ?_⟩
  · rintro file call rfl succeeded
    exact aesdRead_succeeded returned succeeded
  · rintro file call rfl succeeded
    exact aesdWrite_succeeded represents returned succeeded

theorem vfsFixedSizeLlseek_keeps : vfsFixedSizeLlseek.KeepsPositionOnFailure := by
  intro position off whence size failed
  unfold vfsFixedSizeLlseek at failed ⊢
  generalize (if whence = 0 then off else if whence = 1 then position + off else size + off) =
    target at failed ⊢
  dsimp only at failed ⊢
  by_cases current : whence = 1 ∧ off = 0
  · rw [if_pos current]
  · rw [if_neg current] at failed ⊢
    by_cases rejected : whence < 0 ∨ 2 < whence ∨ target < 0 ∨ size < target
    · rw [if_pos rejected]
    · rw [if_neg rejected] at failed
      omega

theorem failed_operations_change_no_data_after_write :
    let write := Operation.write 0 (.whole [97, newline] (some 1) none)
    let system := loadedSystem.after vfsFixedSizeLlseek write
    (∃ after, operate vfsFixedSizeLlseek system (.read 1 ⟨2, false, 1⟩) =
        .returned (-efault) 0 after [97] ∧ SameContents system.kernel after) ∧
    ∃ after, operate vfsFixedSizeLlseek system (.write 0 (.whole [98] none none)) =
        .returned (-enomem) 2 after [] ∧ SameContents system.kernel after := by
  intro write system
  have run : Run (Step vfsFixedSizeLlseek) loadedSystem [⟨write, 2, []⟩] system :=
    .single ⟨_, _, rfl, rfl⟩
  have read : ∃ after, operate vfsFixedSizeLlseek system (.read 1 ⟨2, false, 1⟩) =
      .returned (-efault) 0 after [97] := ⟨_, rfl⟩
  have full : ∃ after, operate vfsFixedSizeLlseek system (.write 0 (.whole [98] none none)) =
      .returned (-enomem) 2 after [] := ⟨_, rfl⟩
  obtain ⟨afterRead, faulted⟩ := read
  obtain ⟨afterFull, refused⟩ := full
  have unread := failed_operations_change_no_data vfsFixedSizeLlseek_keeps loadedSystem_loaded run
    faulted
  have unwritten := failed_operations_change_no_data vfsFixedSizeLlseek_keeps loadedSystem_loaded
    run refused
  exact ⟨⟨_, faulted, (unread.1 (by decide)).1⟩, _, refused, (unwritten.1 (by decide)).1⟩

end Aesd.Driver
