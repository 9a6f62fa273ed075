import Aesd.Driver.WholeWrites

/-!
# Short copies

A caller whose buffer is copied only in part submits the rest again. When it is
done, the device is as after one write of the whole buffer: a short copy is
padded with zero bytes, so it never closes a command, wherever it stops.
-/

set_option autoImplicit false

namespace Aesd.Driver

open Transition

/-- One submission of some bytes, uninterrupted and with its allocations granted. -/
structure Submits (fixedSizeLlseek : FixedSizeLlseek) (file : Nat) (system : System)
    (call : WriteCall) (retval : Int) (next : System) : Prop where
  moved : Step fixedSizeLlseek system ⟨.write file call, retval, []⟩ next
  uninterrupted : call.interrupted = false
  allocated : call.AllocationsSucceed system.kernel

/-- A caller submits bytes until all of them are accepted, each time those that
were not accepted before. Other operations may come between, but no write; the
integers are what the submissions return. -/
inductive Resubmits (fixedSizeLlseek : FixedSizeLlseek) (file : Nat) :
    System → List UInt8 → List Int → System → Prop where
  | accepted {system next : System} {call : WriteCall} {retval : Int}
      (submits : Submits fixedSizeLlseek file system call retval next)
      (all : retval = call.data.length) :
      Resubmits fixedSizeLlseek file system call.data [retval] next
  | short {system next last : System} {call : WriteCall} {retval : Int} {counts : List Int}
      (submits : Submits fixedSizeLlseek file system call retval next)
      (zeroFills : call.ZeroFills) (part : retval < call.data.length)
      (rest : Resubmits fixedSizeLlseek file next (call.data.drop retval.toNat) counts last) :
      Resubmits fixedSizeLlseek file system call.data (retval :: counts) last
  | between {system next last : System} {event : Event} {data : List UInt8} {counts : List Int}
      (moved : Step fixedSizeLlseek system event next)
      (noWriter : ∀ other call, event.operation ≠ .write other call)
      (rest : Resubmits fixedSizeLlseek file next data counts last) :
      Resubmits fixedSizeLlseek file system data counts last

section Submits

variable {fixedSizeLlseek : FixedSizeLlseek} {file : Nat} {system next : System}
  {call : WriteCall} {retval : Int} {log : RecordLog UInt8}

theorem Submits.counts (submits : Submits fixedSizeLlseek file system call retval next)
    (represents : Represents system.kernel log) (nonempty : call.data ≠ []) :
    retval = call.usrCount := by
  obtain ⟨⟨position, kernel, returned, _⟩, uninterrupted, allocated⟩ := submits
  have ran : aesdWrite system.kernel (system.fPos file) call =
    .returned retval position kernel [] := returned
  have free : system.kernel.device.lock = false := by
    cases held : system.kernel.device.lock with
    | true =>
        simp [aesdWrite, underLock, mutexLockInterruptible, uninterrupted, held] at ran
    | false => rfl
  obtain ⟨_, _, wrote⟩ := aesdWrite_granted represents free (system.fPos file) nonempty
    uninterrupted allocated
  cases ran.symm.trans wrote
  rfl

theorem Submits.represents (submits : Submits fixedSizeLlseek file system call retval next)
    (represents : Represents system.kernel log) (nonempty : call.data ≠ []) :
    retval = call.usrCount ∧
      Represents next.kernel (log.append call.accepted call.closes) := by
  have count := submits.counts represents nonempty
  rcases submits.moved.represents represents with
    ⟨_, failed⟩ | ⟨_, _, written, _, grown, _⟩
  · have negative : retval < 0 := failed file call rfl
    omega
  · cases written
    exact ⟨count, grown⟩

theorem Submits.represents_short (submits : Submits fixedSizeLlseek file system call retval next)
    (represents : Represents system.kernel log) (nonempty : call.data ≠ [])
    (zeroFills : call.ZeroFills) (part : retval < call.data.length) :
    0 ≤ retval ∧ Represents next.kernel (log.append (call.data.take retval.toNat) false) := by
  obtain ⟨count, grown⟩ := submits.represents represents nonempty
  have stays : call.closes = false := by
    cases closes : call.closes with
    | false => rfl
    | true =>
        have whole := ((WriteCall.closes_iff zeroFills).mp closes).1
        omega
  rw [stays, WriteCall.accepted] at grown
  rw [count, Int.toNat_natCast]
  exact ⟨Int.natCast_nonneg _, grown⟩

theorem Submits.represents_whole (submits : Submits fixedSizeLlseek file system call retval next)
    (represents : Represents system.kernel log) (nonempty : call.data ≠ [])
    (all : retval = call.data.length) : Represents next.kernel
      (log.append call.data (decide (call.data.getLast? = some newline))) :=
  submits.moved.represents_data ⟨⟨file, call, rfl⟩, nonempty, all⟩ represents

end Submits

/-- However the copies fall short, the submissions append the bytes as one piece. -/
theorem Resubmits.represents {fixedSizeLlseek : FixedSizeLlseek} {file : Nat}
    {system last : System} {data : List UInt8} {counts : List Int} {log : RecordLog UInt8}
    (resubmits : Resubmits fixedSizeLlseek file system data counts last)
    (represents : Represents system.kernel log) (nonempty : data ≠ []) :
    Represents last.kernel (log.append data (decide (data.getLast? = some newline))) ∧
      counts.sum = data.length := by
  induction resubmits generalizing log with
  | accepted submits all =>
      exact ⟨submits.represents_whole represents nonempty all, by simp [all]⟩
  | @short _ _ _ call retval counts submits zeroFills part _ ih =>
      obtain ⟨success, grown⟩ := submits.represents_short represents nonempty zeroFills part
      have left : call.data.drop retval.toNat ≠ [] := by
        intro nothing
        have past := List.drop_eq_nil_iff.mp nothing
        omega
      obtain ⟨final, total⟩ := ih grown left
      have sameEnd : (call.data.drop retval.toNat).getLast? = call.data.getLast? := by
        rw [List.getLast?_drop, if_neg (fun past => left (List.drop_eq_nil_iff.mpr past))]
      rw [RecordLog.append_open_append, List.take_append_drop, sameEnd] at final
      refine ⟨final, ?_⟩
      rw [List.sum_cons, total, List.length_drop]
      omega
  | between moved noWriter _ ih =>
      rcases moved.represents represents with ⟨kept, _⟩ | ⟨other, call, written, _⟩
      · exact ih kept nonempty
      · exact absurd written (noWriter other call)

/-- From any reachable state, submitting bytes over several short copies ends
with the commands, the pending bytes and the total count of one full write. A
short copy itself completes nothing: it leaves its bytes pending. -/
theorem short_copies_transparent {fixedSizeLlseek : FixedSizeLlseek}
    {first system last after : System} {events : List Event} (loaded : Loaded first)
    (run : Run (Step fixedSizeLlseek) first events system) {file : Nat} {data : List UInt8}
    (nonempty : data ≠ []) {counts : List Int}
    (resubmits : Resubmits fixedSizeLlseek file system data counts last) {single : WriteCall}
    {retval : Int} (once : Submits fixedSizeLlseek file system single retval after)
    (same : single.data = data) (full : single.notCopied = 0) :
    last.kernel.ringBytes = after.kernel.ringBytes ∧
    last.kernel.pendingBytes = after.kernel.pendingBytes ∧
    counts.sum = retval ∧ retval = data.length ∧
    ∀ call count next, Submits fixedSizeLlseek file system call count next →
      call.data = data → call.ZeroFills → count < data.length →
      next.kernel.ringBytes = system.kernel.ringBytes ∧
      next.kernel.pendingBytes = system.kernel.pendingBytes ++ data.take count.toNat := by
  obtain ⟨log, represents⟩ := run_represents run ⟨_, loaded.represents.1⟩
  subst same
  obtain ⟨retried, total⟩ := resubmits.represents represents nonempty
  have counted : retval = single.data.length := by
    rw [(once.represents represents nonempty).1, WriteCall.usrCount, full, Nat.sub_zero]
  have written := once.represents_whole represents nonempty counted
  refine ⟨?_, ?_, total.trans counted.symm, counted, ?_⟩
  · rw [retried.ringBytes_eq, written.ringBytes_eq]
  · rw [retried.pendingBytes_eq, written.pendingBytes_eq]
  · intro call count next submits equal zeroFills part
    rw [← equal] at nonempty part ⊢
    obtain ⟨_, grown⟩ := submits.represents_short represents nonempty zeroFills part
    constructor
    · rw [grown.ringBytes_eq, represents.ringBytes_eq]
      rfl
    · rw [grown.pendingBytes_eq, represents.pendingBytes_eq]
      rfl

/-- A copy that stops after `notCopied` bytes are left, with zero padding. -/
def WriteCall.cut (data : List UInt8) (notCopied : Nat) (kBuf tempBuf : Option Address) :
    WriteCall :=
  { WriteCall.whole data kBuf tempBuf with notCopied := notCopied }

/-- Of three bytes with a newline in the middle, the first copy takes two. -/
def afterShortCopy : System :=
  loadedSystem.after vfsFixedSizeLlseek (.write 0 (.cut [97, newline, 98] 1 (some 1) none))

def afterRetry : System :=
  afterShortCopy.after vfsFixedSizeLlseek (.write 0 (.whole [98] (some 2) (some 3)))

def afterFullCopy : System :=
  loadedSystem.after vfsFixedSizeLlseek (.write 0 (.whole [97, newline, 98] (some 1) none))

theorem short_copies_transparent_newline_inside :
    afterRetry.kernel.ringBytes = afterFullCopy.kernel.ringBytes ∧
    afterRetry.kernel.pendingBytes = afterFullCopy.kernel.pendingBytes ∧
    ([2, 1] : List Int).sum = 3 ∧ (3 : Int) = ([97, newline, 98] : List UInt8).length ∧
    ∀ call count next, Submits vfsFixedSizeLlseek 0 loadedSystem call count next →
      call.data = [97, newline, 98] → call.ZeroFills →
      count < ([97, newline, 98] : List UInt8).length →
      next.kernel.ringBytes = loadedSystem.kernel.ringBytes ∧
      next.kernel.pendingBytes =
        loadedSystem.kernel.pendingBytes ++ [97, newline, 98].take count.toNat := by
  have short : Submits vfsFixedSizeLlseek 0 loadedSystem (.cut [97, newline, 98] 1 (some 1) none) 2
      afterShortCopy :=
    ⟨System.after_step rfl, rfl, 1, _, rfl, fun waiting => absurd rfl waiting⟩
  have retry : Submits vfsFixedSizeLlseek 0 afterShortCopy (.whole [98] (some 2) (some 3)) 1
      afterRetry :=
    ⟨System.after_step rfl, rfl, 2, _, rfl, fun _ => Option.some_ne_none _⟩
  have once : Submits vfsFixedSizeLlseek 0 loadedSystem (.whole [97, newline, 98] (some 1) none) 3
      afterFullCopy :=
    ⟨System.after_step rfl, rfl, 1, _, rfl, fun waiting => absurd rfl waiting⟩
  exact short_copies_transparent loadedSystem_loaded .refl (by decide)
    (.short short (fun _ => rfl) (by decide) (.accepted retry rfl)) once rfl rfl

end Aesd.Driver
