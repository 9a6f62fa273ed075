import Aesd.Driver.PositionLookup
import Aesd.Driver.SeekProperties
import Aesd.Driver.System

/-!
# Which seeks are rejected

The seek ioctl tests the command index against the capacity of the buffer and
against nothing else, so it rejects an index of ten or more, and accepts every
smaller one whether or not that command and that offset exist.
-/

set_option autoImplicit false

namespace Aesd.Driver

open AesdCircularBuffer Transition

/-- A seek moves to the byte that its two numbers name, and is rejected without
moving when there is no such byte. -/
structure SeeksWhatExists (kernel : Kernel) (fPos : Int) (call : IoctlCall) : Prop where
  found : ∀ position entry,
    kernel.device.circularBuffer.ByteAt position (decodeWriteCmd call.user.writeCmd).toNat
      (decodeWriteCmdOffset call.user.writeCmd).toNat entry →
    ∃ after, aesdUnlockedIoctl kernel fPos call = .returned 0 position after []
  rejected : (¬∃ position entry,
      kernel.device.circularBuffer.ByteAt position (decodeWriteCmd call.user.writeCmd).toNat
        (decodeWriteCmdOffset call.user.writeCmd).toNat entry) →
    ∃ after, aesdUnlockedIoctl kernel fPos call = .returned (-einval) fPos after []

theorem seeksWhatExists_iff {kernel : Kernel} {call : IoctlCall}
    (valid : kernel.device.circularBuffer.Valid) (free : kernel.device.lock = false)
    (seeks : call.Seeks) (fPos : Int) :
    SeeksWhatExists kernel fPos call ↔ 10 ≤ (decodeWriteCmd call.user.writeCmd).toNat ∨
      ∃ position entry, kernel.device.circularBuffer.ByteAt position
        (decodeWriteCmd call.user.writeCmd).toNat
        (decodeWriteCmdOffset call.user.writeCmd).toNat entry ∧ position < 2 ^ 32 := by
  have outcome := aesdUnlockedIoctl_seek free seeks fPos
  have few := kernel.device.circularBuffer.liveCount_le
  by_cases large : 10 ≤ (decodeWriteCmd call.user.writeCmd).toNat
  · rw [if_pos large] at outcome
    refine iff_of_true ⟨?_, fun _ => ⟨_, outcome⟩⟩ (.inl large)
    intro position entry byte
    have live := (live_of_liveEntries byte.live).1
    omega
  · rw [if_neg large] at outcome
    -- The call succeeds, at the position reduced to 32 bits when the byte exists.
    have moved : ∀ {position entry}, kernel.device.circularBuffer.ByteAt position
        (decodeWriteCmd call.user.writeCmd).toNat
        (decodeWriteCmdOffset call.user.writeCmd).toNat entry →
        aesdUnlockedIoctl kernel fPos call =
          .returned 0 ((position % 2 ^ 32 : Nat) : Int) kernel [] := by
      intro position entry byte
      have live := (live_of_liveEntries byte.live).1
      rw [outcome, valid.getFpos_eq (Nat.le_of_lt live), ← List.map_take, ← byte.counted]
    constructor
    · intro seeksExisting
      by_cases exists_ : ∃ position entry, kernel.device.circularBuffer.ByteAt position
          (decodeWriteCmd call.user.writeCmd).toNat
          (decodeWriteCmdOffset call.user.writeCmd).toNat entry
      · obtain ⟨position, entry, byte⟩ := exists_
        obtain ⟨after, exactly⟩ := seeksExisting.found position entry byte
        rw [moved byte] at exactly
        injection exactly with _ same
        exact .inr ⟨position, entry, byte, by omega⟩
      · obtain ⟨after, refused⟩ := seeksExisting.rejected exists_
        rw [outcome] at refused
        injection refused with accepted
        exact absurd accepted (by decide)
    · intro condition
      obtain ⟨position, entry, byte, small⟩ := condition.resolve_left large
      refine ⟨?_, fun nothing => absurd ⟨position, entry, byte⟩ nothing⟩
      intro other otherEntry byteOther
      have same : other = position := byteOther.counted.trans byte.counted.symm
      subst same
      have exactly := moved byteOther
      rw [Nat.mod_eq_of_lt small] at exactly
      exact ⟨kernel, exactly⟩

/-- In a reachable state the seek ioctl does what it should exactly when the
index is ten or more, or the command and the offset exist and their position
is one that 32 bits hold. -/
theorem seek_ioctl_rejects_iff {fixedSizeLlseek : FixedSizeLlseek} {first last : System}
    {events : List Event} (loaded : Loaded first)
    (run : Run (Step fixedSizeLlseek) first events last)
    (free : last.kernel.device.lock = false) {call : IoctlCall} (seeks : call.Seeks) (fPos : Int) :
    SeeksWhatExists last.kernel fPos call ↔ 10 ≤ (decodeWriteCmd call.user.writeCmd).toNat ∨
      ∃ position entry, last.kernel.device.circularBuffer.ByteAt position
        (decodeWriteCmd call.user.writeCmd).toNat
        (decodeWriteCmdOffset call.user.writeCmd).toNat entry ∧ position < 2 ^ 32 := by
  obtain ⟨log, represents⟩ := run_represents run ⟨_, loaded.represents.1⟩
  exact seeksWhatExists_iff represents.valid free seeks fPos

/-- Seek to an offset in the oldest command. -/
def seekIntoOldest (offset : BitVec 32) : IoctlCall where
  cmd := aesdcharIocseekto
  user := ⟨offset, 0⟩
  stack := ⟨0, 0⟩
  copyFails := false
  interrupted := false

theorem seek_ioctl_rejects_iff_one_command :
    SeeksWhatExists oneCommand.kernel 0 (seekIntoOldest 2) ↔
      10 ≤ (decodeWriteCmd (seekIntoOldest 2).user.writeCmd).toNat ∨
      ∃ position entry, oneCommand.kernel.device.circularBuffer.ByteAt position
        (decodeWriteCmd (seekIntoOldest 2).user.writeCmd).toNat
        (decodeWriteCmdOffset (seekIntoOldest 2).user.writeCmd).toNat entry ∧ position < 2 ^ 32 :=
  seek_ioctl_rejects_iff loadedSystem_loaded oneCommand_reached rfl ⟨rfl, rfl, rfl⟩ 0

/-- Right after loading there is no command to seek into, and with one command
of three bytes there is no offset 5 in it. Both seeks succeed. -/
theorem seek_to_nothing_succeeds :
    Loaded loadedSystem ∧ (∀ offset, (seekIntoOldest offset).Seeks) ∧
    aesdUnlockedIoctl loadedSystem.kernel 7 (seekIntoOldest 0) =
      .returned 0 0 loadedSystem.kernel [] ∧
    ¬SeeksWhatExists loadedSystem.kernel 7 (seekIntoOldest 0) ∧
    aesdUnlockedIoctl oneCommand.kernel 7 (seekIntoOldest 5) =
      .returned 0 5 oneCommand.kernel [] ∧
    ¬SeeksWhatExists oneCommand.kernel 7 (seekIntoOldest 5) := by
  refine ⟨loadedSystem_loaded, fun _ => ⟨rfl, rfl, rfl⟩, rfl, ?_, rfl, ?_⟩
  · intro seeksExisting
    obtain ⟨after, refused⟩ := seeksExisting.rejected (by
      intro given
      obtain ⟨position, entry, byte⟩ := given
      cases byte.live)
    have accepted : aesdUnlockedIoctl loadedSystem.kernel 7 (seekIntoOldest 0) =
      .returned 0 0 loadedSystem.kernel [] := rfl
    rw [accepted] at refused
    cases refused
  · intro seeksExisting
    obtain ⟨after, refused⟩ := seeksExisting.rejected (by
      intro given
      obtain ⟨position, entry, byte⟩ := given
      have live : oneCommand.kernel.device.circularBuffer.liveEntries[0]? = some entry := byte.live
      cases live
      exact absurd byte.inside (by decide))
    have accepted : aesdUnlockedIoctl oneCommand.kernel 7 (seekIntoOldest 5) =
      .returned 0 5 oneCommand.kernel [] := rfl
    rw [accepted] at refused
    cases refused

end Aesd.Driver
