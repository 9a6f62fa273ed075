import Aesd.Driver.SeekProperties
import Aesd.Driver.System

/-!
# Uninitialised bytes of the seek ioctl

The kernel-stack variable keeps seven of its eight bytes when one is copied from
the user. None of what the driver does depends on them, in one call or in a run.
-/

set_option autoImplicit false

namespace Aesd.Driver

open MachineInt Transition

def AesdSeekto.bytes (seekto : AesdSeekto) : List (BitVec 8) :=
  littleEndian seekto.writeCmd ++ littleEndian seekto.writeCmdOffset

theorem AesdSeekto.bytes_injective : Function.Injective AesdSeekto.bytes := by
  intro left right same
  obtain ⟨writeCmd, writeCmdOffset⟩ := List.append_inj same rfl
  obtain ⟨_, _⟩ := left
  obtain ⟨_, _⟩ := right
  cases littleEndian_injective writeCmd
  cases littleEndian_injective writeCmdOffset
  rfl

/-- `sizeof(seekto) != 0` -/
def copyLength : Nat := (decide ((⟨0, 0⟩ : AesdSeekto).bytes.length ≠ 0)).toNat

/-- The copy overwrites as many bytes in memory as it is told to. -/
theorem AesdSeekto.bytes_copyFromUser (stack user : AesdSeekto) :
    (stack.copyFromUser user).bytes =
      user.bytes.take copyLength ++ stack.bytes.drop copyLength := by
  have length : copyLength = 1 := rfl
  rw [length, AesdSeekto.bytes, AesdSeekto.copyFromUser, littleEndian_replaceLow, AesdSeekto.bytes,
    AesdSeekto.bytes, List.append_assoc]
  rfl

/-- No other struct has these bytes: the model's copy is the copy in memory. -/
theorem AesdSeekto.eq_copyFromUser_iff (stack user after : AesdSeekto) :
    after = stack.copyFromUser user ↔
      after.bytes = user.bytes.take copyLength ++ stack.bytes.drop copyLength := by
  rw [← bytes_copyFromUser]
  exact bytes_injective.eq_iff.symm

theorem aesdAdjustFileOffset_congr {writeCmd other : BitVec 32}
    (command : decodeWriteCmd writeCmd = decodeWriteCmd other)
    (offset : decodeWriteCmdOffset writeCmd = decodeWriteCmdOffset other) (kernel : Kernel)
    (fPos : Int) (interrupted : Bool) (writeCmdOffset otherOffset : BitVec 32) :
    aesdAdjustFileOffset kernel fPos interrupted writeCmd writeCmdOffset =
      aesdAdjustFileOffset kernel fPos interrupted other otherOffset := by
  unfold aesdAdjustFileOffset
  rw [command, offset]

theorem aesdUnlockedIoctl_withStack (kernel : Kernel) (fPos : Int) (call : IoctlCall)
    (stack : AesdSeekto) :
    aesdUnlockedIoctl kernel fPos { call with stack } = aesdUnlockedIoctl kernel fPos call := by
  have adjusted := @aesdAdjustFileOffset_congr (stack.copyFromUser call.user).writeCmd
    (call.stack.copyFromUser call.user).writeCmd (by simp) (by simp)
  unfold aesdUnlockedIoctl
  dsimp only
  rw [adjusted]

/-- The same seek with any two contents of the variable returns the same value and
leaves the same position and device, whatever state it starts from. -/
theorem seek_ioctl_ignores_stack (kernel : Kernel) (fPos : Int) (user stack other : AesdSeekto)
    (copyFails interrupted : Bool) :
    aesdUnlockedIoctl kernel fPos ⟨aesdcharIocseekto, user, stack, copyFails, interrupted⟩ =
      aesdUnlockedIoctl kernel fPos ⟨aesdcharIocseekto, user, other, copyFails, interrupted⟩ :=
  aesdUnlockedIoctl_withStack kernel fPos
    ⟨aesdcharIocseekto, user, other, copyFails, interrupted⟩ stack

/-- An operation without what the stack held at its call. -/
def Operation.eraseStack : Operation → Operation
  | .ioctl file call => .ioctl file { call with stack := ⟨0, 0⟩ }
  | operation => operation

theorem operate_eraseStack (fixedSizeLlseek : FixedSizeLlseek) (system : System)
    (operation : Operation) :
    operate fixedSizeLlseek system operation.eraseStack =
      operate fixedSizeLlseek system operation := by
  cases operation with
  | read | write | llseek => rfl
  | ioctl file call => exact aesdUnlockedIoctl_withStack _ _ call _

theorem Operation.file_eraseStack (operation : Operation) :
    operation.eraseStack.file = operation.file := by
  cases operation <;> rfl

/-- Two runs of the same operations return the same and end in the same state,
whatever the stack held at each call of either. -/
theorem runs_ignore_stack {fixedSizeLlseek : FixedSizeLlseek} {first last otherLast : System}
    {events others : List Event} (run : Run (Step fixedSizeLlseek) first events last)
    (otherRun : Run (Step fixedSizeLlseek) first others otherLast)
    (operations : events.map (fun event => event.operation.eraseStack) =
      others.map fun event => event.operation.eraseStack) :
    events.map (fun event => (event.retval, event.delivered)) =
        others.map (fun event => (event.retval, event.delivered)) ∧
      last = otherLast := by
  refine run.agree _ _ ?_ otherRun operations
  rintro system event _ other _ same ⟨position, kernel, returned, rfl⟩
    ⟨otherPosition, otherKernel, otherReturned, rfl⟩
  rw [← operate_eraseStack, same, operate_eraseStack, otherReturned] at returned
  have file := congrArg Operation.file same
  rw [Operation.file_eraseStack, Operation.file_eraseStack] at file
  injection returned with retval position kernel delivered
  rw [retval, position, kernel, delivered, file]
  exact ⟨rfl, rfl⟩

end Aesd.Driver
