import Aesd.Library.Blocks
import Aesd.Library.MachineInt

/-!
# The circular buffer of the driver

The data types and functions of `aesd-circular-buffer.h` and
`aesd-circular-buffer.c`. A pointer to an entry of the array is its index; a
`const char *` is the address of a block, or null.
-/

set_option autoImplicit false

namespace Aesd.Driver

open MachineInt

def aesdcharMaxWriteOperationsSupported : Nat := 10

structure AesdBufferEntry where
  buffptr : Option Address
  size : Nat
  deriving DecidableEq, Repr

def AesdBufferEntry.zero : AesdBufferEntry := ⟨none, 0⟩

/-- The two offsets are `uint8_t` in the source; every value stored into them
is reduced modulo the capacity first, so no wrap at 256 can occur. -/
structure AesdCircularBuffer where
  entry : Vector AesdBufferEntry aesdcharMaxWriteOperationsSupported
  inOffs : Nat
  outOffs : Nat
  full : Bool
  deriving DecidableEq, Repr

namespace AesdCircularBuffer

def slot (buffer : AesdCircularBuffer) (index : Nat) : AesdBufferEntry :=
  buffer.entry[index]?.getD .zero

def setSlot (buffer : AesdCircularBuffer) (index : Nat) (value : AesdBufferEntry) :
    AesdCircularBuffer :=
  { buffer with entry := buffer.entry.setIfInBounds index value }

end AesdCircularBuffer

def aesdCircularBufferInit : AesdCircularBuffer :=
  ⟨Vector.replicate aesdcharMaxWriteOperationsSupported .zero, 0, 0, false⟩

/-- The loop of the position lookup. `pos` and `posStart` are `int`, sizes and
offsets `size_t`; `remaining` counts the iterations up to `arr_end`. -/
def findEntryLoop (buffer : AesdCircularBuffer) (charOffset : Nat) :
    Nat → Nat → Int → Int → Option (Nat × Nat)
  | 0, _, _, _ => none
  | remaining + 1, i, pos, posStart =>
      let arrPos := i % 10
      let pos := toInt32 (pos + (buffer.slot arrPos).size)
      if pos = 0 then none
      else if charOffset < toSizeT pos then some (arrPos, toSizeT (charOffset - posStart))
      else findEntryLoop buffer charOffset remaining (i + 1) pos
        (toInt32 (posStart + (buffer.slot arrPos).size))

/-- The entry holding a position, with `*entry_offset_byte_rtn`, which is
written only together with a non-null result. -/
def aesdCircularBufferFindEntryOffsetForFpos (buffer : AesdCircularBuffer) (charOffset : Nat) :
    Option (Nat × Nat) :=
  findEntryLoop buffer charOffset aesdcharMaxWriteOperationsSupported buffer.outOffs 0 0

def getFposLoop (buffer : AesdCircularBuffer) (buffPos : Nat) : Nat → Nat → Int → Nat → Int
  | 0, _, bytePos, _ => bytePos
  | remaining + 1, i, bytePos, posCount =>
      let arrPos := i % aesdcharMaxWriteOperationsSupported
      if posCount = buffPos then bytePos
      else getFposLoop buffer buffPos remaining (i + 1)
        (toInt32 (bytePos + (buffer.slot arrPos).size)) (posCount + 1)

/-- The sum `byte_pos + offset` is taken in `uint32_t` before it becomes a `long`. -/
def aesdCircularBufferGetFpos (buffer : AesdCircularBuffer) (buffPos offset : Nat) : Int :=
  toUInt32 (getFposLoop buffer buffPos aesdcharMaxWriteOperationsSupported buffer.outOffs 0 0 +
    offset)

/-- Write an entry at `in_offs`; on a full buffer the pointer it overwrites is
handed back and the read location moves on. -/
def aesdCircularBufferAddEntry (buffer : AesdCircularBuffer) (addEntry : AesdBufferEntry) :
    Option Address × AesdCircularBuffer :=
  let saveBuffptr := (buffer.slot buffer.inOffs).buffptr
  let written := buffer.setSlot buffer.inOffs addEntry
  let inOffs := (buffer.inOffs + 1) % aesdcharMaxWriteOperationsSupported
  let ptrReturn := if buffer.full then saveBuffptr else none
  let outOffs :=
    if buffer.full then (buffer.outOffs + 1) % aesdcharMaxWriteOperationsSupported
    else buffer.outOffs
  (ptrReturn, { written with inOffs, outOffs, full := decide (inOffs = outOffs) })

end Aesd.Driver
