import Aesd.Library.Accesses
import Aesd.Server.Connection

/-!
# The two functions that read the file

`read_char_device`, and `read_file` of the build without the device. They are
written over what the C library does with an open file. Of the calls they make,
`malloc` and `fread` may fail.
-/

set_option autoImplicit false

namespace Aesd.Server

open Driver

/-- What `malloc` answers: null, or a block with the bytes it happens to hold. -/
structure Malloc where
  fails : Bool
  garbage : Nat → UInt8

def Malloc.block (malloc : Malloc) (size : Nat) : Option (List UInt8) :=
  if malloc.fails then none else some ((List.range size).map malloc.garbage)

/-- A buffer whose front a call has overwritten. -/
def fillFront (buffer bytes : List UInt8) : List UInt8 := bytes ++ buffer.drop bytes.length

structure Stdio (File : Type) where
  fopen : File
  ioctl : File → AesdSeekto → File
  fseek : File → Int → Int → File
  ftell : File → Nat
  fread : File → Nat → List UInt8

def seekSet : Int := 0
def seekEnd : Int := 2

/-- The calls of a handler that its mutex and its answer depend on. A length that
was never assigned is `none`. -/
inductive HandlerCall where
  | lock
  | unlock
  | strstr (haystack : Option (List UInt8))
  | sendto (contents : Option (List UInt8)) (length : Option Nat)
  deriving DecidableEq

structure ReadResult where
  contents : Option (List UInt8)
  /-- What was assigned to `*fsize`, if anything. -/
  fsize : Option Nat
  calls : List HandlerCall

section ReadFunctions

variable {File : Type}

/-- The file as `read_char_device` reads it: opened, with the seek that was found. -/
def charDeviceFile (stdio : Stdio File) (foundCmd : Bool) (writeCmd writeCmdOffset : BitVec 32) :
    File :=
  if foundCmd then stdio.ioctl stdio.fopen (encodeSeekto writeCmd writeCmdOffset)
  else stdio.fopen

def readCharDevice (stdio : Stdio File) (malloc : Malloc) (foundCmd : Bool)
    (writeCmd writeCmdOffset : BitVec 32) : Traced ReadResult :=
  let file := charDeviceFile stdio foundCmd writeCmd writeCmdOffset
  match malloc.block bufferSize with
  | none =>
      -- This return leaves `file_mutex` locked and `*fsize` unassigned.
      pure ⟨none, none, [.lock]⟩
  | some block => do
      let bytes := stdio.fread file bufferSize
      let fileContents ← Traced.store (fillFront block bytes) bytes.length newline
      let fileContents ← Traced.store fileContents bytes.length 0
      pure ⟨some fileContents, some bytes.length, [.lock, .unlock]⟩

def readFile (stdio : Stdio File) (malloc : Malloc) : Traced ReadResult :=
  let file := stdio.fseek stdio.fopen 0 seekEnd
  let fileSize := stdio.ftell file
  let file := stdio.fseek file 0 seekSet
  match malloc.block (fileSize + 1) with
  | none => pure ⟨none, some fileSize, [.lock]⟩
  | some block =>
      let bytes := stdio.fread file fileSize
      if bytes.length = fileSize then do
        let fileContents ← Traced.store (fillFront block bytes) fileSize 0
        pure ⟨some fileContents, some fileSize, [.lock, .unlock]⟩
      else pure ⟨none, some fileSize, [.lock]⟩

end ReadFunctions

/-- An open descriptor of the device. -/
structure DeviceFile where
  kernel : Kernel
  fPos : Int

/-- What a call leaves of the descriptor; one that does not return leaves it. -/
def DeviceFile.after (file : DeviceFile) : Outcome → DeviceFile
  | .returned _ position kernel _ => ⟨kernel, position⟩
  | .blocked | .oops => file

/-- The reads of one `fread`. They go on until the requested size is there or one
of them returns no byte, so that there are no more of them than bytes requested. -/
def freadLoop (counts : Nat → Nat) (requested : Nat) :
    Nat → Nat → DeviceFile → List UInt8 → List UInt8
  | 0, _, _, got => got.take requested
  | remaining + 1, call, file, got =>
      if requested ≤ got.length then got.take requested
      else
        match aesdRead file.kernel file.fPos ⟨counts call, false, 0⟩ with
        | .returned retval position kernel delivered =>
            if 0 < retval then
              freadLoop counts requested remaining (call + 1) ⟨kernel, position⟩
                (got ++ delivered)
            else got
        | .blocked | .oops => got

/-- The C library on the device. How many bytes each read asks for is its choice. -/
def deviceStdio (fixedSizeLlseek : FixedSizeLlseek) (kernel : Kernel) (stack : AesdSeekto)
    (counts : Nat → Nat) : Stdio DeviceFile where
  fopen := ⟨kernel, 0⟩
  ioctl file seekto := file.after (aesdUnlockedIoctl file.kernel file.fPos
    ⟨aesdcharIocseekto, seekto, stack, false, false⟩)
  fseek file off whence := file.after (aesdLlseek fixedSizeLlseek file.kernel file.fPos
    ⟨off, whence, false⟩)
  ftell file := file.fPos.toNat
  fread file requested := freadLoop counts requested requested 0 file []

end Aesd.Server
