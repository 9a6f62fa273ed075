import Aesd.Driver.Ownership
import Aesd.Library.Accounts

/-!
# Which writes lose a block

Every block that a write allocates is accounted for as long as no write gives
up after it got `k_buf`, and none overwrites the pointer of an empty pending
entry. Each of these two loses a block for good.
-/

set_option autoImplicit false

namespace Aesd.Driver

open AesdCircularBuffer Transition

/-- A write that gets `k_buf` loses a block where bytes are pending and the block
to merge them into is refused, and where no byte is pending but a block is. -/
def WriteCall.LosesBlock (call : WriteCall) (kernel : Kernel) : Prop :=
  call.interrupted = false ∧ ∃ kBuf extended,
    kmalloc kernel.memory call.kBuf call.data.length = some (kBuf, extended) ∧
    if kernel.device.bufferEntry.size = 0 then kernel.device.bufferEntry.buffptr ≠ none
    else kmalloc (kernel.withKBuf kBuf call).memory call.tempBuf
      (kernel.device.bufferEntry.size + call.usrCount) = none

def Event.LosesBlock (event : Event) (system : System) : Prop :=
  ∃ file call, event.operation = .write file call ∧ call.LosesBlock system.kernel

/-- What was allocated since the first state is held by the device, and a write
that fails for lack of memory allocates nothing. -/
structure KeepsBlocks (first system : System) (event : Event) (next : System) : Prop where
  held : ∀ address ∈ next.kernel.memory.allocated, address ∉ first.kernel.memory.allocated →
    address ∈ next.kernel.owned
  refused : event.retval = -enomem →
    next.kernel.memory.allocated = system.kernel.memory.allocated

theorem kmalloc_of_fresh {memory : Memory UInt8} {call : Kmalloc} {size : Nat}
    {address : Address} (answered : call.answer size = some address)
    (fresh : memory.block address = none) : ∃ extended,
      kmalloc memory call size = some (address, extended) := by
  simp [kmalloc, answered, fresh]

theorem Loaded.owned {system : System} (loaded : Loaded system) : system.kernel.owned = [] := by
  obtain ⟨⟨kernel, allocChrdevRegion, registered, initialised⟩, _⟩ := loaded
  rw [aesdInitModule, if_neg (by omega)] at initialised
  have fresh := (Prod.mk.inj initialised).2
  rw [← fresh]
  simp [Kernel.owned, ownedAddresses]

section Commit

variable {kernel : Kernel} {log : RecordLog UInt8}

theorem commitBufferEntry_accounted {base : Set Address} (represents : Represents kernel log)
    (accounted : Accounted base kernel.memory.allocated kernel.owned) :
    Accounted base (commitBufferEntry kernel).memory.allocated (commitBufferEntry kernel).owned := by
  rcases commitBufferEntry_blocks represents with ⟨memory, owned⟩ | ⟨evicted, memory, owned⟩
  · rwa [memory, owned]
  · rw [owned] at accounted
    rw [memory, Memory.allocated_release]
    exact accounted.dispose

/-- A block that is lost before a commit is lost after it. -/
theorem commitBufferEntry_lost (represents : Represents kernel log) {address : Address}
    (present : address ∈ kernel.memory.allocated) (lost : address ∉ kernel.owned) :
    address ∈ (commitBufferEntry kernel).memory.allocated ∧
      address ∉ (commitBufferEntry kernel).owned := by
  rcases commitBufferEntry_blocks represents with ⟨memory, owned⟩ | ⟨evicted, memory, owned⟩
  · rw [memory, owned]
    exact ⟨present, lost⟩
  · rw [owned, List.mem_cons, not_or] at lost
    rw [memory, Memory.allocated_release]
    exact ⟨⟨present, lost.1⟩, lost.2⟩

end Commit

theorem Filled.accounted {base : Set Address} {kernel filled : Kernel} {kBuf : Address}
    {piece : List UInt8} {call : Kmalloc}
    (accounted : Accounted base kernel.memory.allocated (kBuf :: kernel.owned))
    (unset : kernel.device.bufferEntry.size = 0 → kernel.device.bufferEntry.buffptr = none)
    (fills : Filled kernel kBuf piece call filled) :
    Accounted base filled.memory.allocated filled.owned := by
  unfold Kernel.owned ownedAddresses at accounted ⊢
  cases fills with
  | taken nothing =>
      rw [unset nothing, Option.toList_none, List.append_nil] at accounted
      exact accounted.perm (List.perm_append_singleton _ _).symm
  | @merged previous tempBuf waiting pointer answered fresh =>
      rw [pointer, Option.toList_some] at accounted
      have unallocated : tempBuf ∉ kernel.memory.allocated := fun present => present fresh
      have acquired := accounted.acquire unallocated
      -- The order in which the blocks go: the previous one, then `k_buf`.
      have reordered := acquired.perm (((List.perm_append_singleton previous _).cons kBuf).cons
        tempBuf |>.trans ((List.Perm.swap previous kBuf _).cons tempBuf) |>.trans
          (List.Perm.swap previous tempBuf _) |>.trans ((List.Perm.swap kBuf tempBuf _).cons
            previous) |>.trans (((List.perm_append_singleton tempBuf _).symm.cons kBuf).cons
              previous))
      simp only [Memory.allocated_release, Memory.allocated_assign]
      exact reordered.dispose.dispose

section Wrote

variable {base : Set Address} {kernel after : Kernel} {log : RecordLog UInt8}
  {fPos retval position : Int} {call : WriteCall} {delivered : List UInt8}

theorem Wrote.accounted (represents : Represents kernel log)
    (accounted : Accounted base kernel.memory.allocated kernel.owned)
    (keeps : ¬call.LosesBlock kernel)
    (wrote : Wrote kernel fPos call (.returned retval position after delivered)) :
    Accounted base after.memory.allocated after.owned ∧
      (retval = -enomem → after.memory.allocated = kernel.memory.allocated) := by
  cases wrote with
  | interrupted _ => exact ⟨accounted, fun _ => rfl⟩
  | noKBuf _ _ => exact ⟨accounted, fun _ => rfl⟩
  | noTempBuf uninterrupted answered fresh waiting refused =>
      obtain ⟨extended, granted⟩ := kmalloc_of_fresh answered fresh
      refine absurd ⟨uninterrupted, _, extended, granted, ?_⟩ keeps
      rwa [if_neg waiting]
  | @stored kBuf filled uninterrupted answered fresh fills =>
      obtain ⟨extended, granted⟩ := kmalloc_of_fresh answered fresh
      have unset : kernel.device.bufferEntry.size = 0 →
          kernel.device.bufferEntry.buffptr = none := by
        intro nothing
        by_contra set_
        refine keeps ⟨uninterrupted, kBuf, extended, granted, ?_⟩
        rwa [if_pos nothing]
      have unallocated : kBuf ∉ kernel.memory.allocated := fun present => present fresh
      have acquired : Accounted base (kernel.withKBuf kBuf call).memory.allocated
          (kBuf :: (kernel.withKBuf kBuf call).owned) := by
        rw [Kernel.withKBuf, Memory.allocated_assign]
        exact accounted.acquire unallocated
      have filledAccounted := fills.accounted acquired unset
      obtain ⟨_, _, grown⟩ := fills.of_withKBuf represents fresh
      constructor
      · cases call.closes with
        | false => exact filledAccounted
        | true => exact commitBufferEntry_accounted grown filledAccounted
      · intro failed
        have count := Int.natCast_nonneg call.usrCount
        rw [failed] at count
        exact absurd count (by decide)

/-- The entry that takes over `k_buf` no longer points to the block it held. -/
theorem overwritten_unheld {previous kBuf : Address} (represents : Represents kernel log)
    (pointer : kernel.device.bufferEntry.buffptr = some previous)
    (unowned : kBuf ∉ kernel.owned) :
    previous ∉ kernel.device.circularBuffer.liveEntries.filterMap AesdBufferEntry.buffptr ++
      [kBuf] := by
  have distinct := represents.distinct
  rw [ownedAddresses, pointer] at distinct
  intro member
  rcases List.mem_append.mp member with live | isKBuf
  · exact (List.nodup_append.mp distinct).2.2 previous live previous (by simp) rfl
  · exact unowned (List.mem_singleton.mp isKBuf ▸ owned_of_pending pointer)

theorem Wrote.loses (represents : Represents kernel log)
    (accounted : Accounted base kernel.memory.allocated kernel.owned)
    (loses : call.LosesBlock kernel)
    (wrote : Wrote kernel fPos call (.returned retval position after delivered)) :
    (retval = -enomem ∧ after.memory.allocated ≠ kernel.memory.allocated) ∨
    ∃ address ∈ after.memory.allocated, address ∉ base ∧ address ∉ after.owned := by
  obtain ⟨running, kBuf, extended, granted, condition⟩ := loses
  obtain ⟨same, fresh, _⟩ := kmalloc_eq_some granted
  cases wrote with
  | interrupted interrupted => cases running.symm.trans interrupted
  | noKBuf _ refused => cases granted.symm.trans refused
  | noTempBuf _ answered _ _ _ =>
      cases same.symm.trans answered
      refine .inl ⟨rfl, fun unchanged => ?_⟩
      rw [Kernel.withKBuf, Memory.allocated_assign] at unchanged
      have present : kBuf ∈ kernel.memory.allocated := by
        rw [← unchanged]
        exact Set.mem_insert _ _
      exact present fresh
  | stored _ answered _ fills =>
      cases same.symm.trans answered
      obtain ⟨unowned, _, grown⟩ := fills.of_withKBuf represents fresh
      cases fills with
      | merged waiting _ answered fresh =>
          rw [Kernel.withKBuf_device] at waiting answered
          rw [if_neg waiting] at condition
          rw [WriteCall.accepted_length] at answered
          obtain ⟨_, granted⟩ := kmalloc_of_fresh answered fresh
          cases condition.symm.trans granted
      | taken nothing =>
          rw [Kernel.withKBuf_device] at nothing
          rw [if_pos nothing] at condition
          obtain ⟨previous, pointer⟩ := Option.ne_none_iff_exists'.mp condition
          have held : previous ∈ kernel.owned := owned_of_pending pointer
          have present : previous ∈ (kernel.withKBuf kBuf call).memory.allocated := by
            rw [Kernel.withKBuf, Memory.allocated_assign]
            exact Set.mem_insert_of_mem _ (owned_allocated represents held)
          have notBase : previous ∉ base := fun before => accounted.apart previous before held
          have lost := overwritten_unheld represents pointer unowned
          right
          refine ⟨previous, ?_⟩
          cases call.closes with
          | false => exact ⟨present, notBase, lost⟩
          | true =>
              obtain ⟨still, away⟩ := commitBufferEntry_lost grown present lost
              exact ⟨still, notBase, away⟩

end Wrote

/-- Since a first state, every block is accounted for. -/
structure KeepsAccounts (first system : System) : Prop where
  represents : ∃ log, Represents system.kernel log
  free : system.kernel.device.lock = false
  accounted : Accounted first.kernel.memory.allocated system.kernel.memory.allocated
    system.kernel.owned

theorem Loaded.keepsAccounts {first : System} (loaded : Loaded first) : KeepsAccounts first first where
  represents := ⟨_, loaded.represents.1⟩
  free := loaded.represents.2
  accounted := by
    rw [loaded.owned]
    exact ⟨by simp, by simp, List.nodup_nil⟩

section Step

variable {fixedSizeLlseek : FixedSizeLlseek} {first system next : System} {event : Event}

theorem KeepsAccounts.step (keeps : KeepsAccounts first system)
    (moved : Step fixedSizeLlseek system event next) (writing : event.operation.WritesSome)
    (safe : ¬event.LosesBlock system) :
    KeepsAccounts first next ∧ KeepsBlocks first system event next := by
  obtain ⟨log, represents⟩ := keeps.represents
  obtain ⟨file, call, position, written, wrote⟩ := moved.wrote writing represents keeps.free
  obtain ⟨accounted, refused⟩ := wrote.accounted represents keeps.accounted
    fun loses => safe ⟨file, call, written, loses⟩
  have released := (moved.releases_iff keeps.free).mpr writing.not_rejectedSeek
  constructor
  · exact ⟨run_represents (.single moved) ⟨log, represents⟩, released, accounted⟩
  · constructor
    · intro address present notBase
      exact ((accounted.exact address).mp present).resolve_left notBase
    · exact refused

theorem KeepsAccounts.keepsBlocks_iff (keeps : KeepsAccounts first system)
    (moved : Step fixedSizeLlseek system event next) (writing : event.operation.WritesSome) :
    KeepsBlocks first system event next ↔ ¬event.LosesBlock system := by
  constructor
  · intro blocks loses
    obtain ⟨log, represents⟩ := keeps.represents
    obtain ⟨file, call, position, written, wrote⟩ := moved.wrote writing represents keeps.free
    obtain ⟨_, _, same, losing⟩ := loses
    cases written.symm.trans same
    rcases wrote.loses represents keeps.accounted losing with
      ⟨failed, changed⟩ | ⟨address, present, notBase, lost⟩
    · exact changed (blocks.refused failed)
    · exact lost (blocks.held address present notBase)
  · exact fun safe => (keeps.step moved writing safe).2

end Step

/-- In every run of writes, all blocks are accounted for at every return, and
failures for lack of memory change nothing, exactly when no write of the run
loses a block. -/
theorem writes_keep_blocks_iff {fixedSizeLlseek : FixedSizeLlseek} {first last : System}
    {events : List Event} (loaded : Loaded first)
    (writes : ∀ event ∈ events, event.operation.WritesSome) :
    Run (fun system event next => Step fixedSizeLlseek system event next ∧
        KeepsBlocks first system event next) first events last ↔
      Run (fun system event next => Step fixedSizeLlseek system event next ∧
        ¬event.LosesBlock system) first events last := by
  apply Run.iff_of_invariant (fun event => event.operation.WritesSome) (KeepsAccounts first) _ _
    writes loaded.keepsAccounts
  · exact fun _ _ _ writing keeps moved => keeps.keepsBlocks_iff moved writing
  · exact fun _ _ _ writing keeps moved safe => (keeps.step moved writing safe).1

theorem writes_keep_blocks_iff_two_writes :
    Run (fun system event next => Step vfsFixedSizeLlseek system event next ∧
        KeepsBlocks loadedSystem system event next) loadedSystem
      [⟨.write 0 (.whole [104, 105, newline] (some 1) none), 3, []⟩,
        ⟨.write 0 (.whole [98] (some 2) none), 1, []⟩] pendingByte ↔
      Run (fun system event next => Step vfsFixedSizeLlseek system event next ∧
        ¬event.LosesBlock system) loadedSystem
      [⟨.write 0 (.whole [104, 105, newline] (some 1) none), 3, []⟩,
        ⟨.write 0 (.whole [98] (some 2) none), 1, []⟩] pendingByte :=
  writes_keep_blocks_iff loadedSystem_loaded (by simp [Operation.WritesSome, WriteCall.whole])

/-- With a byte pending, a write whose block to merge into is refused. -/
def mergeRefused : System :=
  pendingByte.after vfsFixedSizeLlseek (.write 0 (.whole [99] (some 3) none))

/-- A copy of no bytes at all, which leaves a block of size 0 pending. -/
def nothingCopied : System :=
  loadedSystem.after vfsFixedSizeLlseek (.write 0
    { WriteCall.whole [97] (some 1) none with notCopied := 1 })

def pointerOverwritten : System :=
  nothingCopied.after vfsFixedSizeLlseek (.write 0 (.whole [97] (some 2) none))

/-- Both losses: the write that fails keeps block 3 allocated, and the retry after
the empty copy drops block 1. The device holds neither. -/
theorem writes_lose_blocks :
    Loaded loadedSystem ∧
    (Run (Step vfsFixedSizeLlseek) loadedSystem
      [⟨.write 0 (.whole [104, 105, newline] (some 1) none), 3, []⟩,
        ⟨.write 0 (.whole [98] (some 2) none), 1, []⟩] pendingByte ∧
      Step vfsFixedSizeLlseek pendingByte ⟨.write 0 (.whole [99] (some 3) none), -enomem, []⟩
        mergeRefused ∧
      3 ∈ mergeRefused.kernel.memory.allocated ∧ 3 ∉ mergeRefused.kernel.owned ∧
      ¬KeepsBlocks loadedSystem pendingByte
        ⟨.write 0 (.whole [99] (some 3) none), -enomem, []⟩ mergeRefused) ∧
    Run (Step vfsFixedSizeLlseek) loadedSystem
      [⟨.write 0 { WriteCall.whole [97] (some 1) none with notCopied := 1 }, 0, []⟩] nothingCopied ∧
    Step vfsFixedSizeLlseek nothingCopied ⟨.write 0 (.whole [97] (some 2) none), 1, []⟩
      pointerOverwritten ∧
    1 ∈ pointerOverwritten.kernel.memory.allocated ∧ 1 ∉ pointerOverwritten.kernel.owned ∧
    ¬KeepsBlocks loadedSystem nothingCopied ⟨.write 0 (.whole [97] (some 2) none), 1, []⟩
      pointerOverwritten := by
  have initial : ∀ address, address ∉ loadedSystem.kernel.memory.allocated :=
    fun _ present => present rfl
  have third : 3 ∈ mergeRefused.kernel.memory.allocated := Option.some_ne_none _
  have lostThird : 3 ∉ mergeRefused.kernel.owned := by decide
  have firstBlock : 1 ∈ pointerOverwritten.kernel.memory.allocated := Option.some_ne_none _
  have lostFirst : 1 ∉ pointerOverwritten.kernel.owned := by decide
  refine ⟨loadedSystem_loaded, ⟨pendingByte_reached, System.after_step rfl, third, lostThird, ?_⟩,
    .single (System.after_step rfl), System.after_step rfl, firstBlock, lostFirst, ?_⟩
  · exact fun keeps => lostThird (keeps.held 3 third (initial 3))
  · exact fun keeps => lostFirst (keeps.held 1 firstBlock (initial 1))

end Aesd.Driver
