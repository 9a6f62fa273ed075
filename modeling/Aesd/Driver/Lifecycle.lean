import Aesd.Driver.System
import Mathlib.Data.List.Perm.Basic

/-!
# Loading and unloading

What `aesd_init_module` and `aesd_cleanup_module` register with the kernel, over any
number of cycles. An unload whose wait for the device lock is interrupted returns
before it gives its region back.
-/

set_option autoImplicit false

namespace Aesd.Driver

open Transition

/-- `MKDEV` and `MAJOR`; majors are so small that a device number has 32 bits. -/
def mkdev (major minor : Nat) : Nat := major <<< 20 ||| minor

def majorOf (dev : Nat) : Nat := dev >>> 20

def aesdMinor : Nat := 0

structure Host where
  regions : List Nat
  cdevs : List Nat
  aesdMajor : Nat
  kernel : Kernel

def Host.devno (host : Host) : Nat := mkdev host.aesdMajor aesdMinor

/-- `alloc_chrdev_region` fails or finds a major of which nothing is registered. -/
inductive RegionAnswer where
  | fails (errno : Int)
  | allocates (major : Nat)

def aesdSetupCdev (host : Host) (cdevAdd : Int) : Int × Host :=
  if cdevAdd = 0 then (0, { host with cdevs := host.devno :: host.cdevs }) else (cdevAdd, host)

/-- `aesd_init_module` with what it registers; the device itself is `aesdInitModule`. -/
def Host.load (host : Host) (answer : RegionAnswer) (cdevAdd : Int) : Int × Host :=
  match answer with
  | .fails errno => (errno, { host with aesdMajor := majorOf 0 })
  | .allocates major =>
      let dev := mkdev major aesdMinor
      let host : Host := {
        regions := dev :: host.regions
        cdevs := host.cdevs
        aesdMajor := majorOf dev
        kernel := (aesdInitModule host.kernel 0 cdevAdd).2 }
      let added := aesdSetupCdev host cdevAdd
      if added.1 ≠ 0 then (added.1, { added.2 with regions := added.2.regions.erase dev }) else added

/-- `aesd_cleanup_module`; nothing is returned while it waits for the device lock. -/
def Host.unload (host : Host) (interrupted : Bool) : Host × Option Unit :=
  let devno := host.devno
  let host := { host with cdevs := host.cdevs.erase devno }
  match aesdCleanupModule host.kernel interrupted with
  | .blocked => (host, none)
  | .returned kernel =>
      if interrupted then ({ host with kernel }, some ())
      else ({ host with kernel, regions := host.regions.erase devno }, some ())

/-- The module is not there, in use, or in an unload that does not return. -/
inductive Presence where
  | absent
  | loaded
  | unloading
  deriving DecidableEq

inductive CycleEvent where
  | load (answer : RegionAnswer) (cdevAdd : Int)
  | use (event : Event)
  | unload (interrupted : Bool)

structure Machine where
  host : Host
  fPos : Nat → Int
  presence : Presence

inductive Cycle (fixedSizeLlseek : FixedSizeLlseek) : Machine → CycleEvent → Machine → Prop where
  | load {host fPos answer cdevAdd} :
      (∀ major, answer = .allocates major → mkdev major aesdMinor ∉ host.regions) →
      (∀ errno, answer = .fails errno → errno < 0) → cdevAdd ≤ 0 →
      Cycle fixedSizeLlseek ⟨host, fPos, .absent⟩ (.load answer cdevAdd)
        ⟨(host.load answer cdevAdd).2, fun _ => 0,
          if (host.load answer cdevAdd).1 = 0 then .loaded else .absent⟩
  | use {host fPos event kernel position} :
      Step fixedSizeLlseek ⟨host.kernel, fPos⟩ event ⟨kernel, position⟩ →
      Cycle fixedSizeLlseek ⟨host, fPos, .loaded⟩ (.use event)
        ⟨{ host with kernel }, position, .loaded⟩
  | unload {host fPos interrupted} :
      Cycle fixedSizeLlseek ⟨host, fPos, .loaded⟩ (.unload interrupted)
        ⟨(host.unload interrupted).1, fPos,
          if (host.unload interrupted).2.isSome then .absent else .unloading⟩

/-- What the module in its present state has registered. -/
def Machine.ownRegions (machine : Machine) : List Nat :=
  match machine.presence with
  | .absent => []
  | .loaded | .unloading => [machine.host.devno]

def Machine.ownCdevs (machine : Machine) : List Nat :=
  match machine.presence with
  | .absent | .unloading => []
  | .loaded => [machine.host.devno]

def interruptions (events : List CycleEvent) : Nat :=
  events.countP fun event => match event with
    | .unload interrupted => interrupted
    | .load _ _ | .use _ => false

/-- Device number and major are each other's inverse for this driver. -/
theorem mkdev_majorOf (major : Nat) :
    mkdev (majorOf (mkdev major aesdMinor)) aesdMinor = mkdev major aesdMinor := by
  simp [mkdev, majorOf, aesdMinor, Nat.shiftLeft_shiftRight]

theorem Host.load_allocates (host : Host) (major : Nat) :
    host.load (.allocates major) 0 = (0, {
      regions := mkdev major aesdMinor :: host.regions
      cdevs := mkdev major aesdMinor :: host.cdevs
      aesdMajor := majorOf (mkdev major aesdMinor)
      kernel := (aesdInitModule host.kernel 0 0).2 }) := by
  simp [Host.load, aesdSetupCdev, Host.devno, mkdev_majorOf]

theorem Host.load_unadded (host : Host) (major : Nat) {cdevAdd : Int} (unadded : cdevAdd ≠ 0) :
    host.load (.allocates major) cdevAdd = (cdevAdd, {
      regions := host.regions
      cdevs := host.cdevs
      aesdMajor := majorOf (mkdev major aesdMinor)
      kernel := (aesdInitModule host.kernel 0 cdevAdd).2 }) := by
  simp [Host.load, aesdSetupCdev, unadded]

/-- What is registered: by others, by earlier modules that left it, and by this one. -/
structure Registered (others otherCdevs leaked : List Nat) (machine : Machine) : Prop where
  regions : machine.host.regions.Perm (machine.ownRegions ++ (leaked ++ others))
  cdevs : machine.host.cdevs.Perm (machine.ownCdevs ++ otherCdevs)

section Steps

variable {fixedSizeLlseek : FixedSizeLlseek} {first machine next last : Machine}
  {event : CycleEvent} {events : List CycleEvent} {others otherCdevs leaked : List Nat}

theorem erase_own {own : Nat} {registered rest : List Nat} (perm : registered.Perm (own :: rest)) :
    (registered.erase own).Perm rest := by
  have erased := perm.erase own
  rwa [List.erase_cons_head] at erased

/-- A load registers a region and makes the device reachable, or does neither. -/
theorem Registered.load {host : Host} {fPos : Nat → Int} {answer : RegionAnswer} {cdevAdd : Int}
    (registered : Registered others otherCdevs leaked ⟨host, fPos, .absent⟩)
    (failure : ∀ errno, answer = .fails errno → errno < 0) :
    Registered others otherCdevs leaked ⟨(host.load answer cdevAdd).2, fun _ => 0,
      if (host.load answer cdevAdd).1 = 0 then .loaded else .absent⟩ := by
  obtain ⟨regions, cdevs⟩ := registered
  cases answer with
  | fails errno =>
      have negative := failure errno rfl
      have failed : ¬errno = 0 := by omega
      rw [Host.load, if_neg failed]
      exact ⟨regions, cdevs⟩
  | allocates major =>
      by_cases added : cdevAdd = 0
      · subst added
        have devno : mkdev (majorOf (mkdev major aesdMinor)) aesdMinor = mkdev major aesdMinor :=
          mkdev_majorOf major
        rw [Host.load_allocates, if_pos rfl]
        generalize mkdev major aesdMinor = dev at devno
        constructor
        · rw [Machine.ownRegions, Host.devno, devno]
          exact regions.cons dev
        · rw [Machine.ownCdevs, Host.devno, devno]
          exact cdevs.cons dev
      · rw [Host.load_unadded host major added, if_neg added]
        exact ⟨regions, cdevs⟩

theorem Registered.unload {host : Host} {fPos : Nat → Int} {interrupted : Bool}
    (registered : Registered others otherCdevs leaked ⟨host, fPos, .loaded⟩) :
    ∃ more, more.length = leaked.length + (if interrupted then 1 else 0) ∧
      Registered others otherCdevs more ⟨(host.unload interrupted).1, fPos,
        if (host.unload interrupted).2.isSome then .absent else .unloading⟩ := by
  obtain ⟨regions, cdevs⟩ := registered
  have shut := erase_own cdevs
  cases interrupted with
  | true =>
      have returns : aesdCleanupModule host.kernel true = .returned host.kernel := rfl
      refine ⟨host.devno :: leaked, rfl, ?_⟩
      simp only [Host.unload, returns, ↓reduceIte, Option.isSome_some]
      exact ⟨regions, shut⟩
  | false =>
      refine ⟨leaked, rfl, ?_⟩
      cases ends : aesdCleanupModule host.kernel false with
      | blocked =>
          simp only [Host.unload, ends, Option.isSome_none, Bool.false_eq_true, ↓reduceIte]
          exact ⟨regions, shut⟩
      | returned kernel =>
          simp only [Host.unload, ends, Option.isSome_some, Bool.false_eq_true, ↓reduceIte]
          exact ⟨erase_own regions, shut⟩

theorem Registered.step (registered : Registered others otherCdevs leaked machine)
    (moved : Cycle fixedSizeLlseek machine event next) :
    ∃ more, more.length = leaked.length + interruptions [event] ∧
      Registered others otherCdevs more next := by
  cases moved with
  | load _ failure _ => exact ⟨leaked, rfl, registered.load failure⟩
  | use => exact ⟨leaked, rfl, registered.regions, registered.cdevs⟩
  | @unload host fPos interrupted =>
      obtain ⟨more, count, after⟩ := @Registered.unload _ _ _ _ _ interrupted registered
      refine ⟨more, ?_, after⟩
      rw [count]
      cases interrupted <;> rfl

/-- Over any cycles of loading, using and unloading, in any of their outcomes, what
stays registered of modules that are gone is one region for each interrupted unload. -/
theorem regions_after_cycles (absent : first.presence = .absent)
    (run : Run (Cycle fixedSizeLlseek) first events last) :
    ∃ leaked, leaked.length = interruptions events ∧
      last.host.regions.Perm (last.ownRegions ++ (leaked ++ first.host.regions)) ∧
      last.host.cdevs.Perm (last.ownCdevs ++ first.host.cdevs) := by
  have start : Registered first.host.regions first.host.cdevs [] first := by
    constructor
    · simp [Machine.ownRegions, absent]
    · simp [Machine.ownCdevs, absent]
  obtain ⟨leaked, count, registered⟩ := run.recorded (fun machine history => ∃ leaked,
    leaked.length = interruptions history ∧
      Registered first.host.regions first.host.cdevs leaked machine)
    (by
      intro machine history event next past moved
      obtain ⟨leaked, count, registered⟩ := past
      obtain ⟨more, grown, after⟩ := registered.step moved
      refine ⟨more, ?_, after⟩
      rw [grown, count]
      simp [interruptions, List.countP_append]) ⟨[], rfl, start⟩
  exact ⟨leaked, count, registered.regions, registered.cdevs⟩

end Steps

def emptyHost : Machine := ⟨⟨[], [], 0, loadedSystem.kernel⟩, fun _ => 0, .absent⟩

/-- A load, a write, an interrupted unload, and a second load: two regions are registered. -/
theorem regions_after_cycles_interrupted :
    let events := [.load (.allocates 240) 0,
      .use ⟨.write 0 (.whole [104, 105, newline] (some 1) none), 3, []⟩, .unload true,
      .load (.allocates 241) 0]
    ∃ last, Run (Cycle vfsFixedSizeLlseek) emptyHost events last ∧
      ∃ leaked, leaked.length = interruptions events ∧
        last.host.regions.Perm (last.ownRegions ++ (leaked ++ [])) ∧
        last.host.cdevs.Perm (last.ownCdevs ++ []) := by
  intro events
  have run : Run (Cycle vfsFixedSizeLlseek) emptyHost events _ :=
    .cons (.load (by simp) (by simp) (Int.le_refl 0)) <|
    .cons (.use ⟨_, _, rfl, rfl⟩) <|
    .cons .unload <|
    .single (.load (by
      intro major same registered
      cases same
      have one : mkdev 241 aesdMinor = mkdev 240 aesdMinor := List.mem_singleton.mp registered
      exact absurd one (by decide)) (by simp) (Int.le_refl 0))
  exact ⟨_, run, regions_after_cycles rfl run⟩

end Aesd.Driver
