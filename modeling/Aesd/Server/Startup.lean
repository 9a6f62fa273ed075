import Aesd.Library.HandleTable

/-!
# Startup of the server

`establish_socket_connection` tries the addresses in turn, and `main` afterwards
looks at nothing but the global `server_socket`. Of the process, the model has
this global and the table of descriptors.
-/

set_option autoImplicit false

namespace Aesd.Server

open HandleTable

inductive OpenFile where
  | other
  | socket (bound : Bool)
  deriving DecidableEq

structure Sockets where
  table : Table OpenFile
  serverSocket : Int

/-- The process before startup, with some descriptors open. The global is zero. -/
def Sockets.start (inherited : Nat → Bool) : Sockets :=
  ⟨fun fd => if inherited fd then some .other else none, 0⟩

/-- An address of the list, and what the calls made with it would return. -/
structure Candidate where
  /-- The new descriptor, or nothing for -1. -/
  socket : Option Nat
  setsockoptFails : Bool
  bindFails : Bool

/-- The loop over the addresses, and the value returned. Where the socket is bound
the function ends without a `return`. -/
def tryAddresses (sockets : Sockets) : List Candidate → Sockets × Option Int
  | [] => (sockets, some (-1))
  | p :: rest =>
      match p.socket with
      | none => tryAddresses { sockets with serverSocket := -1 } rest
      | some fd =>
          let sockets : Sockets := ⟨opened sockets.table fd (.socket false), fd⟩
          if p.setsockoptFails then (sockets, some (-1))
          else if p.bindFails then
            tryAddresses { sockets with table := closed sockets.table fd } rest
          else ({ sockets with table := opened sockets.table fd (.socket true) }, none)

/-- `getaddrinfo` fails or gives a list. -/
def establishSocketConnection (sockets : Sockets) :
    Option (List Candidate) → Sockets × Option Int
  | none => (sockets, some (-1))
  | some servinfo => tryAddresses sockets servinfo

/-- What `main` returns before it starts daemon mode, or what it goes on to `listen`
with. The value returned to it is not looked at. -/
def mainBeforeDaemon (sockets : Sockets) (getaddrinfo : Option (List Candidate)) :
    Except Int Sockets :=
  let sockets := (establishSocketConnection sockets getaddrinfo).1
  if sockets.serverSocket = -1 then .error (-1) else .ok sockets

def Sockets.Bound (sockets : Sockets) : Prop :=
  ∃ fd : Nat, sockets.serverSocket = fd ∧ sockets.table fd = some (.socket true)

/-- The check of `main` tells whether the socket is bound. -/
def Sockets.Checked (sockets : Sockets) : Prop := sockets.serverSocket ≠ -1 → sockets.Bound

/-- The loop ends at this address, with a bound socket or without. -/
def Candidate.ends (candidate : Candidate) : Bool :=
  candidate.socket.isSome && (candidate.setsockoptFails || !candidate.bindFails)

/-- The address that ends the loop is bound, or no address ends it and not even a
socket was made for the last one. -/
def FindsBound (candidates : List Candidate) : Prop :=
  match candidates.find? Candidate.ends with
  | some last => last.setsockoptFails = false
  | none => ∃ last ∈ candidates.getLast?, last.socket = none

theorem checked_iff (table : Table OpenFile) (fd : Nat) :
    (⟨table, fd⟩ : Sockets).Checked ↔ table fd = some (.socket true) := by
  constructor
  · intro checked
    obtain ⟨other, same, bound⟩ := checked (by dsimp only; omega)
    cases Int.ofNat.inj same
    exact bound
  · exact fun bound _ => ⟨fd, rfl, bound⟩

theorem checked_unmade (table : Table OpenFile) : (⟨table, -1⟩ : Sockets).Checked :=
  fun made => absurd rfl made

theorem not_checked_start (inherited : Nat → Bool) : ¬(Sockets.start inherited).Checked := by
  intro checked
  have bound := (checked_iff _ 0).mp checked
  simp at bound

theorem findsBound_cons {p : Candidate} (goesOn : p.ends = false) (rest : List Candidate) :
    FindsBound (p :: rest) ↔ FindsBound rest ∨ rest = [] ∧ p.socket = none := by
  have skipped : (p :: rest).find? Candidate.ends = rest.find? Candidate.ends :=
    List.find?_cons_of_neg (Bool.eq_false_iff.mp goesOn)
  cases rest with
  | nil => simp [FindsBound, skipped]
  | cons next rest =>
      rw [FindsBound, skipped, List.getLast?_cons_cons]
      simp [FindsBound]

theorem tryAddresses_checked_iff (sockets : Sockets) (candidates : List Candidate) :
    (tryAddresses sockets candidates).1.Checked ↔
      FindsBound candidates ∨ candidates = [] ∧ sockets.Checked := by
  induction candidates generalizing sockets with
  | nil => simp [tryAddresses, FindsBound]
  | cons p rest ih =>
      rw [tryAddresses]
      cases made : p.socket with
      | none =>
          have goesOn : p.ends = false := by simp [Candidate.ends, made]
          rw [findsBound_cons goesOn, ih, and_iff_left (checked_unmade _), and_iff_left made]
          simp
      | some fd =>
          by_cases refused : p.setsockoptFails = true
          · simp [refused, checked_iff, opened, FindsBound, Candidate.ends, made]
          · by_cases unbound : p.bindFails = true
            · have goesOn : p.ends = false := by simp [Candidate.ends, refused, unbound]
              have shut : ¬(⟨closed (opened sockets.table fd (.socket false)) fd, fd⟩ :
                  Sockets).Checked := by
                rw [checked_iff, closed, Function.update_self]
                exact Option.some_ne_none _ ∘ Eq.symm
              rw [findsBound_cons goesOn, made]
              simp [refused, unbound, ih, shut]
            · simp [refused, unbound, checked_iff, opened, FindsBound, Candidate.ends, made]

theorem mainBeforeDaemon_bound_iff (sockets : Sockets) (getaddrinfo : Option (List Candidate)) :
    (∀ after, mainBeforeDaemon sockets getaddrinfo = .ok after → after.Bound) ↔
      (establishSocketConnection sockets getaddrinfo).1.Checked := by
  unfold mainBeforeDaemon Sockets.Checked
  dsimp only
  split
  · next stopped => simp [stopped]
  · next passed =>
      rw [forall_prop_of_true passed]
      exact ⟨fun bound => bound _ rfl, fun bound _ same => Except.ok.inj same ▸ bound⟩

/-- `main` goes on only with an open and bound `server_socket`, and otherwise stops,
exactly when the address that ends the loop is bound, or none ends it and the last
one failed in `socket`. -/
theorem main_listens_on_bound_iff (inherited : Nat → Bool)
    (getaddrinfo : Option (List Candidate)) :
    (∀ sockets, mainBeforeDaemon (.start inherited) getaddrinfo = .ok sockets → sockets.Bound) ↔
      ∃ servinfo, getaddrinfo = some servinfo ∧ FindsBound servinfo := by
  rw [mainBeforeDaemon_bound_iff]
  cases getaddrinfo with
  | none => simp [establishSocketConnection, not_checked_start]
  | some servinfo =>
      rw [establishSocketConnection, tryAddresses_checked_iff]
      simp [not_checked_start]

/-- The descriptors of a process that was started from a terminal. -/
def standardStreams (fd : Nat) : Bool := fd < 3

/-- `main` goes on with descriptor 0 when `getaddrinfo` fails, with a closed one when
the only `bind` fails, and with an unbound one when `setsockopt` fails. -/
theorem main_listens_on_unbound :
    (∃ sockets, mainBeforeDaemon (.start standardStreams) none = .ok sockets ∧
      sockets.serverSocket = 0 ∧ sockets.table 0 = some .other ∧ ¬sockets.Bound) ∧
    (∃ sockets, mainBeforeDaemon (.start standardStreams) (some [⟨some 3, false, true⟩]) =
      .ok sockets ∧ sockets.serverSocket = 3 ∧ sockets.table 3 = none ∧ ¬sockets.Bound) ∧
    ∃ sockets, mainBeforeDaemon (.start standardStreams) (some [⟨some 3, true, false⟩]) =
      .ok sockets ∧ sockets.serverSocket = 3 ∧ sockets.table 3 = some (.socket false) ∧
        ¬sockets.Bound := by
  have unbound : ∀ (table : Table OpenFile) (fd : Nat), table fd ≠ some (.socket true) →
      ¬(⟨table, fd⟩ : Sockets).Bound :=
    fun table fd apart bound => apart ((checked_iff table fd).mp fun _ => bound)
  refine ⟨⟨_, rfl, rfl, rfl, unbound _ 0 (by decide)⟩, ⟨_, rfl, rfl, rfl, unbound _ 3 (by decide)⟩,
    ⟨_, rfl, rfl, rfl, unbound _ 3 (by decide)⟩⟩

end Aesd.Server
