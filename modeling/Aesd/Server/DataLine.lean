import Aesd.Driver.ShortCopies
import Aesd.Server.ReceiveProperties

/-!
# From socket to ring

The stream of a client is cut twice: into received chunks, and each appended
string into write calls. Neither cut shows in the ring.
-/

set_option autoImplicit false

namespace Aesd.Server

open CText Driver Transition

/-- A stream cut into the chunks that successive `recvfrom` calls return. -/
structure Splits (chunks : List (List UInt8)) (stream : List UInt8) : Prop where
  whole : chunks.flatten = stream
  sizes : ∀ chunk ∈ chunks, 1 ≤ chunk.length

/-- The write calls by which `fopen`, `fprintf` and `fclose` deliver a string. -/
structure Delivers (text : List UInt8) (events : List Event) : Prop where
  writes : ∀ event ∈ events, event.WritesWhole
  bytes : (events.map Event.data).flatten = text

theorem delivers_whole (file : Nat) {data : List UInt8} (nonempty : data ≠ [])
    (kBuf tempBuf : Option Address) :
    Delivers data [⟨.write file (.whole data kBuf tempBuf), data.length, []⟩] where
  writes := by
    intro event member
    cases List.mem_singleton.mp member
    exact ⟨⟨file, _, rfl⟩, nonempty, rfl⟩
  bytes := by simp [Event.data, WriteCall.whole]

theorem Delivers.all {texts : List (List UInt8)} {deliveries : List (List Event)}
    (delivered : List.Forall₂ Delivers texts deliveries) :
    Delivers texts.flatten deliveries.flatten := by
  induction delivered with
  | nil => exact ⟨by simp, rfl⟩
  | cons first _ ih =>
      constructor
      · intro event member
        rcases List.mem_append.mp member with here | later
        · exact first.writes event here
        · exact ih.writes event later
      · rw [List.flatten_cons, List.map_append, List.flatten_append, first.bytes, ih.bytes,
          List.flatten_cons]

theorem Delivers.completes_line {fixedSizeLlseek : FixedSizeLlseek} {system final : System}
    {log : RecordLog UInt8} {body : List UInt8} {events : List Event}
    (represents : Represents system.kernel log) (absent : newline ∉ body)
    (delivered : Delivers (body ++ [newline]) events)
    (run : Run (Step fixedSizeLlseek) system events final) :
    Represents final.kernel (log.append (body ++ [newline]) true) := by
  have pieces := run_represents_pieces run delivered.writes represents
  have nonempty : ∀ piece ∈ events.map Event.data, piece ≠ [] := by
    intro piece member
    obtain ⟨event, inEvents, rfl⟩ := List.mem_map.mp member
    exact (delivered.writes event inEvents).nonempty
  rw [log.appendPieces_line nonempty absent delivered.bytes] at pieces
  rwa [RecordLog.append_closing]

theorem Delivers.appends {fixedSizeLlseek : FixedSizeLlseek} {system final : System}
    {log : RecordLog UInt8} {bytes : List UInt8} {events : List Event}
    (represents : Represents system.kernel log) (delivered : Delivers (lineOf bytes) events)
    (run : Run (Step fixedSizeLlseek) system events final) :
    Represents final.kernel (log.append (lineOf bytes) (decide (newline ∈ bytes))) := by
  by_cases ends : newline ∈ bytes
  · obtain ⟨body, rest, rfl, absent⟩ := List.eq_append_cons_of_mem ends
    rw [lineOf_line absent] at delivered ⊢
    rw [decide_eq_true ends]
    exact delivered.completes_line represents absent run
  · have pieces := run_represents_pieces run delivered.writes represents
    have open_ : newline ∉ (events.map Event.data).flatten := by
      rwa [delivered.bytes, newline_mem_lineOf]
    rw [log.appendPieces_of_notMem open_, delivered.bytes] at pieces
    rwa [decide_eq_false ends]

/-- A write call that is not interrupted, is granted its memory and copies its whole
buffer. -/
def ServedWrite (fixedSizeLlseek : FixedSizeLlseek) (system : System) (event : Event)
    (next : System) : Prop :=
  ∃ file call retval, event = ⟨.write file call, retval, []⟩ ∧ call.data ≠ [] ∧
    call.notCopied = 0 ∧ Submits fixedSizeLlseek file system call retval next

/-- The calls submit the string, in order; what they return is left open. -/
def Conveys (text : List UInt8) (events : List Event) : Prop :=
  (events.map Event.data).flatten = text

section Served

variable {fixedSizeLlseek : FixedSizeLlseek} {system next final : System}

theorem ServedWrite.whole {event : Event} {log : RecordLog UInt8}
    (served : ServedWrite fixedSizeLlseek system event next)
    (represents : Represents system.kernel log) :
    Step fixedSizeLlseek system event next ∧ event.WritesWhole := by
  obtain ⟨file, call, retval, rfl, nonempty, full, submits⟩ := served
  have counted : retval = call.data.length := by
    rw [submits.counts represents nonempty, WriteCall.usrCount, full, Nat.sub_zero]
  exact ⟨submits.moved, ⟨file, call, rfl⟩, nonempty, counted⟩

theorem run_of_served {events : List Event} (represents : ∃ log, Represents system.kernel log)
    (run : Run (ServedWrite fixedSizeLlseek) system events final) :
    Run (Step fixedSizeLlseek) system events final ∧ ∀ event ∈ events, event.WritesWhole := by
  induction run with
  | refl => exact ⟨.refl, fun _ member => by cases member⟩
  | cons served _ ih =>
      obtain ⟨log, holds⟩ := represents
      obtain ⟨moved, whole⟩ := served.whole holds
      obtain ⟨run, rest⟩ := ih (run_represents (.single moved) ⟨log, holds⟩)
      exact ⟨.cons moved run, List.forall_mem_cons.mpr ⟨whole, rest⟩⟩

theorem delivers_of_conveys {texts : List (List UInt8)} {deliveries : List (List Event)}
    (conveyed : List.Forall₂ Conveys texts deliveries)
    (whole : ∀ event ∈ deliveries.flatten, event.WritesWhole) :
    List.Forall₂ Delivers texts deliveries := by
  induction conveyed with
  | nil => exact .nil
  | cons bytes _ ih =>
      refine .cons ⟨fun event member => whole event ?_, bytes⟩ (ih fun event member => whole event ?_)
      · exact List.mem_append_left _ member
      · exact List.mem_append_right _ member

end Served

/-- The ring has gained this entry, in the place of the oldest where it was full, and
nothing is pending. -/
def GainsEntry (line : List UInt8) (system final : System) : Prop :=
  final.kernel.ringBytes = (if system.kernel.ringBytes.length < 10 then
    system.kernel.ringBytes else system.kernel.ringBytes.tail) ++ [line] ∧
  final.kernel.pendingBytes = []

/-- A data line becomes one entry: the loop leaves through its newline, and any
delivery of what it appended adds the line to the ring and nothing more. Calls that
are served make such a delivery. -/
theorem data_line_becomes_one_entry {fixedSizeLlseek : FixedSizeLlseek} {first system : System}
    {earlier : List Event} (loaded : Loaded first)
    (reached : Run (Step fixedSizeLlseek) first earlier system)
    (idle : system.kernel.pendingBytes = []) (writeCmd writeCmdOffset : BitVec 32)
    (body rest : List UInt8) (absent : newline ∉ body) (plain : Plain (body ++ [newline]))
    {chunks : List (List UInt8)} (splits : Splits chunks (body ++ newline :: rest)) :
    ∃ appended, receiveLoop (.start writeCmd writeCmdOffset) (chunks.map .served) =
        some ⟨.start writeCmd writeCmdOffset, appended, true⟩ ∧
      (∀ deliveries final, List.Forall₂ Delivers appended deliveries →
        Run (Step fixedSizeLlseek) system deliveries.flatten final →
        GainsEntry (body ++ [newline]) system final) ∧
      ∀ deliveries final, List.Forall₂ Conveys appended deliveries →
        Run (ServedWrite fixedSizeLlseek) system deliveries.flatten final →
        GainsEntry (body ++ [newline]) system final := by
  have known := run_represents reached ⟨_, loaded.represents.1⟩
  obtain ⟨log, represents⟩ := known
  have pending : log.pending = [] := represents.pendingBytes_eq.symm.trans idle
  have line : lineOf chunks.flatten = body ++ [newline] := by
    rw [splits.whole, lineOf_line absent]
  have unfound : (HandlerLocals.start writeCmd writeCmdOffset).foundIoctlCmd = false := rfl
  obtain ⟨appended, looped, text⟩ := receiveLoop_plain unfound chunks (line ▸ plain)
  have through : newline ∈ chunks.flatten := by simp [splits.whole]
  rw [decide_eq_true through] at looped
  have gains : ∀ deliveries final, List.Forall₂ Delivers appended deliveries →
      Run (Step fixedSizeLlseek) system deliveries.flatten final →
      GainsEntry (body ++ [newline]) system final := by
    intro deliveries final delivered run
    have whole := Delivers.all delivered
    rw [text, line] at whole
    have completed := whole.completes_line represents absent run
    refine ⟨?_, completed.pendingBytes_eq⟩
    rw [completed.ringBytes_eq, RecordLog.retained_append_closing (by decide), pending,
      List.nil_append, represents.ringBytes_eq, RecordLog.retained_length]
    by_cases room : log.completed.length < 10
    · rw [if_pos room, if_pos (by omega)]
    · rw [if_neg room, if_neg (by omega)]
  refine ⟨appended, looped, gains, ?_⟩
  intro deliveries final conveyed served
  obtain ⟨run, whole⟩ := run_of_served ⟨log, represents⟩ served
  exact gains deliveries final (delivers_of_conveys conveyed whole) run

/-- The second chunk goes out in two calls, and the byte behind the newline in none. -/
theorem data_line_becomes_one_entry_two_chunks :
    ∃ events final, Run (ServedWrite vfsFixedSizeLlseek) loadedSystem events final ∧
      events.map Event.data = [[97], [98], [newline]] ∧
      receiveLoop (.start 0 0) ([[97], [98, newline, 99]].map .served) =
        some ⟨.start 0 0, [[97], [98, newline]], true⟩ ∧
      GainsEntry [97, 98, newline] loadedSystem final := by
  let deliveries : List (List Event) := [[⟨.write 0 (.whole [97] (some 1) none), 1, []⟩],
    [⟨.write 0 (.whole [98] (some 2) (some 3)), 1, []⟩,
      ⟨.write 0 (.whole [newline] (some 2) (some 4)), 1, []⟩]]
  have run : Run (ServedWrite vfsFixedSizeLlseek) loadedSystem deliveries.flatten _ :=
    .cons ⟨0, _, _, rfl, by decide, rfl, System.after_step rfl, rfl, 1, _, rfl,
      fun waiting => absurd rfl waiting⟩ <|
    .cons ⟨0, _, _, rfl, by decide, rfl, System.after_step rfl, rfl, 2, _, rfl,
      fun _ => Option.some_ne_none _⟩ <|
    .cons ⟨0, _, _, rfl, by decide, rfl, System.after_step rfl, rfl, 2, _, rfl,
      fun _ => Option.some_ne_none _⟩ .refl
  obtain ⟨appended, looped, _, gains⟩ := data_line_becomes_one_entry loadedSystem_loaded
    (.refl : Run (Step vfsFixedSizeLlseek) loadedSystem [] loadedSystem) rfl 0 0 [97, 98] [99]
    (by decide) ⟨by decide, by decide⟩
    (⟨rfl, by decide⟩ : Splits [[97], [98, newline, 99]] ([97, 98] ++ newline :: [99]))
  have texts : appended = [[97], [98, newline]] := by
    have ran : receiveLoop (.start 0 0) ([[97], [98, newline, 99]].map .served) =
      some ⟨.start 0 0, [[97], [98, newline]], true⟩ := by decide
    cases looped.symm.trans ran
    rfl
  subst texts
  exact ⟨deliveries.flatten, _, run, rfl, looped,
    gains deliveries _ (.cons rfl (.cons rfl .nil)) run⟩

end Aesd.Server
