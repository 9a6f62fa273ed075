import Aesd.Server.DataLine

/-!
# Lines of concurrent clients

Each step is one chunk of one client, appended under `file_mutex`. The device
keeps one pending command for all writers, so what a command consists of is told
by the order in which chunks were appended, not by who sent them.
-/

set_option autoImplicit false

namespace Aesd.Server

open CText Driver Transition

/-- The device and, for each client, the locals of its handler, what it has sent
so far and whether the handler has left its receive loop. -/
structure Clients where
  system : System
  locals : Nat → HandlerLocals
  sent : Nat → List UInt8
  left : Nat → Bool

inductive ClientEvent where
  | chunk (client : Nat) (bytes : List UInt8)
  | disconnect (client : Nat)

/-- A handler receives a chunk and appends to the device what its loop body
appends. Clients send plain bytes only. -/
inductive ClientStep (fixedSizeLlseek : FixedSizeLlseek) :
    Clients → ClientEvent → Clients → Prop where
  | chunk {clients : Clients} {client : Nat} {bytes : List UInt8} {received : Received}
      {events : List Event} {system : System} :
      clients.left client = false → bytes ≠ [] → Plain (clients.sent client ++ bytes) →
      receiveChunk (clients.locals client) (.served bytes) = some received →
      Delivers (received.appended.getD []) events →
      Run (Step fixedSizeLlseek) clients.system events system →
      ClientStep fixedSizeLlseek clients (.chunk client bytes)
        { system := system
          locals := Function.update clients.locals client received.locals
          sent := Function.update clients.sent client (clients.sent client ++ bytes)
          left := Function.update clients.left client received.newLineFound }
  | disconnect {clients : Clients} {client : Nat} :
      clients.left client = false →
      ClientStep fixedSizeLlseek clients (.disconnect client)
        { clients with left := Function.update clients.left client true }

structure Clients.Started (clients : Clients) : Prop where
  loaded : Loaded clients.system
  locals : ∀ client, (clients.locals client).foundIoctlCmd = false
  sent : ∀ client, clients.sent client = []
  left : ∀ client, clients.left client = false

/-- A chunk as it is appended: by whom, and its bytes through the newline. -/
abbrev Appended := Nat × List UInt8

/-- Which appended chunks the completed commands and the pending one consist of. -/
def provenanceNext (log : RecordLog Appended) : ClientEvent → RecordLog Appended
  | .chunk client bytes => log.append [(client, lineOf bytes)] (decide (newline ∈ bytes))
  | .disconnect _ => log

def provenance (events : List ClientEvent) : RecordLog Appended :=
  events.foldl provenanceNext .empty

def bytesOf (segment : List Appended) : List UInt8 := segment.flatMap Prod.snd

def appendedBy (log : RecordLog Appended) (client : Nat) : List Appended :=
  log.stream.filter (·.1 = client)

/-- One client's line, whole: the command is all that the client ever appended. -/
def IsClientLine (log : RecordLog Appended) (client : Nat) (segment : List Appended) : Prop :=
  segment = appendedBy log client

/-- A command that was completed by the chunk which ends a client's line. -/
structure EndsWith (segment : List Appended) (client : Nat) (before : List Appended)
    (body : List UInt8) : Prop where
  shape : segment = before ++ [(client, body ++ [newline])]
  onlyEnd : newline ∉ bytesOf before ++ body

structure Tracks (clients : Clients) (log : RecordLog Appended) : Prop where
  represents : Represents clients.system.kernel (log.expanded Prod.snd)
  unfound : ∀ client, (clients.locals client).foundIoctlCmd = false
  lines : ∀ client, bytesOf (appendedBy log client) = lineOf (clients.sent client)
  unfinished : ∀ client, clients.left client = false → newline ∉ clients.sent client
  finished : ∀ piece ∈ log.stream, newline ∈ piece.2 → clients.left piece.1 = true
  once : log.stream.Pairwise fun earlier later => newline ∈ earlier.2 → later.1 ≠ earlier.1
  commands : ∀ segment ∈ log.completed, ∃ client before body, EndsWith segment client before body
  open_ : newline ∉ bytesOf log.pending

theorem Clients.Started.tracks {clients : Clients} (started : clients.Started) :
    Tracks clients .empty where
  represents := started.loaded.represents.1
  unfound := started.locals
  lines := fun client => by rw [started.sent client]; rfl
  unfinished := fun client _ => by rw [started.sent client]; exact List.not_mem_nil
  finished := fun _ member => absurd member List.not_mem_nil
  once := .nil
  commands := fun _ member => absurd member List.not_mem_nil
  open_ := List.not_mem_nil

section Step

variable {fixedSizeLlseek : FixedSizeLlseek} {clients next : Clients} {log : RecordLog Appended}
  {event : ClientEvent}

theorem bytesOf_append (left right : List Appended) :
    bytesOf (left ++ right) = bytesOf left ++ bytesOf right := List.flatMap_append

theorem bytesOf_appendedBy_append (client other : Nat) (text : List UInt8) (closes : Bool) :
    bytesOf (appendedBy (log.append [(client, text)] closes) other) =
      bytesOf (appendedBy log other) ++ (if client = other then text else []) := by
  rw [appendedBy, RecordLog.stream_append, List.filter_append, bytesOf_append]
  by_cases same : client = other
  · simp [appendedBy, bytesOf, same]
  · simp [appendedBy, bytesOf, same]

private theorem Tracks.leave (tracks : Tracks clients log) (client : Nat) :
    Tracks { clients with left := Function.update clients.left client true } log where
  represents := tracks.represents
  unfound := tracks.unfound
  lines := tracks.lines
  unfinished := by
    intro other staying
    by_cases same : other = client
    · subst same
      simp at staying
    · exact tracks.unfinished other (by simpa [Function.update_of_ne same] using staying)
  finished := by
    intro piece member ends
    by_cases same : piece.1 = client
    · simp [same]
    · simpa [Function.update_of_ne same] using tracks.finished piece member ends
  once := tracks.once
  commands := tracks.commands
  open_ := tracks.open_

/-- A client whose handler still receives has not appended a line's end. -/
private theorem Tracks.not_ended (tracks : Tracks clients log) {client : Nat}
    (staying : clients.left client = false) {piece : Appended} (member : piece ∈ log.stream)
    (ends : newline ∈ piece.2) : piece.1 ≠ client := by
  intro same
  have gone := tracks.finished piece member ends
  rw [same, staying] at gone
  cases gone

private theorem Tracks.append (tracks : Tracks clients log) {client : Nat} {bytes : List UInt8}
    {system : System} (staying : clients.left client = false)
    (grown : Represents system.kernel
      ((log.expanded Prod.snd).append (lineOf bytes) (decide (newline ∈ bytes)))) :
    Tracks
      { system := system
        locals := clients.locals
        sent := Function.update clients.sent client (clients.sent client ++ bytes)
        left := Function.update clients.left client (decide (newline ∈ bytes)) }
      (log.append [(client, lineOf bytes)] (decide (newline ∈ bytes))) where
  represents := by
    rw [RecordLog.expanded_append]
    simpa using grown
  unfound := tracks.unfound
  lines := by
    intro other
    rw [bytesOf_appendedBy_append, tracks.lines other]
    by_cases same : client = other
    · subst same
      simp [lineOf_append, tracks.unfinished client staying,
        lineOf_of_notMem (tracks.unfinished client staying)]
    · simp [same, Function.update_of_ne (Ne.symm same)]
  unfinished := by
    intro other still
    by_cases same : other = client
    · subst same
      have open_ : newline ∉ bytes := by simpa using still
      simp [tracks.unfinished other staying, open_]
    · simp only [Function.update_of_ne same] at still ⊢
      exact tracks.unfinished other still
  finished := by
    intro piece member ends
    rw [RecordLog.stream_append] at member
    rcases List.mem_append.mp member with old | new
    · have apart := tracks.not_ended staying old ends
      simpa [Function.update_of_ne apart] using tracks.finished piece old ends
    · cases List.mem_singleton.mp new
      simpa using (newline_mem_lineOf bytes).mp ends
  once := by
    rw [RecordLog.stream_append]
    refine List.pairwise_append.mpr ⟨tracks.once, List.pairwise_singleton _ _, ?_⟩
    intro earlier member later new ends same
    cases List.mem_singleton.mp new
    exact tracks.not_ended staying member ends same.symm
  commands := by
    by_cases ends : newline ∈ bytes
    · obtain ⟨body, rest, rfl, absent⟩ := List.eq_append_cons_of_mem ends
      rw [decide_eq_true ends, RecordLog.append_closing]
      intro segment member
      rcases List.mem_append.mp member with old | new
      · exact tracks.commands segment old
      · cases List.mem_singleton.mp new
        refine ⟨client, log.pending, body, by rw [lineOf_line absent], ?_⟩
        rw [List.mem_append, not_or]
        exact ⟨tracks.open_, absent⟩
    · rw [decide_eq_false ends]
      exact tracks.commands
  open_ := by
    by_cases ends : newline ∈ bytes
    · rw [decide_eq_true ends]
      exact List.not_mem_nil
    · rw [decide_eq_false ends, RecordLog.append_open, bytesOf_append, List.mem_append, not_or]
      refine ⟨tracks.open_, ?_⟩
      simpa [bytesOf, newline_mem_lineOf] using ends

theorem Tracks.step (tracks : Tracks clients log)
    (moved : ClientStep fixedSizeLlseek clients event next) :
    Tracks next (provenanceNext log event) := by
  cases moved with
  | disconnect staying => exact tracks.leave _
  | @chunk client bytes received events system staying filled plain handled delivered run =>
      have part : lineOf bytes <:+: clients.sent client ++ bytes :=
        (lineOf_leading bytes).isInfix.trans (List.suffix_append _ _).isInfix
      rw [receiveChunk_plain (tracks.unfound client) (plain.of_within part)] at handled
      cases handled
      have appended := tracks.append staying
        (Delivers.appends tracks.represents delivered run)
      rw [← Function.update_eq_self client clients.locals] at appended
      exact appended

end Step

section Segments

variable {clients : Clients} {log : RecordLog Appended} {client : Nat}
  {earlier later : List (List Appended)} {segment before : List Appended} {body : List UInt8}

theorem EndsWith.last_mem (ends : EndsWith segment client before body) :
    (client, body ++ [newline]) ∈ segment := by
  rw [ends.shape]
  exact List.mem_append_right _ List.mem_cons_self

/-- Once a client's line has ended, nothing of that client is appended again. -/
theorem Tracks.nothing_after (tracks : Tracks clients log)
    (split : log.completed = earlier ++ segment :: later)
    (ends : EndsWith segment client before body) :
    (later.flatten ++ log.pending).filter (·.1 = client) = [] := by
  have once := tracks.once
  rw [RecordLog.stream, split, List.flatten_append, List.flatten_cons, List.append_assoc,
    List.append_assoc] at once
  have after := (List.pairwise_append.mp (List.pairwise_append.mp once).2.1).2.2
  rw [List.filter_eq_nil_iff]
  intro piece member same
  exact after _ ends.last_mem piece member (by simp) (by simpa using same)

/-- A command is one client's whole line exactly when all of it comes from that
client and nothing of that client went into an earlier command. -/
theorem Tracks.isClientLine_iff (tracks : Tracks clients log)
    (split : log.completed = earlier ++ segment :: later)
    (ends : EndsWith segment client before body) :
    IsClientLine log client segment ↔
      (∀ piece ∈ segment, piece.1 = client) ∧ ∀ piece ∈ earlier.flatten, piece.1 ≠ client := by
  have all : appendedBy log client =
      earlier.flatten.filter (·.1 = client) ++ segment.filter (·.1 = client) := by
    rw [appendedBy, RecordLog.stream, split, List.flatten_append, List.flatten_cons,
      List.append_assoc, List.append_assoc, List.filter_append, List.filter_append,
      tracks.nothing_after split ends, List.append_nil]
  rw [IsClientLine, all]
  constructor
  · intro whole
    have own : ∀ piece ∈ segment, piece.1 = client := by
      intro piece member
      rw [whole] at member
      rcases List.mem_append.mp member with inEarlier | inSegment
      · simpa using (List.mem_filter.mp inEarlier).2
      · simpa using (List.mem_filter.mp inSegment).2
    have kept : segment.filter (·.1 = client) = segment :=
      List.filter_eq_self.mpr fun piece member => by simpa using own piece member
    rw [kept] at whole
    have nothing := List.self_eq_append_left.mp whole
    refine ⟨own, fun piece member same => ?_⟩
    exact List.filter_eq_nil_iff.mp nothing piece member (by simpa using same)
  · rintro ⟨own, apart⟩
    have kept : segment.filter (·.1 = client) = segment :=
      List.filter_eq_self.mpr fun piece member => by simpa using own piece member
    have nothing : earlier.flatten.filter (·.1 = client) = [] :=
      List.filter_eq_nil_iff.mpr fun piece member same => apart piece member (by simpa using same)
    rw [kept, nothing, List.nil_append]

theorem Tracks.line_ended (tracks : Tracks clients log)
    (split : log.completed = earlier ++ segment :: later)
    (ends : EndsWith segment client before body) : newline ∈ clients.sent client := by
  rw [← newline_mem_lineOf, ← tracks.lines client]
  have inStream : (client, body ++ [newline]) ∈ log.stream := by
    rw [RecordLog.stream, split]
    refine List.mem_append_left _ (List.mem_flatten.mpr ⟨segment, ?_, ends.last_mem⟩)
    exact List.mem_append_right _ List.mem_cons_self
  exact List.mem_flatMap.mpr ⟨_, List.mem_filter.mpr ⟨inStream, by simp⟩, by simp⟩

end Segments

/-- In every interleaving, a completed command consists of the chunks appended
since the one before. Its last chunk, and no other, ends a client's line, and the
command is that line exactly when no other client's chunk and no earlier command
holds any part of it. -/
theorem commands_of_concurrent_clients {fixedSizeLlseek : FixedSizeLlseek} {first last : Clients}
    {events : List ClientEvent} (started : first.Started)
    (run : Run (ClientStep fixedSizeLlseek) first events last) :
    last.system.kernel.ringBytes = ((provenance events).retained 10).map bytesOf ∧
    last.system.kernel.pendingBytes = bytesOf (provenance events).pending ∧
    ∀ earlier segment later, (provenance events).completed = earlier ++ segment :: later →
      ∃ client before body, EndsWith segment client before body ∧
        newline ∈ last.sent client ∧
        bytesOf (appendedBy (provenance events) client) = lineOf (last.sent client) ∧
        (IsClientLine (provenance events) client segment ↔
          (∀ piece ∈ segment, piece.1 = client) ∧
          ∀ piece ∈ earlier.flatten, piece.1 ≠ client) := by
  have tracks : Tracks last (events.foldl provenanceNext .empty) := by
    refine run.simulates (fun _ => True) Tracks ?_ (fun _ _ => trivial) started.tracks
    exact fun _ _ _ _ _ tracks moved => tracks.step moved
  refine ⟨?_, tracks.represents.current, ?_⟩
  · rw [tracks.represents.ringBytes_eq, RecordLog.expanded_retained]
    rfl
  · intro earlier segment later split
    obtain ⟨client, before, body, ends⟩ :=
      tracks.commands segment (split ▸ List.mem_append_right _ List.mem_cons_self)
    exact ⟨client, before, body, ends, tracks.line_ended split ends, tracks.lines client,
      tracks.isClientLine_iff split ends⟩

def startedClients : Clients where
  system := loadedSystem
  locals := fun _ => .start 0 0
  sent := fun _ => []
  left := fun _ => false

theorem startedClients_started : startedClients.Started :=
  ⟨loadedSystem_loaded, fun _ => rfl, fun _ => rfl, fun _ => rfl⟩

def Clients.afterChunk (clients : Clients) (client : Nat) (bytes : List UInt8)
    (kBuf tempBuf : Option Address) : Clients where
  system := clients.system.after vfsFixedSizeLlseek
    (.write client (.whole (lineOf bytes) kBuf tempBuf))
  locals := clients.locals
  sent := Function.update clients.sent client (clients.sent client ++ bytes)
  left := Function.update clients.left client (decide (newline ∈ bytes))

theorem afterChunk_step {clients : Clients} {client : Nat} {bytes : List UInt8}
    {kBuf tempBuf : Option Address} (staying : clients.left client = false) (filled : bytes ≠ [])
    (plain : Plain (clients.sent client ++ bytes))
    (unfound : (clients.locals client).foundIoctlCmd = false)
    (written : ∃ position kernel, operate vfsFixedSizeLlseek clients.system
      (.write client (.whole (lineOf bytes) kBuf tempBuf)) =
        .returned (lineOf bytes).length position kernel []) :
    ClientStep vfsFixedSizeLlseek clients (.chunk client bytes)
      (clients.afterChunk client bytes kBuf tempBuf) := by
  obtain ⟨position, kernel, returned⟩ := written
  have part : lineOf bytes <:+: clients.sent client ++ bytes :=
    (lineOf_leading bytes).isInfix.trans (List.suffix_append _ _).isInfix
  have handled := receiveChunk_plain unfound (plain.of_within part)
  have delivered := delivers_whole client (mt (lineOf_eq_nil_iff bytes).mp filled) kBuf tempBuf
  have moved := ClientStep.chunk staying filled plain handled delivered
    (.single (System.after_step returned))
  rw [Function.update_eq_self] at moved
  exact moved

def afterTwoChunks : Clients :=
  (startedClients.afterChunk 0 [97] (some 1) none).afterChunk 1 [98, newline] (some 2) (some 3)

def afterFourChunks : Clients :=
  (afterTwoChunks.afterChunk 0 [99, newline] (some 4) none).afterChunk 2 [100, newline] (some 5)
    none

/-- Client 0 sends half a line, then client 1 sends up to a newline. -/
theorem twoChunks_run : Run (ClientStep vfsFixedSizeLlseek) startedClients
    [.chunk 0 [97], .chunk 1 [98, newline]] afterTwoChunks :=
  .cons (afterChunk_step rfl (by decide) ⟨by decide, by decide⟩ rfl ⟨_, _, rfl⟩) <|
    .single <| afterChunk_step rfl (by decide) ⟨by decide, by decide⟩ rfl ⟨_, _, rfl⟩

/-- Client 0 ends its line, and client 2 sends one in a single chunk. -/
theorem fourChunks_run : Run (ClientStep vfsFixedSizeLlseek) startedClients
    ([.chunk 0 [97], .chunk 1 [98, newline]] ++ [.chunk 0 [99, newline], .chunk 2 [100, newline]])
    afterFourChunks :=
  twoChunks_run.append <|
    .cons (afterChunk_step rfl (by decide) ⟨by decide, by decide⟩ rfl ⟨_, _, rfl⟩) <|
    .single <| afterChunk_step rfl (by decide) ⟨by decide, by decide⟩ rfl ⟨_, _, rfl⟩

theorem EndsWith.owner {front before : List Appended} {piece : Appended} {client : Nat}
    {body : List UInt8} (ends : EndsWith (front ++ [piece]) client before body) :
    client = piece.1 := by
  have last := congrArg List.getLast? ends.shape
  simp only [List.getLast?_append, List.getLast?_singleton, Option.some_or] at last
  exact (congrArg Prod.fst (Option.some.inj last)).symm

/-- The first command has bytes of clients 0 and 1, the second only the end of what
client 0 sent; the third is the line of client 2. -/
theorem commands_of_concurrent_clients_three_clients :
    let log := provenance [.chunk 0 [97], .chunk 1 [98, newline], .chunk 0 [99, newline],
      .chunk 2 [100, newline]]
    ¬IsClientLine log 1 [(0, [97]), (1, [98, newline])] ∧
      ¬IsClientLine log 0 [(0, [99, newline])] ∧ IsClientLine log 2 [(2, [100, newline])] := by
  intro log
  have commands := (commands_of_concurrent_clients startedClients_started fourChunks_run).2.2
  refine ⟨?_, ?_, ?_⟩
  · obtain ⟨client, _, _, ends, _, _, whole⟩ := commands [] [(0, [97]), (1, [98, newline])] _ rfl
    cases @EndsWith.owner [(0, [97])] _ _ _ _ ends
    exact mt whole.mp (by decide)
  · obtain ⟨client, _, _, ends, _, _, whole⟩ := commands [[(0, [97]), (1, [98, newline])]]
      [(0, [99, newline])] _ rfl
    cases @EndsWith.owner [] _ _ _ _ ends
    exact mt whole.mp (by decide)
  · obtain ⟨client, _, _, ends, _, _, whole⟩ := commands
      [[(0, [97]), (1, [98, newline])], [(0, [99, newline])]] [(2, [100, newline])] _ rfl
    cases @EndsWith.owner [] _ _ _ _ ends
    exact whole.mpr ⟨by decide, by decide⟩

/-- Client 0 has sent half a line when client 1 sends a whole one: one command
holds bytes of both, and is no client's line. -/
theorem command_of_two_clients :
    ∃ last, startedClients.Started ∧
      Run (ClientStep vfsFixedSizeLlseek) startedClients
        [.chunk 0 [97], .chunk 1 [98, newline]] last ∧
      (provenance [.chunk 0 [97], .chunk 1 [98, newline]]).completed =
        [[(0, [97]), (1, [98, newline])]] ∧
      last.system.kernel.ringBytes = [[97, 98, newline]] ∧
      ∀ client, lineOf (last.sent client) ≠ [97, 98, newline] := by
  refine ⟨_, startedClients_started, twoChunks_run, rfl, by decide +kernel, ?_⟩
  intro client
  match client with
  | 0 => decide
  | 1 => decide
  | client + 2 => simp [afterTwoChunks, Clients.afterChunk, startedClients, lineOf]

end Aesd.Server
