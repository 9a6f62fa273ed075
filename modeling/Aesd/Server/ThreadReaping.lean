import Aesd.Server.ThreadListProperties
import Aesd.Server.ThreadTracking

/-!
# Each finished thread is reaped once

A thread is joined, unlinked and freed at most once and after its flag was set, in
every order of accepts, handlers and passes. What a pass leaves in the list is what
it found there less what it took out, and nothing that was finished before.
-/

set_option autoImplicit false

namespace Aesd.Server

open LinkedList Transition

def listNext (threads : List Nat) : ThreadEvent → List Nat
  | .insert thread => thread :: threads
  | .unlink thread => threads.filter (· ≠ thread)
  | _ => threads

/-- The threads inserted and not unlinked, the newest first. -/
def listed (events : List ThreadEvent) : List Nat := events.foldl listNext []

/-- The events by which `cleanup_threads` disposes of a thread. -/
def ThreadEvent.reaps : ThreadEvent → Option Nat
  | .join thread | .unlink thread | .free thread => some thread
  | _ => none

def MainPoint.InPass : MainPoint → Prop
  | .accepting | .inserting _ | .cleaning => False
  | .visiting _ | .testing _ _ | .joining _ _ | .removing _ _ | .searching _ _ _ | .freeing _ _ =>
      True

def ThreadsState.Flagged (server : ThreadsState) (thread : Nat) : Prop :=
  ∃ info stage, server.thread thread = some ⟨info, stage⟩ ∧ stage ≠ .running

def ThreadsState.Joined (server : ThreadsState) (thread : Nat) : Prop :=
  ∃ info, server.thread thread = some ⟨info, .joined⟩

theorem ThreadsState.Joined.flagged {server : ThreadsState} {thread : Nat}
    (joined : server.Joined thread) : server.Flagged thread := by
  obtain ⟨info, current⟩ := joined
  exact ⟨info, .joined, current, by simp⟩

/-- What the events so far tell about threads and nodes. -/
structure ThreadHistory (server : ThreadsState) (nodes : List Address) (history : List ThreadEvent) :
    Prop where
  flags : ∀ thread, .setFlag thread ∈ history ↔ server.Flagged thread
  joins : ∀ thread, .join thread ∈ history → server.Joined thread
  unlinks : ∀ thread, .unlink thread ∈ history →
    server.Joined thread ∧ ∀ info ∈ nodes, server.threadAt info ≠ some thread
  frees : ∀ thread, .free thread ∈ history →
    server.Joined thread ∧ ∀ info, server.threadAt info ≠ some thread
  lists : nodes.filterMap server.threadAt = listed history

section Steps

variable {server next : ThreadsState} {event : ThreadEvent} {thread : Nat} {info : Address}

theorem flagged_update (heap : Address → Option ThreadInfo) (pointer : Option Address)
    (threads : Nat → Option Thread) (main : MainPoint) (other : Nat) (info : Address)
    (stage : ThreadStage) :
    ThreadsState.Flagged ⟨heap, pointer, Function.update threads other (some ⟨info, stage⟩), main⟩
        thread ↔
      if thread = other then stage ≠ .running
      else ∃ info stage, threads thread = some ⟨info, stage⟩ ∧ stage ≠ .running := by
  by_cases same : thread = other
  · subst same
    simp [ThreadsState.Flagged]
  · simp [ThreadsState.Flagged, same]

theorem joined_update (heap : Address → Option ThreadInfo) (pointer : Option Address)
    (threads : Nat → Option Thread) (main : MainPoint) (other : Nat) (info : Address)
    (stage : ThreadStage) :
    ThreadsState.Joined ⟨heap, pointer, Function.update threads other (some ⟨info, stage⟩), main⟩
        thread ↔
      if thread = other then stage = .joined else ∃ info, threads thread = some ⟨info, .joined⟩ := by
  by_cases same : thread = other
  · subst same
    simp [ThreadsState.Joined]
  · simp [ThreadsState.Joined, same]

/-- A change to a thread that was not joined leaves those that were. -/
theorem joined_update_of_unjoined {other : Nat} (joined : server.Joined thread)
    (unjoined : ¬server.Joined other) (heap : Address → Option ThreadInfo)
    (pointer : Option Address) (main : MainPoint) (info : Address) (stage : ThreadStage) :
    ThreadsState.Joined
      ⟨heap, pointer, Function.update server.thread other (some ⟨info, stage⟩), main⟩ thread := by
  rw [joined_update, if_neg]
  · exact joined
  · intro same
    exact unjoined (same ▸ joined)

/-- What `pthread_join` waits for. -/
theorem ThreadStage.stopped {stage : ThreadStage} (ended : stage = .exited ∨ stage = .joined) :
    stage ≠ .running := by
  rcases ended with exited | joined
  · simp [exited]
  · simp [joined]

theorem ThreadStep.flagged_iff (moved : ThreadStep server event next) (thread : Nat) :
    next.Flagged thread ↔ server.Flagged thread ∨ event = .setFlag thread := by
  cases moved with
  | passBegin | next | skip | complete | search | advance | passEnd | insertHead | removeHead
  | removeAfter | free => simp [ThreadsState.Flagged]
  | @create _ created _ _ _ unused =>
      rw [flagged_update]
      by_cases same : thread = created
      · simp [same, ThreadsState.Flagged, unused]
      · simp [same, ThreadsState.Flagged]
  | @join _ _ node current _ _ found ended =>
      rw [flagged_update]
      by_cases same : thread = node.threadId
      · rw [if_pos same]
        subst same
        exact iff_of_true (by simp)
          (.inl ⟨current.info, current.stage, found, ThreadStage.stopped ended⟩)
      · simp [same, ThreadsState.Flagged]
  | @setFlag flagging _ _ running _ =>
      rw [flagged_update]
      by_cases same : thread = flagging
      · simp [same]
      · simp [same, Ne.symm same, ThreadsState.Flagged]
  | @exit ending _ flagged =>
      rw [flagged_update]
      by_cases same : thread = ending
      · simp [same, ThreadsState.Flagged, flagged]
      · simp [same, ThreadsState.Flagged]

theorem ThreadStep.joined (moved : ThreadStep server event next) (joined : server.Joined thread) :
    next.Joined thread := by
  cases moved with
  | passBegin | next | skip | complete | search | advance | passEnd | insertHead | removeHead
  | removeAfter | free => exact joined
  | create _ _ unused =>
      exact joined_update_of_unjoined joined (by simp [ThreadsState.Joined, unused]) ..
  | @join _ _ node _ _ _ _ _ =>
      rw [joined_update]
      by_cases same : thread = node.threadId
      · simp [same]
      · rw [if_neg same]
        exact joined
  | setFlag running _ =>
      exact joined_update_of_unjoined joined (by simp [ThreadsState.Joined, running]) ..
  | exit flagged =>
      exact joined_update_of_unjoined joined (by simp [ThreadsState.Joined, flagged]) ..

/-- Nodes keep their threads; only a new node and a freed one differ. -/
theorem ThreadStep.threadAt_cases (moved : ThreadStep server event next) :
    next.threadAt = server.threadAt ∨
      (∃ info thread, event = .create thread ∧ server.heap info = none ∧
        server.thread thread = none ∧
        next.threadAt = Function.update server.threadAt info (some thread)) ∨
      ∃ info thread, event = .free thread ∧ server.threadAt info = some thread ∧
        next.threadAt = Function.update server.threadAt info none := by
  have restored : ∀ {info : Address} {node : ThreadInfo}, server.heap info = some node →
      ∀ thread, node.threadId = thread →
        Function.update server.threadAt info (some thread) = server.threadAt := by
    rintro info node present _ rfl
    exact Function.update_eq_self_iff.mpr (ThreadsState.threadAt_eq present).symm
  cases moved with
  | passBegin | next | skip | complete | join | removeHead | search | advance | passEnd | exit =>
      exact .inl rfl
  | create _ free unused =>
      exact .inr (.inl ⟨_, _, rfl, free, unused, ThreadsState.threadAt_update _ _ _ _ _ _⟩)
  | insertHead _ present =>
      exact .inl ((ThreadsState.threadAt_update _ _ _ _ _ _).trans (restored present _ rfl))
  | removeAfter _ present _ _ =>
      exact .inl ((ThreadsState.threadAt_update _ _ _ _ _ _).trans (restored present _ rfl))
  | setFlag _ present =>
      exact .inl ((ThreadsState.threadAt_update _ _ _ _ _ _).trans (restored present _ rfl))
  | free _ present =>
      refine .inr (.inr ⟨_, _, rfl, ThreadsState.threadAt_eq present, ?_⟩)
      exact ThreadsState.threadAt_update _ _ _ _ _ _

theorem ThreadStep.threadAt_eq (moved : ThreadStep server event next)
    (before : server.heap info ≠ none) (after : next.threadAt info ≠ none) :
    next.threadAt info = server.threadAt info := by
  rcases moved.threadAt_cases with same | ⟨created, _, _, free, _, same⟩ | ⟨freed, _, _, _, same⟩
  · rw [same]
  · rw [same, Function.update_of_ne]
    rintro rfl
    exact before free
  · rw [same, Function.update_of_ne]
    rintro rfl
    rw [same, Function.update_self] at after
    exact after rfl

theorem ThreadStep.threadAt_before (moved : ThreadStep server event next)
    (after : next.threadAt info = some thread) :
    server.threadAt info = some thread ∨ event = .create thread ∧ server.thread thread = none := by
  rcases moved.threadAt_cases with same | ⟨created, _, rfl, _, unused, same⟩ | ⟨freed, _, _, _, same⟩
  · exact .inl (same ▸ after)
  · by_cases here : info = created
    · subst here
      rw [same, Function.update_self] at after
      cases after
      exact .inr ⟨rfl, unused⟩
    · rw [same, Function.update_of_ne here] at after
      exact .inl after
  · by_cases here : info = freed
    · subst here
      rw [same, Function.update_self] at after
      cases after
    · rw [same, Function.update_of_ne here] at after
      exact .inl after

theorem Relisted.mem {threadAt : Address → Option Nat} {nodes after : List Address}
    (relisted : Relisted threadAt nodes event after) (member : info ∈ after) :
    info ∈ nodes ∨ ∃ thread, event = .insert thread ∧ threadAt info = some thread := by
  cases relisted with
  | insert inserted =>
      rcases List.mem_cons.mp member with rfl | older
      · exact .inr ⟨_, rfl, inserted⟩
      · exact .inl older
  | unlink split _ =>
      rw [split]
      rcases List.mem_append.mp member with left | right
      · exact .inl (List.mem_append_left _ left)
      · exact .inl (List.mem_append_right _ (List.mem_cons_of_mem _ right))
  | keep _ => exact .inl member

theorem Tracked.owner (tracked : Tracked server) (holds : server.threadAt info = some thread) :
    ∃ stage, server.thread thread = some ⟨info, stage⟩ ∧
      (stage = .joined ↔ server.main.discards = some info) := by
  obtain ⟨node, present, rfl⟩ := Option.map_eq_some_iff.mp holds
  obtain ⟨stage, owner, _, joined⟩ := tracked.owned info node present
  exact ⟨stage, owner, joined⟩

theorem Tracked.threadAt_injective (tracked : Tracked server) {other : Address}
    (holds : server.threadAt info = some thread) (holdsOther : server.threadAt other = some thread) :
    info = other := by
  obtain ⟨_, owner, _⟩ := tracked.owner holds
  obtain ⟨_, ownerOther, _⟩ := tracked.owner holdsOther
  cases owner.symm.trans ownerOther
  rfl

theorem Tracked.joined_iff_discards (tracked : Tracked server)
    (holds : server.threadAt info = some thread) :
    server.Joined thread ↔ server.main.discards = some info := by
  obtain ⟨stage, owner, joined⟩ := tracked.owner holds
  rw [← joined]
  constructor
  · rintro ⟨other, current⟩
    cases owner.symm.trans current
    rfl
  · rintro rfl
    exact ⟨info, owner⟩

theorem ThreadStep.insert_unjoined (moved : ThreadStep server (.insert thread) next)
    (tracked : Tracked server) : ¬server.Joined thread := by
  cases moved with
  | insertHead waits present =>
      rw [tracked.joined_iff_discards (ThreadsState.threadAt_eq present), waits]
      exact Option.some_ne_none _ ∘ Eq.symm

/-- The three events of a disposal, in their order. -/
theorem ThreadStep.reaps_cases (moved : ThreadStep server event next) (tracked : Tracked server)
    (reaps : event.reaps = some thread) :
    (event = .join thread ∧ ¬server.Joined thread ∧ server.Flagged thread ∧ next.Joined thread) ∨
      (event = .unlink thread ∧ server.Joined thread) ∨
      event = .free thread ∧ server.Joined thread ∧ (∃ info, server.threadAt info = some thread) ∧
        ∀ info, next.threadAt info ≠ some thread := by
  cases moved with
  | create | insertHead | passBegin | next | skip | complete | search | advance | passEnd
  | setFlag | exit => cases reaps
  | @join info _ node current joins present found ended =>
      cases reaps
      have unjoined : ¬server.Joined node.threadId := by
        rw [tracked.joined_iff_discards (ThreadsState.threadAt_eq present), joins]
        exact Option.some_ne_none _ ∘ Eq.symm
      refine .inl ⟨rfl, unjoined,
        ⟨current.info, current.stage, found, ThreadStage.stopped ended⟩, ?_⟩
      rw [joined_update, if_pos rfl]
  | removeHead removes _ present =>
      cases reaps
      refine .inr (.inl ⟨rfl, ?_⟩)
      rw [tracked.joined_iff_discards (ThreadsState.threadAt_eq present), removes]
      rfl
  | removeAfter searches _ _ held =>
      cases reaps
      refine .inr (.inl ⟨rfl, ?_⟩)
      rw [tracked.joined_iff_discards (ThreadsState.threadAt_eq held), searches]
      rfl
  | @free info _ node frees present =>
      cases reaps
      have holds := ThreadsState.threadAt_eq present
      refine .inr (.inr ⟨rfl, ?_, ⟨info, holds⟩, fun other left => ?_⟩)
      · rw [tracked.joined_iff_discards holds, frees]
        rfl
      · rw [ThreadsState.threadAt_update] at left
        by_cases same : other = info
        · rw [same, Function.update_self] at left
          cases left
        · rw [Function.update_of_ne same] at left
          exact same (tracked.threadAt_injective left holds)

end Steps

section History

variable {server next : ThreadsState} {nodes after : List Address} {event : ThreadEvent}
  {history : List ThreadEvent} {thread : Nat}

theorem ThreadHistory.once (past : ThreadHistory server nodes history) (tracked : Tracked server)
    (relisted : Relisted server.threadAt nodes event after)
    (moved : ThreadStep server event next) (reaps : event.reaps = some thread) :
    .setFlag thread ∈ history ∧ event ∉ history := by
  rcases moved.reaps_cases tracked reaps with
    ⟨rfl, unjoined, flagged, _⟩ | ⟨rfl, joined⟩ | ⟨rfl, joined, ⟨info, holds⟩, _⟩
  · exact ⟨(past.flags thread).mpr flagged, fun before => unjoined (past.joins thread before)⟩
  · refine ⟨(past.flags thread).mpr joined.flagged, fun before => ?_⟩
    cases relisted with
    | unlink split holds =>
        refine (past.unlinks thread before).2 _ ?_ holds
        simp [split]
    | keep other => exact (other thread).2 rfl
  · refine ⟨(past.flags thread).mpr joined.flagged, fun before => ?_⟩
    exact (past.frees thread before).2 info holds

theorem listed_concat (history : List ThreadEvent) (event : ThreadEvent) :
    listed (history ++ [event]) = listNext (listed history) event := by
  rw [listed, List.foldl_append]
  rfl

theorem Relisted.unlink_absent (relisted : Relisted server.threadAt nodes (.unlink thread) after)
    (tracked : Tracked server) (distinct : nodes.Nodup) :
    ∀ info ∈ after, server.threadAt info ≠ some thread := by
  intro other inside holdsOther
  cases relisted with
  | unlink split holds =>
      rw [split, List.nodup_middle] at distinct
      exact (List.nodup_cons.mp distinct).1 (tracked.threadAt_injective holds holdsOther ▸ inside)
  | keep kept => exact (kept thread).2 rfl

theorem Relisted.filterMap_eq (relisted : Relisted server.threadAt nodes event after)
    (tracked : Tracked server) (distinct : nodes.Nodup)
    (lists : nodes.filterMap server.threadAt = listed history) :
    after.filterMap server.threadAt = listed (history ++ [event]) := by
  rw [listed_concat, ← lists]
  cases relisted with
  | insert inserted => rw [List.filterMap_cons_some inserted, listNext]
  | @unlink left info right thread split holds =>
      subst split
      have others : ∀ other ∈ left ++ right, server.threadAt other ≠ some thread :=
        Relisted.unlink_absent (.unlink rfl holds) tracked distinct
      have whole : (left ++ info :: right).filterMap server.threadAt =
          left.filterMap server.threadAt ++ thread :: right.filterMap server.threadAt := by
        rw [List.filterMap_append, List.filterMap_cons_some holds]
      rw [whole, listNext, List.filter_append, List.filter_cons_of_neg (by simp),
        ← List.filter_append, ← List.filterMap_append]
      refine (List.filter_eq_self.mpr fun kept member => ?_).symm
      obtain ⟨other, inside, holdsOther⟩ := List.mem_filterMap.mp member
      apply decide_eq_true
      rintro rfl
      exact others other inside holdsOther
  | keep other =>
      cases event with
      | insert thread => exact absurd rfl (other thread).1
      | unlink thread => exact absurd rfl (other thread).2
      | create | passBegin | join | free | passEnd | setFlag | exit | internal => rfl

theorem ThreadHistory.step (past : ThreadHistory server nodes history) (tracked : Tracked server)
    (distinct : nodes.Nodup) (relisted : Relisted server.threadAt nodes event after)
    (allocated : ∀ info ∈ after, server.heap info ≠ none ∧ next.threadAt info ≠ none)
    (moved : ThreadStep server event next) : ThreadHistory next after (history ++ [event]) where
  flags := by
    intro thread
    rw [moved.flagged_iff, ← past.flags, List.mem_append, List.mem_singleton, eq_comm]
  joins := by
    intro thread member
    rcases List.mem_append.mp member with before | now
    · exact moved.joined (past.joins thread before)
    · cases List.mem_singleton.mp now
      rcases moved.reaps_cases tracked rfl with ⟨_, _, _, joined⟩ | ⟨other, _⟩ | ⟨other, _⟩
      · exact joined
      · cases other
      · cases other
  unlinks := by
    intro thread member
    have gone : server.Joined thread ∧ ∀ info ∈ after, server.threadAt info ≠ some thread := by
      rcases List.mem_append.mp member with before | now
      · obtain ⟨joined, absent⟩ := past.unlinks thread before
        refine ⟨joined, fun info inside holds => ?_⟩
        rcases relisted.mem inside with older | ⟨_, rfl, inserted⟩
        · exact absent info older holds
        · cases inserted.symm.trans holds
          exact moved.insert_unjoined tracked joined
      · cases List.mem_singleton.mp now
        rcases moved.reaps_cases tracked rfl with ⟨other, _⟩ | ⟨_, joined⟩ | ⟨other, _⟩
        · cases other
        · exact ⟨joined, relisted.unlink_absent tracked distinct⟩
        · cases other
    refine ⟨moved.joined gone.1, fun info inside => ?_⟩
    rw [moved.threadAt_eq (allocated info inside).1 (allocated info inside).2]
    exact gone.2 info inside
  frees := by
    intro thread member
    rcases List.mem_append.mp member with before | now
    · obtain ⟨joined, absent⟩ := past.frees thread before
      refine ⟨moved.joined joined, fun info holds => ?_⟩
      rcases moved.threadAt_before holds with older | ⟨_, unused⟩
      · exact absent info older
      · obtain ⟨_, current⟩ := joined
        cases unused.symm.trans current
    · cases List.mem_singleton.mp now
      rcases moved.reaps_cases tracked rfl with ⟨other, _⟩ | ⟨other, _⟩ | ⟨_, joined, _, absent⟩
      · cases other
      · cases other
      · exact ⟨moved.joined joined, absent⟩
  lists := by
    rw [← relisted.filterMap_eq tracked distinct past.lists]
    refine List.filterMap_congr fun info inside => ?_
    exact moved.threadAt_eq (allocated info inside).1 (allocated info inside).2

end History

/-- Everything that holds between two steps. The nodes that the pass has kept were
not finished in the events before it. -/
structure Reaping (early history : List ThreadEvent) (server : ThreadsState)
    (nodes kept : List Address) : Prop where
  linked : Linked server nodes kept
  tracked : Tracked server
  past : ThreadHistory server nodes history
  recorded : early ⊆ history
  spared : ∀ info ∈ kept, ∀ thread, server.threadAt info = some thread → .setFlag thread ∉ early

section Runs

variable {first last server next : ThreadsState} {nodes kept : List Address}
  {early history events : List ThreadEvent} {event : ThreadEvent} {thread : Nat}

theorem ThreadsState.Started.reaping (started : first.Started) : Reaping [] [] first [] [] where
  linked := by
    constructor
    · rw [started.threadList]
      exact .nil
    · rw [started.main]
      trivial
  tracked := by
    constructor
    · intro info node present
      cases (started.heap info).symm.trans present
    · intro thread info stage found
      cases (started.thread thread).symm.trans found
  past := by
    constructor
    case flags => simp [ThreadsState.Flagged, started.thread]
    case lists => rfl
    all_goals simp
  recorded := List.Subset.refl []
  spared := by simp

theorem Reaping.step (reaping : Reaping early history server nodes kept)
    (moved : ThreadStep server event next) :
    ∃ after spared, Reaping early (history ++ [event]) next after spared := by
  obtain ⟨linked, tracked, past, recorded, unfinished⟩ := reaping
  obtain ⟨after, spared, stillLinked, relisted, unset⟩ := linked.step moved
  refine ⟨after, spared, stillLinked, tracked.step moved, ?_, ?_, ?_⟩
  · refine past.step tracked linked.chain.nodup relisted (fun info inside => ⟨?_, ?_⟩) moved
    · rcases relisted.mem inside with older | ⟨_, _, holds⟩
      · obtain ⟨node, present⟩ := linked.allocated older
        simp [present]
      · obtain ⟨node, present, _⟩ := Option.map_eq_some_iff.mp holds
        simp [present]
    · obtain ⟨node, present⟩ := stillLinked.allocated inside
      simp [ThreadsState.threadAt_eq present]
  · exact fun _ member => List.mem_append_left _ (recorded member)
  · intro info inside thread holds finished
    have flagged := (past.flags thread).mp (recorded finished)
    rcases moved.threadAt_before holds with older | ⟨_, unused⟩
    · rcases unset info inside with before | ⟨node, present, clear⟩
      · exact unfinished info before thread older finished
      · cases (ThreadsState.threadAt_eq present).symm.trans older
        obtain ⟨stage, owner, flag, _⟩ := tracked.owned info node present
        obtain ⟨_, _, current, stopped⟩ := flagged
        cases owner.symm.trans current
        rw [flag.mpr stopped] at clear
        cases clear
    · obtain ⟨_, _, current, _⟩ := flagged
      cases unused.symm.trans current

theorem Reaping.run (reaping : Reaping early history first nodes kept)
    (run : Run ThreadStep first events last) :
    ∃ after spared, Reaping early (history ++ events) last after spared := by
  refine run.record (fun server history => ∃ nodes kept, Reaping early history server nodes kept)
    ?_ ⟨nodes, kept, reaping⟩
  rintro server history event next ⟨nodes, kept, reaping⟩ moved
  exact reaping.step moved

theorem ThreadStep.stays (moved : ThreadStep server event next) (inside : server.main.InPass)
    (goesOn : event ≠ .passEnd) : next.main.InPass ∧ ∀ thread, event ≠ .insert thread := by
  cases moved with
  | create waits | insertHead waits | passBegin waits =>
      rw [waits] at inside
      exact inside.elim
  | next | skip | complete | join | removeHead | search | advance | removeAfter | free =>
      exact ⟨trivial, by simp⟩
  | passEnd => exact absurd rfl goesOn
  | setFlag | exit => exact ⟨inside, by simp⟩

theorem ThreadStep.enters (moved : ThreadStep server event next) (inside : next.main.InPass) :
    event = .passBegin ∨ server.main.InPass ∧ event ≠ .passEnd := by
  cases moved with
  | create | insertHead | passEnd => exact inside.elim
  | passBegin => exact .inl rfl
  | next here | skip here | complete here | join here | removeHead here | search here
  | advance here | removeAfter here | free here =>
      rw [here]
      exact .inr ⟨trivial, by simp⟩
  | setFlag | exit => exact .inr ⟨inside, by simp⟩

theorem ThreadStep.inPass (moved : ThreadStep server event next)
    (reaps : event.reaps = some thread) : server.main.InPass := by
  cases moved with
  | create | insertHead | passBegin | next | skip | complete | search | advance | passEnd
  | setFlag | exit => cases reaps
  | join here | removeHead here | removeAfter here | free here =>
      rw [here]
      trivial

/-- Inside a pass, the events since its beginning do not end it. -/
theorem run_inPass (outside : ¬first.main.InPass) (run : Run ThreadStep first events last)
    (inside : last.main.InPass) :
    ∃ earlier middle, events = earlier ++ .passBegin :: middle ∧ .passEnd ∉ middle := by
  refine @Run.record _ _ _ (fun server history => server.main.InPass →
    ∃ earlier middle, history = earlier ++ .passBegin :: middle ∧ .passEnd ∉ middle) ?_ _ _ _ run
      [] (fun here => absurd here outside) inside
  intro server history event next since moved inside
  rcases moved.enters inside with rfl | ⟨before, goesOn⟩
  · exact ⟨history, [], rfl, List.not_mem_nil⟩
  · obtain ⟨earlier, middle, rfl, ongoing⟩ := since before
    refine ⟨earlier, middle ++ [event], by simp, ?_⟩
    simp [ongoing, Ne.symm goesOn]

theorem run_no_insert (inside : first.main.InPass) (run : Run ThreadStep first events last)
    (ongoing : .passEnd ∉ events) : ∀ thread, .insert thread ∉ events := by
  refine (@Run.record _ _ _ (fun server history => .passEnd ∉ history →
    server.main.InPass ∧ ∀ thread, .insert thread ∉ history) ?_ _ _ _ run [] ?_ ongoing).2
  · intro server history event next before moved ongoing
    rw [List.mem_append, List.mem_singleton, not_or] at ongoing
    obtain ⟨here, none⟩ := before ongoing.1
    obtain ⟨still, other⟩ := moved.stays here (Ne.symm ongoing.2)
    refine ⟨still, fun thread member => ?_⟩
    rcases List.mem_append.mp member with before | now
    · exact none thread before
    · exact other thread (List.mem_singleton.mp now).symm
  · exact fun _ => ⟨inside, fun _ => List.not_mem_nil⟩

theorem foldl_listNext (none : ∀ thread, .insert thread ∉ events) (threads : List Nat) :
    events.foldl listNext threads = threads.filter fun thread => .unlink thread ∉ events := by
  induction events generalizing threads with
  | nil => simp
  | cons event events ih =>
      have later : ∀ thread, .insert thread ∉ events := fun thread member =>
        none thread (List.mem_cons_of_mem _ member)
      rw [List.foldl_cons, ih later]
      cases event with
      | insert thread => exact absurd List.mem_cons_self (none thread)
      | unlink thread =>
          rw [listNext, List.filter_filter]
          refine List.filter_congr fun other _ => ?_
          simp [Bool.and_comm]
      | create | passBegin | join | free | passEnd | setFlag | exit | internal =>
          simp [listNext]

theorem mem_foldl_listNext {threads : List Nat}
    (present : thread ∈ threads ∨ .insert thread ∈ events) (stays : .unlink thread ∉ events) :
    thread ∈ events.foldl listNext threads := by
  induction events generalizing threads with
  | nil => exact present.resolve_right List.not_mem_nil
  | cons event events ih =>
      rw [List.mem_cons, not_or] at stays
      refine ih ?_ stays.2
      rcases present with older | inserted
      · left
        cases event with
        | insert other => exact List.mem_cons_of_mem other older
        | unlink other =>
            have apart : thread ≠ other := fun same => stays.1 (congrArg _ same)
            simpa [listNext, apart] using older
        | create | passBegin | join | free | passEnd | setFlag | exit | internal => exact older
      · rcases List.mem_cons.mp inserted with rfl | later
        · exact .inl List.mem_cons_self
        · exact .inr later

end Runs

/-- What a run has made of the threads it inserted. -/
structure ReapedOnce (events : List ThreadEvent) (last : ThreadsState) : Prop where
  /-- Following the links from the head gives the threads inserted and not unlinked. -/
  lists : ∃ nodes, Chain last.links last.threadList nodes ∧
    nodes.filterMap last.threadAt = listed events
  stays : ∀ thread, .insert thread ∈ events → .unlink thread ∉ events → thread ∈ listed events
  /-- Joined, unlinked and freed at most once, after the flag was set and in a pass. -/
  once : ∀ before event after thread, events = before ++ event :: after →
    event.reaps = some thread →
    .setFlag thread ∈ before ∧ event ∉ before ∧
      ∃ earlier middle, before = earlier ++ .passBegin :: middle ∧ .passEnd ∉ middle
  /-- No step follows a pointer to a node that is not allocated. -/
  allocated : ∀ pointer, last.Uses pointer →
    ∃ info node, pointer = some info ∧ last.heap info = some node
  /-- A pass takes nodes out of the list and leaves none that was finished before it. -/
  passes : ∀ before middle, events = before ++ .passBegin :: (middle ++ [.passEnd]) →
    .passEnd ∉ middle →
    listed events = (listed before).filter (fun thread => .unlink thread ∉ middle) ∧
      ∀ thread ∈ listed events, .setFlag thread ∉ before

section Passes

variable {first last server : ThreadsState} {before middle : List ThreadEvent}

theorem listed_pass (before middle : List ThreadEvent) :
    listed (before ++ .passBegin :: (middle ++ [.passEnd])) =
      middle.foldl listNext (listed before) := by
  rw [listed, List.foldl_append, List.foldl_cons, List.foldl_append]
  rfl

/-- A pass from the state in which it begins to the one in which it ends: there,
the nodes kept are all that is left. -/
theorem pass_spares (started : first.Started) (run : Run ThreadStep first before server)
    (pass : Run ThreadStep server (.passBegin :: (middle ++ [.passEnd])) last)
    (ongoing : .passEnd ∉ middle) :
    middle.foldl listNext (listed before) =
        (listed before).filter (fun thread => .unlink thread ∉ middle) ∧
      ∀ thread ∈ middle.foldl listNext (listed before), .setFlag thread ∉ before := by
  obtain ⟨nodes, kept, reaping⟩ := started.reaping.run run
  cases pass with
  | cons begins rest =>
      obtain ⟨state, inside, ends⟩ := rest.split
      obtain ⟨found, _, begun⟩ := reaping.step begins
      have fresh : Reaping before (before ++ [.passBegin]) _ found [] :=
        { linked := by
            cases begins
            exact ⟨begun.linked.chain, found, rfl, begun.linked.chain⟩
          tracked := begun.tracked
          past := begun.past
          recorded := List.subset_append_left _ _
          spared := by simp }
      obtain ⟨left, spared, ended⟩ := fresh.run inside
      have none := run_no_insert (by cases begins; trivial) inside ongoing
      refine ⟨foldl_listNext none _, fun thread member => ?_⟩
      have lists := ended.past.lists
      rw [listed, List.append_assoc, List.foldl_append] at lists
      have kept : left = spared := by
        have placed := ended.linked.placed
        cases ends with
        | cons finishes _ =>
            cases finishes with
            | passEnd visits =>
                rw [visits] at placed
                obtain ⟨rest, split, nothing⟩ := placed
                cases nothing
                simpa using split
      subst kept
      obtain ⟨info, inside, holds⟩ := List.mem_filterMap.mp (lists.symm ▸ member)
      exact ended.spared info inside thread holds

end Passes

/-- In every order of accepts, handlers and passes. -/
theorem handlers_reaped_once {first last : ThreadsState} {events : List ThreadEvent}
    (started : first.Started) (run : Run ThreadStep first events last) :
    ReapedOnce events last where
  lists := by
    obtain ⟨nodes, _, reaping⟩ := started.reaping.run run
    exact ⟨nodes, reaping.linked.chain, reaping.past.lists⟩
  stays := fun _ inserted => mem_foldl_listNext (.inr inserted)
  once := by
    rintro before event after thread rfl reaps
    obtain ⟨server, leading, trailing⟩ := run.split
    obtain ⟨nodes, _, reaping⟩ := started.reaping.run leading
    cases trailing with
    | cons moved _ =>
        obtain ⟨_, _, _, relisted, _⟩ := reaping.linked.step moved
        obtain ⟨flagged, never⟩ := reaping.past.once reaping.tracked relisted moved reaps
        refine ⟨flagged, never, run_inPass ?_ leading (moved.inPass reaps)⟩
        rw [started.main]
        exact id
  allocated := by
    intro pointer uses
    obtain ⟨nodes, _, reaping⟩ := started.reaping.run run
    refine reaping.linked.uses_allocated (fun thread info running => ?_) uses
    obtain ⟨node, present, _⟩ := reaping.tracked.backed thread info .running running (by simp)
    exact ⟨node, present⟩
  passes := by
    rintro before middle rfl ongoing
    obtain ⟨server, leading, trailing⟩ := run.split
    rw [listed_pass]
    exact pass_spares started leading trailing ongoing

def startedThreads : ThreadsState := ⟨fun _ => none, none, fun _ => none, .accepting⟩

theorem startedThreads_started : startedThreads.Started :=
  ⟨fun _ => rfl, rfl, fun _ => rfl, rfl⟩

/-- Threads 0 and 1, whose nodes are adjacent, finish while thread 2 is created; the
pass that follows takes their nodes out behind the one of thread 2, which stays. -/
theorem handlers_reaped_once_adjacent_nodes :
    ∃ events last, .unlink 0 ∈ events ∧ .unlink 1 ∈ events ∧
      Run ThreadStep startedThreads events last ∧ last.main = .accepting ∧
      last.threadList = some 24 ∧ ReapedOnce events last := by
  have run : Run ThreadStep startedThreads
      [.create 0, .insert 0, .passBegin, .internal, .internal, .passEnd,
        .create 1, .insert 1, .passBegin, .internal, .internal, .internal, .internal, .passEnd,
        .create 2, .setFlag 1, .setFlag 0, .insert 2, .passBegin, .internal, .internal,
        .internal, .internal, .exit 1, .join 1, .internal, .unlink 1, .free 1,
        .internal, .internal, .exit 0, .join 0, .internal, .unlink 0, .free 0, .passEnd] _ :=
    .cons (@ThreadStep.create _ 8 0 none rfl rfl rfl) <|
    .cons (@ThreadStep.insertHead _ 8 ⟨0, false, none⟩ rfl rfl) <|
    .cons (.passBegin rfl) <|
    .cons (@ThreadStep.next _ 8 ⟨0, false, none⟩ rfl rfl) <|
    .cons (@ThreadStep.skip _ 8 none ⟨0, false, none⟩ rfl rfl rfl) <|
    .cons (.passEnd rfl) <|
    .cons (@ThreadStep.create _ 16 1 none rfl rfl rfl) <|
    .cons (@ThreadStep.insertHead _ 16 ⟨1, false, none⟩ rfl rfl) <|
    .cons (.passBegin rfl) <|
    .cons (@ThreadStep.next _ 16 ⟨1, false, some 8⟩ rfl rfl) <|
    .cons (@ThreadStep.skip _ 16 (some 8) ⟨1, false, some 8⟩ rfl rfl rfl) <|
    .cons (@ThreadStep.next _ 8 ⟨0, false, none⟩ rfl rfl) <|
    .cons (@ThreadStep.skip _ 8 none ⟨0, false, none⟩ rfl rfl rfl) <|
    .cons (.passEnd rfl) <|
    .cons (@ThreadStep.create _ 24 2 none rfl rfl rfl) <|
    .cons (@ThreadStep.setFlag _ 1 16 ⟨1, false, some 8⟩ rfl rfl) <|
    .cons (@ThreadStep.setFlag _ 0 8 ⟨0, false, none⟩ rfl rfl) <|
    .cons (@ThreadStep.insertHead _ 24 ⟨2, false, none⟩ rfl rfl) <|
    .cons (.passBegin rfl) <|
    .cons (@ThreadStep.next _ 24 ⟨2, false, some 16⟩ rfl rfl) <|
    .cons (@ThreadStep.skip _ 24 (some 16) ⟨2, false, some 16⟩ rfl rfl rfl) <|
    .cons (@ThreadStep.next _ 16 ⟨1, true, some 8⟩ rfl rfl) <|
    .cons (@ThreadStep.complete _ 16 (some 8) ⟨1, true, some 8⟩ rfl rfl rfl) <|
    .cons (@ThreadStep.exit _ 1 16 rfl) <|
    .cons (@ThreadStep.join _ 16 (some 8) ⟨1, true, some 8⟩ ⟨16, .exited⟩ rfl rfl rfl (.inl rfl)) <|
    .cons (@ThreadStep.search _ 16 (some 8) rfl (by decide)) <|
    .cons (@ThreadStep.removeAfter _ 16 24 (some 8) ⟨2, false, some 16⟩ ⟨1, true, some 8⟩
      rfl rfl rfl rfl) <|
    .cons (@ThreadStep.free _ 16 (some 8) ⟨1, true, some 8⟩ rfl rfl) <|
    .cons (@ThreadStep.next _ 8 ⟨0, true, none⟩ rfl rfl) <|
    .cons (@ThreadStep.complete _ 8 none ⟨0, true, none⟩ rfl rfl rfl) <|
    .cons (@ThreadStep.exit _ 0 8 rfl) <|
    .cons (@ThreadStep.join _ 8 none ⟨0, true, none⟩ ⟨8, .exited⟩ rfl rfl rfl (.inl rfl)) <|
    .cons (@ThreadStep.search _ 8 none rfl (by decide)) <|
    .cons (@ThreadStep.removeAfter _ 8 24 none ⟨2, false, some 8⟩ ⟨0, true, none⟩
      rfl rfl rfl rfl) <|
    .cons (@ThreadStep.free _ 8 none ⟨0, true, none⟩ rfl rfl) <|
    .cons (.passEnd rfl) .refl
  exact ⟨_, _, by decide, by decide, run, rfl, rfl, handlers_reaped_once startedThreads_started run⟩

end Aesd.Server
