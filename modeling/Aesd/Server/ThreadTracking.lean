import Aesd.Server.ThreadList

/-!
# Which thread a node belongs to

Every node has the thread it was created for, and its flag is set exactly when this
thread has got past its last use of the node. Of the nodes in memory, only the one
that `cleanup_threads` is taking out is joined.
-/

set_option autoImplicit false

namespace Aesd.Server

/-- The node that is already joined and not yet freed. -/
def MainPoint.discards : MainPoint → Option Address
  | .removing info _ | .searching info _ _ | .freeing info _ => some info
  | .accepting | .inserting _ | .cleaning | .visiting _ | .testing _ _ | .joining _ _ => none

/-- Nodes and threads belong together, and the flag of a node tells of its thread. -/
structure Tracked (server : ThreadsState) : Prop where
  owned : ∀ info node, server.heap info = some node →
    ∃ stage, server.thread node.threadId = some ⟨info, stage⟩ ∧
      (node.threadCompleteFlag = true ↔ stage ≠ .running) ∧
      (stage = .joined ↔ server.main.discards = some info)
  backed : ∀ thread info stage, server.thread thread = some ⟨info, stage⟩ → stage ≠ .joined →
    ∃ node, server.heap info = some node ∧ node.threadId = thread

section Tracking

variable {server next : ThreadsState} {info : Address} {node : ThreadInfo} {thread : Nat}

theorem Tracked.of_main (tracked : Tracked server) (heap : next.heap = server.heap)
    (threads : next.thread = server.thread)
    (discards : next.main.discards = server.main.discards) : Tracked next where
  owned := by
    rw [heap, threads, discards]
    exact tracked.owned
  backed := by
    rw [heap, threads]
    exact tracked.backed

/-- Storing another link. -/
theorem Tracked.relink (tracked : Tracked server) (present : server.heap info = some node)
    (entries : Option Address)
    (heap : next.heap = Function.update server.heap info (some { node with entries }))
    (threads : next.thread = server.thread)
    (discards : next.main.discards = server.main.discards) : Tracked next where
  owned := by
    rw [heap, threads, discards]
    intro other stored found
    by_cases same : other = info
    · subst same
      rw [Function.update_self] at found
      cases found
      exact tracked.owned other node present
    · rw [Function.update_of_ne same] at found
      exact tracked.owned other stored found
  backed := by
    rw [heap, threads]
    intro thread other stage found alive
    obtain ⟨stored, held, owner⟩ := tracked.backed thread other stage found alive
    by_cases same : other = info
    · subst same
      cases present.symm.trans held
      exact ⟨_, Function.update_self _ _ _, owner⟩
    · exact ⟨stored, (Function.update_of_ne same _ _).trans held, owner⟩

theorem Tracked.create (tracked : Tracked server) (waits : server.main = .accepting)
    (free : server.heap info = none) (unused : server.thread thread = none)
    (entries : Option Address) :
    Tracked { server with
      heap := Function.update server.heap info (some ⟨thread, false, entries⟩)
      thread := Function.update server.thread thread (some ⟨info, .running⟩)
      main := .inserting info } where
  owned := by
    intro other stored found
    dsimp only at found ⊢
    by_cases same : other = info
    · subst same
      rw [Function.update_self] at found
      cases found
      exact ⟨.running, Function.update_self _ _ _, by simp, by simp [MainPoint.discards]⟩
    · rw [Function.update_of_ne same] at found
      obtain ⟨stage, owner, flag, joined⟩ := tracked.owned other stored found
      have apart : stored.threadId ≠ thread := by
        intro here
        rw [here, unused] at owner
        cases owner
      rw [waits] at joined
      exact ⟨stage, (Function.update_of_ne apart _ _).trans owner, flag, joined⟩
  backed := by
    intro other address stage found alive
    dsimp only at found ⊢
    by_cases same : other = thread
    · subst same
      rw [Function.update_self] at found
      cases found
      exact ⟨_, Function.update_self _ _ _, rfl⟩
    · rw [Function.update_of_ne same] at found
      obtain ⟨stored, held, owner⟩ := tracked.backed other address stage found alive
      have apart : address ≠ info := by
        rintro rfl
        cases free.symm.trans held
      exact ⟨stored, (Function.update_of_ne apart _ _).trans held, owner⟩

/-- A thread goes on to another stage, and its node shows it. -/
theorem Tracked.restage {stage after : ThreadStage} {flag : Bool} (tracked : Tracked server)
    (present : server.heap info = some node)
    (current : server.thread node.threadId = some ⟨info, stage⟩)
    (heap : next.heap =
      Function.update server.heap info (some { node with threadCompleteFlag := flag }))
    (threads : next.thread = Function.update server.thread node.threadId (some ⟨info, after⟩))
    (shows : flag = true ↔ after ≠ .running)
    (discards : ∀ other, next.main.discards = some other ↔
      if other = info then after = .joined else server.main.discards = some other) :
    Tracked next where
  owned := by
    rw [heap, threads]
    intro other stored found
    have discarded := discards other
    by_cases same : other = info
    · subst same
      rw [Function.update_self] at found
      cases found
      rw [if_pos rfl] at discarded
      exact ⟨after, Function.update_self _ _ _, shows, discarded.symm⟩
    · rw [Function.update_of_ne same] at found
      rw [if_neg same] at discarded
      obtain ⟨otherStage, owner, flagged, joined⟩ := tracked.owned other stored found
      have apart : stored.threadId ≠ node.threadId := by
        intro shared
        rw [shared, current] at owner
        cases owner
        exact same rfl
      exact ⟨otherStage, (Function.update_of_ne apart _ _).trans owner, flagged,
        joined.trans discarded.symm⟩
  backed := by
    rw [heap, threads]
    intro thread address otherStage found alive
    by_cases same : thread = node.threadId
    · subst same
      rw [Function.update_self] at found
      cases found
      exact ⟨_, Function.update_self _ _ _, rfl⟩
    · rw [Function.update_of_ne same] at found
      obtain ⟨stored, held, owner⟩ := tracked.backed thread address otherStage found alive
      have apart : address ≠ info := by
        rintro rfl
        cases present.symm.trans held
        exact same owner.symm
      exact ⟨stored, (Function.update_of_ne apart _ _).trans held, owner⟩

theorem Tracked.free {tmp : Option Address} (tracked : Tracked server)
    (frees : server.main = .freeing info tmp) (present : server.heap info = some node) :
    Tracked { server with
      heap := Function.update server.heap info none, main := .visiting tmp } where
  owned := by
    intro other stored found
    dsimp only at found ⊢
    by_cases same : other = info
    · subst same
      rw [Function.update_self] at found
      cases found
    · rw [Function.update_of_ne same] at found
      obtain ⟨stage, owner, flag, joined⟩ := tracked.owned other stored found
      have kept : stage ≠ .joined := by
        intro ended
        rw [frees] at joined
        exact same (Option.some.inj (joined.mp ended)).symm
      exact ⟨stage, owner, flag, iff_of_false kept (Option.some_ne_none other).symm⟩
  backed := by
    intro thread address stage found alive
    obtain ⟨stored, held, owner⟩ := tracked.backed thread address stage found alive
    have apart : address ≠ info := by
      rintro rfl
      obtain ⟨_, owned, _, joined⟩ := tracked.owned address stored held
      rw [owner, found] at owned
      cases owned
      rw [frees] at joined
      exact alive (joined.mpr rfl)
    exact ⟨stored, (Function.update_of_ne apart _ _).trans held, owner⟩

/-- The thread of a node that is discarded is joined, that of any other is not. -/
theorem Tracked.joined_iff {stage : ThreadStage} (tracked : Tracked server)
    (present : server.heap info = some node)
    (current : server.thread node.threadId = some ⟨info, stage⟩) :
    stage = .joined ↔ server.main.discards = some info := by
  obtain ⟨_, owner, _, joined⟩ := tracked.owned info node present
  cases owner.symm.trans current
  exact joined

private theorem heap_unchanged (present : server.heap info = some node) : server.heap =
    Function.update server.heap info
      (some { node with threadCompleteFlag := node.threadCompleteFlag }) :=
  (Function.update_eq_self_iff.mpr present.symm).symm

theorem Tracked.step {event : ThreadEvent} (tracked : Tracked server)
    (moved : ThreadStep server event next) : Tracked next := by
  cases moved with
  | create waits free unused => exact tracked.create waits free unused _
  | insertHead waits present => exact tracked.relink present _ rfl rfl (by rw [waits]; rfl)
  | passBegin waits => exact tracked.of_main rfl rfl (by rw [waits]; rfl)
  | next visits _ => exact tracked.of_main rfl rfl (by rw [visits]; rfl)
  | skip tests _ _ => exact tracked.of_main rfl rfl (by rw [tests]; rfl)
  | complete tests _ _ => exact tracked.of_main rfl rfl (by rw [tests]; rfl)
  | @join info _ node thread joins present found ended =>
      obtain ⟨stage, owner, flag, _⟩ := tracked.owned info node present
      cases found.symm.trans owner
      refine tracked.restage present owner (heap_unchanged present) rfl ?_ ?_
      · have stopped : stage ≠ .running := by
          rcases ended with rfl | rfl <;> simp
        simp [flag, stopped]
      · intro other
        by_cases same : other = info
        · simp [same, MainPoint.discards]
        · simp [same, Ne.symm same, joins, MainPoint.discards]
  | removeHead removes _ _ => exact tracked.of_main rfl rfl (by rw [removes]; rfl)
  | search removes _ => exact tracked.of_main rfl rfl (by rw [removes]; rfl)
  | advance searches _ _ => exact tracked.of_main rfl rfl (by rw [searches]; rfl)
  | removeAfter searches present _ _ =>
      exact tracked.relink present _ rfl rfl (by rw [searches]; rfl)
  | free frees present => exact tracked.free frees present
  | passEnd visits => exact tracked.of_main rfl rfl (by rw [visits]; rfl)
  | @setFlag thread info node running present =>
      obtain ⟨_, held, rfl⟩ := tracked.backed thread info .running running (by simp)
      cases held.symm.trans present
      refine tracked.restage present running rfl rfl (by simp) fun other => ?_
      by_cases same : other = info
      · subst same
        simp [← tracked.joined_iff present running]
      · simp [same]
  | @exit thread info flagged =>
      obtain ⟨node, present, rfl⟩ := tracked.backed thread info .flagged flagged (by simp)
      obtain ⟨_, owner, flag, _⟩ := tracked.owned info node present
      cases owner.symm.trans flagged
      refine tracked.restage present flagged (heap_unchanged present) rfl ?_ fun other => ?_
      · simp [flag]
      · by_cases same : other = info
        · subst same
          simp [← tracked.joined_iff present flagged]
        · simp [same]

end Tracking

end Aesd.Server
