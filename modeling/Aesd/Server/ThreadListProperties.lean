import Aesd.Server.ThreadList

/-!
# What the thread list holds between two steps

The links form a chain at all times, and the locals of `cleanup_threads` point into
it: behind the nodes that the pass has kept comes the node it is at, and the saved
link leads to the rest. So no step follows the link of a freed node.
-/

set_option autoImplicit false

namespace Aesd.Server

open LinkedList

namespace ThreadsState

def links (server : ThreadsState) : Links Address := Option.map ThreadInfo.entries ∘ server.heap

def threadAt (server : ThreadsState) : Address → Option Nat :=
  Option.map ThreadInfo.threadId ∘ server.heap

variable {server : ThreadsState} {info : Address} {node : ThreadInfo}

theorem links_eq (present : server.heap info = some node) :
    server.links info = some node.entries := by
  rw [links, Function.comp_apply, present, Option.map_some]

theorem threadAt_eq (present : server.heap info = some node) :
    server.threadAt info = some node.threadId := by
  rw [threadAt, Function.comp_apply, present, Option.map_some]

theorem heap_of_links (present : server.links info ≠ none) : ∃ node, server.heap info = some node :=
  Option.ne_none_iff_exists'.mp fun absent => present (Option.map_eq_none_iff.mpr absent)

@[simp] theorem links_update (heap : Address → Option ThreadInfo) (pointer : Option Address)
    (thread : Nat → Option Thread) (main : MainPoint) (info : Address)
    (stored : Option ThreadInfo) :
    links ⟨Function.update heap info stored, pointer, thread, main⟩ =
      Function.update (Option.map ThreadInfo.entries ∘ heap) info
        (stored.map ThreadInfo.entries) :=
  Function.comp_update _ _ _ _

@[simp] theorem threadAt_update (heap : Address → Option ThreadInfo) (pointer : Option Address)
    (thread : Nat → Option Thread) (main : MainPoint) (info : Address)
    (stored : Option ThreadInfo) :
    threadAt ⟨Function.update heap info stored, pointer, thread, main⟩ =
      Function.update (Option.map ThreadInfo.threadId ∘ heap) info
        (stored.map ThreadInfo.threadId) :=
  Function.comp_update _ _ _ _

end ThreadsState

/-- Where the locals point, for the nodes of the list and those the pass has kept. -/
def Placed (links : Links Address) (nodes kept : List Address) : MainPoint → Prop
  | .accepting | .cleaning => True
  | .inserting info => info ∉ nodes ∧ links info ≠ none
  | .visiting info => ∃ rest, nodes = kept ++ rest ∧ Chain links info rest
  | .testing info tmp | .joining info tmp | .removing info tmp =>
      ∃ rest, nodes = kept ++ info :: rest ∧ Chain links tmp rest
  | .searching info tmp curelm =>
      ∃ rest, nodes = kept ++ info :: rest ∧ Chain links tmp rest ∧
        ∃ passed left, kept = passed ++ left ∧ left ≠ [] ∧ Chain links curelm (left ++ info :: rest)
  | .freeing info tmp =>
      info ∉ nodes ∧ links info ≠ none ∧ ∃ rest, nodes = kept ++ rest ∧ Chain links tmp rest

structure Linked (server : ThreadsState) (nodes kept : List Address) : Prop where
  chain : Chain server.links server.threadList nodes
  placed : Placed server.links nodes kept server.main

/-- What an event does to the nodes of the list. -/
inductive Relisted (threadAt : Address → Option Nat) (nodes : List Address) :
    ThreadEvent → List Address → Prop where
  | insert {info thread} : threadAt info = some thread →
      Relisted threadAt nodes (.insert thread) (info :: nodes)
  | unlink {left info right thread} : nodes = left ++ info :: right →
      threadAt info = some thread → Relisted threadAt nodes (.unlink thread) (left ++ right)
  | keep {event} : (∀ thread, event ≠ .insert thread ∧ event ≠ .unlink thread) →
      Relisted threadAt nodes event nodes

section Steps

variable {server next : ThreadsState} {nodes kept : List Address} {info curelm : Address}
  {tmp : Option Address} {node removed : ThreadInfo}

theorem Linked.allocated (linked : Linked server nodes kept) (member : info ∈ nodes) :
    ∃ node, server.heap info = some node := by
  obtain ⟨link, stored⟩ := linked.chain.allocated member
  apply ThreadsState.heap_of_links
  rw [stored]
  exact Option.some_ne_none link

/-- What `main` follows is a node of the list or the one it inserts or frees. -/
theorem Linked.uses_allocated {pointer : Option Address} (linked : Linked server nodes kept)
    (handlers : ∀ thread info, server.thread thread = some ⟨info, .running⟩ →
      ∃ node, server.heap info = some node) (uses : server.Uses pointer) :
    ∃ info node, pointer = some info ∧ server.heap info = some node := by
  have placed := linked.placed
  suffices target : ∃ info, pointer = some info ∧ ∃ node, server.heap info = some node by
    obtain ⟨info, same, node, present⟩ := target
    exact ⟨info, node, same, present⟩
  cases uses with
  | inserting waits =>
      rw [waits] at placed
      exact ⟨_, rfl, ThreadsState.heap_of_links placed.2⟩
  | visiting visits =>
      rw [visits] at placed
      obtain ⟨rest, rfl, later⟩ := placed
      cases later with
      | cons stored _ => exact ⟨_, rfl, linked.allocated (by simp)⟩
  | testing tests =>
      rw [tests] at placed
      obtain ⟨rest, rfl, _⟩ := placed
      exact ⟨_, rfl, linked.allocated (by simp)⟩
  | joining joins =>
      rw [joins] at placed
      obtain ⟨rest, rfl, _⟩ := placed
      exact ⟨_, rfl, linked.allocated (by simp)⟩
  | removing removes _ =>
      rw [removes] at placed
      obtain ⟨rest, rfl, _⟩ := placed
      exact ⟨_, rfl, linked.allocated (by simp)⟩
  | searching searches =>
      rw [searches] at placed
      obtain ⟨rest, rfl, _, passed, left, rfl, nonempty, fromCurelm⟩ := placed
      obtain ⟨first, others, rfl⟩ := List.exists_cons_of_ne_nil nonempty
      exact ⟨first, fromCurelm.pointer_eq, linked.allocated (by simp)⟩
  | removed searches _ _ =>
      rw [searches] at placed
      obtain ⟨rest, rfl, _⟩ := placed
      exact ⟨_, rfl, linked.allocated (by simp)⟩
  | freeing frees =>
      rw [frees] at placed
      exact ⟨_, rfl, ThreadsState.heap_of_links placed.2.1⟩
  | setFlag running => exact ⟨_, rfl, handlers _ _ running⟩

/-- A step that leaves the links and the list alone keeps what was placed. -/
theorem Linked.of_links (linked : Linked server nodes kept) (links : next.links = server.links)
    (threadList : next.threadList = server.threadList)
    (placed : Placed server.links nodes kept next.main) : Linked next nodes kept where
  chain := by
    rw [links, threadList]
    exact linked.chain
  placed := by
    rw [links]
    exact placed

theorem Linked.create (linked : Linked server nodes kept) (free : server.heap info = none)
    (thread : Nat) (entries : Option Address) :
    Linked { server with
      heap := Function.update server.heap info (some ⟨thread, false, entries⟩)
      thread := Function.update server.thread thread (some ⟨info, .running⟩)
      main := .inserting info } nodes kept := by
  have absent : info ∉ nodes := by
    intro member
    obtain ⟨_, present⟩ := linked.allocated member
    cases free.symm.trans present
  constructor
  · rw [ThreadsState.links_update]
    exact linked.chain.update absent _
  · rw [ThreadsState.links_update]
    exact ⟨absent, by simp⟩

theorem Linked.insertHead (linked : Linked server nodes kept)
    (waits : server.main = .inserting info) :
    info ∉ nodes ∧ Linked { server with
      heap := Function.update server.heap info (some { node with entries := server.threadList })
      threadList := some info
      main := .cleaning } (info :: nodes) kept := by
  have placed := linked.placed
  rw [waits] at placed
  refine ⟨placed.1, ?_, trivial⟩
  rw [ThreadsState.links_update]
  exact linked.chain.insertHead placed.1

theorem Linked.removeHead (linked : Linked server nodes kept)
    (removing : server.main = .removing info tmp) (first : server.threadList = some info)
    (present : server.heap info = some node) :
    ∃ rest, nodes = info :: rest ∧
      Linked { server with threadList := node.entries, main := .freeing info tmp } rest [] := by
  have placed := linked.placed
  have chain := linked.chain
  rw [removing] at placed
  rw [first] at chain
  obtain ⟨rest, rfl, later⟩ := placed
  have stored := ThreadsState.links_eq present
  have whole := chain.unique linked.chain.from_cell
  rw [whole] at chain
  obtain ⟨_, split, shorter⟩ := chain.tail stored
  cases split
  have absent := (List.nodup_cons.mp chain.nodup).1
  refine ⟨rest, whole, shorter, absent, ?_, rest, rfl, later⟩
  exact Option.ne_none_iff_exists'.mpr ⟨_, stored⟩

/-- When the search has found the predecessor, that is the last node kept. -/
theorem Linked.removeAfter (linked : Linked server nodes kept)
    (searching : server.main = .searching info tmp (some curelm))
    (present : server.heap curelm = some node) (found : node.entries = some info)
    (held : server.heap info = some removed) :
    ∃ rest, nodes = kept ++ info :: rest ∧
      Linked { server with
        heap := Function.update server.heap curelm (some { node with entries := removed.entries })
        main := .freeing info tmp } (kept ++ rest) kept := by
  have placed := linked.placed
  have chain := linked.chain
  rw [searching] at placed
  obtain ⟨rest, rfl, later, passed, left, rfl, nonempty, fromCurelm⟩ := placed
  refine ⟨rest, rfl, ?_⟩
  have stored := ThreadsState.links_eq present
  have storedInfo := ThreadsState.links_eq held
  obtain ⟨first, others, rfl⟩ := List.exists_cons_of_ne_nil nonempty
  cases fromCurelm.pointer_eq
  obtain ⟨_, split, fromInfo⟩ := fromCurelm.tail stored
  cases split
  rw [found] at fromInfo
  have last : others = [] := List.append_left_eq_self.mp (fromInfo.unique chain.from_cell)
  subst last
  have distinct := List.nodup_middle.mp chain.nodup
  have apart : info ≠ curelm := by
    rintro rfl
    simp at distinct
  simp only [List.append_assoc, List.cons_append, List.nil_append] at chain distinct ⊢
  have unshared : curelm ∉ rest := by
    intro member
    have twice := (@Chain.from_cell _ _ _ _ passed _ chain).nodup
    simp [member] at twice
  constructor
  · rw [ThreadsState.links_update]
    exact chain.unlink storedInfo
  · rw [ThreadsState.links_update]
    refine ⟨(List.nodup_cons.mp distinct).1, ?_, rest, by simp, later.update unshared _⟩
    rw [Function.update_of_ne apart]
    exact Option.ne_none_iff_exists'.mpr ⟨_, storedInfo⟩

theorem Linked.free (linked : Linked server nodes kept) (freeing : server.main = .freeing info tmp) :
    info ∉ nodes ∧ Linked { server with
      heap := Function.update server.heap info none, main := .visiting tmp } nodes kept := by
  have placed := linked.placed
  rw [freeing] at placed
  obtain ⟨absent, _, rest, rfl, later⟩ := placed
  refine ⟨absent, ?_, ?_⟩
  · rw [ThreadsState.links_update]
    exact linked.chain.update absent _
  · rw [ThreadsState.links_update]
    have behind : info ∉ rest := fun member => absent (List.mem_append_right kept member)
    exact ⟨rest, rfl, later.update behind _⟩

theorem Linked.step {event : ThreadEvent} (linked : Linked server nodes kept)
    (moved : ThreadStep server event next) :
    ∃ listed spared, Linked next listed spared ∧ Relisted server.threadAt nodes event listed ∧
      ∀ info ∈ spared, info ∈ kept ∨
        ∃ node, server.heap info = some node ∧ node.threadCompleteFlag = false := by
  have placed := linked.placed
  cases moved with
  | create waits free _ =>
      exact ⟨nodes, kept, linked.create free _ _, .keep (by simp), fun _ => .inl⟩
  | insertHead waits present =>
      exact ⟨_, kept, (linked.insertHead waits).2, .insert (ThreadsState.threadAt_eq present),
        fun _ => .inl⟩
  | passBegin waits =>
      refine ⟨nodes, [], ⟨linked.chain, nodes, rfl, linked.chain⟩, .keep (by simp), ?_⟩
      simp
  | next visits present =>
      rw [visits] at placed
      obtain ⟨rest, split, later⟩ := placed
      obtain ⟨others, here, behind⟩ := later.tail (ThreadsState.links_eq present)
      rw [here] at split
      exact ⟨nodes, kept, ⟨linked.chain, others, split, behind⟩, .keep (by simp), fun _ => .inl⟩
  | @skip info _ node tests present unset =>
      rw [tests] at placed
      obtain ⟨rest, split, later⟩ := placed
      have longer : nodes = (kept ++ [info]) ++ rest := by simp [split]
      refine ⟨nodes, kept ++ [info], ⟨linked.chain, rest, longer, later⟩, .keep (by simp), ?_⟩
      intro other member
      rcases List.mem_append.mp member with before | here
      · exact .inl before
      · cases List.mem_singleton.mp here
        exact .inr ⟨node, present, unset⟩
  | complete tests _ _ =>
      rw [tests] at placed
      exact ⟨nodes, kept, ⟨linked.chain, placed⟩, .keep (by simp), fun _ => .inl⟩
  | join joins _ _ _ =>
      rw [joins] at placed
      exact ⟨nodes, kept, ⟨linked.chain, placed⟩, .keep (by simp), fun _ => .inl⟩
  | removeHead removes first present =>
      obtain ⟨rest, rfl, shorter⟩ := linked.removeHead removes first present
      refine ⟨rest, [], shorter, @Relisted.unlink _ _ [] _ _ _ rfl ?_, by simp⟩
      exact ThreadsState.threadAt_eq present
  | search removes first =>
      rw [removes] at placed
      obtain ⟨rest, split, later⟩ := placed
      have nonempty : kept ≠ [] := by
        rintro rfl
        apply first
        have chain := linked.chain
        rw [split] at chain
        exact chain.pointer_eq
      refine ⟨nodes, kept, ⟨linked.chain, rest, split, later, [], kept, rfl, nonempty, ?_⟩,
        .keep (by simp), fun _ => .inl⟩
      rw [← split]
      exact linked.chain
  | @advance _ curelm _ _ searches present apart =>
      rw [searches] at placed
      obtain ⟨rest, split, later, passed, left, whole, nonempty, fromCurelm⟩ := placed
      obtain ⟨first, others, rfl⟩ := List.exists_cons_of_ne_nil nonempty
      cases fromCurelm.pointer_eq
      obtain ⟨_, here, behind⟩ := fromCurelm.tail (ThreadsState.links_eq present)
      cases here
      have more : others ≠ [] := by
        rintro rfl
        exact apart behind.pointer_eq
      refine ⟨nodes, kept, ⟨linked.chain, rest, split, later, passed ++ [curelm], others, ?_, more,
        behind⟩, .keep (by simp), fun _ => .inl⟩
      simp [whole]
  | removeAfter searches present found held =>
      obtain ⟨rest, split, shorter⟩ := linked.removeAfter searches present found held
      exact ⟨_, kept, shorter, .unlink split (ThreadsState.threadAt_eq held), fun _ => .inl⟩
  | free frees _ => exact ⟨nodes, kept, (linked.free frees).2, .keep (by simp), fun _ => .inl⟩
  | passEnd _ => exact ⟨nodes, kept, ⟨linked.chain, trivial⟩, .keep (by simp), fun _ => .inl⟩
  | setFlag _ present =>
      refine ⟨nodes, kept, linked.of_links ?_ rfl placed, .keep (by simp), fun _ => .inl⟩
      rw [ThreadsState.links_update]
      exact Function.update_eq_self_iff.mpr (ThreadsState.links_eq present).symm
  | exit _ => exact ⟨nodes, kept, ⟨linked.chain, placed⟩, .keep (by simp), fun _ => .inl⟩

end Steps

end Aesd.Server
