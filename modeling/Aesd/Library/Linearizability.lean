import Aesd.Library.Program
import Aesd.Library.Transition
import Mathlib.Logic.Function.Basic

/-!
# Objects whose operations run under a lock

Any number of threads call the operations of one object. An operation waits for
the lock, takes its actions one at a time while other threads go on with theirs,
and returns; some calls return without the lock. Each operation then has a
moment between its call and its return at which it takes effect as a whole.
-/

set_option autoImplicit false

namespace Aesd

open Transition

universe u v w

/-- What callers see of an operation, and when it takes effect. -/
inductive Moment (Op : Type v) (Ret : Type) where
  | invoke (op : Op)
  | effect (op : Op) (ret : Ret)
  | respond (ret : Ret)

namespace Moment

variable {Op : Type v} {Ret : Type}

/-- Callers do not see when an operation takes effect. -/
def Visible : Moment Op Ret → Prop
  | invoke _ | respond _ => True
  | effect _ _ => False

instance (moment : Moment Op Ret) : Decidable moment.Visible := by
  cases moment <;> unfold Visible <;> infer_instance

def effect? : Moment Op Ret → Option (Op × Ret)
  | effect op ret => some (op, ret)
  | _ => none

def call? : Moment Op Ret → Option Op
  | invoke op => some op
  | _ => none

/-- Where a thread is with its current operation. -/
inductive Phase (Op : Type v) (Ret : Type) where
  | idle
  | called (op : Op)
  | took (ret : Ret)

/-- A call takes effect once and returns what it then had. -/
inductive Follows : Phase Op Ret → Moment Op Ret → Phase Op Ret → Prop where
  | invoke {op : Op} : Follows .idle (.invoke op) (.called op)
  | effect {op : Op} {ret : Ret} : Follows (.called op) (.effect op ret) (.took ret)
  | respond {ret : Ret} : Follows (.took ret) (.respond ret) .idle

def Phase.pending : Phase Op Ret → List Op
  | called op => [op]
  | idle | took _ => []

/-- The operations called are those that took effect, in this order, and the pending one. -/
theorem Follows.calls {phase : Phase Op Ret} {moments : List (Moment Op Ret)}
    (run : Run Follows .idle moments phase) :
    moments.filterMap call? = (moments.filterMap effect?).map Prod.fst ++ phase.pending := by
  refine run.recorded (fun phase moments => moments.filterMap call? =
    (moments.filterMap effect?).map Prod.fst ++ phase.pending) ?_ rfl
  intro phase moments moment after past moved
  rw [List.filterMap_append, List.filterMap_append, List.map_append, past]
  cases moved with
  | invoke | effect => simp [Phase.pending, call?, effect?]
  | respond =>
      simp only [Phase.pending, List.append_nil]
      rfl

/-- What is returned is what the call had when it took effect, right before. -/
theorem Follows.answered {phase : Phase Op Ret} {left right : List (Moment Op Ret)} {ret : Ret}
    (run : Run Follows .idle (left ++ .respond ret :: right) phase) :
    ∃ before op, left = before ++ [.effect op ret] := by
  obtain ⟨middle, leading, trailing⟩ := run.split
  cases trailing with
  | cons responded _ =>
      cases responded
      rcases left.eq_nil_or_concat' with rfl | ⟨before, moment, rfl⟩
      · cases leading
      · obtain ⟨_, _, last⟩ := leading.split
        cases last with
        | cons moved done =>
            cases done
            cases moved
            exact ⟨before, _, rfl⟩

end Moment

section Histories

variable {State : Type u} {Op : Type v} {Ret : Type} {Thread : Type w}

def ofThread [DecidableEq Thread] (thread : Thread) (moments : List (Thread × Moment Op Ret)) :
    List (Moment Op Ret) :=
  moments.filterMap fun moment => if moment.1 = thread then some moment.2 else none

def effects (moments : List (Thread × Moment Op Ret)) : List (Op × Ret) :=
  moments.filterMap fun moment => moment.2.effect?

def visible (moments : List (Thread × Moment Op Ret)) : List (Thread × Moment Op Ret) :=
  moments.filter fun moment => moment.2.Visible

theorem effects_append (left right : List (Thread × Moment Op Ret)) :
    effects (left ++ right) = effects left ++ effects right :=
  List.filterMap_append

theorem ofThread_append [DecidableEq Thread] (thread : Thread)
    (left right : List (Thread × Moment Op Ret)) :
    ofThread thread (left ++ right) = ofThread thread left ++ ofThread thread right :=
  List.filterMap_append

/-- What a thread has seen is what was seen, in order. -/
theorem ofThread_effects [DecidableEq Thread] (thread : Thread)
    (moments : List (Thread × Moment Op Ret)) :
    ((ofThread thread moments).filterMap Moment.effect?).Sublist (effects moments) := by
  induction moments with
  | nil => exact .refl _
  | cons moment moments ih =>
      have later := ofThread_append thread [moment] moments
      have all := effects_append [moment] moments
      rw [List.singleton_append] at later all
      rw [later, all, List.filterMap_append]
      refine .append ?_ ih
      by_cases own : moment.1 = thread
      · cases seen : moment.2.effect? <;> simp [ofThread, effects, own, seen]
      · simp [ofThread, own]

theorem ofThread_split [DecidableEq Thread] {thread : Thread}
    {moments : List (Thread × Moment Op Ret)} {left right : List (Moment Op Ret)}
    {moment : Moment Op Ret} (split : ofThread thread moments = left ++ moment :: right) :
    ∃ before after, moments = before ++ (thread, moment) :: after ∧
      ofThread thread before = left := by
  obtain ⟨early, late, rfl, leading, trailing⟩ := List.filterMap_eq_append_iff.mp split
  obtain ⟨quiet, here, after, rfl, others, own, _⟩ := List.filterMap_eq_cons_iff.mp trailing
  obtain ⟨mover, seen⟩ := here
  have nothing : ofThread thread quiet = [] := List.filterMap_eq_nil_iff.mpr others
  refine ⟨early ++ quiet, after, ?_, ?_⟩
  · by_cases same : mover = thread
    · simp only [same, ↓reduceIte, Option.some.injEq] at own
      rw [same, own, List.append_assoc]
    · simp [same] at own
  · rw [ofThread_append, nothing, List.append_nil]
    exact leading

/-- The history can be completed with the moments at which its operations take
effect, each between its call and its return, such that in this order they are a
run of the object used by one thread. -/
def Linearizable [DecidableEq Thread] (atomic : State → Op × Ret → State → Prop) (first : State)
    (history : List (Thread × Moment Op Ret)) : Prop :=
  ∃ moments : List (Thread × Moment Op Ret), visible moments = history ∧
    (∀ thread, ∃ phase, Run Moment.Follows .idle (ofThread thread moments) phase) ∧
    ∃ last, Run atomic first (effects moments) last

theorem Linearizable.mono [DecidableEq Thread] {atomic other : State → Op × Ret → State → Prop}
    {first : State} {history : List (Thread × Moment Op Ret)}
    (linearizable : Linearizable atomic first history)
    (agree : ∀ state taken next, atomic state taken next → other state taken next) :
    Linearizable other first history := by
  obtain ⟨moments, same, follows, last, run⟩ := linearizable
  exact ⟨moments, same, follows, last, run.mono agree⟩

end Histories

/-- An object with a lock. A refused call returns without the lock and changes
nothing; the body of any other runs under the lock, which it keeps, and tells what it
returns and whether it gives the lock back. -/
structure Guarded (State : Type u) (Op : Type v) (Ret : Type) where
  held : State → Bool
  setHeld : Bool → State → State
  refusal : Op → Option Ret
  body : Op → Program State (Ret × Bool)
  held_setHeld : ∀ value state, held (setHeld value state) = value
  body_keeps : ∀ op, (body op).Keeps fun state => held state = true

/-- Where a thread is; `inside` has what is left of the body. -/
inductive Status (State : Type u) (Op : Type v) (Ret : Type) where
  | idle
  | waiting (op : Op)
  | inside (op : Op) (rest : Program State (Ret × Bool))
  | answered (ret : Ret)

structure Pool (State : Type u) (Op : Type v) (Ret : Type) (Thread : Type w) where
  shared : State
  status : Thread → Status State Op Ret

namespace Guarded

variable {State : Type u} {Op : Type v} {Ret : Type} {Thread : Type w}
  (object : Guarded State Op Ret)

def leave (gives : Bool) (state : State) : State :=
  if gives then object.setHeld false state else state

/-- The object used by one thread: the lock is taken and the body executed alone. -/
inductive Atomic (state : State) : Op × Ret → State → Prop where
  | refused {op : Op} {ret : Ret} : object.refusal op = some ret → Atomic state (op, ret) state
  | ran {op : Op} {ret : Ret} {gives : Bool} {after : State} :
      object.refusal op = none → object.held state = false →
      (object.body op).exec (object.setHeld true state) = some ((ret, gives), after) →
      Atomic state (op, ret) (object.leave gives after)

/-- One step of one thread. Only `effect` steps are seen as such. -/
inductive Move : State → Status State Op Ret → Option (Moment Op Ret) → State →
    Status State Op Ret → Prop where
  | invoke {state : State} {op : Op} : Move state .idle (some (.invoke op)) state (.waiting op)
  | refuse {state : State} {op : Op} {ret : Ret} : object.refusal op = some ret →
      Move state (.waiting op) (some (.effect op ret)) state (.answered ret)
  | enter {state : State} {op : Op} : object.refusal op = none → object.held state = false →
      Move state (.waiting op) none (object.setHeld true state) (.inside op (object.body op))
  | work {state after : State} {op : Op} {Value : Type} {value : Value}
      {action : State → Option (Value × State)} {next : Value → Program State (Ret × Bool)} :
      action state = some (value, after) →
      Move state (.inside op (.act action next)) none after (.inside op (next value))
  | leave {state : State} {op : Op} {ret : Ret} {gives : Bool} :
      Move state (.inside op (.done (ret, gives))) (some (.effect op ret))
        (object.leave gives state) (.answered ret)
  | respond {state : State} {ret : Ret} :
      Move state (.answered ret) (some (.respond ret)) state .idle

def PoolStep [DecidableEq Thread] (pool : Pool State Op Ret Thread)
    (label : Thread × Option (Moment Op Ret)) (next : Pool State Op Ret Thread) : Prop :=
  ∃ shared status, object.Move pool.shared (pool.status label.1) label.2 shared status ∧
    next = ⟨shared, Function.update pool.status label.1 status⟩

end Guarded

section Runs

variable {State : Type u} {Op : Type v} {Ret : Type} {Thread : Type w}

def moments (labels : List (Thread × Option (Moment Op Ret))) : List (Thread × Moment Op Ret) :=
  labels.filterMap fun label => label.2.map (label.1, ·)

theorem moments_append (left right : List (Thread × Option (Moment Op Ret))) :
    moments (left ++ right) = moments left ++ moments right :=
  List.filterMap_append

@[simp] theorem effects_internal (thread : Thread) :
    effects (moments [(thread, (none : Option (Moment Op Ret)))]) = [] := rfl

@[simp] theorem effects_invoke (thread : Thread) (op : Op) :
    effects (moments [(thread, some (Moment.invoke op : Moment Op Ret))]) = [] := rfl

@[simp] theorem effects_effect (thread : Thread) (op : Op) (ret : Ret) :
    effects (moments [(thread, some (Moment.effect op ret))]) = [(op, ret)] := rfl

@[simp] theorem effects_respond (thread : Thread) (ret : Ret) :
    effects (moments [(thread, some (Moment.respond ret : Moment Op Ret))]) = [] := rfl

def Status.Inside : Status State Op Ret → Prop
  | .inside _ _ => True
  | .idle | .waiting _ | .answered _ => False

def Status.phase : Status State Op Ret → Moment.Phase Op Ret
  | .idle => .idle
  | .waiting op | .inside op _ => .called op
  | .answered ret => .took ret

/-- What one thread at a time has left behind, and what the thread inside has
still to do: as much as if it executed its body alone from there. -/
inductive Guarded.Between (object : Guarded State Op Ret) (pool : Pool State Op Ret Thread) :
    State → Prop where
  | resting : (∀ thread, ¬(pool.status thread).Inside) → Between object pool pool.shared
  | inside {state : State} {thread : Thread} {op : Op} {rest : Program State (Ret × Bool)} :
      pool.status thread = .inside op rest →
      (∀ other, (pool.status other).Inside → other = thread) →
      object.refusal op = none → object.held state = false → object.held pool.shared = true →
      rest.Keeps (fun state => object.held state = true) →
      rest.exec pool.shared = (object.body op).exec (object.setHeld true state) →
      Between object pool state

variable {object : Guarded State Op Ret} [DecidableEq Thread]
  {pool next : Pool State Op Ret Thread} {label : Thread × Option (Moment Op Ret)}
  {labels : List (Thread × Option (Moment Op Ret))}

theorem Guarded.Move.follows {state after : State} {status reached : Status State Op Ret}
    {moment : Option (Moment Op Ret)} (moved : object.Move state status moment after reached) :
    match moment with
    | some moment => Moment.Follows status.phase moment reached.phase
    | none => reached.phase = status.phase := by
  cases moved with
  | invoke => exact .invoke
  | refuse | leave => exact .effect
  | enter | work => rfl
  | respond => exact .respond

/-- The moments of each thread follow one another as its status says. -/
theorem Guarded.PoolStep.follows (moved : object.PoolStep pool label next) {thread : Thread}
    {history : List (Thread × Moment Op Ret)}
    (past : Run Moment.Follows .idle (ofThread thread history) (pool.status thread).phase) :
    Run Moment.Follows .idle (ofThread thread (history ++ moments [label]))
      (next.status thread).phase := by
  obtain ⟨mover, moment⟩ := label
  obtain ⟨shared, status, moved, rfl⟩ := moved
  have step := moved.follows
  rw [ofThread_append]
  by_cases same : thread = mover
  · subst same
    cases moment with
    | none =>
        simp only at step
        simpa [moments, ofThread, step] using past
    | some moment =>
        have one : ofThread thread (moments [(thread, some moment)]) = [moment] := by
          simp [moments, ofThread]
        rw [one]
        refine past.append (.single ?_)
        simpa using step
  · have none : ofThread thread (moments [(mover, moment)]) = [] := by
      cases moment <;> simp [moments, ofThread, Ne.symm same]
    rw [none, List.append_nil]
    simpa [same] using past

/-- A thread that is not inside before or after leaves everything as it is. -/
theorem Guarded.Between.outside {state : State} (between : object.Between pool state)
    {mover : Thread} {status : Status State Op Ret} (before : ¬(pool.status mover).Inside)
    (after : ¬status.Inside) :
    object.Between ⟨pool.shared, Function.update pool.status mover status⟩ state := by
  have kept : ∀ thread, (Function.update pool.status mover status thread).Inside →
      (pool.status thread).Inside ∧ thread ≠ mover := by
    intro thread inside
    by_cases same : thread = mover
    · subst same
      rw [Function.update_self] at inside
      exact absurd inside after
    · rw [Function.update_of_ne same] at inside
      exact ⟨inside, same⟩
  cases between with
  | resting empty => exact .resting fun thread inside => empty thread (kept thread inside).1
  | @inside _ thread op rest current alone admitted free held keeps continues =>
      have apart : thread ≠ mover := by
        rintro rfl
        rw [current] at before
        exact before trivial
      refine .inside ?_ (fun other inside => alone other (kept other inside).1) admitted free held
        keeps continues
      exact (Function.update_of_ne apart _ _).trans current

theorem alone_update {status : Thread → Status State Op Ret} {mover : Thread}
    (alone : ∀ other, (status other).Inside → other = mover) (after : Status State Op Ret) :
    ∀ other, (Function.update status mover after other).Inside → other = mover := by
  intro other inside
  by_contra apart
  rw [Function.update_of_ne apart] at inside
  exact apart (alone other inside)

omit [DecidableEq Thread] in
theorem Guarded.Between.leaving {state : State} (between : object.Between pool state)
    {mover : Thread} {op : Op} {ret : Ret} {gives : Bool}
    (here : pool.status mover = .inside op (.done (ret, gives))) :
    (∀ other, (pool.status other).Inside → other = mover) ∧ object.refusal op = none ∧
      object.held state = false ∧ (object.body op).exec (object.setHeld true state) =
        some ((ret, gives), pool.shared) := by
  cases between with
  | resting empty => exact absurd (by rw [here]; trivial) (empty mover)
  | inside current alone admitted free held keeps continues =>
      obtain rfl := alone mover (by rw [here]; trivial)
      cases current.symm.trans here
      exact ⟨alone, admitted, free, continues.symm⟩

/-- Each step does nothing to the state left behind, or what one whole operation
does to it. -/
theorem Guarded.Between.step {state : State} (between : object.Between pool state)
    (moved : object.PoolStep pool label next) :
    ∃ after, Run object.Atomic state (effects (moments [label])) after ∧
      object.Between next after := by
  obtain ⟨mover, moment⟩ := label
  obtain ⟨shared, status, moved, rfl⟩ := moved
  dsimp only at moved
  generalize before : pool.status mover = current at moved
  cases moved with
  | invoke =>
      exact ⟨state, .refl, between.outside (by simp [before, Status.Inside]) id⟩
  | respond =>
      exact ⟨state, .refl, between.outside (by simp [before, Status.Inside]) id⟩
  | refuse refused =>
      exact ⟨state, .single (.refused refused),
        between.outside (by simp [before, Status.Inside]) id⟩
  | enter admitted free =>
      cases between with
      | inside _ _ _ _ held => rw [free] at held; cases held
      | resting empty =>
          refine ⟨pool.shared, .refl, .inside (Function.update_self _ _ _) ?_ admitted free
            (object.held_setHeld _ _) (object.body_keeps _) rfl⟩
          exact alone_update (fun other inside => absurd inside (empty other)) _
  | work taken =>
      cases between with
      | resting empty => exact absurd (by rw [before]; trivial) (empty mover)
      | inside here alone admitted free held keeps continues =>
          obtain rfl := alone mover (by rw [before]; trivial)
          cases here.symm.trans before
          obtain ⟨stillHeld, later⟩ := keeps _ held _ taken
          refine ⟨state, .refl, .inside (Function.update_self _ _ _) (alone_update alone _)
            admitted free stillHeld later ?_⟩
          rw [← continues, Program.exec_act, taken]
          rfl
  | leave =>
      obtain ⟨alone, admitted, free, executed⟩ := between.leaving before
      refine ⟨_, .single (.ran admitted free executed), .resting fun other inside => ?_⟩
      cases alone_update alone _ other inside
      simp [Status.Inside] at inside

/-- The operation that a thread has called and not yet seen take effect. -/
def Status.pending : Status State Op Ret → Option Op
  | .waiting op | .inside op _ => some op
  | .idle | .answered _ => none

/-- What is under way and what has taken effect was called. -/
theorem Guarded.called (idle : ∀ thread, pool.status thread = .idle)
    (run : Run object.PoolStep pool labels next) (proper : Op → Prop)
    (calls : ∀ thread op, (thread, some (.invoke op)) ∈ labels → proper op) :
    (∀ thread, ∀ op ∈ (next.status thread).pending, proper op) ∧
      ∀ taken ∈ effects (moments labels), proper taken.1 := by
  refine run.recorded (fun current history =>
    (∀ thread op, (thread, some (.invoke op)) ∈ history → proper op) →
      (∀ thread, ∀ op ∈ (current.status thread).pending, proper op) ∧
      ∀ taken ∈ effects (moments history), proper taken.1) ?_ ?_ calls
  · intro current history label after past moved calls
    obtain ⟨pending, taken⟩ := past fun thread op member =>
      calls thread op (List.mem_append_left _ member)
    obtain ⟨mover, moment⟩ := label
    obtain ⟨shared, status, moved, rfl⟩ := moved
    dsimp only at moved
    have here := pending mover
    have others : ∀ reached : Status State Op Ret, (∀ op ∈ reached.pending, proper op) →
        ∀ thread, ∀ op ∈ (Function.update current.status mover reached thread).pending,
          proper op := by
      intro reached own thread
      by_cases same : thread = mover
      · rw [same, Function.update_self]
        exact own
      · rw [Function.update_of_ne same]
        exact pending thread
    rw [moments_append, effects_append]
    generalize current.status mover = before at moved here
    cases moved with
    | invoke =>
        rw [effects_invoke, List.append_nil]
        refine ⟨others _ ?_, taken⟩
        intro op waiting
        cases waiting
        exact calls mover _ (List.mem_append_right _ (List.mem_singleton.mpr rfl))
    | respond =>
        rw [effects_respond, List.append_nil]
        exact ⟨others _ (by simp [Status.pending]), taken⟩
    | enter | work =>
        rw [effects_internal, List.append_nil]
        exact ⟨others _ here, taken⟩
    | refuse | leave =>
        refine ⟨others _ (by simp [Status.pending]), fun one member => ?_⟩
        rcases List.mem_append.mp member with earlier | now
        · exact taken one earlier
        · cases List.mem_singleton.mp now
          exact here _ rfl
  · exact fun _ => ⟨fun thread op member => by simp [idle, Status.pending] at member,
      by simp [moments, effects]⟩

/-- In the order in which the operations of a run take effect, the thread-by-thread
use of the object reaches the same state, but for an operation that is under way. -/
theorem Guarded.serialises (idle : ∀ thread, pool.status thread = .idle)
    (run : Run object.PoolStep pool labels next) :
    ∃ state, Run object.Atomic pool.shared (effects (moments labels)) state ∧
      object.Between next state := by
  have start : object.Between pool pool.shared :=
    .resting fun thread inside => by simp [idle, Status.Inside] at inside
  refine run.recorded (fun current history => ∃ state,
    Run object.Atomic pool.shared (effects (moments history)) state ∧
      object.Between current state) ?_ ⟨pool.shared, .refl, start⟩
  intro current history label after past moved
  obtain ⟨state, run, between⟩ := past
  obtain ⟨later, step, between⟩ := between.step moved
  refine ⟨later, ?_, between⟩
  rw [moments_append, effects_append]
  exact run.append step

theorem Guarded.follows (idle : ∀ thread, pool.status thread = .idle)
    (run : Run object.PoolStep pool labels next) (thread : Thread) :
    Run Moment.Follows .idle (ofThread thread (moments labels)) (next.status thread).phase := by
  refine run.recorded (fun current history => Run Moment.Follows .idle
    (ofThread thread (moments history)) (current.status thread).phase) ?_ ?_
  · intro current history label after past moved
    rw [moments_append]
    exact moved.follows past
  · rw [idle]
    exact .refl

/-- What callers see of a run is linearizable. -/
theorem Guarded.linearizable (idle : ∀ thread, pool.status thread = .idle)
    (run : Run object.PoolStep pool labels next) :
    Linearizable object.Atomic pool.shared (visible (moments labels)) := by
  obtain ⟨state, atomic, _⟩ := Guarded.serialises idle run
  exact ⟨moments labels, rfl, fun thread => ⟨_, Guarded.follows idle run thread⟩, state, atomic⟩

/-- An effect other than a refusal is the end of a body that has run as a whole. -/
theorem Guarded.Between.effect {state : State} (between : object.Between pool state)
    {mover : Thread} {op : Op} {ret : Ret}
    (moved : object.PoolStep pool (mover, some (.effect op ret)) next)
    (admitted : object.refusal op = none) :
    (∀ thread, ¬(next.status thread).Inside) ∧ ∃ gives after,
      (object.body op).exec (object.setHeld true state) = some ((ret, gives), after) ∧
        next.shared = object.leave gives after := by
  obtain ⟨shared, status, moved, rfl⟩ := moved
  dsimp only at moved
  generalize before : pool.status mover = current at moved
  cases moved with
  | refuse refused => cases admitted.symm.trans refused
  | leave =>
      obtain ⟨alone, _, _, executed⟩ := between.leaving before
      refine ⟨fun other inside => ?_, _, _, executed, rfl⟩
      cases alone_update alone _ other inside
      simp [Status.Inside] at inside

/-- A lock that nobody gives back: from then on calls are refused or wait. -/
theorem Guarded.stuck (held : object.held pool.shared = true)
    (empty : ∀ thread, ¬(pool.status thread).Inside) (run : Run object.PoolStep pool labels next) :
    next.shared = pool.shared ∧ (∀ thread, ¬(next.status thread).Inside) ∧
      ∀ taken ∈ effects (moments labels), object.refusal taken.1 = some taken.2 := by
  refine run.recorded (fun current history => current.shared = pool.shared ∧
    (∀ thread, ¬(current.status thread).Inside) ∧
      ∀ taken ∈ effects (moments history), object.refusal taken.1 = some taken.2) ?_
    ⟨rfl, empty, by simp [moments, effects]⟩
  intro current history label after past moved
  obtain ⟨same, empty, refused⟩ := past
  obtain ⟨mover, moment⟩ := label
  obtain ⟨shared, status, moved, rfl⟩ := moved
  dsimp only at moved
  have outside : ∀ reached : Status State Op Ret, ¬reached.Inside →
      ∀ thread, ¬(Function.update current.status mover reached thread).Inside := by
    intro reached out thread inside
    cases alone_update (fun other here => absurd here (empty other)) _ thread inside
    rw [Function.update_self] at inside
    exact out inside
  rw [moments_append, effects_append]
  generalize before : current.status mover = status at moved
  cases moved with
  | invoke | respond =>
      refine ⟨same, outside _ id, fun taken member => refused taken ?_⟩
      simpa only [effects_invoke, effects_respond, List.append_nil] using member
  | refuse refusal =>
      refine ⟨same, outside _ id, fun taken member => ?_⟩
      rcases List.mem_append.mp member with earlier | now
      · exact refused taken earlier
      · cases List.mem_singleton.mp now
        exact refusal
  | enter _ free =>
      rw [same, held] at free
      cases free
  | work | leave => exact absurd (by rw [before]; trivial) (empty mover)

/-- Where no body faults and a lock at rest is free, some thread can go on with a
call that was made. -/
theorem Guarded.Between.progress {state : State} (between : object.Between pool state)
    (faultless : ∀ thread op rest, pool.status thread = .inside op rest →
      object.refusal op = none → object.held state = false →
      ((object.body op).exec (object.setHeld true state)).isSome)
    (free : object.held pool.shared = true → ∃ thread, (pool.status thread).Inside)
    {thread : Thread} (busy : pool.status thread ≠ .idle) :
    ∃ label next, object.PoolStep pool label next ∧ ∀ op, label.2 ≠ some (.invoke op) := by
  have moves : ∀ {mover : Thread} {current after : Status State Op Ret} {shared : State}
      {moment : Option (Moment Op Ret)}, pool.status mover = current →
      object.Move pool.shared current moment shared after → (∀ op, moment ≠ some (.invoke op)) →
      ∃ label next, object.PoolStep pool label next ∧ ∀ op, label.2 ≠ some (.invoke op) :=
    fun {mover _ _ _ moment} current moved other =>
      ⟨(mover, moment), _, ⟨_, _, current ▸ moved, rfl⟩, other⟩
  cases between with
  | @inside _ mover op rest here _ admitted free _ _ continues =>
      have goesOn := faultless mover op rest here admitted free
      rw [← continues] at goesOn
      cases rest with
      | done result => exact moves here .leave (by simp)
      | act action next =>
          rw [Program.exec_act] at goesOn
          cases taken : action pool.shared with
          | none => simp [taken] at goesOn
          | some outcome => exact moves here (.work taken) (by simp)
  | resting empty =>
      have unheld : object.held pool.shared = false := by
        cases held : object.held pool.shared with
        | false => rfl
        | true =>
            obtain ⟨other, inside⟩ := free held
            exact absurd inside (empty other)
      cases current : pool.status thread with
      | idle => exact absurd current busy
      | inside op rest => exact absurd (by rw [current]; trivial) (empty thread)
      | answered ret => exact moves current .respond (by simp)
      | waiting op =>
          cases refused : object.refusal op with
          | some ret => exact moves current (.refuse refused) (by simp)
          | none => exact moves current (.enter refused unheld) (by simp)

end Runs

namespace Guarded

variable {State : Type u} {Op : Type v} {Ret : Type} {Thread : Type w} [DecidableEq Thread]
  (object : Guarded State Op Ret)

/-- The step that a thread can take, and for an idle one the call that it makes. -/
def drive (pool : Pool State Op Ret Thread) (thread : Thread) (call : Option Op) :
    Option (Option (Moment Op Ret) × Pool State Op Ret Thread) :=
  let become := fun shared status => Pool.mk shared (Function.update pool.status thread status)
  match pool.status thread with
  | .idle => call.map fun op => (some (.invoke op), become pool.shared (.waiting op))
  | .waiting op =>
      match object.refusal op with
      | some ret => some (some (.effect op ret), become pool.shared (.answered ret))
      | none =>
          if object.held pool.shared then none
          else some (none, become (object.setHeld true pool.shared) (.inside op (object.body op)))
  | .inside op (.act action next) =>
      (action pool.shared).map fun taken => (none, become taken.2 (.inside op (next taken.1)))
  | .inside op (.done (ret, gives)) =>
      some (some (.effect op ret), become (object.leave gives pool.shared) (.answered ret))
  | .answered ret => some (some (.respond ret), become pool.shared .idle)

def schedule (pool : Pool State Op Ret Thread) :
    List (Thread × Option Op) →
      Option (List (Thread × Option (Moment Op Ret)) × Pool State Op Ret Thread)
  | [] => some ([], pool)
  | choice :: choices =>
      (object.drive pool choice.1 choice.2).bind fun driven =>
        (schedule driven.2 choices).map fun later => ((choice.1, driven.1) :: later.1, later.2)

variable {object} {pool next : Pool State Op Ret Thread}

theorem drive_step {thread : Thread} {call : Option Op} {moment : Option (Moment Op Ret)}
    (driven : object.drive pool thread call = some (moment, next)) :
    object.PoolStep pool (thread, moment) next := by
  unfold drive at driven
  dsimp only at driven
  unfold PoolStep
  dsimp only
  generalize pool.status thread = status at driven
  cases status with
  | idle =>
      obtain ⟨op, _, same⟩ := Option.map_eq_some_iff.mp driven
      cases same
      exact ⟨_, _, .invoke, rfl⟩
  | waiting op =>
      cases refused : object.refusal op with
      | some ret =>
          simp only [refused] at driven
          cases driven
          exact ⟨_, _, .refuse refused, rfl⟩
      | none =>
          simp only [refused] at driven
          cases free : object.held pool.shared with
          | true => simp [free] at driven
          | false =>
              simp only [free, Bool.false_eq_true, ↓reduceIte] at driven
              cases driven
              exact ⟨_, _, .enter refused free, rfl⟩
  | inside op rest =>
      cases rest with
      | done result =>
          cases driven
          exact ⟨_, _, .leave, rfl⟩
      | act action next =>
          obtain ⟨taken, outcome, same⟩ := Option.map_eq_some_iff.mp driven
          cases same
          exact ⟨_, _, .work outcome, rfl⟩
  | answered ret =>
      cases driven
      exact ⟨_, _, .respond, rfl⟩

theorem schedule_run {choices : List (Thread × Option Op)}
    {labels : List (Thread × Option (Moment Op Ret))}
    (scheduled : object.schedule pool choices = some (labels, next)) :
    Run object.PoolStep pool labels next := by
  induction choices generalizing pool labels with
  | nil =>
      cases scheduled
      exact .refl
  | cons choice choices ih =>
      obtain ⟨driven, first, rest⟩ := Option.bind_eq_some_iff.mp scheduled
      obtain ⟨later, goesOn, same⟩ := Option.map_eq_some_iff.mp rest
      cases same
      exact .cons (drive_step first) (ih goesOn)

end Guarded

end Aesd
