import Mathlib.Data.List.Basic

/-!
# Finite runs of a labelled step relation

Induction over a run is packaged once: an invariant that every admitted step
preserves holds in the last state, and a step-by-step simulation folds over
the labels. Nothing here depends on what the states or the labels are.
-/

set_option autoImplicit false

namespace Aesd.Transition

universe u v w

inductive Run {State : Type u} {Label : Type v} (step : State → Label → State → Prop) :
    State → List Label → State → Prop where
  | refl {state} : Run step state [] state
  | cons {first middle last label labels} :
      step first label middle → Run step middle labels last →
      Run step first (label :: labels) last

variable {State : Type u} {Label : Type v} {step : State → Label → State → Prop}

theorem Run.single {first last : State} {label : Label} (moved : step first label last) :
    Run step first [label] last :=
  .cons moved .refl

theorem Run.append {first middle last : State} {left right : List Label}
    (leading : Run step first left middle) (trailing : Run step middle right last) :
    Run step first (left ++ right) last := by
  induction leading with
  | refl => exact trailing
  | cons moved _ ih => exact .cons moved (ih trailing)

theorem Run.split {first last : State} {left right : List Label}
    (run : Run step first (left ++ right) last) :
    ∃ middle, Run step first left middle ∧ Run step middle right last := by
  induction left generalizing first with
  | nil => exact ⟨first, .refl, run⟩
  | cons label left ih =>
      cases run with
      | cons moved rest =>
          obtain ⟨middle, leading, trailing⟩ := ih rest
          exact ⟨middle, .cons moved leading, trailing⟩

theorem Run.step_of_mem {first last : State} {label : Label} {labels : List Label}
    (run : Run step first labels last) (member : label ∈ labels) :
    ∃ before after, step before label after := by
  induction run with
  | refl => cases member
  | cons moved _ ih =>
      rcases List.mem_cons.mp member with rfl | later
      · exact ⟨_, _, moved⟩
      · exact ih later

/-- An invariant that every admitted step preserves holds in the last state. -/
theorem Run.invariant (admitted : Label → Prop) (holds : State → Prop)
    (preserved : ∀ state label next, admitted label → holds state → step state label next →
      holds next)
    {first last : State} {labels : List Label} (run : Run step first labels last)
    (admits : ∀ label ∈ labels, admitted label) (start : holds first) : holds last := by
  induction run with
  | refl => exact start
  | cons moved _ ih =>
      apply ih (fun label member => admits label (List.mem_cons_of_mem _ member))
      exact preserved _ _ _ (admits _ List.mem_cons_self) start moved

/-- A relation to an abstract state that every admitted step maintains, with
`next` as the abstract step, relates the last state to the folded labels. -/
theorem Run.simulates {Abstract : Type w} (admitted : Label → Prop)
    (related : State → Abstract → Prop) {next : Abstract → Label → Abstract}
    (maintained : ∀ state abstract label after, admitted label → related state abstract →
      step state label after → related after (next abstract label))
    {first last : State} {labels : List Label} (run : Run step first labels last)
    (admits : ∀ label ∈ labels, admitted label) {abstract : Abstract}
    (start : related first abstract) : related last (labels.foldl next abstract) := by
  induction run generalizing abstract with
  | refl => exact start
  | cons moved _ ih =>
      apply ih (fun label member => admits label (List.mem_cons_of_mem _ member))
      exact maintained _ _ _ _ (admits _ List.mem_cons_self) start moved

/-- Two conditions on steps that agree wherever an invariant holds, and under
which it is kept, select the same runs. -/
theorem Run.iff_of_invariant (admitted : Label → Prop) (holds : State → Prop)
    {left right : State → Label → State → Prop}
    (agree : ∀ state label next, admitted label → holds state → step state label next →
      (left state label next ↔ right state label next))
    (preserved : ∀ state label next, admitted label → holds state → step state label next →
      right state label next → holds next)
    {first last : State} {labels : List Label} (admits : ∀ label ∈ labels, admitted label)
    (start : holds first) :
    Run (fun state label next => step state label next ∧ left state label next) first labels last ↔
      Run (fun state label next => step state label next ∧ right state label next) first labels
        last := by
  induction labels generalizing first with
  | nil =>
      constructor
      all_goals
        intro run
        cases run
        exact .refl
  | cons label labels ih =>
      have here := admits label List.mem_cons_self
      have later := fun other member => admits other (List.mem_cons_of_mem label member)
      constructor
      · intro run
        cases run with
        | cons moved rest =>
            have fine := (agree _ _ _ here start moved.1).mp moved.2
            have kept := preserved _ _ _ here start moved.1 fine
            exact .cons ⟨moved.1, fine⟩ ((ih later kept).mp rest)
      · intro run
        cases run with
        | cons moved rest =>
            have fine := (agree _ _ _ here start moved.1).mpr moved.2
            have kept := preserved _ _ _ here start moved.1 moved.2
            exact .cons ⟨moved.1, fine⟩ ((ih later kept).mpr rest)

theorem Run.relabel {Other : Type w} {other : State → Other → State → Prop} (name : Label → Other)
    (agree : ∀ state label next, step state label next → other state (name label) next)
    {first last : State} {labels : List Label} (run : Run step first labels last) :
    Run other first (labels.map name) last := by
  induction run with
  | refl => exact .refl
  | cons moved _ ih => exact .cons (agree _ _ _ moved) ih

theorem Run.mono {other : State → Label → State → Prop}
    (agree : ∀ state label next, step state label next → other state label next)
    {first last : State} {labels : List Label} (run : Run step first labels last) :
    Run other first labels last := by
  have same : Run other first (labels.map id) last := run.relabel id agree
  rwa [List.map_id] at same

/-- Where an abstract step can follow each step, an abstract run follows each run. -/
theorem Run.refines {Abstract Other : Type w} {other : Abstract → Other → Abstract → Prop}
    (name : Label → Other) (admitted : Label → Prop) (related : State → Abstract → Prop)
    (followed : ∀ state abstract label next, admitted label → related state abstract →
      step state label next → ∃ after, other abstract (name label) after ∧ related next after)
    {first last : State} {labels : List Label} (run : Run step first labels last)
    (admits : ∀ label ∈ labels, admitted label) {abstract : Abstract}
    (start : related first abstract) :
    ∃ after, Run other abstract (labels.map name) after ∧ related last after := by
  induction run generalizing abstract with
  | refl => exact ⟨abstract, .refl, start⟩
  | cons moved _ ih =>
      obtain ⟨middle, here, kept⟩ := followed _ _ _ _ (admits _ List.mem_cons_self) start moved
      obtain ⟨after, later, ended⟩ :=
        ih (fun label member => admits label (List.mem_cons_of_mem _ member)) kept
      exact ⟨after, .cons here later, ended⟩

section Follow

variable {Abstract Other Seen : Type w} {other : Abstract → Other → Abstract → Prop}
  (seen : Label → List Seen) (shown : Other → Seen) (fits : List Label → Prop)
  (closed : ∀ left right, fits (left ++ right) → fits left)
  (related : List Label → State → Abstract → Prop)
  (followed : ∀ history state abstract label next, fits (history ++ [label]) →
    related history state abstract → step state label next →
    ∃ taken after, Run other abstract taken after ∧ taken.map shown = seen label ∧
      related (history ++ [label]) next after)
  {first last : State} {labels history : List Label} (run : Run step first labels last)
  {abstract : Abstract}

include closed followed run

theorem Run.follow (start : related history first abstract) (admits : fits (history ++ labels)) :
    ∃ taken after, Run other abstract taken after ∧ taken.map shown = labels.flatMap seen ∧
      related (history ++ labels) last after := by
  induction run generalizing history abstract with
  | refl => exact ⟨[], abstract, .refl, rfl, by rwa [List.append_nil]⟩
  | @cons _ _ _ label labels moved _ ih =>
      rw [List.append_cons] at admits
      obtain ⟨front, middle, leading, here, kept⟩ :=
        followed _ _ _ _ _ (closed _ _ admits) start moved
      obtain ⟨back, after, trailing, later, ended⟩ := ih kept admits
      refine ⟨front ++ back, after, leading.append trailing, ?_, ?_⟩
      · rw [List.map_append, here, later, List.flatMap_cons]
      · rwa [List.append_cons]

/-- Where an abstract run, perhaps an empty one, follows each step and shows what the
step shows, one abstract run follows the whole run. -/
theorem Run.follows (start : related [] first abstract) (admits : fits labels) :
    ∃ taken after, Run other abstract taken after ∧ taken.map shown = labels.flatMap seen ∧
      related labels last after :=
  run.follow seen shown fits closed related followed start admits

end Follow

/-- A relation to the labels seen so far that each step maintains holds at the end. -/
theorem Run.record (related : State → List Label → Prop)
    (maintained : ∀ state history label after, related state history → step state label after →
      related after (history ++ [label]))
    {first last : State} {labels : List Label} (run : Run step first labels last)
    {history : List Label} (start : related first history) : related last (history ++ labels) := by
  induction run generalizing history with
  | refl => rwa [List.append_nil]
  | cons moved _ ih =>
      have later := ih (maintained _ _ _ _ start moved)
      rwa [List.append_assoc, List.singleton_append] at later

theorem Run.recorded (related : State → List Label → Prop)
    (maintained : ∀ state history label after, related state history → step state label after →
      related after (history ++ [label]))
    {first last : State} {labels : List Label} (run : Run step first labels last)
    (start : related first []) : related last labels :=
  @Run.record _ _ _ related maintained _ _ _ run [] start

/-- Two runs on the same inputs agree step by step, if single steps do. -/
theorem Run.agree {Input Output : Type w} (input : Label → Input) (output : Label → Output)
    (functional : ∀ state label next other after, input label = input other →
      step state label next → step state other after → output label = output other ∧ next = after)
    {first last otherLast : State} {labels others : List Label}
    (run : Run step first labels last) (otherRun : Run step first others otherLast)
    (inputs : labels.map input = others.map input) :
    labels.map output = others.map output ∧ last = otherLast := by
  induction run generalizing others with
  | refl =>
      cases List.map_eq_nil_iff.mp inputs.symm
      cases otherRun
      exact ⟨rfl, rfl⟩
  | cons moved _ ih =>
      cases otherRun with
      | refl => cases inputs
      | cons otherMoved rest =>
          obtain ⟨same, inputs⟩ := List.cons.inj inputs
          obtain ⟨outputs, rfl⟩ := functional _ _ _ _ _ same moved otherMoved
          obtain ⟨later, ended⟩ := ih rest inputs
          exact ⟨congrArg₂ List.cons outputs later, ended⟩

end Aesd.Transition
