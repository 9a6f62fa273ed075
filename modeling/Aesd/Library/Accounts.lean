import Mathlib.Data.Set.Insert
import Mathlib.Data.List.Nodup
import Mathlib.Data.List.Perm.Basic

/-!
# Accounting for what is allocated

One owner takes and gives back items of a set that others use as well. All is
accounted for when what is allocated is what was there before (the base) and
what the owner lists, each once and none of it in the base.
-/

set_option autoImplicit false

namespace Aesd

universe u

structure Accounted {α : Type u} (base allocated : Set α) (owned : List α) : Prop where
  exact : ∀ item, item ∈ allocated ↔ item ∈ base ∨ item ∈ owned
  apart : ∀ item ∈ base, item ∉ owned
  distinct : owned.Nodup

namespace Accounted

variable {α : Type u} {base allocated : Set α} {owned : List α} {item : α}

theorem acquire (accounted : Accounted base allocated owned) (fresh : item ∉ allocated) :
    Accounted base (insert item allocated) (item :: owned) where
  exact := by
    intro other
    rw [Set.mem_insert_iff, accounted.exact, List.mem_cons]
    exact or_left_comm
  apart := by
    intro other before member
    rcases List.mem_cons.mp member with rfl | older
    · exact fresh ((accounted.exact _).mpr (.inl before))
    · exact accounted.apart other before older
  distinct := by
    apply List.nodup_cons.mpr
    exact ⟨fun member => fresh ((accounted.exact _).mpr (.inr member)), accounted.distinct⟩

theorem dispose (accounted : Accounted base allocated (item :: owned)) :
    Accounted base (allocated \ {item}) owned where
  exact := by
    have once := (List.nodup_cons.mp accounted.distinct).1
    intro other
    rw [Set.mem_sdiff, Set.mem_singleton_iff, accounted.exact, List.mem_cons]
    constructor
    · intro left
      obtain ⟨before | isItem | kept, different⟩ := left
      · exact .inl before
      · exact absurd isItem different
      · exact .inr kept
    · intro left
      cases left with
      | inl before =>
          refine ⟨.inl before, fun isItem => ?_⟩
          subst isItem
          exact accounted.apart _ before List.mem_cons_self
      | inr kept =>
          refine ⟨.inr (.inr kept), fun isItem => ?_⟩
          subst isItem
          exact once kept
  apart := fun other before member =>
    accounted.apart other before (List.mem_cons_of_mem _ member)
  distinct := (List.nodup_cons.mp accounted.distinct).2

theorem perm (accounted : Accounted base allocated owned) {other : List α}
    (same : owned.Perm other) : Accounted base allocated other where
  exact := fun item => (accounted.exact item).trans (or_congr_right same.mem_iff)
  apart := fun item before member => accounted.apart item before (same.mem_iff.mpr member)
  distinct := same.nodup_iff.mp accounted.distinct

end Accounted

end Aesd
