import Aesd.Library.Logged
import Aesd.Library.MachineInt

/-!
# Arithmetic whose steps are recorded

A step logs what the machine makes of its operands. It is exact when that is the
result of the integers and, for a sum, when the integer fits an `int`.
-/

set_option autoImplicit false

namespace Aesd

open MachineInt

inductive ArithmeticStep where
  | sum (integer : Int) (stored : Int)
  | less (left : Nat) (right : Int) (answer : Bool)
  | difference (left : Nat) (right : Int) (result : Nat)
  deriving DecidableEq, Repr

def ArithmeticStep.Exact : ArithmeticStep → Prop
  | .sum integer stored => 0 ≤ integer ∧ integer < 2 ^ 31 ∧ stored = integer
  | .less left right answer => answer = decide ((left : Int) < right)
  | .difference left right result => (result : Int) = left - right

abbrev Computed (α : Type) := Logged ArithmeticStep α

namespace Computed

/-- A sum stored into an `int`. -/
def sum (left right : Int) : Computed Int :=
  ⟨toInt32 (left + right), [.sum (left + right) (toInt32 (left + right))]⟩

/-- A sum taken in `uint32_t`. -/
def unsignedSum (left right : Int) : Computed Int :=
  ⟨toUInt32 (left + right), [.sum (left + right) (toUInt32 (left + right))]⟩

/-- A `size_t` compared with an `int`. -/
def less (left : Nat) (right : Int) : Computed Bool :=
  ⟨decide (left < toSizeT right), [.less left right (decide (left < toSizeT right))]⟩

/-- An `int` subtracted from a `size_t`. -/
def difference (left : Nat) (right : Int) : Computed Nat :=
  ⟨toSizeT (left - right), [.difference left right (toSizeT (left - right))]⟩

@[simp] theorem value_sum (left right : Int) : (sum left right).value = toInt32 (left + right) :=
  rfl

@[simp] theorem value_unsignedSum (left right : Int) :
    (unsignedSum left right).value = toUInt32 (left + right) := rfl

@[simp] theorem value_less (left : Nat) (right : Int) :
    (less left right).value = decide (left < toSizeT right) := rfl

@[simp] theorem value_difference (left : Nat) (right : Int) :
    (difference left right).value = toSizeT (left - right) := rfl

def Exact {α : Type} (computed : Computed α) : Prop := computed.All ArithmeticStep.Exact

@[simp] theorem exact_pure {α : Type} (value : α) : (pure value : Computed α).Exact :=
  Logged.all_pure _ value

@[simp] theorem exact_bind {α β : Type} (first : Computed α) (next : α → Computed β) :
    (first >>= next : Computed β).Exact ↔ first.Exact ∧ (next first.value).Exact :=
  Logged.all_bind _ first next

variable {left right : Int} {value : Nat}

theorem sum_exact (lower : 0 ≤ left + right) (upper : left + right < 2 ^ 31) :
    (sum left right).Exact ∧ (sum left right).value = left + right := by
  have stored := toInt32_of_bounds lower upper
  exact ⟨(Logged.all_single _ _ _).mpr ⟨lower, upper, stored⟩, stored⟩

theorem unsignedSum_exact (lower : 0 ≤ left + right) (upper : left + right < 2 ^ 31) :
    (unsignedSum left right).Exact ∧ (unsignedSum left right).value = left + right := by
  obtain ⟨total, same⟩ := Int.eq_ofNat_of_zero_le lower
  have stored : (toUInt32 (left + right) : Int) = left + right := by
    rw [same, toUInt32_natCast]
    omega
  exact ⟨(Logged.all_single _ _ _).mpr ⟨lower, upper, stored⟩, stored⟩

theorem less_exact (lower : 0 ≤ right) (upper : right < 2 ^ 64) :
    (less value right).Exact ∧ ((less value right).value = true ↔ (value : Int) < right) := by
  have size := toSizeT_of_bounds right lower upper
  have compared : value < toSizeT right ↔ (value : Int) < right := by omega
  exact ⟨(Logged.all_single _ _ _).mpr (decide_eq_decide.mpr compared), by simpa using compared⟩

theorem difference_exact (lower : right ≤ value) (upper : (value : Int) - right < 2 ^ 64) :
    (difference value right).Exact ∧ ((difference value right).value : Int) = value - right := by
  have result := toSizeT_of_bounds (value - right) (by omega) upper
  exact ⟨(Logged.all_single _ _ _).mpr result, result⟩

end Computed

end Aesd
