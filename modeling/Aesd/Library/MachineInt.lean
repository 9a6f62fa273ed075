import Mathlib.Algebra.Order.Ring.Int

/-!
# Fixed-width integer conversions

The values of the C types `int`, `uint32_t` and `size_t` of a 64-bit machine
as integers, with the conversion that a store into each type performs, and the
bytes of a `uint32_t` in memory.
-/

set_option autoImplicit false

namespace Aesd.MachineInt

def toInt32 (value : Int) : Int := (BitVec.ofInt 32 value).toInt

def toUInt32 (value : Int) : Nat := (BitVec.ofInt 32 value).toNat

def toSizeT (value : Int) : Nat := (BitVec.ofInt 64 value).toNat

theorem toInt32_of_bounds {value : Int} (lower : 0 ≤ value) (upper : value < 2 ^ 31) :
    toInt32 value = value := by
  rw [toInt32, BitVec.toInt_ofInt]
  exact Int.bmod_eq_of_le (by omega) (by omega)

theorem toSizeT_of_bounds (value : Int) (lower : 0 ≤ value) (upper : value < 2 ^ 64) :
    (toSizeT value : Int) = value := by
  rw [toSizeT, BitVec.toNat_ofInt]
  omega

theorem toSizeT_natCast {value : Nat} (upper : value < 2 ^ 64) : toSizeT value = value := by
  have exactly := toSizeT_of_bounds (value : Int) (by omega) (by omega)
  omega

theorem toUInt32_natCast (value : Nat) : toUInt32 value = value % 2 ^ 32 := by
  rw [toUInt32, BitVec.toNat_ofInt]
  omega

/-- A store into an `int` loses nothing that a later store into 32 bits keeps. -/
theorem ofInt_toInt32_add (value other : Int) :
    BitVec.ofInt 32 (toInt32 value + other) = BitVec.ofInt 32 (value + other) := by
  rw [BitVec.ofInt_add, BitVec.ofInt_add, toInt32, BitVec.ofInt_toInt]

theorem toInt32_toInt32_add (value other : Int) :
    toInt32 (toInt32 value + other) = toInt32 (value + other) := by
  rw [toInt32, ofInt_toInt32_add, toInt32]

theorem toUInt32_toInt32_add (value other : Int) :
    toUInt32 (toInt32 value + other) = toUInt32 (value + other) := by
  rw [toUInt32, ofInt_toInt32_add, toUInt32]

/-- The bytes of a word on a little-endian machine. -/
def littleEndian (word : BitVec 32) : List (BitVec 8) :=
  (List.range 4).map fun index => word.extractLsb' (8 * index) 8

theorem littleEndian_injective : Function.Injective littleEndian := by
  intro left right same
  refine BitVec.eq_of_getLsbD_eq fun index below => ?_
  have byte : left.extractLsb' (8 * (index / 8)) 8 = right.extractLsb' (8 * (index / 8)) 8 :=
    List.map_inj_left.mp same (index / 8) (List.mem_range.mpr (by omega))
  have bit := congrArg (fun byte => byte.getLsbD (index % 8)) byte
  have inside : index % 8 < 8 := Nat.mod_lt _ (by decide)
  simpa [BitVec.getLsbD_extractLsb', inside, Nat.div_add_mod] using bit

theorem getLsbD_replaceLow (word other : BitVec 32) (index : Nat) :
    (word.extractLsb' 8 24 ++ other.extractLsb' 0 8 : BitVec 32).getLsbD index =
      if index < 8 then other.getLsbD index else word.getLsbD index := by
  refine BitVec.getLsbD_append.trans ?_
  by_cases low : index < 8
  · simp [low]
  · have position : 8 + (index - 8) = index := by omega
    simp only [low, ↓reduceIte, BitVec.getLsbD_extractLsb', position]
    by_cases inside : index < 32
    · have shifted : index - 8 < 24 := by omega
      simp [shifted]
    · simp [BitVec.getLsbD_of_ge word index (by omega)]

/-- Overwriting the first byte in memory replaces the lowest eight bits. -/
theorem littleEndian_replaceLow (word other : BitVec 32) :
    littleEndian (word.extractLsb' 8 24 ++ other.extractLsb' 0 8 : BitVec 32) =
      (littleEndian other).take 1 ++ (littleEndian word).drop 1 := by
  have first : (word.extractLsb' 8 24 ++ other.extractLsb' 0 8 : BitVec 32).extractLsb' 0 8 =
      other.extractLsb' 0 8 := by
    refine BitVec.eq_of_getLsbD_eq fun bit below => ?_
    simp only [BitVec.getLsbD_extractLsb', getLsbD_replaceLow, Nat.zero_add, below, ↓reduceIte]
  have later : ∀ start, 8 ≤ start →
      (word.extractLsb' 8 24 ++ other.extractLsb' 0 8 : BitVec 32).extractLsb' start 8 =
        word.extractLsb' start 8 := by
    intro start high
    refine BitVec.eq_of_getLsbD_eq fun bit below => ?_
    have behind : ¬start + bit < 8 := by omega
    simp only [BitVec.getLsbD_extractLsb', getLsbD_replaceLow, behind, ↓reduceIte]
  simp [littleEndian, List.range_succ, first, later]

end Aesd.MachineInt
