import Mathlib.Algebra.Order.Ring.Int
import Mathlib.Data.List.Infix
import Mathlib.Data.List.TakeWhile

/-!
# Text as C's standard library reads it

A string ends at its first NUL. `strstr` finds the first occurrence of a needle;
`scanInt` is the `%d` conversion of `sscanf`: white space, a sign, digits, the
value clamped to 64 bits as `strtol` does and then stored into 32 bits.
-/

set_option autoImplicit false

namespace Aesd.CText

def cString (buffer : List UInt8) : List UInt8 := buffer.takeWhile (· != 0)

/-- The haystack from the first occurrence of the needle on. -/
def strstr (needle : List UInt8) : List UInt8 → Option (List UInt8)
  | [] => if needle.isEmpty then some [] else none
  | char :: rest =>
      if needle.isPrefixOf (char :: rest) then some (char :: rest) else strstr needle rest

def isSpace (char : UInt8) : Bool := char = 32 || (9 ≤ char && char ≤ 13)

def isDigit (char : UInt8) : Bool := 48 ≤ char && char ≤ 57

def decimalValue (digits : List UInt8) : Nat :=
  digits.foldl (fun value digit => 10 * value + (digit.toNat - 48)) 0

def scanInt (text : List UInt8) : Option (Int × List UInt8) :=
  let unspaced := text.dropWhile isSpace
  let negative := unspaced.head? = some 45
  let unsigned := if negative || unspaced.head? = some 43 then unspaced.tail else unspaced
  let digits := unsigned.takeWhile isDigit
  if digits.isEmpty then none
  else some (if negative then -decimalValue digits else decimalValue digits,
    unsigned.dropWhile isDigit)

/-- A scanned value as it is stored into a 32-bit integer. -/
def storeInt (value : Int) : BitVec 32 :=
  BitVec.ofInt 32 (max (-2 ^ 63) (min value (2 ^ 63 - 1)))

/-- `sscanf(text, "%d,%d", &first, &second)`: a failing conversion ends the scan
and leaves the remaining targets as they were. -/
def sscanfPair (text : List UInt8) (first second : BitVec 32) : BitVec 32 × BitVec 32 :=
  match scanInt text with
  | none => (first, second)
  | some (value, 44 :: rest) =>
      match scanInt rest with
      | none => (storeInt value, second)
      | some (other, _) => (storeInt value, storeInt other)
  | some (value, _) => (storeInt value, second)

theorem cString_of_nulFree {text : List UInt8} (nulFree : 0 ∉ text) {rest : List UInt8}
    (ends : ∀ char ∈ rest.head?, char = 0) : cString (text ++ rest) = text := by
  have kept : ∀ char ∈ text, (char != 0) = true := by
    intro char member
    apply bne_iff_ne.mpr
    rintro rfl
    exact nulFree member
  rw [cString, List.takeWhile_append_of_pos kept]
  cases rest with
  | nil => simp
  | cons char rest => simp [ends char rfl]

/-- What `%s` reads of a block, up to the first NUL; without one it reads past the end. -/
def readString : List UInt8 → Option (List UInt8)
  | [] => none
  | char :: rest => if char = 0 then some [] else (readString rest).map (char :: ·)

theorem readString_eq (bytes : List UInt8) :
    readString bytes = if 0 ∈ bytes then some (cString bytes) else none := by
  induction bytes with
  | nil => rfl
  | cons char rest ih =>
      by_cases nul : char = 0
      · simp [readString, cString, nul]
      · have kept : (char != 0) = true := bne_iff_ne.mpr nul
        have apart : ¬(0 : UInt8) = char := fun same => nul same.symm
        have whole : cString (char :: rest) = char :: cString rest := by
          simp [cString, kept]
        rw [readString, if_neg nul, ih, whole]
        by_cases ends : (0 : UInt8) ∈ rest <;> simp [ends, apart]

theorem strstr_eq_none_iff (needle haystack : List UInt8) :
    strstr needle haystack = none ↔ ¬needle <:+: haystack := by
  induction haystack with
  | nil => cases needle <;> simp [strstr]
  | cons char rest ih =>
      rw [strstr, List.infix_cons_iff]
      by_cases leading : needle <+: char :: rest
      · simp [List.isPrefixOf_iff_prefix.mpr leading, leading]
      · have notLeading : needle.isPrefixOf (char :: rest) = false := by
          simpa [← List.isPrefixOf_iff_prefix] using leading
        simp [notLeading, leading, ih]

theorem strstr_append (needle rest : List UInt8) :
    strstr needle (needle ++ rest) = some (needle ++ rest) := by
  cases whole : needle ++ rest with
  | nil =>
      have empty : needle = [] := (List.append_eq_nil_iff.mp whole).1
      simp [strstr, empty]
  | cons char remaining =>
      have leading : needle <+: char :: remaining := ⟨rest, whole⟩
      simp [strstr, List.isPrefixOf_iff_prefix.mpr leading]

section Scan

variable {digits : List UInt8}

structure Numeral (digits : List UInt8) : Prop where
  nonempty : digits ≠ []
  decimal : ∀ char ∈ digits, isDigit char = true

theorem numeral_of_all {digits : List UInt8} (nonempty : digits ≠ [])
    (all : digits.all isDigit = true) : Numeral digits :=
  ⟨nonempty, List.all_eq_true.mp all⟩

theorem isDigit_bounds {char : UInt8} (digit : isDigit char = true) :
    48 ≤ char.toNat ∧ char.toNat ≤ 57 := by
  simp only [isDigit, Bool.and_eq_true, decide_eq_true_eq] at digit
  exact ⟨UInt8.le_iff_toNat_le.mp digit.1, UInt8.le_iff_toNat_le.mp digit.2⟩

private theorem digit_plain {char : UInt8} (digit : isDigit char = true) :
    isSpace char = false ∧ char ≠ 45 ∧ char ≠ 43 := by
  have bounds := isDigit_bounds digit
  refine ⟨?_, ?_, ?_⟩
  · simp only [isSpace, Bool.or_eq_false_iff, decide_eq_false_iff_not, Bool.and_eq_false_iff,
      UInt8.le_iff_toNat_le, ← UInt8.toNat_inj]
    exact ⟨by simp; omega, .inr (by simp; omega)⟩
  · rintro rfl
    exact absurd bounds (by decide)
  · rintro rfl
    exact absurd bounds (by decide)

theorem scanInt_numeral (numeral : Numeral digits) (rest : List UInt8)
    (ends : ∀ char ∈ rest.head?, isDigit char = false) :
    scanInt (digits ++ rest) = some ((decimalValue digits : Int), rest) := by
  have taken : (digits ++ rest).takeWhile isDigit = digits := by
    rw [List.takeWhile_append_of_pos numeral.decimal]
    cases rest with
    | nil => simp
    | cons char rest => simp [ends char rfl]
  have dropped : (digits ++ rest).dropWhile isDigit = rest := by
    rw [List.dropWhile_append_of_pos numeral.decimal]
    cases rest with
    | nil => rfl
    | cons char rest => simp [ends char rfl]
  cases digits with
  | nil => exact absurd rfl numeral.nonempty
  | cons char remaining =>
      obtain ⟨unspaced, unsigned, unsignedPlus⟩ :=
        digit_plain (numeral.decimal char List.mem_cons_self)
      have start : ((char :: remaining) ++ rest).dropWhile isSpace = (char :: remaining) ++ rest := by
        simp [unspaced]
      have negative : ((char :: remaining) ++ rest).head? ≠ some 45 := by simpa using unsigned
      have positive : ((char :: remaining) ++ rest).head? ≠ some 43 := by simpa using unsignedPlus
      simp only [scanInt, start, negative, positive, decide_false, Bool.or_false, taken, dropped,
        Bool.false_eq_true, ↓reduceIte, List.isEmpty_cons]

end Scan

end Aesd.CText
