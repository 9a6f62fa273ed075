import Aesd.Server.SeekLine

/-!
# Which lines are taken as commands

A line is taken as a command as soon as it holds the keyword. Nothing looks at
how many of the two numbers were scanned behind it, so a line with a malformed
tail is lost, and values that were on the stack go to the ioctl in their place.
-/

set_option autoImplicit false

namespace Aesd.Server

open CText Driver

/-- Behind its first keyword the line has a numeral, a comma and a numeral. -/
structure SeekIn (line x y : List UInt8) : Prop where
  first : Numeral x
  second : Numeral y
  place : ∃ after, strstr searchString line =
      some (searchString ++ (x ++ 44 :: (y ++ after))) ∧
    ∀ char ∈ after.head?, isDigit char = false

/-- A handler takes a line for a command, with the numbers it gives, if it gives
two, and appends every other line unchanged. The line comes first in one chunk;
the two numbers start as anything. -/
structure TakesOnlySeeks (line rest : List UInt8) : Prop where
  seek : ∀ x y, SeekIn line x y → ∀ writeCmd writeCmdOffset calls, ∃ locals,
    receiveLoop (.start writeCmd writeCmdOffset) (.served (line ++ rest) :: calls) =
      some ⟨locals, [], true⟩ ∧ locals.foundIoctlCmd = true ∧
    locals.writeCmd.toNat = decimalValue x ∧ locals.writeCmdOffset.toNat = decimalValue y
  data : (¬∃ x y, SeekIn line x y) → ∀ writeCmd writeCmdOffset calls, ∃ locals,
    receiveLoop (.start writeCmd writeCmdOffset) (.served (line ++ rest) :: calls) =
      some ⟨locals, [line], true⟩ ∧ locals.foundIoctlCmd = false

theorem strstr_isInfix {needle haystack found : List UInt8}
    (occurs : strstr needle haystack = some found) : needle <:+: haystack := by
  by_contra absent
  cases ((strstr_eq_none_iff _ _).mpr absent).symm.trans occurs

theorem SeekIn.scanned {line x y : List UInt8} (seek : SeekIn line x y) : ∃ tail,
    strstr searchString line = some (searchString ++ tail) ∧
    ∃ digits rest, scanInt tail = some ((decimalValue x : Int), 44 :: digits) ∧
      scanInt digits = some ((decimalValue y : Int), rest) := by
  obtain ⟨after, occurs, ends⟩ := seek.place
  have comma : ∀ char ∈ (44 :: (y ++ after)).head?, isDigit char = false := by
    intro char head
    cases head
    rfl
  exact ⟨_, occurs, _, after, scanInt_numeral seek.first _ comma,
    scanInt_numeral seek.second after ends⟩

/-- A line gives at most one pair of values. -/
theorem SeekIn.unique {line x y otherX otherY : List UInt8} (seek : SeekIn line x y)
    (other : SeekIn line otherX otherY) :
    decimalValue otherX = decimalValue x ∧ decimalValue otherY = decimalValue y := by
  obtain ⟨tail, occurs, digits, rest, scannedX, scannedY⟩ := seek.scanned
  obtain ⟨otherTail, otherOccurs, otherDigits, otherRest, otherScannedX, otherScannedY⟩ :=
    other.scanned
  have same := Option.some.inj (occurs.symm.trans otherOccurs)
  cases List.append_cancel_left same
  have pair := Option.some.inj (scannedX.symm.trans otherScannedX)
  simp only [Prod.mk.injEq, Int.natCast_inj, List.cons.injEq, true_and] at pair
  obtain ⟨sameX, rfl⟩ := pair
  have last := Option.some.inj (scannedY.symm.trans otherScannedY)
  simp only [Prod.mk.injEq, Int.natCast_inj] at last
  exact ⟨sameX.symm, last.1.symm⟩

section Line

variable {body rest : List UInt8}

theorem cString_line (nulFree : 0 ∉ body) :
    cString (body ++ [newline] ++ [0]) = body ++ [newline] := by
  apply cString_of_nulFree _ (by simp)
  rw [List.mem_append, not_or]
  exact ⟨nulFree, by decide⟩

/-- The handler is done after the chunk of a line; what it searches is the line. -/
theorem receiveLoop_line (ended : newline ∉ body) (nulFree : 0 ∉ body) (locals : HandlerLocals)
    (calls : List RecvCall) :
    receiveLoop locals (.served (body ++ [newline] ++ rest) :: calls) =
      some ⟨searchNewString locals (body ++ [newline] ++ [0]),
        if (searchNewString locals (body ++ [newline] ++ [0])).foundIoctlCmd then []
        else [body ++ [newline]], true⟩ := by
  have line : lineOf (body ++ [newline] ++ rest) = body ++ [newline] := by
    rw [List.append_assoc]
    exact lineOf_line ended
  have newLineFound : newline ∈ body ++ [newline] ++ rest := by simp
  simp only [receiveLoop, receiveChunk_eq, line, newLineFound, decide_true, ↓reduceIte,
    cString_line nulFree]
  split <;> rfl

theorem searchNewString_keyword_absent (nulFree : 0 ∉ body)
    (absent : ¬searchString <:+: body ++ [newline]) (locals : HandlerLocals) :
    searchNewString locals (body ++ [newline] ++ [0]) = locals := by
  rw [searchNewString, cString_line nulFree, (strstr_eq_none_iff _ _).mpr absent]

theorem searchNewString_keyword_present (nulFree : 0 ∉ body)
    (keyword : searchString <:+: body ++ [newline]) (locals : HandlerLocals) :
    (searchNewString locals (body ++ [newline] ++ [0])).foundIoctlCmd = true := by
  rw [searchNewString, cString_line nulFree]
  cases occurs : strstr searchString (body ++ [newline]) with
  | none => exact absurd keyword ((strstr_eq_none_iff _ _).mp occurs)
  | some found => rfl

theorem searchNewString_seekIn (nulFree : 0 ∉ body) {x y : List UInt8}
    (seek : SeekIn (body ++ [newline]) x y) (locals : HandlerLocals) :
    searchNewString locals (body ++ [newline] ++ [0]) =
      ⟨true, storeInt (decimalValue x), storeInt (decimalValue y)⟩ := by
  obtain ⟨tail, occurs, digits, after, scannedX, scannedY⟩ := seek.scanned
  rw [searchNewString, cString_line nulFree, occurs]
  simp only [List.drop_left, sscanfPair, scannedX, scannedY]

end Line

/-- A line that comes in one chunk is handled as it should be exactly when it
does not hold the keyword, or its first keyword has two numbers of 32 bits. -/
theorem seek_lines_recognised_iff {body rest : List UInt8} (ended : newline ∉ body)
    (nulFree : 0 ∉ body) :
    TakesOnlySeeks (body ++ [newline]) rest ↔ ¬searchString <:+: body ++ [newline] ∨
      ∃ x y, SeekIn (body ++ [newline]) x y ∧ decimalValue x < 2 ^ 32 ∧
        decimalValue y < 2 ^ 32 := by
  constructor
  · intro takes
    by_cases keyword : searchString <:+: body ++ [newline]
    · right
      by_cases given : ∃ x y, SeekIn (body ++ [newline]) x y
      · obtain ⟨x, y, seek⟩ := given
        obtain ⟨locals, _, _, command, offset⟩ := takes.seek x y seek 0 0 []
        refine ⟨x, y, seek, ?_, ?_⟩
        · rw [← command]
          exact locals.writeCmd.isLt
        · rw [← offset]
          exact locals.writeCmdOffset.isLt
      · -- The flag is set by the keyword alone, so the line is not appended.
        obtain ⟨locals, looped, unfound⟩ := takes.data given 0 0 []
        have found := searchNewString_keyword_present nulFree keyword (.start 0 0)
        rw [receiveLoop_line ended nulFree] at looped
        injection looped with same
        injection same with searched
        rw [searched, unfound] at found
        cases found
    · exact .inl keyword
  · intro condition
    rcases condition with absent | ⟨x, y, seek, smallX, smallY⟩
    · have none_ : ¬∃ x y, SeekIn (body ++ [newline]) x y := by
        intro given
        obtain ⟨x, y, seek⟩ := given
        obtain ⟨tail, occurs, _⟩ := seek.scanned
        exact absent (strstr_isInfix occurs)
      refine ⟨fun x y seek => absurd ⟨x, y, seek⟩ none_, ?_⟩
      intro _ writeCmd writeCmdOffset calls
      refine ⟨.start writeCmd writeCmdOffset, ?_, rfl⟩
      rw [receiveLoop_line ended nulFree, searchNewString_keyword_absent nulFree absent]
      rfl
    · refine ⟨?_, fun none_ => absurd ⟨x, y, seek⟩ none_⟩
      intro otherX otherY other writeCmd writeCmdOffset calls
      obtain ⟨sameX, sameY⟩ := seek.unique other
      refine ⟨⟨true, storeInt (decimalValue x), storeInt (decimalValue y)⟩, ?_, rfl, ?_, ?_⟩
      · rw [receiveLoop_line ended nulFree, searchNewString_seekIn nulFree seek]
        rfl
      · rw [sameX]
        exact storeInt_toNat smallX
      · rw [sameY]
        exact storeInt_toNat smallY

theorem seek_lines_recognised_iff_one_two :
    TakesOnlySeeks (searchString ++ [49, 44, 50] ++ [newline]) [] ↔
      ¬searchString <:+: searchString ++ [49, 44, 50] ++ [newline] ∨
      ∃ x y, SeekIn (searchString ++ [49, 44, 50] ++ [newline]) x y ∧
        decimalValue x < 2 ^ 32 ∧ decimalValue y < 2 ^ 32 :=
  seek_lines_recognised_iff (by decide) (by decide)

/-- The keyword with nothing behind it: the line is not appended, and the two
numbers that were on the stack go to the ioctl. -/
theorem seek_line_without_numbers_taken :
    receiveLoop (.start 7 9) [.served (searchString ++ [newline])] =
      some ⟨⟨true, 7, 9⟩, [], true⟩ ∧
    (∀ stack, (seekIoctl ⟨true, 7, 9⟩ stack).user = encodeSeekto 7 9) ∧
    ¬TakesOnlySeeks (searchString ++ [newline]) [] := by
  have taken : receiveLoop (.start 7 9) [.served (searchString ++ [newline])] =
    some ⟨⟨true, 7, 9⟩, [], true⟩ := by decide
  refine ⟨taken, fun _ => rfl, ?_⟩
  intro takes
  have none_ : ¬∃ x y, SeekIn (searchString ++ [newline]) x y := by
    intro given
    obtain ⟨x, y, seek⟩ := given
    obtain ⟨after, occurs, _⟩ := seek.place
    rw [strstr_append] at occurs
    have tail := congrArg List.length (List.append_cancel_left (Option.some.inj occurs))
    simp only [List.length_append, List.length_cons, List.length_nil] at tail
    have digits := List.length_pos_of_ne_nil seek.first.nonempty
    omega
  obtain ⟨locals, looped, _⟩ := takes.data none_ 7 9 []
  rw [List.append_nil] at looped
  cases taken.symm.trans looped

end Aesd.Server
