import Aesd.Server.DataLine
import Aesd.Server.SeekLine

/-!
# Seek lines cut into chunks

The keyword is searched in each chunk by itself and the numbers are scanned in
the chunk that holds it, so the first chunk alone decides what is recognised.
-/

set_option autoImplicit false

namespace Aesd.Server

open CText Driver

/-- A chunk that does not go past a final newline is handled whole. -/
theorem lineOf_of_cut {chunk rest body : List UInt8} (absent : newline ∉ body)
    (cut : chunk ++ rest = body ++ [newline]) : lineOf chunk = chunk := by
  rcases List.append_eq_append_iff.mp cut with ⟨left, rfl, _⟩ | ⟨surplus, rfl, final⟩
  · exact lineOf_of_notMem fun member => absent (List.mem_append_left _ member)
  · rcases List.singleton_eq_append_iff.mp final with ⟨rfl, _⟩ | ⟨rfl, _⟩
    · rw [List.append_nil]
      exact lineOf_of_notMem absent
    · exact lineOf_line absent

section Scan

variable {x y chunk rest : List UInt8}

theorem numeral_of_subset {digits part : List UInt8} (numeral : Numeral digits)
    (within : part ⊆ digits) (nonempty : part ≠ []) : Numeral part :=
  ⟨nonempty, fun char member => numeral.decimal char (within member)⟩

theorem sscanfPair_first (first : Numeral x) (part : List UInt8) (within : part ⊆ x)
    (writeCmd writeCmdOffset : BitVec 32) :
    (sscanfPair part writeCmd writeCmdOffset).2 = writeCmdOffset ∧
      (sscanfPair (x ++ [44]) writeCmd writeCmdOffset).2 = writeCmdOffset := by
  constructor
  · by_cases empty : part = []
    · subst empty
      rfl
    · have scanned := scanInt_numeral (numeral_of_subset first within empty) [] (by simp)
      rw [List.append_nil] at scanned
      rw [sscanfPair, scanned]
  · have scanned := scanInt_numeral first [44] (by simp [isDigit])
    rw [sscanfPair, scanned]
    rfl

/-- What is scanned behind the keyword, when the chunk may end anywhere. -/
theorem sscanfPair_cut (first : Numeral x) (second : Numeral y)
    (cut : chunk ++ rest = x ++ 44 :: (y ++ [newline])) (writeCmd writeCmdOffset : BitVec 32) :
    (y.take (chunk.length - (x.length + 1)) = [] →
      (sscanfPair chunk writeCmd writeCmdOffset).2 = writeCmdOffset) ∧
    (y.take (chunk.length - (x.length + 1)) ≠ [] →
      sscanfPair chunk writeCmd writeCmdOffset = (storeInt (decimalValue x),
        storeInt (decimalValue (y.take (chunk.length - (x.length + 1)))))) := by
  rcases List.append_eq_append_iff.mp cut with ⟨left, whole, _⟩ | ⟨surplus, whole, remaining⟩
  · have short : chunk.length - (x.length + 1) = 0 := by
      have size := congrArg List.length whole
      rw [List.length_append] at size
      omega
    rw [short, List.take_zero]
    have within : chunk ⊆ x := by
      rw [whole]
      exact List.subset_append_left _ _
    exact ⟨fun _ => (sscanfPair_first first chunk within _ _).1, fun some_ => absurd rfl some_⟩
  · cases surplus with
    | nil =>
        have same : chunk = x := by rw [whole, List.append_nil]
        subst same
        have none_ : chunk.length - (chunk.length + 1) = 0 := by omega
        rw [none_, List.take_zero]
        exact ⟨fun _ => (sscanfPair_first first chunk (List.Subset.refl _) _ _).1,
          fun some_ => absurd rfl some_⟩
    | cons comma digits =>
        simp only [List.cons_append, List.cons.injEq] at remaining
        obtain ⟨rfl, remaining⟩ := remaining
        subst whole
        have size : (x ++ 44 :: digits).length - (x.length + 1) = digits.length := by
          simp only [List.length_append, List.length_cons]
          omega
        rw [size]
        rcases List.append_eq_append_iff.mp remaining.symm with ⟨left, rfl, _⟩ | ⟨surplus, rfl, final⟩
        · rw [List.take_left]
          refine ⟨?_, fun some_ => ?_⟩
          · rintro rfl
            exact (sscanfPair_first first [] (List.nil_subset _) _ _).2
          · have part := numeral_of_subset second (List.subset_append_left digits left) some_
            have scanned := sscanfPair_numerals first part [] (by simp) writeCmd writeCmdOffset
            rwa [List.append_nil] at scanned
        · rw [List.take_of_length_le (by simp)]
          refine ⟨fun none_ => absurd none_ second.nonempty, fun _ => ?_⟩
          refine sscanfPair_numerals first second surplus ?_ writeCmd writeCmdOffset
          rcases List.singleton_eq_append_iff.mp final with ⟨rfl, _⟩ | ⟨rfl, _⟩
          · simp
          · simp [isDigit, newline]

end Scan

section Loop

variable {chunk rest x y : List UInt8}

theorem searchNewString_of_notMem (locals : HandlerLocals) {newString : List UInt8}
    (absent : 65 ∉ newString) : searchNewString locals newString = locals := by
  have text : cString newString <+: newString := List.takeWhile_prefix _
  have unmatched : ¬searchString <:+: cString newString := fun keyword =>
    absent (text.subset (keyword.subset List.mem_cons_self))
  rw [searchNewString, (strstr_eq_none_iff _ _).mpr unmatched]

theorem receiveLoop_found {locals : HandlerLocals} (found : locals.foundIoctlCmd = true)
    (chunks : List (List UInt8)) (absent : 65 ∉ chunks.flatten) :
    receiveLoop locals (chunks.map .served) =
      some ⟨locals, [], decide (newline ∈ chunks.flatten)⟩ := by
  induction chunks with
  | nil => rfl
  | cons chunk chunks ih =>
      rw [List.flatten_cons, List.mem_append, not_or] at absent
      have unchanged : searchNewString locals (lineOf chunk ++ [0]) = locals := by
        apply searchNewString_of_notMem locals
        rw [List.mem_append, not_or]
        exact ⟨fun member => absent.1 ((lineOf_leading chunk).subset member), by decide⟩
      rw [List.map_cons, receiveLoop, receiveChunk_eq, unchanged, found]
      by_cases ends : newline ∈ chunk
      · simp [ends]
      · simp [ends, ih absent.2]

theorem receiveLoop_inside_keyword {locals : HandlerLocals}
    (unfound : locals.foundIoctlCmd = false) {left : List UInt8}
    (keyword : searchString = chunk ++ left) (short : left ≠ []) {chunks : List (List UInt8)}
    {result : LoopResult}
    (looped : receiveLoop locals ((chunk :: chunks).map .served) = some result) :
    ∃ later, result.appended = chunk :: later := by
  have absent : newline ∉ chunk := fun member =>
    searchString_text.2 (keyword ▸ List.mem_append_left _ member)
  have plain : Plain (lineOf chunk) := by
    rw [lineOf_of_notMem absent]
    refine ⟨fun member => searchString_text.1 (keyword ▸ List.mem_append_left _ member), ?_⟩
    intro within
    have size := within.length_le
    rw [keyword, List.length_append] at size
    exact short (List.eq_nil_of_length_eq_zero (by omega))
  rw [List.map_cons, receiveLoop, receiveChunk_plain unfound plain, lineOf_of_notMem absent] at looped
  simp only [absent, decide_false, Bool.false_eq_true, ↓reduceIte, Option.toList_some,
    Option.map_eq_some_iff] at looped
  obtain ⟨later, _, rfl⟩ := looped
  exact ⟨later.appended, rfl⟩

/-- A first chunk with the whole keyword fixes what the handler ends with. -/
theorem receiveLoop_keyword (locals : HandlerLocals) (first : Numeral x) (second : Numeral y)
    {chunks : List (List UInt8)}
    (cut : chunk ++ chunks.flatten = x ++ 44 :: (y ++ [newline])) :
    receiveLoop locals (((searchString ++ chunk) :: chunks).map .served) =
      some ⟨⟨true, (sscanfPair chunk locals.writeCmd locals.writeCmdOffset).1,
        (sscanfPair chunk locals.writeCmd locals.writeCmdOffset).2⟩, [], true⟩ := by
  have apart : ∀ char : UInt8, char ∈ chunk ++ chunks.flatten → char ≠ 0 ∧ char ≠ 65 := by
    intro char member
    rw [cut] at member
    simp only [List.mem_append, List.mem_cons, List.not_mem_nil, or_false] at member
    have digits : isDigit char = true → char ≠ 0 ∧ char ≠ 65 := by
      intro digit
      refine ⟨?_, ?_⟩ <;> rintro rfl <;> exact absurd digit (by decide)
    rcases member with inFirst | rfl | inSecond | rfl
    · exact digits (first.decimal char inFirst)
    · decide
    · exact digits (second.decimal char inSecond)
    · decide
  have absent : newline ∉ x ++ 44 :: y := by
    simp only [List.mem_append, List.mem_cons, not_or]
    exact ⟨(numeral_text first).2, by decide, (numeral_text second).2⟩
  have shape : x ++ 44 :: (y ++ [newline]) = (x ++ 44 :: y) ++ [newline] := by simp
  have whole : lineOf (searchString ++ chunk) = searchString ++ chunk := by
    rw [lineOf_append, if_neg searchString_text.2, lineOf_of_cut absent (cut.trans shape)]
  have searched := searchNewString_keyword locals
    (fun member : (0 : UInt8) ∈ chunk => (apart 0 (List.mem_append_left _ member)).1 rfl)
  rw [List.map_cons, receiveLoop, receiveChunk_eq, whole, searched]
  by_cases ends : newline ∈ searchString ++ chunk
  · simp [ends]
  · have later : newline ∈ chunks.flatten := by
      have through : newline ∈ chunk ++ chunks.flatten := by simp [cut]
      rcases List.mem_append.mp through with here | later
      · exact absurd (List.mem_append_right _ here) ends
      · exact later
    have found : (⟨true, (sscanfPair chunk locals.writeCmd locals.writeCmdOffset).1,
        (sscanfPair chunk locals.writeCmd locals.writeCmdOffset).2⟩ :
          HandlerLocals).foundIoctlCmd = true := rfl
    have rest := receiveLoop_found found chunks
      fun member => (apart 65 (List.mem_append_right _ member)).2 rfl
    simp [ends, rest, later]

end Loop

def offsetDigits (x y : List UInt8) : List (List UInt8) → List UInt8
  | [] => []
  | chunk :: _ => y.take (chunk.length - (searchString.length + x.length + 1))

/-- Two ways of receiving a line append nothing and leave the same locals,
whatever the uninitialised ones held before. -/
def SameEffect (chunks others : List (List UInt8)) : Prop :=
  ∀ writeCmd writeCmdOffset otherCmd otherCmdOffset, ∃ locals appended otherAppended,
    receiveLoop (.start writeCmd writeCmdOffset) (chunks.map .served) =
      some ⟨locals, appended, true⟩ ∧
    receiveLoop (.start otherCmd otherCmdOffset) (others.map .served) =
      some ⟨locals, otherAppended, true⟩ ∧
    appended.flatten = [] ∧ otherAppended.flatten = []

theorem SameEffect.symm {chunks others : List (List UInt8)} (same : SameEffect chunks others) :
    SameEffect others chunks := by
  intro writeCmd writeCmdOffset otherCmd otherCmdOffset
  obtain ⟨locals, appended, otherAppended, one, two, nothing, otherNothing⟩ :=
    same otherCmd otherCmdOffset writeCmd writeCmdOffset
  exact ⟨locals, otherAppended, appended, two, one, otherNothing, nothing⟩

/-- If nothing is appended, the second number stays what the stack held. -/
def LeftToChance (chunks : List (List UInt8)) : Prop :=
  ∀ writeCmd writeCmdOffset result,
    receiveLoop (.start writeCmd writeCmdOffset) (chunks.map .served) = some result →
    result.appended.flatten = [] → result.locals.writeCmdOffset = writeCmdOffset

def SetsNumbers (chunks : List (List UInt8)) (x y : List UInt8) : Prop :=
  ∀ writeCmd writeCmdOffset,
    receiveLoop (.start writeCmd writeCmdOffset) (chunks.map .served) =
      some ⟨⟨true, storeInt (decimalValue x), storeInt (decimalValue y)⟩, [], true⟩

section Splits

variable {x y chunk : List UInt8} {chunks others : List (List UInt8)}

private theorem leftToChance_inside_keyword {left : List UInt8} (filled : chunk ≠ [])
    (keyword : searchString = chunk ++ left) (short : left ≠ []) :
    offsetDigits x y (chunk :: chunks) = [] ∧ LeftToChance (chunk :: chunks) := by
  constructor
  · have size := congrArg List.length keyword
    rw [List.length_append] at size
    have zero : chunk.length - (searchString.length + x.length + 1) = 0 := by omega
    rw [offsetDigits, zero, List.take_zero]
  · intro writeCmd writeCmdOffset result looped nothing
    obtain ⟨later, appended⟩ := receiveLoop_inside_keyword rfl keyword short looped
    rw [appended, List.flatten_cons, List.append_eq_nil_iff] at nothing
    exact absurd nothing.1 filled

private theorem cases_behind_keyword (first : Numeral x) (second : Numeral y)
    (cut : chunk ++ chunks.flatten = x ++ 44 :: (y ++ [newline])) :
    (offsetDigits x y ((searchString ++ chunk) :: chunks) = [] ∧
      LeftToChance ((searchString ++ chunk) :: chunks)) ∨
    (offsetDigits x y ((searchString ++ chunk) :: chunks) ≠ [] ∧
      SetsNumbers ((searchString ++ chunk) :: chunks) x
        (offsetDigits x y ((searchString ++ chunk) :: chunks))) := by
  have digits : offsetDigits x y ((searchString ++ chunk) :: chunks) =
      y.take (chunk.length - (x.length + 1)) := by
    rw [offsetDigits, List.length_append, Nat.add_assoc, Nat.add_sub_add_left]
  rw [digits]
  by_cases empty : y.take (chunk.length - (x.length + 1)) = []
  · refine .inl ⟨empty, ?_⟩
    intro writeCmd writeCmdOffset result looped _
    rw [receiveLoop_keyword _ first second cut] at looped
    cases looped
    exact (sscanfPair_cut first second cut writeCmd writeCmdOffset).1 empty
  · refine .inr ⟨empty, ?_⟩
    intro writeCmd writeCmdOffset
    have scanned := (sscanfPair_cut first second cut writeCmd writeCmdOffset).2 empty
    rw [receiveLoop_keyword _ first second cut]
    simp only [HandlerLocals.start, scanned]

/-- Short of a digit of the second number, a split appends part of the line or
leaves the second number to chance; from there on it sets both numbers. -/
theorem Splits.seek_cases (first : Numeral x) (second : Numeral y)
    (splits : Splits chunks (seekLine x y)) :
    (offsetDigits x y chunks = [] ∧ LeftToChance chunks) ∨
    (offsetDigits x y chunks ≠ [] ∧ SetsNumbers chunks x (offsetDigits x y chunks)) := by
  obtain ⟨whole, sizes⟩ := splits
  cases chunks with
  | nil => simp [seekLine, searchString] at whole
  | cons chunk chunks =>
      have filled : chunk ≠ [] :=
        List.ne_nil_of_length_pos (sizes chunk List.mem_cons_self)
      rw [List.flatten_cons, seekLine] at whole
      rcases List.append_eq_append_iff.mp whole with
        ⟨left, keyword, remaining⟩ | ⟨surplus, rfl, remaining⟩
      · by_cases short : left = []
        · subst short
          have same : chunk = searchString ++ [] := by simpa using keyword.symm
          subst same
          exact cases_behind_keyword first second (by simpa using remaining)
        · exact .inl (leftToChance_inside_keyword filled keyword short)
      · exact cases_behind_keyword first second remaining.symm

theorem SameEffect.not_left_to_chance (same : SameEffect chunks others)
    (chance : LeftToChance chunks) : False := by
  obtain ⟨zero, _, _, zeroLoop, zeroOther, zeroNothing, _⟩ := same 0 0 0 0
  obtain ⟨one, _, _, oneLoop, oneOther, oneNothing, _⟩ := same 0 1 0 0
  have zeroLeft := chance 0 0 _ zeroLoop zeroNothing
  have oneLeft := chance 0 1 _ oneLoop oneNothing
  have agree : zero = one := by
    cases zeroOther.symm.trans oneOther
    rfl
  subst agree
  exact absurd (zeroLeft.symm.trans oneLeft) (by decide)

/-- Two splits of a seek line have the same effect exactly when both first chunks
reach a digit of the second number and what they hold of it is the same number. -/
theorem seek_splits_same_effect_iff (first : Numeral x) (second : Numeral y)
    (splits : Splits chunks (seekLine x y)) (otherSplits : Splits others (seekLine x y)) :
    SameEffect chunks others ↔
      offsetDigits x y chunks ≠ [] ∧ offsetDigits x y others ≠ [] ∧
      storeInt (decimalValue (offsetDigits x y chunks)) =
        storeInt (decimalValue (offsetDigits x y others)) := by
  constructor
  · intro same
    rcases splits.seek_cases first second with ⟨_, chance⟩ | ⟨reached, looped⟩
    · exact (same.not_left_to_chance chance).elim
    · rcases otherSplits.seek_cases first second with ⟨_, chance⟩ | ⟨otherReached, otherLooped⟩
      · exact (same.symm.not_left_to_chance chance).elim
      · obtain ⟨locals, _, _, one, two, _⟩ := same 0 0 0 0
        rw [looped 0 0] at one
        rw [otherLooped 0 0] at two
        cases one
        simp only [Option.some.injEq, LoopResult.mk.injEq, HandlerLocals.mk.injEq] at two
        exact ⟨reached, otherReached, two.1.2.2.symm⟩
  · rintro ⟨reached, otherReached, agree⟩
    rcases splits.seek_cases first second with ⟨none_, _⟩ | ⟨_, looped⟩
    · exact absurd none_ reached
    · rcases otherSplits.seek_cases first second with ⟨none_, _⟩ | ⟨_, otherLooped⟩
      · exact absurd none_ otherReached
      · intro writeCmd writeCmdOffset otherCmd otherCmdOffset
        exact ⟨_, _, _, looped _ _, by rw [otherLooped, agree], rfl, rfl⟩

end Splits

theorem seek_splits_same_effect_iff_zeros :
    SameEffect [seekLine [49] [48, 48]] [searchString ++ [49, 44, 48], [48, newline]] :=
  (seek_splits_same_effect_iff (x := [49]) (y := [48, 48]) (numeral_of_all (by decide) rfl)
    (numeral_of_all (by decide) rfl) ⟨by decide, by decide⟩ ⟨by decide, by decide⟩).mpr
    ⟨by decide, by decide, by decide⟩

/-- A cut inside the keyword: the line is appended to the device instead. -/
theorem seek_cut_inside_keyword :
    Splits [searchString.take 9, searchString.drop 9 ++ [48, 44, 48, newline]]
      (seekLine [48] [48]) ∧
    receiveLoop (.start 0 0) ([seekLine [48] [48]].map .served) = some ⟨⟨true, 0, 0⟩, [], true⟩ ∧
    receiveLoop (.start 0 0)
        ([searchString.take 9, searchString.drop 9 ++ [48, 44, 48, newline]].map .served) =
      some ⟨⟨false, 0, 0⟩,
        [searchString.take 9, searchString.drop 9 ++ [48, 44, 48, newline]], true⟩ ∧
    ¬SameEffect [seekLine [48] [48]]
      [searchString.take 9, searchString.drop 9 ++ [48, 44, 48, newline]] := by
  have looped : receiveLoop (.start 0 0)
      ([searchString.take 9, searchString.drop 9 ++ [48, 44, 48, newline]].map .served) =
      some ⟨⟨false, 0, 0⟩,
        [searchString.take 9, searchString.drop 9 ++ [48, 44, 48, newline]], true⟩ := by
    decide +kernel
  refine ⟨⟨by decide, by decide⟩, by decide +kernel, looped, ?_⟩
  intro same
  obtain ⟨locals, appended, otherAppended, _, two, _, nothing⟩ := same 0 0 0 0
  cases looped.symm.trans two
  exact absurd nothing (by decide)

end Aesd.Server
