import Aesd.Server.Connection

/-!
# What the receive loop takes from a stream

The loop handles the stream up to its first newline, however it is cut into
chunks. Without the seek keyword, what it appends is exactly that line.
-/

set_option autoImplicit false

namespace Aesd.Server

open CText Driver

/-- A stream through its first newline, or all of it. -/
def lineOf : List UInt8 → List UInt8
  | [] => []
  | byte :: rest => if byte = newline then [newline] else byte :: lineOf rest

theorem lineOf_append (left right : List UInt8) :
    lineOf (left ++ right) =
      if newline ∈ left then lineOf left else left ++ lineOf right := by
  induction left with
  | nil => simp
  | cons byte left ih =>
      by_cases ends : byte = newline
      · simp [lineOf, ends]
      · have apart : ¬newline = byte := fun same => ends same.symm
        simp only [List.cons_append, lineOf, ends, ↓reduceIte, ih, List.mem_cons, apart, false_or]
        split <;> rfl

theorem lineOf_of_notMem {bytes : List UInt8} (absent : newline ∉ bytes) :
    lineOf bytes = bytes := by
  have whole := lineOf_append bytes []
  rwa [if_neg absent, lineOf, List.append_nil] at whole

@[simp] theorem lineOf_line {body rest : List UInt8} (absent : newline ∉ body) :
    lineOf (body ++ newline :: rest) = body ++ [newline] := by
  rw [lineOf_append, if_neg absent, lineOf, if_pos rfl]

theorem newline_mem_lineOf (bytes : List UInt8) : newline ∈ lineOf bytes ↔ newline ∈ bytes := by
  induction bytes with
  | nil => rfl
  | cons byte bytes ih =>
      by_cases ends : byte = newline
      · simp [lineOf, ends]
      · simp [lineOf, ends, ih]

theorem lineOf_leading (bytes : List UInt8) : lineOf bytes <+: bytes := by
  induction bytes with
  | nil => exact List.prefix_rfl
  | cons byte bytes ih =>
      rw [lineOf]
      split
      · next ends =>
          subst ends
          exact ⟨bytes, rfl⟩
      · exact (List.prefix_cons_inj byte).mpr ih

theorem lineOf_eq_nil_iff (bytes : List UInt8) : lineOf bytes = [] ↔ bytes = [] := by
  cases bytes with
  | nil => simp [lineOf]
  | cons byte bytes =>
      rw [lineOf]
      split <;> simp

private theorem findIdx?_of_notMem {bytes : List UInt8} (absent : newline ∉ bytes) :
    bytes.findIdx? (· == newline) = none := by
  rw [List.findIdx?_eq_none_iff]
  intro byte member
  apply beq_eq_false_iff_ne.mpr
  rintro rfl
  exact absent member

private theorem take_two_beyond (body : List UInt8) (first second : UInt8) (rest : List UInt8) :
    (body ++ first :: second :: rest).take (body.length + 2) = body ++ [first, second] := by
  rw [List.take_append, List.take_of_length_le (by omega), Nat.add_sub_cancel_left]
  rfl

theorem extractDataUpToNewline_eq (bytes : List UInt8) :
    extractDataUpToNewline (bytes ++ [0]) bytes.length false =
      (some (lineOf bytes ++ [0]), decide (newline ∈ bytes)) := by
  have received : (bytes ++ [0]).take bytes.length = bytes := List.take_left
  rw [extractDataUpToNewline, received]
  by_cases ends : newline ∈ bytes
  · obtain ⟨body, rest, rfl, absent⟩ := List.eq_append_cons_of_mem ends
    have found : (body ++ newline :: rest).findIdx? (· == newline) = some body.length := by
      simp [List.findIdx?_append, findIdx?_of_notMem absent, List.findIdx?_cons]
    have copied : ((body ++ newline :: rest ++ [0]).take (body.length + 2)).set
        (body.length + 1) 0 = body ++ [newline] ++ [0] := by
      obtain ⟨next, after, beyond⟩ : ∃ next after, rest ++ [0] = next :: after :=
        List.exists_cons_of_ne_nil (by simp)
      rw [List.append_assoc, List.cons_append, beyond, take_two_beyond,
        List.set_append_right _ _ (by omega), Nat.add_sub_cancel_left, List.append_assoc]
      rfl
    simp only [found, Bool.false_eq_true, ↓reduceIte, copied, lineOf_line absent, ends,
      decide_true]
  · have terminated : ((bytes ++ [0]).take (bytes.length + 1)).set bytes.length 0 =
        bytes ++ [0] := by
      rw [List.take_of_length_le (by simp), List.set_append_right _ _ (by omega), Nat.sub_self]
      rfl
    simp only [findIdx?_of_notMem ends, Bool.false_eq_true, ↓reduceIte, terminated,
      lineOf_of_notMem ends, ends, decide_false]

def RecvCall.served (bytes : List UInt8) : RecvCall := ⟨bytes, false⟩

theorem receiveChunk_eq (locals : HandlerLocals) (bytes : List UInt8) :
    receiveChunk locals (.served bytes) =
      some ⟨searchNewString locals (lineOf bytes ++ [0]),
        if (searchNewString locals (lineOf bytes ++ [0])).foundIoctlCmd then none
        else some (cString (lineOf bytes ++ [0])), decide (newline ∈ bytes)⟩ := by
  simp only [receiveChunk, RecvCall.served, extractDataUpToNewline_eq, Option.map_some]

section Plain

/-- Bytes that are text to the end and do not hold the seek keyword. -/
structure Plain (bytes : List UInt8) : Prop where
  nulFree : 0 ∉ bytes
  keywordFree : ¬searchString <:+: bytes

theorem Plain.of_within {bytes part : List UInt8} (plain : Plain bytes) (within : part <:+: bytes) :
    Plain part where
  nulFree := fun member => plain.nulFree (within.subset member)
  keywordFree := fun keyword => plain.keywordFree (keyword.trans within)

theorem searchNewString_plain (locals : HandlerLocals) {bytes : List UInt8} (plain : Plain bytes) :
    cString (bytes ++ [0]) = bytes ∧ searchNewString locals (bytes ++ [0]) = locals := by
  have text : cString (bytes ++ [0]) = bytes := cString_of_nulFree plain.nulFree (by simp)
  refine ⟨text, ?_⟩
  rw [searchNewString, text, (strstr_eq_none_iff _ _).mpr plain.keywordFree]

theorem receiveChunk_plain {locals : HandlerLocals} (unfound : locals.foundIoctlCmd = false)
    {bytes : List UInt8} (plain : Plain (lineOf bytes)) :
    receiveChunk locals (.served bytes) =
      some ⟨locals, some (lineOf bytes), decide (newline ∈ bytes)⟩ := by
  obtain ⟨text, unchanged⟩ := searchNewString_plain locals plain
  rw [receiveChunk_eq, unchanged, text, unfound]
  rfl

/-- However a plain stream is cut, the loop appends its line and nothing else. -/
theorem receiveLoop_plain {locals : HandlerLocals} (unfound : locals.foundIoctlCmd = false)
    (chunks : List (List UInt8)) (plain : Plain (lineOf chunks.flatten)) :
    ∃ appended, receiveLoop locals (chunks.map .served) =
        some ⟨locals, appended, decide (newline ∈ chunks.flatten)⟩ ∧
      appended.flatten = lineOf chunks.flatten := by
  induction chunks with
  | nil => exact ⟨[], rfl, rfl⟩
  | cons chunk chunks ih =>
      rw [List.flatten_cons, lineOf_append] at plain
      by_cases ends : newline ∈ chunk
      · rw [if_pos ends] at plain
        refine ⟨[lineOf chunk], ?_, ?_⟩
        · simp [receiveLoop, receiveChunk_plain unfound plain, ends]
        · simp [lineOf_append, ends]
      · rw [if_neg ends] at plain
        have here : Plain (lineOf chunk) := by
          rw [lineOf_of_notMem ends]
          exact plain.of_within (List.prefix_append _ _).isInfix
        obtain ⟨appended, looped, line⟩ := ih (plain.of_within (List.suffix_append _ _).isInfix)
        refine ⟨chunk :: appended, ?_, ?_⟩
        · simp [receiveLoop, receiveChunk_plain unfound here, ends, looped, lineOf_of_notMem ends]
        · simp [lineOf_append, ends, line]

end Plain

end Aesd.Server
