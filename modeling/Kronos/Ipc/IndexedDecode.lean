import Kronos.IndexedHex
import Kronos.Ipc.MessageSyntax

/-!
# Decoding with its indices

The loops of `decode_message` as the source has them, on positions in the line
and in the vector of fields. On every line they come to an end with all accesses
within range, and do what the decoder on lists does.
-/

set_option autoImplicit false

namespace Kronos.Ipc

open Ranged

/-- `back()` of a line that is not empty, and `remove_suffix(1)`. -/
def removeSuffixIndexed (byte : UInt8) (line : Bytes) : Checked Bytes Bytes :=
  if line = [] then return line
  else do
    let last ← fetch line (line.length - 1)
    if last = byte then return line.take (line.length - 1) else return line

/-- `value.find('\t', begin)` -/
def findTab (value : Bytes) (start : Nat) : Option Nat :=
  ((value.drop start).findIdx? (· = tab)).map (start + ·)

theorem findTab_eq_some {value : Bytes} {start stop : Nat} (found : findTab value start = some stop) :
    start ≤ stop ∧ stop < value.length := by
  obtain ⟨offset, inside, rfl⟩ := Option.map_eq_some_iff.mp found
  have bound := (List.findIdx?_eq_some_iff_findIdx_eq.mp inside).1
  rw [List.length_drop] at bound
  omega

/-- The loop of `split_tabs`. -/
def splitTabsFrom (value : Bytes) (start : Nat) (fields : List Bytes) :
    Checked Bytes (List Bytes) :=
  match _ : findTab value start with
  | none => do
      let last ← substr value start
      return fields ++ [last]
  | some stop => do
      let rest ← substr value start
      splitTabsFrom value (stop + 1) (fields ++ [rest.take (stop - start)])
termination_by value.length - start
decreasing_by
  have bounds := findTab_eq_some ‹_›
  omega

/-- The loop of `hex_decode`. -/
def hexDecodeFrom (value : Bytes) (index : Nat) (decoded : Bytes) : Checked Bytes Bytes :=
  hexDecodeLoop (text "protocol field has invalid hex encoding") value index decoded

def hexDecodeIndexed (value : Bytes) : Checked Bytes Bytes :=
  if value.length % 2 ≠ 0 then throw (text "protocol field has odd-length hex encoding")
  else hexDecodeFrom value 0 []

/-- The loop over the fields from a position on. -/
def decodeFieldsFrom (fields : List Bytes) (index : Nat) (decoded : List Bytes) :
    Checked Bytes (List Bytes) :=
  if index < fields.length then do
    let field ← fetch fields index
    let value ← hexDecodeIndexed field
    decodeFieldsFrom fields (index + 1) (decoded ++ [value])
  else return decoded
termination_by fields.length - index

def decodeMessageIndexed (encodedLine : Bytes) : Checked Bytes ProtocolMessage := do
  let unfed ← removeSuffixIndexed newline encodedLine
  let line ← removeSuffixIndexed carriageReturn unfed
  let fields ← splitTabsFrom line 0 []
  if fields.length < 3 then throw (text "invalid IPC protocol message")
  if (← fetch fields 0) ≠ protocolVersion then throw (text "invalid IPC protocol message")
  if (← fetch fields 2) = [] then throw (text "invalid IPC protocol message")
  match fromCharsUInt64 (← fetch fields 1) with
  | none => throw (text "invalid IPC request ID")
  | some requestId =>
      let kind ← fetch fields 2
      let decoded ← decodeFieldsFrom fields 3 []
      return ⟨requestId, kind, decoded⟩

/-! ## All accesses are within range -/

theorem removeSuffixIndexed_eq (byte : UInt8) (line : Bytes) :
    removeSuffixIndexed byte line = pure (removeSuffix byte line) := by
  rw [removeSuffixIndexed, removeSuffix]
  split
  · next empty =>
      rw [empty]
      rfl
  · next nonempty =>
      obtain ⟨value, found⟩ : ∃ value, line.getLast? = some value :=
        Option.ne_none_iff_exists'.mp fun none => nonempty (List.getLast?_eq_none_iff.mp none)
      have last := found
      rw [List.getLast?_eq_getElem?] at last
      rw [fetch_eq_pure last, pure_bind, found]
      by_cases ends : value = byte
      · rw [if_pos ends, if_pos (congrArg some ends), List.dropLast_eq_take]
      · rw [if_neg ends, if_neg fun same => ends (Option.some.inj same)]

theorem findTab_append {before part rest : Bytes} (clean : tab ∉ part) :
    findTab (before ++ (part ++ tab :: rest)) before.length = some (before.length + part.length) := by
  have found : (part ++ tab :: rest).findIdx? (· = tab) = some part.length := by
    apply Separated.findIdx?_append_cons
    · intro byte inside
      exact decide_eq_false (ne_of_mem_of_not_mem inside clean)
    · exact decide_eq_true rfl
  rw [findTab, List.drop_left, found]
  rfl

theorem findTab_none {before part : Bytes} (clean : tab ∉ part) :
    findTab (before ++ part) before.length = none := by
  rw [findTab, List.drop_left, Option.map_eq_none_iff, List.findIdx?_eq_none_iff]
  intro byte inside
  exact decide_eq_false (ne_of_mem_of_not_mem inside clean)

/-- The loop takes the parts of the value one by one. -/
theorem splitTabsFrom_eq {lines : List Bytes} (clean : ∀ line ∈ lines, tab ∉ line) {rest : Bytes}
    (restClean : tab ∉ rest) (before : Bytes) (fields : List Bytes) :
    splitTabsFrom (before ++ (Separated.terminated tab lines ++ rest)) before.length fields =
      pure (fields ++ (lines ++ [rest])) := by
  induction lines generalizing before fields with
  | nil =>
      rw [splitTabsFrom]
      split
      · rw [substr_eq_pure (by simp), pure_bind]
        simp
      · next found =>
          rw [Separated.terminated_nil, List.nil_append, findTab_none restClean] at found
          cases found
  | cons line lines ih =>
      rw [List.forall_mem_cons] at clean
      have shape : before ++ (Separated.terminated tab (line :: lines) ++ rest) =
          before ++ (line ++ tab :: (Separated.terminated tab lines ++ rest)) := by
        simp
      have onward : before ++ (line ++ tab :: (Separated.terminated tab lines ++ rest)) =
          (before ++ line ++ [tab]) ++ (Separated.terminated tab lines ++ rest) := by
        simp
      have position : before.length + line.length + 1 = (before ++ line ++ [tab]).length := by
        simp [Nat.add_assoc]
      rw [shape, splitTabsFrom]
      split
      · next missing =>
          rw [findTab_append clean.1] at missing
          cases missing
      · next stop found =>
          rw [findTab_append clean.1] at found
          cases found
          rw [substr_eq_pure (by simp), pure_bind, List.drop_left, Nat.add_sub_cancel_left,
            List.take_left, position, onward, ih clean.2]
          simp

theorem splitTabsFrom_zero (value : Bytes) : splitTabsFrom value 0 [] = pure (splitTabs value) := by
  obtain ⟨lines, rest, clean, restClean, rfl⟩ := Separated.exists_terminated tab value
  rw [splitTabs, Separated.splitOn_terminated_append clean restClean]
  exact splitTabsFrom_eq clean restClean [] []

theorem hexDecodeIndexed_eq (value : Bytes) : hexDecodeIndexed value = plainly (hexDecode value) := by
  rw [hexDecodeIndexed, hexDecode]
  split
  · rfl
  · next even =>
      rw [hexDecodeFrom, hexDecodeLoop_eq _ value 0 [] (by omega)]
      rfl

theorem decodeFieldsFrom_eq (fields : List Bytes) (index : Nat) (decoded : List Bytes) :
    decodeFieldsFrom fields index decoded =
      plainly ((decodeFields (fields.drop index)).map (decoded ++ ·)) := by
  fun_induction decodeFieldsFrom fields index decoded with
  | case1 index decoded within ih =>
      rw [fetch_eq_pure (List.getElem?_eq_getElem within), pure_bind, hexDecodeIndexed_eq,
        List.drop_eq_getElem_cons within, decodeFields]
      cases hexDecode fields[index] with
      | error what => rfl
      | ok value =>
          rw [plainly_ok, pure_bind, ih value]
          cases decodeFields (fields.drop (index + 1)) with
          | error what => rfl
          | ok others => simp [Except.map]
  | case2 index decoded beyond =>
      rw [List.drop_eq_nil_of_le (by omega)]
      simp [decodeFields, Except.map]

/-- On every line the decoder comes to an end, with no access out of range. -/
theorem decodeMessageIndexed_eq (encodedLine : Bytes) :
    decodeMessageIndexed encodedLine = plainly (decodeMessage encodedLine) := by
  rw [decodeMessageIndexed, decodeMessage, removeSuffixIndexed_eq, pure_bind,
    removeSuffixIndexed_eq, pure_bind, splitTabsFrom_zero, pure_bind]
  generalize splitTabs (removeSuffix carriageReturn (removeSuffix newline encodedLine)) = fields
  rcases fields with _ | ⟨version, _ | ⟨id, _ | ⟨kind, rest⟩⟩⟩
  · rfl
  · rfl
  · rfl
  · have enough : ¬ (version :: id :: kind :: rest).length < 3 := by simp
    have first : (fetch (version :: id :: kind :: rest) 0 : Checked Bytes Bytes) = pure version := rfl
    have second : (fetch (version :: id :: kind :: rest) 1 : Checked Bytes Bytes) = pure id := rfl
    have third : (fetch (version :: id :: kind :: rest) 2 : Checked Bytes Bytes) = pure kind := rfl
    simp only [enough, ↓reduceIte, first, second, third, pure_bind]
    by_cases current : version = protocolVersion
    · by_cases empty : kind = []
      · simp [current, empty]
      · simp only [current, empty, ne_eq, not_true_eq_false, or_false, ↓reduceIte]
        cases fromCharsUInt64 id with
        | none => rfl
        | some requestId =>
            simp only [decodeFieldsFrom_eq]
            change plainly ((decodeFields rest).map ([] ++ ·)) >>= _ = _
            cases decodeFields rest <;> rfl
    · simp [current]

/-- The decoder accepts exactly its grammar, within range on every input. -/
theorem decodeMessage_grammar (line : Bytes) :
    ((∃ message, decodeMessage line = .ok message) ↔
      ∃ wire : WireLine, withoutEnding line = wire.body) ∧
    (∀ wire : WireLine, withoutEnding line = wire.body →
      decodeMessage line = .ok wire.message) ∧
    (∀ (other : Bytes) (left right : WireLine), withoutEnding line = left.body →
      withoutEnding other = right.body →
      (decodeMessage line = decodeMessage other ↔ left.Alike right)) ∧
    decodeMessageIndexed line = plainly (decodeMessage line) := by
  refine ⟨⟨?_, ?_⟩, fun wire is => decodeMessage_wire is, ?_, decodeMessageIndexed_eq line⟩
  · rintro ⟨message, read⟩
    exact exists_wire_of_decodeMessage read
  · rintro ⟨wire, is⟩
    exact ⟨wire.message, decodeMessage_wire is⟩
  · intro other left right leftIs rightIs
    rw [decodeMessage_wire leftIs, decodeMessage_wire rightIs, Except.ok.injEq, message_eq_iff]

example : decodeMessage (text "KIPC1\t007\tOK\t4a\t\r\n") =
    decodeMessage (text "KIPC1\t7\tOK\t4A\t") := by
  decide +kernel

end Kronos.Ipc
