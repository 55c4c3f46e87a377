import Mathlib.Data.List.DropRight
import Mathlib.Tactic

/-!
# Separated and terminated text

Laws of texts cut at a separator: what stands before the last separator, and
texts in which every line is closed by a terminator the lines do not contain.
-/

set_option autoImplicit false

namespace Separated

variable {α : Type}

theorem rdropWhile_append_cons {test : α → Bool} {left right : List α} {stop : α}
    (passes : ∀ item ∈ right, test item = true) (fails : test stop = false) :
    (left ++ stop :: right).rdropWhile test = left ++ [stop] := by
  induction right using List.reverseRecOn with
  | nil =>
      rw [List.rdropWhile_concat_neg]
      simp [fails]
  | append_singleton right last ih =>
      have split : left ++ stop :: (right ++ [last]) = (left ++ stop :: right) ++ [last] := by simp
      rw [split, List.rdropWhile_concat_pos _ _ _ (passes last (by simp))]
      exact ih fun item member => passes item (by simp [member])

theorem rdropWhile_eq_nil {test : α → Bool} {items : List α}
    (passes : ∀ item ∈ items, test item = true) : items.rdropWhile test = [] := by
  induction items using List.reverseRecOn with
  | nil => rfl
  | append_singleton items last ih =>
      rw [List.rdropWhile_concat_pos _ _ _ (passes last (by simp))]
      exact ih fun item member => passes item (by simp [member])

theorem findIdx?_append_cons {test : α → Bool} {left right : List α} {stop : α}
    (fails : ∀ item ∈ left, test item = false) (passes : test stop = true) :
    (left ++ stop :: right).findIdx? test = some left.length := by
  have absent : left.findIdx? test = none := List.findIdx?_eq_none_iff.mpr fails
  simp [List.findIdx?_append, absent, List.findIdx?_cons, passes]

theorem not_mem_intercalate {item separator : α} {parts : List (List α)}
    (other : item ≠ separator) (clean : ∀ part ∈ parts, item ∉ part) :
    item ∉ [separator].intercalate parts := by
  induction parts with
  | nil => simp
  | cons part parts ih =>
      have rest := ih fun part member => clean part (by simp [member])
      cases parts with
      | nil => simpa using clean part (by simp)
      | cons next parts =>
          rw [List.intercalate_cons_cons]
          simp only [List.mem_append, List.mem_singleton, not_or]
          exact ⟨⟨clean part (by simp), other⟩, rest⟩

/-- A line that is not there to its end does not show its terminator. -/
theorem not_mem_take_of_lt {terminator : α} {line : List α} {count : Nat} (clean : terminator ∉ line)
    (short : count < (line ++ [terminator]).length) :
    terminator ∉ (line ++ [terminator]).take count := by
  rw [List.length_append, List.length_singleton] at short
  rw [List.take_append_of_le_length (Nat.le_of_lt_succ short)]
  intro member
  exact clean (List.mem_of_mem_take member)

theorem take_min_append (remaining : List α) (count more : Nat) :
    remaining.take (min count remaining.length + more) =
      remaining.take count ++ (remaining.drop count).take more := by
  rcases Nat.le_total count remaining.length with within | beyond
  · rw [Nat.min_eq_left within, List.take_add]
  · rw [Nat.min_eq_right beyond, List.drop_eq_nil_of_le beyond, List.take_of_length_le beyond,
      List.take_of_length_le (by omega)]
    simp

/-- The concatenation of lines, each closed by the terminator. -/
def terminated (terminator : α) (lines : List (List α)) : List α :=
  lines.flatMap fun line => line ++ [terminator]

@[simp] theorem terminated_nil (terminator : α) : terminated terminator [] = [] := rfl

@[simp] theorem terminated_cons (terminator : α) (line : List α) (rest : List (List α)) :
    terminated terminator (line :: rest) = line ++ terminator :: terminated terminator rest := by
  simp [terminated]

@[simp] theorem terminated_append (terminator : α) (left right : List (List α)) :
    terminated terminator (left ++ right) =
      terminated terminator left ++ terminated terminator right := by
  simp [terminated]

theorem terminated_getLast {terminator : α} {lines : List (List α)} (nonempty : lines ≠ []) :
    (terminated terminator lines).getLast? = some terminator := by
  obtain ⟨initial, last, rfl⟩ := List.eq_nil_or_concat' lines |>.resolve_left nonempty
  simp [terminated]

/-- Every text is a terminated part and a rest without terminator. -/
theorem exists_terminated (terminator : α) (text : List α) :
    ∃ lines rest, (∀ line ∈ lines, terminator ∉ line) ∧ terminator ∉ rest ∧
      text = terminated terminator lines ++ rest := by
  classical
  induction text with
  | nil => exact ⟨[], [], by simp, by simp, rfl⟩
  | cons first text ih =>
      obtain ⟨lines, rest, clean, restClean, rfl⟩ := ih
      by_cases ends : first = terminator
      · subst first
        refine ⟨[] :: lines, rest, ?_, restClean, by simp⟩
        simpa using clean
      · cases lines with
        | nil =>
            refine ⟨[], first :: rest, by simp, ?_, by simp⟩
            simp [Ne.symm ends, restClean]
        | cons line lines =>
            refine ⟨(first :: line) :: lines, rest, ?_, restClean, by simp⟩
            rw [List.forall_mem_cons] at clean ⊢
            exact ⟨by simp [Ne.symm ends, clean.1], clean.2⟩

/-- A prefix of a terminated text is some of its first lines and a rest
without terminator, which is a prefix of the next line. -/
theorem prefix_terminated {terminator : α} {lines : List (List α)} {text : List α}
    (isPrefix : text <+: terminated terminator lines)
    (clean : ∀ line ∈ lines, terminator ∉ line) :
    ∃ whole later rest, lines = whole ++ later ∧ terminator ∉ rest ∧
      text = terminated terminator whole ++ rest := by
  induction lines generalizing text with
  | nil =>
      have empty : text = [] := by simpa using isPrefix
      exact ⟨[], [], [], rfl, by simp, by simp [empty]⟩
  | cons line lines ih =>
      rw [terminated_cons] at isPrefix
      have lineClean := clean line (by simp)
      rcases List.prefix_or_prefix_of_prefix isPrefix
          (List.prefix_append line _) with short | long
      · exact ⟨[], line :: lines, text, rfl, fun member => lineClean (short.subset member),
          by simp⟩
      · obtain ⟨rest, rfl⟩ := long
        rw [List.prefix_append_right_inj] at isPrefix
        cases rest with
        | nil => exact ⟨[], line :: lines, line, rfl, lineClean, by simp⟩
        | cons first rest =>
            obtain ⟨rfl, inner⟩ := List.cons_prefix_cons.mp isPrefix
            obtain ⟨whole, later, tail, rfl, tailClean, rfl⟩ :=
              ih inner fun line member => clean line (by simp [member])
            exact ⟨line :: whole, later, tail, rfl, tailClean, by simp⟩

variable [DecidableEq α]

theorem length_splitOn (separator : α) (text : List α) :
    (text.splitOn separator).length = text.count separator + 1 := by
  induction text with
  | nil => rfl
  | cons first text ih =>
      rw [List.splitOn_cons_eq_if_modifyHead, List.count_cons]
      split <;> simp [ih]

/-- Cutting at the terminator takes the terminated lines off one by one. -/
theorem splitOn_terminated_append_any {terminator : α} {lines : List (List α)} (rest : List α)
    (clean : ∀ line ∈ lines, terminator ∉ line) :
    (terminated terminator lines ++ rest).splitOn terminator =
      lines ++ rest.splitOn terminator := by
  induction lines with
  | nil => rfl
  | cons line lines ih =>
      rw [terminated_cons, List.append_assoc, List.cons_append,
        List.splitOn_append_cons_self_of_not_mem (clean line (by simp)),
        ih fun line member => clean line (by simp [member])]
      rfl

/-- Cutting a terminated text, followed by an unterminated rest, at the
terminator gives the lines and the rest back. -/
theorem splitOn_terminated_append {terminator : α} {lines : List (List α)} {rest : List α}
    (clean : ∀ line ∈ lines, terminator ∉ line) (restClean : terminator ∉ rest) :
    (terminated terminator lines ++ rest).splitOn terminator = lines ++ [rest] := by
  rw [splitOn_terminated_append_any rest clean, List.splitOn_eq_singleton restClean]

theorem not_mem_of_mem_splitOn {separator : α} {text part : List α}
    (member : part ∈ text.splitOn separator) : separator ∉ part := by
  obtain ⟨lines, rest, clean, restClean, rfl⟩ := exists_terminated separator text
  rw [splitOn_terminated_append clean restClean, List.mem_append, List.mem_singleton] at member
  rcases member with line | rfl
  · exact clean part line
  · exact restClean

theorem splitOn_terminated {terminator : α} {lines : List (List α)}
    (clean : ∀ line ∈ lines, terminator ∉ line) :
    (terminated terminator lines).splitOn terminator = lines ++ [[]] := by
  simpa using splitOn_terminated_append clean (List.not_mem_nil (a := terminator))

/-- A text with a separated part behind some glue is cut into the fields of the
glue, the part that its last field is stuck to, and the rest. -/
theorem splitOn_glued {separator : α} (glue rest : List α) {part : List α}
    (clean : separator ∉ part) :
    ∃ fields last, glue = terminated separator fields ++ last ∧
      (glue ++ (part ++ separator :: rest)).splitOn separator =
        fields ++ (last ++ part) :: rest.splitOn separator := by
  obtain ⟨fields, last, fieldsClean, lastClean, rfl⟩ := exists_terminated separator glue
  refine ⟨fields, last, rfl, ?_⟩
  have stuck : separator ∉ last ++ part := by simp [lastClean, clean]
  have regroup : terminated separator fields ++ last ++ (part ++ separator :: rest) =
      (terminated separator fields ++ (last ++ part)) ++ separator :: rest := by simp
  rw [regroup, List.splitOn_append_cons_self, splitOn_terminated_append fieldsClean stuck]
  simp

/-- The terminated part of a text is found from the right. -/
theorem rdropWhile_terminated_append {terminator : α} {lines : List (List α)} {rest : List α}
    (restClean : terminator ∉ rest) :
    (terminated terminator lines ++ rest).rdropWhile (· ≠ terminator) =
      terminated terminator lines := by
  have passes : ∀ item ∈ rest, decide (item ≠ terminator) = true := by
    intro item member
    exact decide_eq_true fun same => restClean (same ▸ member)
  rcases List.eq_nil_or_concat' lines with rfl | ⟨initial, last, rfl⟩
  · simpa using rdropWhile_eq_nil passes
  · have split : terminated terminator (initial ++ [last]) ++ rest =
        (terminated terminator initial ++ last) ++ terminator :: rest := by
      simp [terminated]
    rw [split, rdropWhile_append_cons passes (by simp)]
    simp [terminated]

end Separated
