import Mathlib.Data.BitVec
import Mathlib.Data.List.Basic
import Mathlib.Logic.Function.Iterate

/-!
# Shift registers with feedback

A register shifts its low bit out and adds the feedback when the bit was set. Symbols
are fed into its low end. A feedback with its highest bit set loses nothing, so texts
that differ only in a window for which the register has room leave different registers.
-/

set_option autoImplicit false

namespace ShiftRegister

variable {width size : Nat} {feedback register : BitVec width}

/-- One turn. -/
def turn (feedback register : BitVec width) : BitVec width :=
  if register.getLsbD 0 then register >>> 1 ^^^ feedback else register >>> 1

/-- A symbol is added at the low end and shifted through. -/
def feed (feedback register : BitVec width) (symbol : BitVec size) : BitVec width :=
  (turn feedback)^[size] (register ^^^ symbol.setWidth width)

/-! ## Turns -/

/-- The bit that is shifted out comes back as the highest one. -/
theorem msb_turn (tapped : feedback.msb = true) :
    (turn feedback register).msb = register.getLsbD 0 := by
  have shifted : (register >>> 1).msb = false := by
    rw [BitVec.msb_eq_getLsbD_last, BitVec.getLsbD_ushiftRight]
    exact BitVec.getLsbD_of_ge _ _ (by omega)
  rw [turn]
  split
  · next set => rw [BitVec.msb_xor, shifted, tapped, set, Bool.false_xor]
  · next clear =>
      rw [shifted]
      exact (Bool.not_eq_true _ ▸ clear).symm

theorem eq_of_ushiftRight {left right : BitVec width} (low : left.getLsbD 0 = right.getLsbD 0)
    (high : left >>> 1 = right >>> 1) : left = right := by
  apply BitVec.eq_of_getLsbD_eq
  intro index _
  cases index with
  | zero => exact low
  | succ index =>
      have bit := congrArg (BitVec.getLsbD · index) high
      simp only [BitVec.getLsbD_ushiftRight] at bit
      rw [Nat.add_comm]
      exact bit

theorem turn_injective (tapped : feedback.msb = true) : Function.Injective (turn feedback) := by
  intro left right same
  have low : left.getLsbD 0 = right.getLsbD 0 := by
    rw [← msb_turn tapped, ← msb_turn tapped, same]
  apply eq_of_ushiftRight low
  rw [turn, turn, low] at same
  split at same
  · exact (BitVec.xor_left_inj _).mp same
  · exact same

/-- No bit is set from this one on. -/
def Fits (bits : Nat) (word : BitVec width) : Prop := ∀ index, bits ≤ index → word.getLsbD index = false

/-- What is added above the low bit is only shifted down. -/
theorem turn_xor_shiftLeft {word : BitVec width} (fits : Fits (width - 1) word) :
    turn feedback (register ^^^ word <<< 1) = turn feedback register ^^^ word := by
  have low : (register ^^^ word <<< 1).getLsbD 0 = register.getLsbD 0 := by simp
  have back : word <<< 1 >>> 1 = word := by
    apply BitVec.eq_of_getLsbD_eq
    intro index _
    rw [BitVec.getLsbD_ushiftRight, BitVec.getLsbD_shiftLeft, Nat.add_sub_cancel_left]
    by_cases within : 1 + index < width
    · simp [within]
    · rw [fits index (by omega), Bool.and_false]
  rw [turn, turn, low, BitVec.ushiftRight_xor_distrib, back]
  split
  · rw [BitVec.xor_assoc, BitVec.xor_comm word, BitVec.xor_assoc]
  · rfl

theorem iterate_turn_xor_shiftLeft {word : BitVec width} {count : Nat}
    (fits : Fits (width - count) word) (register : BitVec width) :
    (turn feedback)^[count] (register ^^^ word <<< count) =
      (turn feedback)^[count] register ^^^ word := by
  induction count generalizing register with
  | zero => simp
  | succ count ih =>
      have room : Fits (width - 1) (word <<< count) := by
        intro index high
        rw [BitVec.getLsbD_shiftLeft, fits (index - count) (by omega), Bool.and_false]
      rw [BitVec.shiftLeft_add, Function.iterate_succ_apply, turn_xor_shiftLeft room,
        Function.iterate_succ_apply]
      exact ih (fun index high => fits index (by omega)) _

/-! ## Symbols that the register has room for -/

/-- Symbols side by side in one register, the first one at the low end. -/
def packed : List (BitVec size) → BitVec width
  | [] => 0
  | symbol :: symbols => symbol.setWidth width ^^^ packed symbols <<< size

theorem fits_packed (symbols : List (BitVec size)) :
    Fits (size * symbols.length) (packed symbols : BitVec width) := by
  induction symbols with
  | nil =>
      intro index _
      exact BitVec.getLsbD_zero
  | cons symbol symbols ih =>
      intro index high
      rw [List.length_cons, Nat.mul_succ] at high
      rw [packed, BitVec.getLsbD_xor, BitVec.getLsbD_setWidth, BitVec.getLsbD_shiftLeft,
        BitVec.getLsbD_of_ge symbol index (by omega), ih (index - size) (by omega)]
      simp

/-- As long as there is room, feeding symbols is adding them all at once. -/
theorem foldl_feed {symbols : List (BitVec size)} (room : size * symbols.length ≤ width)
    (register : BitVec width) :
    symbols.foldl (feed feedback) register =
      (turn feedback)^[size * symbols.length] (register ^^^ packed symbols) := by
  induction symbols generalizing register with
  | nil => simp [packed]
  | cons symbol symbols ih =>
      rw [List.length_cons, Nat.mul_succ] at room
      have fits : Fits (width - size) (packed symbols : BitVec width) :=
        fun index high => fits_packed symbols index (by omega)
      rw [List.foldl_cons, ih (by omega), feed, ← iterate_turn_xor_shiftLeft fits, packed,
        ← Function.iterate_add_apply, List.length_cons, Nat.mul_succ, BitVec.xor_assoc]

/-- Symbols can be read off the register they are packed in. -/
theorem packed_injective {left right : List (BitVec size)} (length : left.length = right.length)
    (room : size * left.length ≤ width)
    (same : (packed left : BitVec width) = packed right) : left = right := by
  induction left generalizing right with
  | nil => exact (List.length_eq_zero_iff.mp length.symm).symm
  | cons symbol symbols ih =>
      cases right with
      | nil => cases length
      | cons other others =>
          rw [List.length_cons, Nat.mul_succ] at room
          have sizes : symbols.length = others.length := Nat.succ.inj length
          have bits := fun index => congrArg (BitVec.getLsbD · index) same
          simp only [packed, BitVec.getLsbD_xor, BitVec.getLsbD_setWidth,
            BitVec.getLsbD_shiftLeft] at bits
          have first : symbol = other := by
            apply BitVec.eq_of_getLsbD_eq
            intro index inside
            have within : index < width := by omega
            have bit := bits index
            simpa [inside, within] using bit
          have rest : (packed symbols : BitVec width) = packed others := by
            apply BitVec.eq_of_getLsbD_eq
            intro index _
            by_cases within : index + size < width
            · have above : ¬ index + size < size := by omega
              have bit := bits (index + size)
              simpa [within, above, first] using bit
            · rw [fits_packed symbols index (by omega),
                fits_packed others index (by rw [← sizes]; omega)]
          rw [first, ih sizes (by omega) rest]

/-- No symbol of a window is lost that the register has room for. -/
theorem foldl_feed_injective (tapped : feedback.msb = true) {left right : List (BitVec size)}
    (length : left.length = right.length) (room : size * left.length ≤ width)
    (same : left.foldl (feed feedback) register = right.foldl (feed feedback) register) :
    left = right := by
  rw [foldl_feed room, foldl_feed (length ▸ room), ← length] at same
  have added := (turn_injective tapped).iterate _ same
  exact packed_injective length room ((BitVec.xor_right_inj _).mp added)

/-! ## Texts that differ in a window -/

theorem feed_injective (tapped : feedback.msb = true) (symbol : BitVec size) :
    Function.Injective fun register => feed feedback register symbol := by
  intro left right same
  exact (BitVec.xor_left_inj _).mp ((turn_injective tapped).iterate _ same)

/-- Nothing is lost of a register, whatever is fed into it. -/
theorem foldl_feed_register_injective (tapped : feedback.msb = true) (symbols : List (BitVec size)) :
    Function.Injective fun register => symbols.foldl (feed feedback) register := by
  induction symbols with
  | nil => exact Function.injective_id
  | cons symbol symbols ih => exact ih.comp (feed_injective tapped symbol)

/-- The texts are the same in front of the window and behind it. -/
def DifferWithin {α : Type} (start count : Nat) (left right : List α) : Prop :=
  ∀ index, left[index]? ≠ right[index]? → start ≤ index ∧ index < start + count

theorem differWithin_append {α : Type} (before after : List α) {left right : List α}
    (length : left.length = right.length) :
    DifferWithin before.length left.length (before ++ (left ++ after)) (before ++ (right ++ after)) := by
  intro index different
  by_contra outside
  apply different
  by_cases front : index < before.length
  · rw [List.getElem?_append_left front, List.getElem?_append_left front]
  · have behind : left.length ≤ index - before.length := by omega
    have start := Nat.le_of_not_lt front
    rw [List.getElem?_append_right start, List.getElem?_append_right start,
      List.getElem?_append_right behind, List.getElem?_append_right (length ▸ behind), length]

theorem DifferWithin.map {α β : Type} (f : α → β) {start count : Nat} {left right : List α}
    (within : DifferWithin start count left right) :
    DifferWithin start count (left.map f) (right.map f) := by
  intro index different
  apply within index
  intro same
  rw [List.getElem?_map, List.getElem?_map, same] at different
  exact different rfl

theorem DifferWithin.take_eq {α : Type} {start count : Nat} {left right : List α}
    (within : DifferWithin start count left right) : left.take start = right.take start := by
  apply List.ext_getElem?
  intro index
  rw [List.getElem?_take, List.getElem?_take]
  split
  · next before =>
      by_contra different
      have inside := within index different
      omega
  · rfl

theorem DifferWithin.drop_eq {α : Type} {start count : Nat} {left right : List α}
    (within : DifferWithin start count left right) :
    left.drop (start + count) = right.drop (start + count) := by
  apply List.ext_getElem?
  intro index
  rw [List.getElem?_drop, List.getElem?_drop]
  by_contra different
  have inside := within _ different
  omega

/-- Texts of one length that leave the same register are the same, if they differ at
most in a window that the register has room for. -/
theorem eq_of_foldl_feed (tapped : feedback.msb = true) {left right : List (BitVec size)}
    {start count : Nat} (length : left.length = right.length) (room : size * count ≤ width)
    (within : DifferWithin start count left right)
    (same : left.foldl (feed feedback) register = right.foldl (feed feedback) register) :
    left = right := by
  have parts : ∀ text : List (BitVec size),
      text = text.take start ++ ((text.drop start).take count ++ text.drop (start + count)) := by
    intro text
    rw [← List.drop_drop, List.take_append_drop, List.take_append_drop]
  have sizes : ((left.drop start).take count).length = ((right.drop start).take count).length := by
    rw [List.length_take, List.length_take, List.length_drop, List.length_drop, length]
  have fits : size * ((left.drop start).take count).length ≤ width :=
    Nat.le_trans (Nat.mul_le_mul_left size (List.length_take_le count _)) room
  rw [parts left, parts right, ← within.take_eq, ← within.drop_eq] at same
  simp only [List.foldl_append] at same
  have window := foldl_feed_injective tapped sizes fits
    (foldl_feed_register_injective tapped _ same)
  rw [parts left, parts right, within.take_eq, within.drop_eq, window]

end ShiftRegister
