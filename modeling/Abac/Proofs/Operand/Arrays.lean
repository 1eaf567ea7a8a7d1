import Abac.Proofs.Operand.Integers
import Abac.Proofs.Operand.Printed
import Abac.Proofs.Operand.Words

/-!
Lists as numbers. A list is taken as the text of its items with commas between them, and that text
is read. No numeral has a comma, so a list with several items is no number; a list with one item is
the number of the item, because whatever a number is printed as is read as that number. Booleans are
the exception: the item of a list is a word, the operand counts as one or zero.
-/

namespace Abac

namespace Operand

private theorem Digits.comma_notMem {digits : List Char} (hdigits : Digits digits) : ',' ∉ digits :=
  fun hcomma => absurd (hdigits ',' hcomma) (by decide)

private theorem Sign.comma_notMem {sign : List Char} (hsign : Sign sign) : ',' ∉ sign := by
  cases hsign <;> decide

private theorem Mantissa.comma_notMem {mantissa : List Char} (hmantissa : Mantissa mantissa) :
    ',' ∉ mantissa := by
  cases hmantissa with
  | whole hsome hdigits => exact hdigits.comma_notMem
  | pointed hsome hdigits hfraction =>
    simp [hdigits.comma_notMem, hfraction.comma_notMem]
  | fraction hsome hfraction => simp [hfraction.comma_notMem]

private theorem Exponent.comma_notMem {exponent : List Char} (hexponent : Exponent exponent) :
    ',' ∉ exponent := by
  cases hexponent with
  | none => simp
  | some hmark hsign hsome hdigits =>
    rcases hmark with rfl | rfl <;> simp [hsign.comma_notMem, hdigits.comma_notMem]

private theorem Radix.not_isDigit_comma (radix : Radix) : ¬ radix.IsDigit ',' := by
  rw [Radix.isDigit_iff_toNat]
  cases radix <;> decide

private theorem Radix.comma_notMem_marks (radix : Radix) : ',' ∉ radix.marks := by
  cases radix <;> decide

private theorem Numeral.comma_notMem {body : List Char} (hbody : Numeral body) : ',' ∉ body := by
  cases hbody with
  | empty => simp
  | decimal hsign hmantissa hexponent =>
    simp [hsign.comma_notMem, hmantissa.comma_notMem, hexponent.comma_notMem]
  | @radix radix mark digits hmark hsome hdigits =>
    have hother : ',' ≠ mark := by
      rintro rfl
      exact radix.comma_notMem_marks hmark
    have hapart : ',' ∉ digits := fun hcomma => radix.not_isDigit_comma (hdigits ',' hcomma)
    simp [hother, hapart]

/-- A text with a comma anywhere is no number: a comma is no blank, and stands in no numeral. -/
theorem numeral?_of_comma {chars : List Char} (hcomma : ',' ∈ chars) : numeral? chars = none := by
  have hkept : isNumericBlank ',' = false := by decide
  have hbody : ¬ Numeral (Text.trim isNumericBlank chars) := by
    intro hnumeral
    obtain ⟨before, after, hchars, hbefore, hafter⟩ :
        ∃ before after, chars = before ++ Text.trim isNumericBlank chars ++ after ∧
          Blanks before ∧ Blanks after := Text.exists_eq_append_trim chars
    rw [hchars, List.mem_append, List.mem_append] at hcomma
    rcases hcomma with (hfront | hbody) | hback
    · rw [hbefore ',' hfront] at hkept
      cases hkept
    · exact hnumeral.comma_notMem hbody
    · rw [hafter ',' hback] at hkept
      cases hkept
  rw [← isSome_spelled?_iff, Bool.not_eq_true, Option.isSome_eq_false_iff,
    Option.isNone_iff_eq_none] at hbody
  rw [numeral?, hbody, Option.bind_none]

private theorem exists_tailText?_eq {item : Json} {rest : List Json} {text : List Char}
    (htext : tailText? (item :: rest) = some text) : ∃ more, text = ',' :: more := by
  rw [tailText?] at htext
  split at htext
  · cases htext
    exact ⟨_, rfl⟩
  · cases htext

/-- The text of a list with several items has a comma. -/
theorem comma_mem_of_listText? {first second : Json} {rest : List Json} {text : List Char}
    (htext : listText? (first :: second :: rest) = some text) : ',' ∈ text := by
  rw [listText?] at htext
  split at htext
  · next head tail hhead htail =>
    obtain ⟨more, rfl⟩ := exists_tailText?_eq htail
    cases htext
    simp
  · cases htext

private theorem toNumber?_of_several (first second : Json) (rest : List Json) :
    toNumber? (some (.array (first :: second :: rest))) = none := by
  rw [toNumber?]
  cases htext : listText? (first :: second :: rest) with
  | none => rfl
  | some text => exact numeral?_of_comma (comma_mem_of_listText? htext)

private theorem listText?_single (item : Json) : listText? [item] = itemText? item := by
  rw [listText?, tailText?]
  cases itemText? item with
  | none => rfl
  | some text => simp

/-- The word of a boolean is no number. -/
theorem toNumber?_single_bool (flag : Bool) : toNumber? (some (.array [.bool flag])) = none := by
  rw [toNumber?, listText?_single]
  cases flag with
  | true =>
    show numeral? ('t' :: ['r', 'u', 'e']) = none
    exact numeral?_eq_none (by decide) (by decide) (by decide) (by decide) _
  | false =>
    show numeral? ('f' :: ['a', 'l', 's', 'e']) = none
    exact numeral?_eq_none (by decide) (by decide) (by decide) (by decide) _

/-- A list with one item is the number of the item. -/
theorem toNumber?_single {item : Json} (hitem : isBool (some item) = false) :
    toNumber? (some (.array [item])) = toNumber? (some item) := by
  rw [toNumber?, listText?_single]
  cases item with
  | null => rfl
  | bool flag => cases hitem
  | number number => exact numeral?_chars number
  | string text => rfl
  | array items => rfl
  | object fields => rfl

/-- A value inside lists of one item each. -/
def nested : Nat → Json → Json
  | 0, value => value
  | count + 1, value => .array [nested count value]

private theorem isBool_nested {value : Json} (hvalue : isBool (some value) = false) (count : Nat) :
    isBool (some (nested count value)) = false := by
  cases count with
  | zero => exact hvalue
  | succ count => rfl

theorem toNumber?_nested {value : Json} (hvalue : isBool (some value) = false) (count : Nat) :
    toNumber? (some (nested count value)) = toNumber? (some value) := by
  induction count with
  | zero => rfl
  | succ count ih => rw [nested, toNumber?_single (isBool_nested hvalue count), ih]

theorem pair_eq_numbers_iff {left right : Operand} {x y : Binary64} :
    pair left right = .numbers x y ↔ left.toNumber? = some x ∧ right.toNumber? = some y := by
  constructor
  · intro hpair
    unfold pair at hpair
    split at hpair
    · next l r hleft hright =>
      cases hpair
      exact ⟨hleft, hright⟩
    · split at hpair <;> cases hpair
  · rintro ⟨hleft, hright⟩
    exact pair_eq_numbers hleft hright

end Operand

open Operand

/-- Two comparisons of the same numbers. -/
theorem Operator.holds_eq_of_numbers {left right left' right' : Operand} {x y : Binary64}
    (hpair : pair left right = .numbers x y) (hpair' : pair left' right' = .numbers x y)
    (op : Operator) : op.holds left right = op.holds left' right' := by
  unfold Operator.holds
  rw [hpair, hpair']

namespace Operand

/-- The number of a list by its structure. The empty list is zero; a list with one item is the
number of the item, unless that is a boolean: then it is none; a list with several items is none. So
lists of one item around a value that is no boolean change no comparison of numbers, on
either side. -/
theorem lists_convert_by_structure :
    toNumber? (some (.array [])) = some Binary64.zero ∧
    (∀ value : Json, isBool (some value) = false →
      toNumber? (some (.array [value])) = toNumber? (some value)) ∧
    (∀ flag : Bool, toNumber? (some (.array [.bool flag])) = none) ∧
    (∀ (first second : Json) (rest : List Json),
      toNumber? (some (.array (first :: second :: rest))) = none) ∧
    ∀ (value : Json) (count : Nat) (other : Operand) (x y : Binary64),
      isBool (some value) = false →
      (pair (some (nested count value)) other = .numbers x y ↔
        pair (some value) other = .numbers x y) ∧
      (pair other (some (nested count value)) = .numbers x y ↔
        pair other (some value) = .numbers x y) ∧
      ∀ op : Operator,
        (pair (some value) other = .numbers x y →
          op.holds (some (nested count value)) other = op.holds (some value) other) ∧
        (pair other (some value) = .numbers x y →
          op.holds other (some (nested count value)) = op.holds other (some value)) := by
  refine ⟨rfl, fun value => toNumber?_single, toNumber?_single_bool, toNumber?_of_several, ?_⟩
  intro value count other x y hvalue
  have hleft : pair (some (nested count value)) other = .numbers x y ↔
      pair (some value) other = .numbers x y := by
    rw [pair_eq_numbers_iff, pair_eq_numbers_iff, toNumber?_nested hvalue]
  have hright : pair other (some (nested count value)) = .numbers x y ↔
      pair other (some value) = .numbers x y := by
    rw [pair_eq_numbers_iff, pair_eq_numbers_iff, toNumber?_nested hvalue]
  refine ⟨hleft, hright, fun op => ⟨fun hpair => ?_, fun hpair => ?_⟩⟩
  · exact Operator.holds_eq_of_numbers (hleft.2 hpair) hpair op
  · exact Operator.holds_eq_of_numbers (hright.2 hpair) hpair op

/-- A hexadecimal text inside two lists is compared as the number that the text spells. -/
theorem nested_hexadecimal_equals_sixteen :
    isBool (some (.string "0x10")) = false ∧
    toNumber? (some (.array [.string "0x10"])) = toNumber? (some (.string "0x10")) ∧
    (∃ x y, pair (some (.string "0x10")) (some (.number (.int 16))) = .numbers x y) ∧
    Operator.eq.holds (some (nested 2 (.string "0x10"))) (some (.number (.int 16))) = true := by
  obtain ⟨-, hsingle, -, -, hnested⟩ := lists_convert_by_structure
  have htext : (toNumber? (some (.string "0x10"))).isSome = true := by decide +kernel
  have hnumber : (toNumber? (some (.number (.int 16)))).isSome = true := by decide +kernel
  have hequal : Operator.eq.holds (some (.string "0x10")) (some (.number (.int 16))) = true := by
    decide +kernel
  obtain ⟨x, hx⟩ := Option.isSome_iff_exists.1 htext
  obtain ⟨y, hy⟩ := Option.isSome_iff_exists.1 hnumber
  have hpair := pair_eq_numbers hx hy
  obtain ⟨-, -, hsame⟩ := hnested (.string "0x10") 2 _ x y rfl
  exact ⟨rfl, hsingle _ rfl, ⟨x, y, hpair⟩, ((hsame .eq).1 hpair).trans hequal⟩

end Operand

end Abac
