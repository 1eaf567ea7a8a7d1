import Abac.Proofs.Number.LowDigits
import Abac.Proofs.Operand.Integers
import Abac.Proofs.Operand.Order
import Abac.Proofs.Operand.Printed
import Abac.Proofs.Operand.Words
import Abac.Text.Basic

/-!
Numerals in base sixteen, eight and two. Their reader rounds after every digit, the reader of
decimal numerals once. Rounding after every digit comes to the same as taking every digit for zero
that stands behind more than 53 binary digits; and the number with those zeros is rounded like the
number itself, unless a tie is broken by what is left out.
-/

namespace Abac.Operand

namespace Radix

variable {radix : Radix}

/-- The value of a digit of any base. -/
def worth (c : Char) : Nat := (Text.hexValue? c).getD 0

/-- The whole number that digits spell behind a number that is there already. -/
def continued (radix : Radix) (start : Nat) (digits : List Char) : Nat :=
  digits.foldl (fun number c => number * radix.value + worth c) start

/-- The whole number that digits spell. -/
def whole (radix : Radix) (digits : List Char) : Nat := radix.continued 0 digits

/-- The number of binary digits that a digit of the base stands for. -/
def bits : Radix → Nat
  | hexadecimal => 4
  | octal => 3
  | binary => 1

private theorem value_eq (radix : Radix) : radix.value = Nat.pow 2 radix.bits := by
  cases radix <;> rfl

private theorem value_pos (radix : Radix) : 0 < radix.value := by
  cases radix <;> decide

private theorem pow_bits_succ (radix : Radix) (count : Nat) :
    Nat.pow 2 (radix.bits * (count + 1)) = radix.value * Nat.pow 2 (radix.bits * count) := by
  rw [value_eq, Nat.mul_succ, Nat.add_comm]
  exact Nat.pow_add 2 _ _

private theorem digit?_eq_some {c : Char} (hdigit : radix.IsDigit c) :
    radix.digit? c = some (worth c) ∧ worth c < radix.value := by
  have hsome := isSome_digit?_iff.2 hdigit
  rw [digit?] at hsome ⊢
  cases hvalue : Text.hexValue? c with
  | none =>
    rw [hvalue] at hsome
    cases hsome
  | some digit =>
    have hworth : worth c = digit := by
      rw [worth, hvalue, Option.getD_some]
    rw [hvalue] at hsome
    by_cases hless : digit < radix.value
    · simp [hworth, hless]
    · simp [Option.filter, hless] at hsome

private theorem continued_append (start : Nat) (front back : List Char) :
    radix.continued start (front ++ back) = radix.continued (radix.continued start front) back :=
  List.foldl_append

private theorem continued_eq (start : Nat) (digits : List Char) :
    radix.continued start digits =
      start * Nat.pow 2 (radix.bits * digits.length) + radix.whole digits := by
  induction digits generalizing start with
  | nil => simp [continued, whole]
  | cons c rest ih =>
    have hstep : ∀ number, radix.continued number (c :: rest) =
        radix.continued (number * radix.value + worth c) rest := fun _ => rfl
    rw [whole, hstep, hstep, ih, ih (0 * radix.value + worth c), List.length_cons, pow_bits_succ,
      Nat.zero_mul, Nat.zero_add, Nat.add_mul, Nat.mul_assoc, Nat.add_assoc]

private theorem whole_lt {digits : List Char} (hdigits : ∀ c ∈ digits, radix.IsDigit c) :
    radix.whole digits < Nat.pow 2 (radix.bits * digits.length) := by
  induction digits with
  | nil => simp [whole, continued]
  | cons c rest ih =>
    obtain ⟨hdigit, hrest⟩ := List.forall_mem_cons.1 hdigits
    have hworth := (digit?_eq_some hdigit).2
    have hfirst : radix.whole (c :: rest) = radix.continued (worth c) rest := by
      rw [whole, continued, List.foldl_cons, Nat.zero_mul, Nat.zero_add, continued]
    calc radix.whole (c :: rest)
        = worth c * Nat.pow 2 (radix.bits * rest.length) + radix.whole rest := by
          rw [hfirst, continued_eq]
      _ < (worth c + 1) * Nat.pow 2 (radix.bits * rest.length) := by
          rw [Nat.succ_mul]
          exact Nat.add_lt_add_left (ih hrest) _
      _ ≤ radix.value * Nat.pow 2 (radix.bits * rest.length) :=
          Nat.mul_le_mul_right _ hworth
      _ = Nat.pow 2 (radix.bits * (c :: rest).length) := (radix.pow_bits_succ rest.length).symm

/-- The whole number that the reader rounds in the end: a digit behind more than 53 binary digits
counts as zero. -/
def counted (radix : Radix) (start : Nat) (digits : List Char) : Nat :=
  digits.foldl
    (fun number c => number * radix.value + if number < Nat.pow 2 53 then worth c else 0) start

private theorem counted_append (start : Nat) (front back : List Char) :
    radix.counted start (front ++ back) = radix.counted (radix.counted start front) back :=
  List.foldl_append

private theorem counted_of_large {start : Nat} (hlarge : Nat.pow 2 53 ≤ start)
    (digits : List Char) :
    radix.counted start digits = start * Nat.pow 2 (radix.bits * digits.length) := by
  induction digits generalizing start with
  | nil => simp [counted]
  | cons c rest ih =>
    have hnext : Nat.pow 2 53 ≤ start * radix.value :=
      Nat.le_trans hlarge (Nat.le_mul_of_pos_right _ radix.value_pos)
    have hstep : radix.counted start (c :: rest) = radix.counted (start * radix.value) rest := by
      rw [counted, List.foldl_cons, if_neg (Nat.not_lt.2 hlarge), Nat.add_zero, counted]
    rw [hstep, ih hnext, Nat.mul_assoc, ← pow_bits_succ, List.length_cons]

/-- The digits count up to the one with which there are more than 53 binary digits. -/
theorem exists_counted_eq (radix : Radix) (start : Nat) (digits : List Char) : ∃ front back,
    digits = front ++ back ∧
      radix.counted start digits =
        radix.continued start front * Nat.pow 2 (radix.bits * back.length) ∧
      (back = [] ∨ Nat.pow 2 53 ≤ radix.continued start front) := by
  induction digits generalizing start with
  | nil => exact ⟨[], [], rfl, by simp [counted, continued], .inl rfl⟩
  | cons c rest ih =>
    rcases Nat.lt_or_ge start (Nat.pow 2 53) with hsmall | hlarge
    · obtain ⟨front, back, hsplit, hcounted, hlarge⟩ := ih (start * radix.value + worth c)
      refine ⟨c :: front, back, by rw [hsplit, List.cons_append], ?_, hlarge⟩
      have hstep : radix.counted start (c :: rest) =
          radix.counted (start * radix.value + worth c) rest := by
        rw [counted, List.foldl_cons, if_pos hsmall, counted]
      rw [hstep, hcounted]
      rfl
    · exact ⟨[], c :: rest, rfl, counted_of_large hlarge _, .inr hlarge⟩

/-- Some of the digits spell a number half way between two doubles, the even one below, and the
digits behind them are not all zero. -/
def BreaksTie (radix : Radix) (digits : List Char) : Prop :=
  ∃ count < digits.length,
    Binary64.TiesDown (radix.whole (digits.take count)) ∧ 0 < radix.whole (digits.drop count)

instance (radix : Radix) (digits : List Char) : Decidable (radix.BreaksTie digits) :=
  inferInstanceAs (Decidable (∃ _, _ ∧ _))

private theorem whole_append (front back : List Char) : radix.whole (front ++ back) =
    radix.whole front * Nat.pow 2 (radix.bits * back.length) + radix.whole back := by
  rw [whole, continued_append, continued_eq]
  rfl

private theorem breaksTie_append {front back : List Char}
    (hties : Binary64.TiesDown (radix.whole front))
    (hback : 0 < radix.whole back) : radix.BreaksTie (front ++ back) := by
  have hsome : back ≠ [] := by
    rintro rfl
    cases hback
  have hlength := List.length_pos_iff.2 hsome
  refine ⟨front.length, by rw [List.length_append]; omega, ?_, ?_⟩
  · rwa [List.take_left]
  · rwa [List.drop_left]

/-- All digits count, or there are more than 53 binary digits in front of those that do not. -/
theorem counted_eq_whole_or {digits : List Char} (hdigits : ∀ c ∈ digits, radix.IsDigit c) :
    radix.counted 0 digits = radix.whole digits ∨ ∃ front back, digits = front ++ back ∧
      Nat.pow 2 53 ≤ radix.whole front ∧
      radix.whole back < Nat.pow 2 (radix.bits * back.length) ∧
      radix.counted 0 digits = radix.whole front * Nat.pow 2 (radix.bits * back.length) := by
  obtain ⟨front, back, rfl, hcounted, hlarge⟩ := exists_counted_eq radix 0 digits
  rcases hlarge with rfl | hlarge
  · left
    rw [hcounted, whole_append]
    rfl
  · right
    have hback := whole_lt fun c hc => hdigits c (List.mem_append_right _ hc)
    exact ⟨front, back, rfl, hlarge, hback, hcounted⟩

/-- Unless a tie is broken, what counts is rounded like the number that the digits spell. -/
theorem nearest_counted {digits : List Char} (hdigits : ∀ c ∈ digits, radix.IsDigit c)
    (htie : ¬ radix.BreaksTie digits) :
    Binary64.nearest (radix.counted 0 digits) 1 = Binary64.nearest (radix.whole digits) 1 := by
  rcases counted_eq_whole_or hdigits with hall | ⟨front, back, rfl, hlarge, hback, hcounted⟩
  · rw [hall]
  · rw [hcounted, whole_append, Binary64.nearest_mul_pow_add hlarge hback,
      Binary64.nearest_mul_pow hlarge, if_neg fun hties => htie (breaksTie_append hties.1 hties.2)]

/-- All digits of a tie count: those behind the first 54 binary digits are zero. -/
theorem counted_of_tiesDown {digits : List Char} (hdigits : ∀ c ∈ digits, radix.IsDigit c)
    (hties : Binary64.TiesDown (radix.whole digits)) :
    radix.counted 0 digits = radix.whole digits := by
  rcases counted_eq_whole_or hdigits with hall | ⟨front, back, rfl, hlarge, hback, hcounted⟩
  · exact hall
  · rw [whole_append] at hties
    rw [hcounted, whole_append, Binary64.eq_zero_of_tiesDown hlarge hback hties, Nat.add_zero]

/-- When a tie is broken, what counts stays at the tie and is rounded down. -/
theorem nearest_counted_ne {digits : List Char} (hdigits : ∀ c ∈ digits, radix.IsDigit c)
    (htie : radix.BreaksTie digits) :
    Binary64.nearest (radix.counted 0 digits) 1 ≠ Binary64.nearest (radix.whole digits) 1 := by
  obtain ⟨count, -, hties, hback⟩ := htie
  rw [← List.take_append_drop count digits] at hdigits ⊢
  generalize digits.take count = front at hties hdigits ⊢
  generalize digits.drop count = back at hback hdigits ⊢
  have hlarge := Binary64.pow_le_of_tiesDown hties
  have hlow := whole_lt fun c hc => hdigits c (List.mem_append_right _ hc)
  have hfront := counted_of_tiesDown (fun c hc => hdigits c (List.mem_append_left _ hc)) hties
  have hgap := Nat.mul_pos (Nat.two_pow_pos (Binary64.spacing (radix.whole front)))
    (Nat.two_pow_pos (radix.bits * back.length))
  rw [counted_append, hfront, counted_of_large hlarge, whole_append,
    Binary64.nearest_mul_pow hlarge, Binary64.nearest_mul_pow_add hlarge hlow,
    if_pos ⟨hties, hback⟩, Nat.add_mul]
  simp only [Nat.pow_eq]
  omega

/-- What counts is infinite just when the number that the digits spell is. -/
theorem ofInt?_counted_eq_none_iff {digits : List Char}
    (hdigits : ∀ c ∈ digits, radix.IsDigit c) :
    Binary64.ofInt? (radix.counted 0 digits) = none ↔
      Binary64.ofInt? (radix.whole digits) = none := by
  rcases counted_eq_whole_or hdigits with hall | ⟨front, back, rfl, hlarge, hback, hcounted⟩
  · rw [hall]
  · rw [hcounted, whole_append]
    exact (Binary64.ofInt?_mul_pow_add_eq_none_iff hlarge hback).symm

/-- A digit behind the double of a whole number gives the double of the number that counts. -/
theorem append_ofInt? (start : Nat) {digit : Nat} (hdigit : digit < radix.value) :
    radix.append (.ofRounding false (Binary64.ofInt? start)) digit =
      .ofRounding false (Binary64.ofInt?
        (start * radix.value + if start < Nat.pow 2 53 then digit else 0 : Nat)) := by
  cases hstart : Binary64.ofInt? start with
  | none =>
    have hlarger : start ≤ start * radix.value + if start < Nat.pow 2 53 then digit else 0 :=
      Nat.le_trans (Nat.le_mul_of_pos_right _ radix.value_pos) (Nat.le_add_right _ _)
    rw [Binary64.ofInt?_eq_none_iff] at hstart
    have hinfinite := Nat.le_trans hstart
      (Nat.mul_le_mul_right Binary64.one (Binary64.nearest_mono 1 hlarger))
    rw [Binary64.ofInt?_eq_none_iff.2 hinfinite]
    rfl
  | some x =>
    have hunits := (Binary64.ofInt?_eq_some_iff.1 hstart).2
    have hsum : x.units * radix.value + digit * Binary64.one =
        (Binary64.nearest start 1 * radix.value + digit) * Binary64.one := by
      rw [hunits, Nat.add_mul, Nat.mul_right_comm]
    have happend : radix.append (.finite x) digit = .ofRounding false (Binary64.ofInt?
        (Binary64.nearest start 1 * radix.value + digit : Nat)) := by
      rw [append, hsum, ← Binary64.ofInt?_natCast]
    rw [Double.ofRounding, happend]
    split
    · next hsmall => rw [Binary64.nearest_of_lt hsmall]
    · next hlarge =>
      have hrounded : Binary64.nearest (Binary64.nearest start 1 * radix.value + digit) 1 =
          Binary64.nearest (start * radix.value) 1 := by
        rw [value_eq] at hdigit ⊢
        exact Binary64.nearest_nearest_mul_pow_add (Nat.not_lt.1 hlarge) hdigit
      rw [Nat.add_zero, Binary64.ofInt?_congr hrounded]

/-- After any number of digits the reader has the double of what counts. -/
theorem foldlM_ofInt? (start : Nat) {digits : List Char}
    (hdigits : ∀ c ∈ digits, radix.IsDigit c) :
    digits.foldlM (fun number c => (radix.digit? c).map (radix.append number))
        (.ofRounding false (Binary64.ofInt? start)) =
      some (.ofRounding false (Binary64.ofInt? (radix.counted start digits))) := by
  induction digits generalizing start with
  | nil => rfl
  | cons c rest ih =>
    obtain ⟨hdigit, hrest⟩ := List.forall_mem_cons.1 hdigits
    obtain ⟨hread, hless⟩ := digit?_eq_some hdigit
    rw [List.foldlM_cons, hread, Option.map_some, append_ofInt? start hless]
    exact ih _ hrest

private theorem number?_eq {digits : List Char} (hsome : digits ≠ [])
    (hdigits : ∀ c ∈ digits, radix.IsDigit c) :
    radix.number? digits =
      some (.ofRounding false (Binary64.ofInt? (radix.counted 0 digits))) := by
  have hzero : Binary64.ofInt? (0 : Nat) = some Binary64.zero := by
    rw [Binary64.ofInt?_eq_some_iff, Binary64.nearest_of_lt (by decide), Nat.zero_mul]
    exact ⟨rfl, rfl⟩
  have hread := foldlM_ofInt? 0 hdigits
  rw [hzero] at hread
  have hempty : digits.isEmpty = false := by simpa using hsome
  simp only [number?, hempty, Bool.false_eq_true, if_false]
  exact hread

/-- The number of a numeral behind a mark. -/
theorem numeral?_eq {mark : Char} {digits : List Char} (hmark : mark ∈ radix.marks)
    (hsome : digits ≠ []) (hdigits : ∀ c ∈ digits, radix.IsDigit c) :
    numeral? ('0' :: mark :: digits) = Binary64.ofInt? (radix.counted 0 digits) := by
  have htrim : Text.trim isNumericBlank ('0' :: mark :: digits) = '0' :: mark :: digits :=
    Text.trim_eq_self (Numeral.radix hmark hsome hdigits).kept
  have hspelled : spelled? ('0' :: mark :: digits) = radix.number? digits := by
    rw [spelled?, htrim]
    simp only [ofMark?_eq_some_iff.2 hmark]
  rw [numeral?, hspelled, number?_eq hsome hdigits, Option.bind_some, Double.finite?_ofRounding]

end Radix

/-- The decimal numeral of a whole number. -/
def plain (value : Nat) : Operand := some (.string (String.ofList (Decimal.digitChars value)))

/-- A numeral behind the mark of a base. -/
def marked (mark : Char) (digits : List Char) : Operand :=
  some (.string (String.ofList ('0' :: mark :: digits)))

private theorem toNumber?_plain (value : Nat) :
    (plain value).toNumber? = Binary64.ofInt? value := by
  have hread := numeral?_digitChars false value
  rw [signText, if_neg (by decide), List.nil_append, ← Binary64.ofInt?_natCast] at hread
  rw [plain, toNumber?, String.toList_ofList, hread]

private theorem toNumber?_marked {radix : Radix} {mark : Char} {digits : List Char}
    (hmark : mark ∈ radix.marks) (hsome : digits ≠ [])
    (hdigits : ∀ c ∈ digits, radix.IsDigit c) :
    (marked mark digits).toNumber? = Binary64.ofInt? (radix.counted 0 digits) := by
  rw [marked, toNumber?, String.toList_ofList, Radix.numeral?_eq hmark hsome hdigits]

private theorem eq_holds (left right : Operand) :
    Operator.eq.holds left right = (pair left right).equal :=
  rfl

/-- Beyond the doubles the spellings are different texts. -/
theorem eq_holds_plain_iff {mark : Char} {digits : List Char} {value : Nat}
    (hmark : mark.isDigit = false)
    (hsame : (marked mark digits).toNumber? = (plain value).toNumber?) :
    Operator.eq.holds (marked mark digits) (plain value) = true ↔
      (plain value).toNumber? ≠ none := by
  cases hplain : (plain value).toNumber? with
  | some x =>
    rw [Operator.holds_numbers_iff (pair_eq_numbers (hsame.trans hplain) hplain)]
    simp [Operator.Says]
  | none =>
    have hother : String.ofList ('0' :: mark :: digits) ≠
        String.ofList (Decimal.digitChars value) := by
      intro htext
      have hmem : mark ∈ Decimal.digitChars value := by
        rw [← String.ofList_injective htext]
        simp
      rw [digits_digitChars value mark hmem] at hmark
      cases hmark
    have hpair : pair (marked mark digits) (plain value) =
        .values (marked mark digits) (plain value) := pair_eq_values hplain rfl
    have hequal : Operator.eq.holds (marked mark digits) (plain value) =
        decide (String.ofList ('0' :: mark :: digits) =
          String.ofList (Decimal.digitChars value)) := by
      rw [eq_holds, hpair]
      rfl
    rw [hequal, decide_eq_true_iff]
    exact ⟨fun htext => absurd htext hother, fun hnumber => absurd rfl hnumber⟩

/-- Finite spellings of which one has digits that break a tie are different numbers. -/
theorem eq_holds_plain_of_breaksTie {radix : Radix} {mark : Char} {digits : List Char}
    (hmark : mark ∈ radix.marks) (hsome : digits ≠ [])
    (hdigits : ∀ c ∈ digits, radix.IsDigit c) (htie : radix.BreaksTie digits)
    (hfinite : Binary64.ofInt? (radix.whole digits) ≠ none) :
    (marked mark digits).toNumber? ≠ (plain (radix.whole digits)).toNumber? ∧
      Operator.eq.holds (marked mark digits) (plain (radix.whole digits)) = false := by
  obtain ⟨x, hx⟩ := Option.ne_none_iff_exists'.1 hfinite
  rw [ne_eq, ← Radix.ofInt?_counted_eq_none_iff hdigits] at hfinite
  obtain ⟨y, hy⟩ := Option.ne_none_iff_exists'.1 hfinite
  have hmarked := (toNumber?_marked hmark hsome hdigits).trans hy
  have hplain := (toNumber?_plain (radix.whole digits)).trans hx
  have hvalue : y.toInt ≠ x.toInt := by
    obtain ⟨hxsign, hxunits⟩ := Binary64.ofInt?_eq_some_iff.1 hx
    obtain ⟨hysign, hyunits⟩ := Binary64.ofInt?_eq_some_iff.1 hy
    simp only [Binary64.toInt, hxsign, hysign, Bool.false_eq_true, if_false, hxunits, hyunits]
    intro hsame
    exact Radix.nearest_counted_ne hdigits htie
      (Nat.eq_of_mul_eq_mul_right Binary64.one_pos (Int.ofNat_inj.1 hsame))
  constructor
  · rw [hmarked, hplain]
    rintro ⟨⟩
    exact hvalue rfl
  · rw [← Bool.not_eq_true, Operator.holds_numbers_iff (pair_eq_numbers hmarked hplain)]
    exact hvalue

private theorem Radix.isDigit_of_mem_marks {radix : Radix} {mark : Char}
    (hmark : mark ∈ radix.marks) :
    mark.isDigit = false := by
  cases radix <;> simp only [marks, List.mem_cons, List.not_mem_nil, or_false] at hmark <;>
    rcases hmark with rfl | rfl <;> rfl

/-- The spellings of one whole number. The decimal numeral is the double nearest to the number, or
no number when that is infinite; a numeral behind a mark is no number in the same cases. Unless its
digits break a tie, it is the same number, and the two spellings are equal just when they are
numbers; when they are none, they are different texts. -/
theorem spellings_of_one_number (radix : Radix) {mark : Char} {digits : List Char}
    (hmark : mark ∈ radix.marks) (hsome : digits ≠ []) (hdigits : ∀ c ∈ digits, radix.IsDigit c) :
    (plain (radix.whole digits)).toNumber? = Binary64.ofInt? (radix.whole digits) ∧
    (∀ x, Binary64.ofInt? (radix.whole digits) = some x → x.IsNearest (radix.whole digits)) ∧
    ((marked mark digits).toNumber? = none ↔ (plain (radix.whole digits)).toNumber? = none) ∧
    (¬ radix.BreaksTie digits →
      (marked mark digits).toNumber? = (plain (radix.whole digits)).toNumber? ∧
      (Operator.eq.holds (marked mark digits) (plain (radix.whole digits)) = true ↔
        (plain (radix.whole digits)).toNumber? ≠ none) ∧
      (Operator.eq.holds (plain (radix.whole digits)) (marked mark digits) = true ↔
        (plain (radix.whole digits)).toNumber? ≠ none)) := by
  have hmarked := toNumber?_marked hmark hsome hdigits
  have hplain := toNumber?_plain (radix.whole digits)
  refine ⟨hplain, fun x hx z => ?_, ?_, fun htie => ?_⟩
  · rw [Binary64.toInt_of_ofInt? hx]
    exact Binary64.natAbs_rounded_le _ z
  · rw [hmarked, hplain]
    exact Radix.ofInt?_counted_eq_none_iff hdigits
  · have hsame : (marked mark digits).toNumber? = (plain (radix.whole digits)).toNumber? := by
      rw [hmarked, hplain]
      exact Binary64.ofInt?_congr (Radix.nearest_counted hdigits htie)
    have hequal := eq_holds_plain_iff (Radix.isDigit_of_mem_marks hmark) hsame
    have hswap : Operator.eq.holds (plain (radix.whole digits)) (marked mark digits) =
        Operator.eq.holds (marked mark digits) (plain (radix.whole digits)) := by
      rw [eq_holds, eq_holds, ← pair_swap, Pair.equal_swap]
    exact ⟨hsame, hequal, hswap ▸ hequal⟩

/-- A numeral of 65 binary digits, which is rounded but breaks no tie, and its decimal spelling. -/
theorem long_hexadecimal_equals_decimal :
    'X' ∈ Radix.hexadecimal.marks ∧ ['1', 'f', 'F'] ++ List.replicate 14 'A' ≠ [] ∧
    (∀ c ∈ ['1', 'f', 'F'] ++ List.replicate 14 'A', Radix.hexadecimal.IsDigit c) ∧
    ¬ Radix.hexadecimal.BreaksTie (['1', 'f', 'F'] ++ List.replicate 14 'A') ∧
    Operator.eq.holds (marked 'X' (['1', 'f', 'F'] ++ List.replicate 14 'A'))
      (plain (Radix.hexadecimal.whole (['1', 'f', 'F'] ++ List.replicate 14 'A'))) = true := by
  have hmark : 'X' ∈ Radix.hexadecimal.marks := by decide
  have hsome : ['1', 'f', 'F'] ++ List.replicate 14 'A' ≠ [] := by decide
  have hdigits : ∀ c ∈ ['1', 'f', 'F'] ++ List.replicate 14 'A',
      Radix.hexadecimal.IsDigit c := by simp [Radix.IsDigit]
  have htie : ¬ Radix.hexadecimal.BreaksTie (['1', 'f', 'F'] ++ List.replicate 14 'A') := by
    decide +kernel
  have hfinite : (Binary64.ofInt?
      (Radix.hexadecimal.whole (['1', 'f', 'F'] ++ List.replicate 14 'A'))) ≠ none := by
    decide +kernel
  obtain ⟨hplain, -, -, hequal⟩ :=
    spellings_of_one_number Radix.hexadecimal hmark hsome hdigits
  refine ⟨hmark, hsome, hdigits, htie, ((hequal htie).2.1).2 ?_⟩
  rw [hplain]
  exact hfinite

/-- Spellings of one number that are not equal: of a number beyond the doubles, which is no number
in either spelling, and of one whose digits break a tie, which is a different number in each. -/
theorem spellings_of_one_number_differ :
    ('x' ∈ Radix.hexadecimal.marks ∧
      (∀ c ∈ '1' :: List.replicate 256 '0', Radix.hexadecimal.IsDigit c) ∧
      Operator.eq.holds (marked 'x' ('1' :: List.replicate 256 '0'))
        (plain (Radix.hexadecimal.whole ('1' :: List.replicate 256 '0'))) = false) ∧
    (∀ c ∈ '2' :: List.replicate 12 '0' ++ ['1', '1'], Radix.hexadecimal.IsDigit c) ∧
    Radix.hexadecimal.whole ('2' :: List.replicate 12 '0' ++ ['1', '1']) = 144115188075855889 ∧
    (marked 'x' ('2' :: List.replicate 12 '0' ++ ['1', '1'])).toNumber? ≠
      (plain 144115188075855889).toNumber? ∧
    Operator.eq.holds (marked 'x' ('2' :: List.replicate 12 '0' ++ ['1', '1']))
      (plain 144115188075855889) = false := by
  have hmark : 'x' ∈ Radix.hexadecimal.marks := by decide
  have hdigits : ∀ c ∈ '1' :: List.replicate 256 '0', Radix.hexadecimal.IsDigit c := by
    refine List.forall_mem_cons.2 ⟨by simp [Radix.IsDigit], fun c hc => ?_⟩
    rw [List.eq_of_mem_replicate hc]
    simp [Radix.IsDigit]
  have hdigits' : ∀ c ∈ '2' :: List.replicate 12 '0' ++ ['1', '1'],
      Radix.hexadecimal.IsDigit c := by simp [Radix.IsDigit]
  have hwhole : Radix.hexadecimal.whole ('2' :: List.replicate 12 '0' ++ ['1', '1']) =
      144115188075855889 := by decide +kernel
  refine ⟨⟨hmark, hdigits, ?_⟩, hdigits', hwhole, ?_⟩
  · have hlarge : Binary64.ceiling ≤
        Radix.hexadecimal.whole ('1' :: List.replicate 256 '0') * Binary64.one := by
      decide +kernel
    have hplain : (plain (Radix.hexadecimal.whole ('1' :: List.replicate 256 '0'))).toNumber? =
        none := by
      rw [toNumber?_plain, Binary64.ofInt?_natCast, Decimal.ofQuotient?_eq_none hlarge]
    have hmarked : (marked 'x' ('1' :: List.replicate 256 '0')).toNumber? = none := by
      rw [toNumber?_marked hmark (List.cons_ne_nil _ _) hdigits,
        Radix.ofInt?_counted_eq_none_iff hdigits, ← toNumber?_plain, hplain]
    rw [← Bool.not_eq_true, eq_holds_plain_iff rfl (hmarked.trans hplain.symm), hplain]
    simp
  · have htie : Radix.hexadecimal.BreaksTie ('2' :: List.replicate 12 '0' ++ ['1', '1']) := by
      decide +kernel
    rw [← hwhole]
    exact eq_holds_plain_of_breaksTie hmark (List.cons_ne_nil _ _) hdigits' htie (by decide +kernel)

end Abac.Operand
