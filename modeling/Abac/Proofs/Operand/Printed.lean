import Abac.Json.Printer
import Abac.Proofs.Number.Decimals
import Abac.Proofs.Operand.Numerals

/-!
Numbers read back from their text. Digits are laid out with a point or with an exponent, and in each
layout the reader finds a decimal of the same value; so what a number is printed as is a numeral,
and spells that number.
-/

namespace Abac

theorem Double.finite?_ofRounding (negative : Bool) (value? : Option Binary64) :
    (ofRounding negative value?).finite? = value? := by
  cases value? <;> rfl

namespace Operand

/-- The sign of a negative number, and nothing for others. -/
def signText (negative : Bool) : List Char := if negative then ['-'] else []

private theorem signed_signText (negative : Bool) {rest : List Char}
    (hrest : ∀ c ∈ rest.head?, c ≠ '+' ∧ c ≠ '-') :
    Decimal.signed (signText negative ++ rest) = (negative, rest) := by
  cases negative with
  | true => rfl
  | false =>
    simp only [signText, Bool.false_eq_true, if_false, List.nil_append]
    unfold Decimal.signed
    split
    · exact absurd rfl (hrest '-' rfl).2
    · exact absurd rfl (hrest '+' rfl).1
    · rfl

/-- A text made of the parts of a decimal numeral is read as the decimal of these parts. -/
theorem decimal?_of_parts (negative : Bool) {whole point fraction tail : List Char} {power : Int}
    (hwhole : Digits whole) (hpoint : Fraction point fraction)
    (hsome : whole ≠ [] ∨ fraction ≠ [])
    (hpower : Decimal.exponentPart tail = some (power, [])) :
    decimal? (signText negative ++ (whole ++ (point ++ tail))) =
      some (.ofRounding negative
        ((Decimal.ofParts whole fraction power).toBinary64? negative)) := by
  have hexponent : Exponent tail := exponentPart_eq_nil_iff.1 ⟨power, hpower⟩
  have hsigned : Decimal.signed (signText negative ++ (whole ++ (point ++ tail))) =
      (negative, whole ++ (point ++ tail)) :=
    signed_signText negative fun c hc => head_of_parts hwhole hpoint hsome hc
  have hspan : Decimal.spanDigits (whole ++ (point ++ tail)) = (whole, point ++ tail) :=
    spanDigits_append hwhole fun c hc => hpoint.head_append hexponent hc
  have hfraction : Decimal.fractionPart (point ++ tail) = (fraction, tail) :=
    fractionPart_append hpoint fun c hc => hexponent.head hc
  have hkept : (whole.isEmpty && fraction.isEmpty) = false := by
    simpa [imp_iff_not_or] using hsome
  simp [decimal?, hsigned, hspan, hfraction, hkept, hpower]

/-- A decimal numeral has no blanks around it and no mark of a base. -/
theorem numeral?_of_decimal? {chars : List Char} {number : Double}
    (hread : decimal? chars = some number) : numeral? chars = number.finite? := by
  have hsome : (decimal? chars).isSome = true := by
    rw [hread]
    rfl
  have htrim : Text.trim isNumericBlank chars = chars :=
    Text.trim_eq_self (numeral_iff.2 (.inr (.inl hsome))).kept
  have hspelled : spelled? chars = some number := by
    unfold spelled?
    rw [htrim]
    split
    · cases hread
    · next mark digits =>
      split
      · next radix hmark =>
        rw [Radix.decimal?_of_mark (Radix.ofMark?_eq_some_iff.1 hmark)] at hread
        cases hread
      · exact hread
    · exact hread
  rw [numeral?, hspelled, Option.bind_some]

private theorem numeral?_of_parts (negative : Bool) {whole point fraction tail : List Char}
    {power : Int}
    (hwhole : Digits whole) (hpoint : Fraction point fraction)
    (hsome : whole ≠ [] ∨ fraction ≠ [])
    (hpower : Decimal.exponentPart tail = some (power, [])) :
    numeral? (signText negative ++ (whole ++ (point ++ tail))) =
      (Decimal.ofParts whole fraction power).toBinary64? negative := by
  rw [numeral?_of_decimal? (decimal?_of_parts negative hwhole hpoint hsome hpower),
    Double.finite?_ofRounding]

/-- Without an exponent. -/
theorem numeral?_of_mantissa (negative : Bool) {whole point fraction : List Char}
    (hwhole : Digits whole) (hpoint : Fraction point fraction)
    (hsome : whole ≠ [] ∨ fraction ≠ []) :
    numeral? (signText negative ++ (whole ++ point)) =
      (Decimal.ofParts whole fraction 0).toBinary64? negative := by
  have hnone : Decimal.exponentPart [] = some (0, []) := rfl
  have hread := numeral?_of_parts negative hwhole hpoint hsome hnone
  rwa [List.append_nil] at hread

theorem Digits.append {front back : List Char} (hfront : Digits front) (hback : Digits back) :
    Digits (front ++ back) :=
  List.forall_mem_append.2 ⟨hfront, hback⟩

theorem Digits.take {digits : List Char} (hdigits : Digits digits) (count : Nat) :
    Digits (digits.take count) :=
  fun c hc => hdigits c (List.mem_of_mem_take hc)

theorem Digits.drop {digits : List Char} (hdigits : Digits digits) (count : Nat) :
    Digits (digits.drop count) :=
  fun c hc => hdigits c (List.mem_of_mem_drop hc)

theorem digits_zeros (count : Nat) : Digits (List.replicate count '0') := by
  intro c hc
  rw [List.eq_of_mem_replicate hc]
  rfl

theorem digits_digitChars (value : Nat) : Digits (Decimal.digitChars value) :=
  fun _ hc => Nat.isDigit_of_mem_toDigits (by decide) (by decide) hc

theorem digitChars_ne_nil (value : Nat) : Decimal.digitChars value ≠ [] :=
  Nat.toDigits_ne_nil

/-- Zeros behind digits are powers of ten. -/
theorem ofDigitChars_append_zeros (digits : List Char) (count : Nat) :
    Decimal.ofDigitChars (digits ++ List.replicate count '0') =
      Decimal.ofDigitChars digits * Nat.pow 10 count := by
  rw [Decimal.ofDigitChars, Nat.ofDigitChars_append, Nat.ofDigitChars_replicate_zero,
    Nat.mul_comm]
  rfl

/-- Zeros in front of digits are nothing. -/
theorem ofDigitChars_zeros_append (count : Nat) (digits : List Char) :
    Decimal.ofDigitChars (List.replicate count '0' ++ digits) = Decimal.ofDigitChars digits := by
  rw [Decimal.ofDigitChars, Nat.ofDigitChars_append, Nat.ofDigitChars_replicate_zero,
    Nat.mul_zero]
  rfl

/-- The digits of a decimal are the significant ones and zeros. -/
theorem exists_digitChars_eq {d : Decimal} (hdigits : d.digits ≠ 0) : ∃ count,
    Decimal.digitChars d.digits = d.significant ++ List.replicate count '0' ∧
      d.significant ≠ [] := by
  have hzeros : ∀ c ∈ ((Decimal.digitChars d.digits).reverse.takeWhile (· = '0')).reverse,
      c = '0' := by
    intro c hc
    simpa using List.mem_takeWhile_imp (List.mem_reverse.1 hc)
  have hsplit : Decimal.digitChars d.digits = d.significant ++
      ((Decimal.digitChars d.digits).reverse.takeWhile (· = '0')).reverse := by
    rw [Decimal.significant, ← List.reverse_append, List.takeWhile_append_dropWhile,
      List.reverse_reverse]
  rw [List.eq_replicate_iff.2 ⟨rfl, hzeros⟩] at hsplit
  refine ⟨_, hsplit, fun hnone => hdigits ?_⟩
  have hvalue := Decimal.ofDigitChars_digitChars d.digits
  rw [hsplit, hnone, ofDigitChars_append_zeros] at hvalue
  rw [← hvalue]
  exact Nat.zero_mul _

theorem digits_significant (d : Decimal) : Digits d.significant := by
  intro c hc
  have hmem := (List.dropWhile_suffix _).subset (List.mem_reverse.1 hc)
  exact digits_digitChars _ c (List.mem_reverse.1 hmem)

private theorem exponentPart_exponentText (exponent : Int) :
    Decimal.exponentPart ('e' :: Decimal.exponentText exponent) = some (exponent, []) := by
  have hspan : Decimal.spanDigits (Decimal.digitChars exponent.natAbs) =
      (Decimal.digitChars exponent.natAbs, []) := by
    have happend : Decimal.spanDigits (Decimal.digitChars exponent.natAbs ++ []) =
        (Decimal.digitChars exponent.natAbs, []) :=
      spanDigits_append (digits_digitChars _) (by simp)
    rwa [List.append_nil] at happend
  have hsigned : Decimal.signed (Decimal.exponentText exponent) =
      (decide (exponent < 0), Decimal.digitChars exponent.natAbs) := by
    by_cases hneg : exponent < 0
    · simp [Decimal.exponentText, hneg, Decimal.signed]
    · simp [Decimal.exponentText, hneg, Decimal.signed]
  obtain ⟨c, rest, hcons⟩ := List.exists_cons_of_ne_nil (digitChars_ne_nil exponent.natAbs)
  have hvalue := Decimal.ofDigitChars_digitChars exponent.natAbs
  rw [hcons] at hspan hsigned hvalue
  simp only [Decimal.exponentPart, true_or, if_true, hsigned, hspan, hvalue, decide_eq_true_eq]
  split
  · have habs : -(exponent.natAbs : Int) = exponent := by omega
    rw [habs]
  · have habs : (exponent.natAbs : Int) = exponent := by omega
    rw [habs]

/-- However digits are laid out, they are read as what they stand for. -/
theorem numeral?_layout (negative : Bool) {digits : List Char} (hdigits : Digits digits)
    (hsome : digits ≠ []) (exponent : Int) :
    numeral? (signText negative ++ Decimal.layout digits exponent) =
      Decimal.toBinary64? negative
        ⟨Decimal.ofDigitChars digits, exponent + 1 - digits.length⟩ := by
  have hlength : 0 < digits.length := List.length_pos_iff.2 hsome
  rw [Decimal.layout]
  split
  · next hsmall =>
    -- zeros behind the point, and then the digits
    have hzeros := (digits_zeros (-exponent - 1).toNat).append hdigits
    have hread := numeral?_of_mantissa negative (digits_zeros 1) (.some hzeros) (.inl (by simp))
    have hvalue : Decimal.ofParts (List.replicate 1 '0')
        (List.replicate (-exponent - 1).toNat '0' ++ digits) 0 =
          ⟨Decimal.ofDigitChars digits, exponent + 1 - digits.length⟩ := by
      rw [Decimal.ofParts, ofDigitChars_zeros_append, ofDigitChars_zeros_append,
        List.length_append, List.length_replicate]
      congr 1
      omega
    rw [hvalue] at hread
    exact hread
  · split
    · next hlarge =>
      dsimp only
      split
      · next hshort =>
        -- the digits, zeros up to the point, and a zero behind it
        have hpoint : Fraction ['.', '0'] ['0'] := .some (digits_zeros 1)
        have hzeros := hdigits.append (digits_zeros (exponent.toNat + 1 - digits.length))
        have hread := numeral?_of_mantissa negative hzeros hpoint (.inr (by simp))
        have hparts : Decimal.ofParts
            (digits ++ List.replicate (exponent.toNat + 1 - digits.length) '0') ['0'] 0 =
              ⟨Decimal.ofDigitChars digits *
                Nat.pow 10 (exponent.toNat + 1 - digits.length + 1), -1⟩ := by
          rw [← ofDigitChars_append_zeros, List.replicate_succ', ← List.append_assoc]
          rfl
        have hexponent : (-1 : Int) + (exponent.toNat + 1 - digits.length + 1 : Nat) =
            exponent + 1 - digits.length := by omega
        rw [hparts, Decimal.toBinary64?_mul_pow, hexponent] at hread
        exact hread
      · next hlong =>
        -- the point stands among the digits
        have hread := numeral?_of_mantissa negative (hdigits.take (exponent.toNat + 1))
          (.some (hdigits.drop (exponent.toNat + 1))) (.inl (by simpa using hsome))
        have hvalue : Decimal.ofParts (digits.take (exponent.toNat + 1))
            (digits.drop (exponent.toNat + 1)) 0 =
              ⟨Decimal.ofDigitChars digits, exponent + 1 - digits.length⟩ := by
          rw [Decimal.ofParts, List.take_append_drop, List.length_drop]
          congr 1
          omega
        rw [hvalue] at hread
        exact hread
    · -- one digit, the others behind a point, and the exponent
      have hpoint : Fraction (if digits.length ≤ 1 then [] else '.' :: digits.drop 1)
          (digits.drop 1) := by
        split
        · next hone =>
          rw [List.drop_eq_nil_of_le hone]
          exact .none
        · exact .some (hdigits.drop 1)
      have hread := numeral?_of_parts negative (hdigits.take 1) hpoint
        (.inl (by simpa using hsome)) (exponentPart_exponentText exponent)
      have hvalue : Decimal.ofParts (digits.take 1) (digits.drop 1) exponent =
          ⟨Decimal.ofDigitChars digits, exponent + 1 - digits.length⟩ := by
        rw [Decimal.ofParts, List.take_append_drop, List.length_drop]
        congr 1
        omega
      rw [hvalue] at hread
      rw [List.append_assoc]
      exact hread

private theorem numeral?_zero {x : Binary64} (hzero : x.units = 0) :
    numeral? (signText x.negative ++ ['0', '.', '0']) = some x := by
  have hpoint : Fraction ['.', '0'] ['0'] := .some (digits_zeros 1)
  have hread := numeral?_of_mantissa x.negative (digits_zeros 1) hpoint (.inr (by simp))
  have hdigits : (Decimal.ofParts (List.replicate 1 '0') ['0'] 0).digits = 0 :=
    ofDigitChars_zeros_append 2 []
  rw [Decimal.toBinary64?, if_pos hdigits] at hread
  rw [List.replicate_one, List.singleton_append] at hread
  rw [hread, Binary64.ofQuotient?_eq_some_iff, Binary64.nearest_of_dvd (Nat.dvd_zero _)]
  exact ⟨rfl, hzero⟩

/-- The significant digits of a decimal stand for it in every layout. -/
theorem numeral?_layout_significant (negative : Bool) {d : Decimal} (hdigits : d.digits ≠ 0) :
    numeral? (signText negative ++ Decimal.layout d.significant d.leadingExponent) =
      d.toBinary64? negative := by
  obtain ⟨count, hchars, hsome⟩ := exists_digitChars_eq hdigits
  have hvalue : d.digits = Decimal.ofDigitChars d.significant * Nat.pow 10 count := by
    rw [← ofDigitChars_append_zeros, ← hchars, Decimal.ofDigitChars_digitChars]
  have hexponent : d.leadingExponent + 1 - d.significant.length = d.exponent + count := by
    rw [Decimal.leadingExponent, Decimal.digitCount, hchars, List.length_append,
      List.length_replicate]
    omega
  rw [numeral?_layout negative (digits_significant d) hsome, hexponent,
    ← Decimal.toBinary64?_mul_pow, ← hvalue]

/-- Every double is read back from its text, the zeros of both signs included. -/
theorem numeral?_toText (x : Binary64) : numeral? x.toText = some x := by
  rw [Binary64.toText]
  split
  · next hzero => exact numeral?_zero hzero
  · next hsome =>
    have hpos : 0 < x.units := Nat.pos_of_ne_zero hsome
    obtain ⟨y, hy, hunits⟩ := Decimal.reads_shortest x.representable hpos
    have hread := numeral?_layout_significant x.negative
      (Decimal.digits_shortest x.representable hpos)
    rw [Decimal.toBinary64?_eq_some hy hunits.symm] at hread
    exact hread

/-- The digits of a whole number are read as the double nearest to it. -/
theorem numeral?_digitChars (negative : Bool) (value : Nat) :
    numeral? (signText negative ++ Decimal.digitChars value) =
      Binary64.ofQuotient? negative (value * Binary64.one) 1 := by
  have hread := numeral?_of_mantissa negative (digits_digitChars value) .none
    (.inl (digitChars_ne_nil value))
  have hvalue : Decimal.ofParts (Decimal.digitChars value) [] 0 = ⟨value, 0⟩ := by
    rw [Decimal.ofParts, List.append_nil, Decimal.ofDigitChars_digitChars]
    rfl
  rw [hvalue, Decimal.toBinary64?_whole, List.append_nil] at hread
  exact hread

/-- The text of a number spells the double that the number converts to. -/
theorem numeral?_chars (number : Number) : numeral? number.chars = number.toBinary64? := by
  cases number with
  | real x => exact numeral?_toText x
  | int value =>
    have hchars : Number.chars (.int value) =
        signText (decide (value < 0)) ++ Decimal.digitChars value.natAbs := by
      by_cases hneg : value < 0
      · simp [Number.chars, signText, hneg]
      · simp [Number.chars, signText, hneg]
    rw [hchars, numeral?_digitChars]
    rfl

end Operand

end Abac
