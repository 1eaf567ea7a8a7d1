import Mathlib.Data.List.TakeDrop
import Abac.Operand.Numeral
import Abac.Proofs.Text.Trim

/-!
Which texts are numbers. The reader takes a text apart from the front; the grammar says what a
numeral looks like as a whole. For each part that the reader takes there is what it has taken, and,
in the other direction, that it takes just that part when something else stands behind it.
-/

namespace Abac.Operand

def Blanks (chars : List Char) : Prop := ∀ c ∈ chars, isNumericBlank c = true

/-- Digits in base ten, perhaps none. -/
def Digits (chars : List Char) : Prop := ∀ c ∈ chars, c.isDigit = true

/-- A sign or none. -/
inductive Sign : List Char → Prop
  | none : Sign []
  | plus : Sign ['+']
  | minus : Sign ['-']

/-- At least one digit, and at most one point before, among or behind the digits. -/
inductive Mantissa : List Char → Prop
  | whole {digits : List Char} : digits ≠ [] → Digits digits → Mantissa digits
  | pointed {digits fraction : List Char} : digits ≠ [] → Digits digits → Digits fraction →
      Mantissa (digits ++ '.' :: fraction)
  | fraction {fraction : List Char} : fraction ≠ [] → Digits fraction → Mantissa ('.' :: fraction)

/-- An exponent or none. -/
inductive Exponent : List Char → Prop
  | none : Exponent []
  | some {mark : Char} {sign digits : List Char} : mark = 'e' ∨ mark = 'E' → Sign sign →
      digits ≠ [] → Digits digits → Exponent (mark :: (sign ++ digits))

namespace Radix

/-- The digits of a base. -/
def IsDigit : Radix → Char → Prop
  | hexadecimal, c => c.isDigit = true ∨ ('a' ≤ c ∧ c ≤ 'f') ∨ ('A' ≤ c ∧ c ≤ 'F')
  | octal, c => '0' ≤ c ∧ c ≤ '7'
  | binary, c => c = '0' ∨ c = '1'

/-- The letters that mark a base. -/
def marks : Radix → List Char
  | hexadecimal => ['x', 'X']
  | octal => ['o', 'O']
  | binary => ['b', 'B']

end Radix

/-- The texts that are numbers, without the blanks around them. -/
inductive Numeral : List Char → Prop
  | empty : Numeral []
  | decimal {sign mantissa exponent : List Char} : Sign sign → Mantissa mantissa →
      Exponent exponent → Numeral (sign ++ mantissa ++ exponent)
  | radix {radix : Radix} {mark : Char} {digits : List Char} : mark ∈ radix.marks →
      digits ≠ [] → (∀ c ∈ digits, radix.IsDigit c) → Numeral ('0' :: mark :: digits)

private theorem exists_sign (chars : List Char) :
    ∃ sign, Sign sign ∧ sign ++ (Decimal.signed chars).2 = chars := by
  unfold Decimal.signed
  split
  · exact ⟨['-'], .minus, rfl⟩
  · exact ⟨['+'], .plus, rfl⟩
  · exact ⟨[], .none, rfl⟩

private theorem signed_append {sign rest : List Char} (hsign : Sign sign)
    (hrest : ∀ c ∈ rest.head?, c ≠ '+' ∧ c ≠ '-') : (Decimal.signed (sign ++ rest)).2 = rest := by
  cases hsign with
  | plus => rfl
  | minus => rfl
  | none =>
    rw [List.nil_append]
    unfold Decimal.signed
    split
    · exact absurd rfl (hrest '-' rfl).2
    · exact absurd rfl (hrest '+' rfl).1
    · rfl

private theorem Digits.head_ne {digits : List Char} (hdigits : Digits digits) {c other : Char}
    (hhead : c ∈ digits.head?) (hother : other.isDigit = false) : c ≠ other := by
  rintro rfl
  have hdigit := hdigits c (List.mem_of_mem_head? hhead)
  rw [hother] at hdigit
  cases hdigit

private theorem digits_spanDigits (chars : List Char) :
    Digits (Decimal.spanDigits chars).1 ∧
      (Decimal.spanDigits chars).1 ++ (Decimal.spanDigits chars).2 = chars := by
  rw [Decimal.spanDigits, List.span_eq_takeWhile_dropWhile]
  exact ⟨fun c hc => List.mem_takeWhile_imp hc, List.takeWhile_append_dropWhile⟩

theorem spanDigits_append {digits rest : List Char} (hdigits : Digits digits)
    (hrest : ∀ c ∈ rest.head?, c.isDigit = false) :
    Decimal.spanDigits (digits ++ rest) = (digits, rest) := by
  rw [Decimal.spanDigits, List.span_eq_takeWhile_dropWhile,
    List.takeWhile_append_of_pos hdigits, List.dropWhile_append_of_pos hdigits]
  cases rest with
  | nil => simp
  | cons c rest => simp [hrest c rfl]

/-- A point and the digits behind it, or nothing. -/
inductive Fraction : List Char → List Char → Prop
  | none : Fraction [] []
  | some {digits : List Char} : Digits digits → Fraction ('.' :: digits) digits

private theorem exists_fraction (chars : List Char) :
    ∃ point, Fraction point (Decimal.fractionPart chars).1 ∧
      point ++ (Decimal.fractionPart chars).2 = chars := by
  unfold Decimal.fractionPart
  split
  · next rest =>
    obtain ⟨hdigits, happend⟩ := digits_spanDigits rest
    exact ⟨_, .some hdigits, congrArg ('.' :: ·) happend⟩
  · exact ⟨[], .none, rfl⟩

theorem fractionPart_append {point fraction rest : List Char} (hpoint : Fraction point fraction)
    (hrest : ∀ c ∈ rest.head?, c.isDigit = false ∧ c ≠ '.') :
    Decimal.fractionPart (point ++ rest) = (fraction, rest) := by
  cases hpoint with
  | some hdigits =>
    exact spanDigits_append hdigits fun c hc => (hrest c hc).1
  | none =>
    rw [List.nil_append]
    unfold Decimal.fractionPart
    split
    · exact absurd rfl (hrest '.' rfl).2
    · rfl

/-- The parts of a mantissa: digits, perhaps a point with digits, and not only a point. -/
theorem mantissa_iff {chars : List Char} :
    Mantissa chars ↔ ∃ whole point fraction, chars = whole ++ point ∧ Digits whole ∧
      Fraction point fraction ∧ (whole ≠ [] ∨ fraction ≠ []) := by
  constructor
  · rintro (⟨hsome, hdigits⟩ | ⟨hsome, hdigits, hfraction⟩ | ⟨hsome, hfraction⟩)
    · exact ⟨chars, [], [], by simp, hdigits, .none, .inl hsome⟩
    · exact ⟨_, _, _, rfl, hdigits, .some hfraction, .inl hsome⟩
    · exact ⟨[], _, _, rfl, by simp [Digits], .some hfraction, .inr hsome⟩
  · rintro ⟨whole, point, fraction, rfl, hwhole, hpoint, hsome⟩
    cases hpoint with
    | none =>
      rw [List.append_nil]
      exact .whole (hsome.resolve_right fun hfraction => hfraction rfl) hwhole
    | some hfraction =>
      by_cases hempty : whole = []
      · subst hempty
        exact .fraction (hsome.resolve_left fun hwhole => hwhole rfl) hfraction
      · exact .pointed hempty hwhole hfraction

/-- An exponent part takes the whole of a text when digits and nothing else stand behind the mark
and the sign. -/
theorem exponentPart_of_mark {mark : Char} (hmark : mark = 'e' ∨ mark = 'E') (rest : List Char) :
    (∃ exponent, Decimal.exponentPart (mark :: rest) = some (exponent, [])) ↔
      (Decimal.spanDigits (Decimal.signed rest).2).1 ≠ [] ∧
        (Decimal.spanDigits (Decimal.signed rest).2).2 = [] := by
  simp only [Decimal.exponentPart, if_pos hmark]
  cases Decimal.spanDigits (Decimal.signed rest).2 with
  | mk digits behind => cases digits <;> simp

/-- The reader of exponents takes a whole text just when it is an exponent or empty. -/
theorem exponentPart_eq_nil_iff {chars : List Char} :
    (∃ exponent, Decimal.exponentPart chars = some (exponent, [])) ↔ Exponent chars := by
  constructor
  · intro hread
    cases chars with
    | nil => exact .none
    | cons mark rest =>
      by_cases hmark : mark = 'e' ∨ mark = 'E'
      · obtain ⟨hsome, hbehind⟩ := (exponentPart_of_mark hmark rest).1 hread
        obtain ⟨sign, hsign, hrest⟩ := exists_sign rest
        obtain ⟨hdigits, hunsigned⟩ := digits_spanDigits (Decimal.signed rest).2
        rw [hbehind, List.append_nil] at hunsigned
        rw [← hrest, ← hunsigned]
        exact .some hmark hsign hsome hdigits
      · obtain ⟨exponent, hexponent⟩ := hread
        rw [Decimal.exponentPart, if_neg hmark] at hexponent
        cases hexponent
  · rintro (_ | @⟨mark, sign, digits, hmark, hsign, hsome, hdigits⟩)
    · exact ⟨0, rfl⟩
    · have hunsigned : (Decimal.signed (sign ++ digits)).2 = digits := by
        apply signed_append hsign
        intro c hc
        exact ⟨hdigits.head_ne hc rfl, hdigits.head_ne hc rfl⟩
      have hspan : Decimal.spanDigits digits = (digits, []) := by
        have happend : Decimal.spanDigits (digits ++ []) = (digits, []) :=
          spanDigits_append hdigits (by simp)
        rwa [List.append_nil] at happend
      rw [exponentPart_of_mark hmark, hunsigned, hspan]
      exact ⟨hsome, rfl⟩

/-- What the reader of decimal numerals asks of the parts that it takes off a text. -/
theorem isSome_decimal?_iff {chars : List Char} :
    (decimal? chars).isSome = true ↔
      ((Decimal.spanDigits (Decimal.signed chars).2).1 ≠ [] ∨
        (Decimal.fractionPart (Decimal.spanDigits (Decimal.signed chars).2).2).1 ≠ []) ∧
      ∃ exponent, Decimal.exponentPart
        (Decimal.fractionPart (Decimal.spanDigits (Decimal.signed chars).2).2).2 =
          some (exponent, []) := by
  simp only [decimal?]
  generalize (Decimal.spanDigits (Decimal.signed chars).2).1 = whole
  generalize Decimal.fractionPart (Decimal.spanDigits (Decimal.signed chars).2).2 = behind
  have hempty : (whole.isEmpty && behind.1.isEmpty) = true ↔ ¬ (whole ≠ [] ∨ behind.1 ≠ []) := by
    simp
  split
  · next hnone => simp [hempty.1 hnone]
  · next hkept =>
    have hsome : whole ≠ [] ∨ behind.1 ≠ [] := by
      rwa [hempty, not_not] at hkept
    simp only [hsome, true_and]
    rcases Decimal.exponentPart behind.2 with _ | ⟨exponent, _ | ⟨c, rest⟩⟩
    · simp
    · simp
    · simp

theorem Exponent.head {exponent : List Char} (hexponent : Exponent exponent) {c : Char}
    (hhead : c ∈ exponent.head?) : c.isDigit = false ∧ c ≠ '.' := by
  cases hexponent with
  | none => cases hhead
  | some hmark =>
    cases hhead
    rcases hmark with rfl | rfl
    · decide
    · decide

/-- What stands behind a sign begins with a digit or a point, so it has no sign of its own. -/
theorem head_of_parts {whole point fraction rest : List Char} (hwhole : Digits whole)
    (hpoint : Fraction point fraction) (hsome : whole ≠ [] ∨ fraction ≠ []) {c : Char}
    (hhead : c ∈ (whole ++ (point ++ rest)).head?) : c ≠ '+' ∧ c ≠ '-' := by
  cases whole with
  | cons first others =>
    have hdigits : c ∈ (first :: others).head? := hhead
    exact ⟨hwhole.head_ne hdigits rfl, hwhole.head_ne hdigits rfl⟩
  | nil =>
    cases hpoint with
    | none => exact absurd rfl (hsome.resolve_left fun hwhole => hwhole rfl)
    | some hdigits =>
      cases hhead
      decide

/-- The digits in front of a point or an exponent end there. -/
theorem Fraction.head_append {point fraction exponent : List Char}
    (hpoint : Fraction point fraction) (hexponent : Exponent exponent) {c : Char}
    (hhead : c ∈ (point ++ exponent).head?) : c.isDigit = false := by
  cases hpoint with
  | none => exact (hexponent.head hhead).1
  | some hdigits =>
    cases hhead
    rfl

/-- The reader takes every decimal numeral of the grammar. -/
theorem isSome_decimal?_append {sign mantissa exponent : List Char} (hsign : Sign sign)
    (hmantissa : Mantissa mantissa) (hexponent : Exponent exponent) :
    (decimal? (sign ++ mantissa ++ exponent)).isSome = true := by
  obtain ⟨whole, point, fraction, rfl, hwhole, hpoint, hsome⟩ := mantissa_iff.1 hmantissa
  have hsigned : (Decimal.signed (sign ++ (whole ++ point) ++ exponent)).2 =
      whole ++ (point ++ exponent) := by
    rw [List.append_assoc, List.append_assoc]
    exact signed_append hsign fun c hc => head_of_parts hwhole hpoint hsome hc
  have hspan : Decimal.spanDigits (whole ++ (point ++ exponent)) = (whole, point ++ exponent) :=
    spanDigits_append hwhole fun c hc => hpoint.head_append hexponent hc
  have hfraction : Decimal.fractionPart (point ++ exponent) = (fraction, exponent) :=
    fractionPart_append hpoint fun c hc => hexponent.head hc
  rw [isSome_decimal?_iff, hsigned, hspan, hfraction]
  exact ⟨hsome, exponentPart_eq_nil_iff.2 hexponent⟩

/-- The reader takes no other text. -/
theorem exists_append_of_isSome_decimal? {chars : List Char}
    (hread : (decimal? chars).isSome = true) :
    ∃ sign mantissa exponent, chars = sign ++ mantissa ++ exponent ∧ Sign sign ∧
      Mantissa mantissa ∧ Exponent exponent := by
  obtain ⟨hsome, hexponent⟩ := isSome_decimal?_iff.1 hread
  obtain ⟨sign, hsign, hchars⟩ := exists_sign chars
  obtain ⟨hwhole, hunsigned⟩ := digits_spanDigits (Decimal.signed chars).2
  obtain ⟨point, hpoint, hbehind⟩ :=
    exists_fraction (Decimal.spanDigits (Decimal.signed chars).2).2
  refine ⟨sign, _, _, ?_, hsign, mantissa_iff.2 ⟨_, point, _, rfl, hwhole, hpoint, hsome⟩,
    exponentPart_eq_nil_iff.1 hexponent⟩
  rw [List.append_assoc, List.append_assoc, hbehind, hunsigned, hchars]

namespace Radix

variable {radix : Radix}

/-- The digits of a base by their codes. -/
theorem isDigit_iff_toNat {c : Char} : radix.IsDigit c ↔
    match radix with
    | hexadecimal => (48 ≤ c.toNat ∧ c.toNat ≤ 57) ∨ (97 ≤ c.toNat ∧ c.toNat ≤ 102) ∨
        (65 ≤ c.toNat ∧ c.toNat ≤ 70)
    | octal => 48 ≤ c.toNat ∧ c.toNat ≤ 55
    | binary => c.toNat = 48 ∨ c.toNat = 49 := by
  cases radix with
  | hexadecimal =>
    rw [IsDigit, Char.isDigit_iff_toNat]
    rfl
  | octal => rfl
  | binary =>
    rw [IsDigit, ← Char.toNat_inj, ← Char.toNat_inj]
    rfl

theorem isSome_digit?_iff {c : Char} : (radix.digit? c).isSome = true ↔ radix.IsDigit c := by
  have hle : ∀ a b : Char, a ≤ b ↔ a.toNat ≤ b.toNat := fun _ _ => Iff.rfl
  have hfilter : ∀ digit : Nat, ((some digit).filter (· < radix.value)).isSome = true ↔
      digit < radix.value := by
    intro digit
    by_cases hless : digit < radix.value <;> simp [Option.filter, hless]
  rw [isDigit_iff_toNat]
  simp only [digit?, Text.hexValue?, hle, Char.reduceToNat]
  split
  · rw [hfilter]
    cases radix <;> simp only [value] <;> omega
  · split
    · rw [hfilter]
      cases radix <;> simp only [value] <;> omega
    · split
      · rw [hfilter]
        cases radix <;> simp only [value] <;> omega
      · simp only [Option.filter_none, Option.isSome_none, Bool.false_eq_true, false_iff]
        cases radix <;> simp only <;> omega

theorem ofMark?_eq_some_iff {mark : Char} : ofMark? mark = some radix ↔ mark ∈ radix.marks := by
  unfold ofMark?
  split
  · next hmark => rcases hmark with rfl | rfl <;> cases radix <;> simp [marks]
  · split
    · next hmark => rcases hmark with rfl | rfl <;> cases radix <;> simp [marks]
    · split
      · next hmark => rcases hmark with rfl | rfl <;> cases radix <;> simp [marks]
      · cases radix <;> simp_all [marks]

/-- The digits of a base are all that it takes, however large the number becomes. -/
theorem isSome_foldlM_iff (start : Double) (digits : List Char) :
    (digits.foldlM (fun number c => (radix.digit? c).map (radix.append number)) start).isSome =
      true ↔ ∀ c ∈ digits, radix.IsDigit c := by
  induction digits generalizing start with
  | nil => simp
  | cons c rest ih =>
    rw [List.foldlM_cons, List.forall_mem_cons, ← isSome_digit?_iff]
    cases radix.digit? c with
    | none => simp
    | some digit => simp [ih]

private theorem isSome_number?_iff {digits : List Char} :
    (radix.number? digits).isSome = true ↔ digits ≠ [] ∧ ∀ c ∈ digits, radix.IsDigit c := by
  rw [number?]
  split
  · next hempty => simp [List.isEmpty_iff.1 hempty]
  · next hsome =>
    rw [isSome_foldlM_iff]
    simp [← List.isEmpty_iff, hsome]

/-- A mark stands in no decimal numeral. -/
theorem decimal?_of_mark {mark : Char} (hmark : mark ∈ radix.marks) (digits : List Char) :
    decimal? ('0' :: mark :: digits) = none := by
  cases radix <;> simp only [marks, List.mem_cons, List.not_mem_nil, or_false] at hmark <;>
    rcases hmark with rfl | rfl <;> rfl

end Radix

theorem numeral_iff {chars : List Char} :
    Numeral chars ↔ chars = [] ∨ (decimal? chars).isSome = true ∨
      ∃ radix mark digits, chars = '0' :: mark :: digits ∧ mark ∈ Radix.marks radix ∧
        (radix.number? digits).isSome = true := by
  constructor
  · rintro (_ | ⟨hsign, hmantissa, hexponent⟩ | ⟨hmark, hsome, hdigits⟩)
    · exact .inl rfl
    · exact .inr (.inl (isSome_decimal?_append hsign hmantissa hexponent))
    · exact .inr (.inr ⟨_, _, _, rfl, hmark, Radix.isSome_number?_iff.2 ⟨hsome, hdigits⟩⟩)
  · rintro (rfl | hread | ⟨radix, mark, digits, rfl, hmark, hread⟩)
    · exact .empty
    · obtain ⟨sign, mantissa, exponent, rfl, hsign, hmantissa, hexponent⟩ :=
        exists_append_of_isSome_decimal? hread
      exact .decimal hsign hmantissa hexponent
    · obtain ⟨hsome, hdigits⟩ := Radix.isSome_number?_iff.1 hread
      exact .radix hmark hsome hdigits

/-- Behind a zero and a mark only the digits of the base count. -/
theorem numeral_of_mark_iff {radix : Radix} {mark : Char} (hmark : mark ∈ radix.marks)
    (digits : List Char) :
    Numeral ('0' :: mark :: digits) ↔ (radix.number? digits).isSome = true := by
  rw [numeral_iff, Radix.decimal?_of_mark hmark]
  constructor
  · rintro (hempty | hdecimal | ⟨other, mark', digits', hchars, hmark', hread⟩)
    · cases hempty
    · cases hdecimal
    · cases hchars
      have hsame : some radix = some other := by
        rw [← Radix.ofMark?_eq_some_iff.2 hmark, Radix.ofMark?_eq_some_iff.2 hmark']
      cases hsame
      exact hread
  · intro hread
    exact .inr (.inr ⟨radix, mark, digits, rfl, hmark, hread⟩)

/-- Where there is no zero with a mark, a numeral that is not empty is decimal. -/
theorem numeral_iff_decimal {chars : List Char} (hsome : chars ≠ [])
    (hmarks : ∀ (radix : Radix) mark digits, chars = '0' :: mark :: digits → mark ∉ radix.marks) :
    Numeral chars ↔ (decimal? chars).isSome = true := by
  rw [numeral_iff]
  constructor
  · rintro (hempty | hread | ⟨radix, mark, digits, hchars, hmark, -⟩)
    · exact absurd hempty hsome
    · exact hread
    · exact absurd hmark (hmarks radix mark digits hchars)
  · intro hread
    exact .inr (.inl hread)

/-- The reader takes what the grammar describes once the blanks are gone. -/
theorem isSome_spelled?_iff {chars : List Char} :
    (spelled? chars).isSome = true ↔ Numeral (Text.trim isNumericBlank chars) := by
  unfold spelled?
  split
  · next hempty => simp [hempty, Numeral.empty]
  · next mark digits hbody =>
    rw [hbody]
    cases hmark : Radix.ofMark? mark with
    | some radix => exact (numeral_of_mark_iff (Radix.ofMark?_eq_some_iff.1 hmark) digits).symm
    | none =>
      refine (numeral_iff_decimal (List.cons_ne_nil _ _) ?_).symm
      intro radix mark' digits' hchars hradix
      cases hchars
      rw [Radix.ofMark?_eq_some_iff.2 hradix] at hmark
      cases hmark
  · next hsome hunmarked =>
    refine (numeral_iff_decimal hsome ?_).symm
    intro radix mark digits hchars
    exact absurd hchars (hunmarked mark digits)

/-- No visible character of ASCII is a blank. -/
theorem isNumericBlank_eq_false {c : Char} (hlow : 0x21 ≤ c.toNat) (hhigh : c.toNat ≤ 0x7E) :
    isNumericBlank c = false := by
  simp only [isNumericBlank, Text.isBlank, Bool.or_eq_false_iff, Bool.and_eq_false_iff,
    decide_eq_false_iff_not]
  omega

/-- Every character is kept when blanks are dropped. -/
def Kept (chars : List Char) : Prop := ∀ c ∈ chars, isNumericBlank c = false

theorem kept_append {front back : List Char} : Kept (front ++ back) ↔ Kept front ∧ Kept back :=
  List.forall_mem_append

private theorem kept_cons {c : Char} {rest : List Char} :
    Kept (c :: rest) ↔ isNumericBlank c = false ∧ Kept rest :=
  List.forall_mem_cons

theorem Digits.kept {digits : List Char} (hdigits : Digits digits) : Kept digits := by
  intro c hc
  obtain ⟨hlow, hhigh⟩ := Char.isDigit_iff_toNat.1 (hdigits c hc)
  exact isNumericBlank_eq_false (Nat.le_trans (by decide) hlow) (Nat.le_trans hhigh (by decide))

theorem Sign.kept {sign : List Char} (hsign : Sign sign) : Kept sign := by
  cases hsign with
  | none => simp [Kept]
  | plus => simp [Kept, isNumericBlank_eq_false]
  | minus => simp [Kept, isNumericBlank_eq_false]

theorem Mantissa.kept {mantissa : List Char} (hmantissa : Mantissa mantissa) : Kept mantissa := by
  cases hmantissa with
  | whole hsome hdigits => exact hdigits.kept
  | pointed hsome hdigits hfraction =>
    exact kept_append.2 ⟨hdigits.kept, kept_cons.2 ⟨by decide, hfraction.kept⟩⟩
  | fraction hsome hfraction => exact kept_cons.2 ⟨by decide, hfraction.kept⟩

theorem Exponent.kept {exponent : List Char} (hexponent : Exponent exponent) : Kept exponent := by
  cases hexponent with
  | none => simp [Kept]
  | some hmark hsign hsome hdigits =>
    refine kept_cons.2 ⟨?_, kept_append.2 ⟨hsign.kept, hdigits.kept⟩⟩
    rcases hmark with rfl | rfl <;> decide

private theorem Radix.kept_of_isDigit {radix : Radix} {c : Char} (hdigit : radix.IsDigit c) :
    isNumericBlank c = false := by
  have hcode : 0x21 ≤ c.toNat ∧ c.toNat ≤ 0x7E := by
    rw [Radix.isDigit_iff_toNat] at hdigit
    cases radix <;> simp only at hdigit <;> omega
  exact isNumericBlank_eq_false hcode.1 hcode.2

private theorem Radix.kept_of_mem_marks {radix : Radix} {mark : Char} (hmark : mark ∈ radix.marks) :
    isNumericBlank mark = false := by
  cases radix <;> simp only [marks, List.mem_cons, List.not_mem_nil, or_false] at hmark <;>
    rcases hmark with rfl | rfl <;> decide

theorem Numeral.kept {body : List Char} (hbody : Numeral body) : Kept body := by
  cases hbody with
  | empty => simp [Kept]
  | decimal hsign hmantissa hexponent =>
    exact kept_append.2 ⟨kept_append.2 ⟨hsign.kept, hmantissa.kept⟩, hexponent.kept⟩
  | radix hmark hsome hdigits =>
    refine kept_cons.2 ⟨by decide, kept_cons.2 ⟨Radix.kept_of_mem_marks hmark, ?_⟩⟩
    exact fun c hc => Radix.kept_of_isDigit (hdigits c hc)

/-- A text is a number when it is a numeral with blanks around it, and in no other case. The empty
numeral is zero, and blanks around a text change nothing. -/
theorem numbers_follow_grammar :
    (∀ chars, (spelled? chars).isSome = true ↔ ∃ before body after,
      chars = before ++ body ++ after ∧ Blanks before ∧ Blanks after ∧ Numeral body) ∧
    spelled? [] = some (.finite Binary64.zero) ∧
    ∀ before body after, Blanks before → Blanks after →
      spelled? (before ++ body ++ after) = spelled? body := by
  have hblanks : ∀ before body after, Blanks before → Blanks after →
      spelled? (before ++ body ++ after) = spelled? body := by
    intro before body after hbefore hafter
    rw [spelled?, spelled?, Text.trim_append hbefore body hafter]
  refine ⟨fun chars => ?_, rfl, hblanks⟩
  constructor
  · intro hread
    obtain ⟨before, after, hchars, hbefore, hafter⟩ := Text.exists_eq_append_trim chars
    exact ⟨before, _, after, hchars, hbefore, hafter, isSome_spelled?_iff.1 hread⟩
  · rintro ⟨before, body, after, rfl, hbefore, hafter, hbody⟩
    rw [hblanks before body after hbefore hafter, isSome_spelled?_iff,
      Text.trim_eq_self hbody.kept]
    exact hbody

/-- Blanks of several kinds around a numeral in base sixteen. -/
theorem padded_hexadecimal_is_number :
    Blanks [' ', '\t'] ∧ Blanks ['\uFEFF'] ∧ Numeral ['0', 'x', '1', 'F'] ∧
    (spelled? ([' ', '\t'] ++ ['0', 'x', '1', 'F'] ++ ['\uFEFF'])).isSome = true ∧
    spelled? ([' ', '\t'] ++ ['0', 'x', '1', 'F'] ++ ['\uFEFF']) =
      spelled? ['0', 'x', '1', 'F'] := by
  have hbefore : Blanks [' ', '\t'] := by
    simp [Blanks, isNumericBlank, Text.isBlank]
  have hafter : Blanks ['\uFEFF'] := by
    simp [Blanks, isNumericBlank, Text.isBlank]
  have hmark : 'x' ∈ Radix.hexadecimal.marks := by
    simp [Radix.marks]
  have hdigits : ∀ c ∈ ['1', 'F'], Radix.hexadecimal.IsDigit c := by
    simp [Radix.IsDigit]
  have hbody : Numeral ['0', 'x', '1', 'F'] := .radix hmark (List.cons_ne_nil _ _) hdigits
  obtain ⟨hgrammar, -, hblanks⟩ := numbers_follow_grammar
  exact ⟨hbefore, hafter, hbody, (hgrammar _).2 ⟨_, _, _, rfl, hbefore, hafter, hbody⟩,
    hblanks _ _ _ hbefore hafter⟩

end Abac.Operand
